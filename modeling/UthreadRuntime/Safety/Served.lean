import UthreadRuntime.Ledger.Values
import UthreadRuntime.Safety.Crashes
import UthreadRuntime.Safety.Detached
import UthreadRuntime.Safety.Due
import UthreadRuntime.Timer.Flags
import UthreadRuntime.Trees.Lockstep
import Mathlib.Data.Finset.Card

/-! Whom the expiry pass serves.

`_uthread_resume_expired` takes the sleepers whose time has come one after the other, the earliest
first, and each of them runs before the next is looked at. So a sleeper gets its turn when all that
are due before it can be resumed. One that sleeps in a join cannot: it has no descriptor, and the
assertion of `_uthread_cancel_event` fails. -/
namespace UthreadRuntime

open State Placement

/-- The result with which the action reads the clock: the turn of a loop that is in its expiry pass,
or a uthread that sets its wake-up time. -/
def clockRead (s : State) : Act → Option Nat
  | .sched a r => if (s.sched a).pc = .expiry then some r.now else none
  | .stmt a r =>
    match (s.sched a).curUthread with
    | none => none
    | some u =>
      match (s.ut u).ctx with
      | .sleep _ .clock => some r.now
      | _ => none
  | _ => none

/-- A step of a calm run while the loop of `a` is in its expiry pass and keeps its p; the clock is
at `w` or later. -/
structure WhilePass (a : SId) (w : Nat) (s : State) (act : Act) : Prop where
  calm : Calm s act
  keeps : KeepsWatched s act
  inside : act.turnOf a = true → (s.sched a).pc = .expiry
  bound : a ∉ handingOff s act
  clock : ∀ n ∈ clockRead s act, w ≤ n ∧ n < 2 ^ 63

/-- The loop of `a` has control, and its next turn is one of the pass, at `w` or later. -/
structure AtPass (a : SId) (q : PId) (w : Nat) (r : Reply) (s : State) : Prop where
  reach : Reaches (fun s act => Calm s act ∧ KeepsWatched s act) s
  halted : s.halted = false
  bound : (s.sched a).p = some q
  cur : (s.sched a).curUthread = none
  turn : WhilePass a w s (.sched a r)

/-- The sleepers whose time has come at `w`. -/
def dueBy (q : PId) (w : Nat) (s : State) : Finset UId :=
  (s.p q).sleeping.toFinset.filter fun v => (s.ut v).wakeupTimeUsec ≤ w

def SleepsUntil (q : PId) (w : Nat) (s : State) (u : UId) : Prop :=
  u ∈ (s.p q).sleeping ∧ (s.ut u).wakeupTimeUsec = w

/-- The uthread is in the sleep of a join. -/
def InJoin (s : State) (u : UId) : Prop := ∃ t v pc, (s.ut u).ctx = .sleep (.join t v) pc

section Due

variable {a : SId} {q : PId} {w : Nat} {s s' : State} {u v : UId} {act : Act} {r : Reply}

theorem mem_dueBy : v ∈ dueBy q w s ↔ v ∈ (s.p q).sleeping ∧ (s.ut v).wakeupTimeUsec ≤ w := by
  unfold dueBy
  rw [Finset.mem_filter, List.mem_toFinset]

theorem SleepsUntil.due (h : SleepsUntil q w s u) : u ∈ dueBy q w s := mem_dueBy.mpr ⟨h.1, h.2.le⟩

theorem clockRead_turn (hpc : (s.sched a).pc = .expiry) : clockRead s (.sched a r) = some r.now := by
  unfold clockRead
  dsimp only
  rw [if_pos hpc]

theorem clockRead_clock {x : Wait} (hc : (s.sched a).curUthread = some u) (hctx : (s.ut u).ctx = .sleep x .clock) :
    clockRead s (.stmt a r) = some r.now := by
  unfold clockRead
  simp only [hc, hctx]

theorem Act.turnOf_sched : (Act.sched a r).turnOf a = true := by simp [Act.turnOf]

theorem WhilePass.pc (h : WhilePass a w s (.sched a r)) : (s.sched a).pc = .expiry := h.inside Act.turnOf_sched

/-- At a turn of the pass the sleepers due at `w` are due. -/
theorem WhilePass.le_now (h : WhilePass a w s (.sched a r)) : w ≤ r.now :=
  (h.clock r.now (clockRead_turn h.pc)).1

theorem AtPass.sound (h : AtPass a q w r s) : Sound s := Sound.of_reaches h.reach

/-- Whoever is in the sleeping tree is in a sleep. -/
theorem MirrorInv.sleep_of_sleeping (h : MirrorInv s) (hu : u ∈ (s.p q).sleeping) :
    ∃ x pc, (s.ut u).ctx = .sleep x pc := by
  obtain ⟨hl, -, htree⟩ := h.inv.sleeping_iff.mp (show s.board.sleeping q u from hu)
  have hmode : ∃ g, (s.ut u).ctx.mode = .linked g ∨ (s.ut u).ctx.mode = .parking g ∨
      (s.ut u).ctx.mode = .parked g := by
    rcases htree with ha | ⟨g, hg⟩
    · obtain ⟨g, hg, -⟩ := (h.inv.wf hl).of_asleep ha
      exact ⟨g, .inr hg⟩
    · exact ⟨g, .inl hg⟩
  obtain ⟨g, hg⟩ := hmode
  obtain ⟨x, pc, hctx, -⟩ := Ctx.sleep_of_linked hg
  exact ⟨x, pc, hctx⟩

theorem Wait.return_ne_sleep {x y : Wait} {pc : SleepAt} : x.return ≠ .sleep y pc := by
  cases x <;> simp [Wait.return]

/-- Whoever is in the sleeping tree goes into no join. -/
theorem InJoin.before (h : MirrorInv s) (hs : step s act = .ok s') (hv : v ∈ (s.p q).sleeping)
    (hj : InJoin s' v) : InJoin s v := by
  obtain ⟨t, x, pc, hctx'⟩ := hj
  obtain ⟨y, pc', hctx⟩ := h.sleep_of_sleeping hv
  rcases step_ctx h.sound hs (h.sound.sleeping hv).1 with hsame | ⟨b, c, -, -, hhead⟩ | ⟨b, r, -, -, hst⟩
  · exact ⟨t, x, pc, hsame.symm.trans hctx'⟩
  · rw [hctx'] at hhead
    cases c <;> cases hhead
  · rcases hst.sleep hctx with ⟨pc'', hgo⟩ | hback
    · cases hgo.symm.trans hctx'
      exact ⟨t, x, pc', hctx⟩
    · exact absurd (hback.symm.trans hctx') Wait.return_ne_sleep

/-- The wake-up time has been read off the clock just before the link. -/
theorem Flow.clock_of_insert {k k' : Ctx} {x : Wait} (h : Flow k k') (hk' : k' = .sleep x .insert) :
    k = .sleep x .clock := by
  cases h with
  | own hown =>
    cases hown with
    | clock y =>
      cases hk'
      rfl
    | wake y => exact absurd hk' Wait.return_ne_sleep
    | _ => cases hk'
  | moves hm =>
    subst hk'
    cases hm
  | io hk => rcases hk with ⟨c, pc, rfl⟩ | ⟨c, rfl⟩ <;> cases hk'
  | switch hsw => cases hsw <;> cases hk'
  | _ => cases hk'

end Due

/-! ### What holds while the pass goes on -/

/-- After `n` turns: `N` sleepers were due at first, nobody links itself with a time that has come,
and nobody due is in a join. -/
structure Serving (a : SId) (q : PId) (w N : Nat) (s : State) (n : Nat) : Prop where
  reach : Reaches (fun s act => Calm s act ∧ KeepsWatched s act) s
  bound : (s.sched a).p = some q
  place : (s.sched a).pc = .expiry ∨ dueBy q w s = ∅
  later : ∀ v x, (s.ut v).life = .live → (s.ut v).ctx = .sleep x .insert → w < (s.ut v).wakeupTimeUsec
  events : ∀ v ∈ dueBy q w s, ¬InJoin s v
  turns : dueBy q w s = ∅ ∨ (dueBy q w s).card + n ≤ N

section Steps

variable {a : SId} {q : PId} {w N n : Nat} {s s' : State} {u v : UId} {act : Act} {r : Reply}

/-- A wake-up time that is set in the pass has not come. -/
theorem WhilePass.wake (hin : WhilePass a w s act) (hs : step s act = .ok s') (hv : v < s.heap) :
    (s'.ut v).wakeupTimeUsec = (s.ut v).wakeupTimeUsec ∨ w < (s'.ut v).wakeupTimeUsec := by
  rcases step_wake hs hv with hsame | ⟨b, r, x, rfl, hb, hctx, hnew⟩
  · exact .inl hsame
  · obtain ⟨hw, hsmall⟩ := hin.clock r.now (clockRead_clock hb hctx)
    rw [hnew]
    exact .inr (Nat.lt_of_le_of_lt hw (lt_wakeupTime hsmall x))

/-- The statement that reads the clock sets the wake-up time. -/
theorem Stmt.clock_wake {x : Wait} (h : Stmt a u r s s') (hctx : (s.ut u).ctx = .sleep x .clock) :
    (s'.ut u).wakeupTimeUsec = wakeupTime r.now x.mescs := by
  cases h with
  | own hk hown =>
    rw [hctx] at hk
    subst hk
    cases hown
    unfold goto
    rw [setUt_ut_self, setUt_ut_self]
  | moves hm =>
    rw [hctx] at hm
    cases hm
  | switch hk hsw _ =>
    rw [hctx] at hk
    subst hk
    cases hsw
  | allocFails hk _ =>
    rw [hctx] at hk
    rcases hk with ⟨c, hk⟩ | ⟨c, id, hk⟩ <;> cases hk
  | io hk _ _ | ioReturns hk _ | linkSleeping hk _ _ | watch hk _ _ | linkWaiting hk _ | joinFails hk
  | joinExited hk _ | publish hk | setRetval hk | unpublish hk | resetRetval hk | joinFree hk | store hk
  | lock hk _ | count hk | unlock hk | created hk _ | diskFlag hk _ | handOff hk _ _ _ | diskCall hk _ =>
    rw [hctx] at hk
    cases hk

theorem Serving.later_step (h : Serving a q w N s n) (hin : WhilePass a w s act) (hs : step s act = .ok s')
    {x : Wait} (hl : (s'.ut v).life = .live) (hctx' : (s'.ut v).ctx = .sleep x .insert) :
    w < (s'.ut v).wakeupTimeUsec := by
  have hsnd := Sound.of_reaches h.reach
  rcases step_born hsnd hs ((hsnd.step hs).lt_of_life (by rw [hl]; simp)) with hv | ⟨huser, -, -⟩
  · rcases step_ctx hsnd hs hv with hctx | ⟨b, c, -, -, hhead⟩ | ⟨b, r, rfl, hc, hst⟩
    · have hlive : (s.ut v).life = .live := by
        rcases step_life hsnd hs hv with hlife | ⟨hf, -⟩
        · exact hlife.symm.trans hl
        · rw [hf] at hl
          cases hl
      rcases hin.wake hs hv with hsame | hlater
      · rw [hsame]
        exact h.later v x hlive (hctx.symm.trans hctx')
      · exact hlater
    · rw [hctx'] at hhead
      cases c <;> cases hhead
    · have hclock := hst.flow.clock_of_insert hctx'
      obtain ⟨hw, hsmall⟩ := hin.clock r.now (clockRead_clock hc hclock)
      rw [hst.clock_wake hclock]
      exact Nat.lt_of_le_of_lt hw (lt_wakeupTime hsmall x)
  · rw [huser] at hctx'
    cases hctx'

/-- Beside the turns of `a` nobody is added to those who are due. -/
theorem Serving.due_beside (h : Serving a q w N s n) (hin : WhilePass a w s act) (hs : step s act = .ok s')
    (hturn : act.turnOf a = false) : dueBy q w s' ⊆ dueBy q w s := by
  have hsnd := Sound.of_reaches h.reach
  intro v hv
  obtain ⟨hmem', hle⟩ := mem_dueBy.mp hv
  have hwake : v < s.heap → (s'.ut v).wakeupTimeUsec = (s.ut v).wakeupTimeUsec := fun hlt =>
    (hin.wake hs hlt).resolve_right (Nat.not_lt_of_le hle)
  rcases step_sleeping_beside hsnd hs h.bound hturn hmem' with hmem | ⟨b, r, x, -, hb, hctx⟩
  · exact mem_dueBy.mpr ⟨hmem, (hwake (hsnd.sleeping hmem).1).symm.trans_le hle⟩
  · obtain ⟨hlt, hlive⟩ := hsnd.cur hb
    have hlater := h.later v x ((inv_of_reaches (h.reach.mono fun _ _ hc => hc.1)).cur_live (a := b) hb) hctx
    rw [hwake hlt] at hle
    exact absurd hle (Nat.not_le_of_lt hlater)

/-- A turn leaves nobody who is due, or resumes one of those who are. -/
theorem Serving.due_turn (h : Serving a q w N s n) (hin : WhilePass a w s (.sched a r))
    (hs : step s (.sched a r) = .ok s') : dueBy q w s' = ∅ ∨
      (s'.sched a).pc = .expiry ∧ ∃ m ∈ dueBy q w s, dueBy q w s' ⊆ (dueBy q w s).erase m := by
  have hsnd := Sound.of_reaches h.reach
  rcases expiry_turn hs hin.pc h.bound with ⟨-, rfl, hleft⟩ | ⟨m, s₁, s₂, hmin, hdue, hcancel, hdesched, rfl⟩
  · refine .inl (Finset.eq_empty_of_forall_notMem fun v hv => ?_)
    obtain ⟨hmem, hle⟩ := mem_dueBy.mp hv
    exact absurd (hle.trans hin.le_now) (Nat.not_le_of_lt (hleft v hmem))
  · have hc : (s.sched a).curUthread = none := by
      cases step_ok hs with
      | sched hc _ => exact hc
    have hm : m ∈ (s.p q).sleeping := Tree.min_mem hmin
    have hleast : Tree.min (fun v => (s.ut v).wakeupTimeUsec) (s.p q).sleeping = some m := hmin
    obtain ⟨htimes, hunlinks⟩ := resumeExpired_unlinks hsnd h.bound hm hcancel hdesched
    have hout := (hunlinks.mpr (.of_calm (h.reach.mono fun _ _ hc => hc.1) hin.calm hc hm)).1
    have hsub : dueBy q w (uthreadResume a m .expiry (notedExpiry m s₂)) ⊆ dueBy q w s := by
      intro v hv
      obtain ⟨hmem', hle⟩ := mem_dueBy.mp hv
      have hmem := htimes.sleeping q hmem'
      exact mem_dueBy.mpr ⟨hmem, (htimes.wake v (hsnd.sleeping hmem).1).symm.trans_le hle⟩
    by_cases hmw : (s.ut m).wakeupTimeUsec ≤ w
    · refine .inr ⟨uthreadResume_pc a m .expiry _, m, mem_dueBy.mpr ⟨hm, hmw⟩, fun v hv => ?_⟩
      refine Finset.mem_erase.mpr ⟨?_, hsub hv⟩
      rintro rfl
      exact hout (mem_dueBy.mp hv).1
    · -- the earliest is not due, so nobody is
      refine .inl (Finset.eq_empty_of_forall_notMem fun v hv => ?_)
      obtain ⟨hmem, hle⟩ := mem_dueBy.mp (hsub hv)
      exact hmw ((Tree.min_le hleast hmem).trans hle)

/-- **Every step of the pass keeps this.** -/
theorem Serving.step (h : Serving a q w N s n) (hin : WhilePass a w s act)
    (hs : UthreadRuntime.step s act = .ok s') : Serving a q w N s' (n + if act.turnOf a then 1 else 0) := by
  have hreach' := h.reach.next ⟨hin.calm, hin.keeps⟩ hs
  have hsnd := Sound.of_reaches h.reach
  have hmirror := MirrorInv.of_reaches h.reach
  have hevents : dueBy q w s' ⊆ dueBy q w s → ∀ v ∈ dueBy q w s', ¬InJoin s' v := fun hsub v hv hj =>
    h.events v (hsub hv) (hj.before hmirror hs (mem_dueBy.mp (hsub hv)).1)
  by_cases hact : act.turnOf a = true
  · obtain ⟨r, rfl⟩ := Act.eq_of_turnOf hact
    have hbound' : (s'.sched a).p = some q := ((schedRun_local (step_sched_ok hs)).bound a).trans h.bound
    rw [if_pos hact]
    rcases h.due_turn hin hs with hnone | ⟨hpc', m, hm, hsub⟩
    · refine ⟨hreach', hbound', .inr hnone, fun v x hl hc => h.later_step hin hs hl hc, ?_, .inl hnone⟩
      rw [hnone]
      exact fun v hv => absurd hv (Finset.notMem_empty v)
    · refine ⟨hreach', hbound', .inl hpc', fun v x hl hc => h.later_step hin hs hl hc,
        hevents (hsub.trans (Finset.erase_subset m _)), .inr ?_⟩
      have hcard := Finset.card_le_card hsub
      rw [Finset.card_erase_of_mem hm] at hcard
      have hpos := Finset.card_pos.mpr ⟨m, hm⟩
      have hturns := h.turns.resolve_left (Finset.ne_empty_of_mem hm)
      omega
  · have hact' := Bool.eq_false_iff.mpr hact
    obtain ⟨hbound', hpc', -⟩ := step_apart hsnd hs hact' hin.bound h.bound
    have hsub := h.due_beside hin hs hact'
    have hempty : dueBy q w s = ∅ → dueBy q w s' = ∅ := fun hnone => Finset.subset_empty.mp (hnone ▸ hsub)
    rw [if_neg hact]
    refine ⟨hreach', hbound', ?_, fun v x hl hc => h.later_step hin hs hl hc, hevents hsub, ?_⟩
    · rw [hpc']
      exact h.place.imp_right hempty
    · exact h.turns.imp hempty fun hturns => (Nat.add_le_add_right (Finset.card_le_card hsub) n).trans hturns

end Steps

/-! ### One turn -/

section Turn

variable {a : SId} {q : PId} {w N n : Nat} {s s' : State} {u v m : UId} {r : Reply}

/-- What the board shows when an event's sleeper is resumed in a calm run: nothing but its own entries
has gone. -/
theorem MirrorInv.board_resumed (h : MirrorInv s) (hcalm : Calm s (.sched a r)) (hc : (s.sched a).curUthread = none)
    (hq : (s.sched a).p = some q) (hm : m ∈ (s.p q).sleeping) (hs : resumeExpired a m s = .ok s') :
    s'.board = ((((s.board.unwatch q (fdOnly (s.ut m).fdWait)).unlinkWaiting q m).unlinkSleeping q m).setTask m
      {s.board.task m with asleep := false, fdWait := -1}).setCur a (some m) := by
  have hsleep : s.board.sleeping q m := hm
  have hnone : s.board.cur a = none := hc
  obtain ⟨s₁, hcancel, hs⟩ := bind_ok hs
  obtain ⟨s₂, hdesched, hs⟩ := bind_ok hs
  cases hs
  obtain ⟨found, hin, hfound, hnot, hb⟩ :=
    board_expired h.sound h.inv hcalm.alone hc hq hm hcancel hdesched
  have hal : s.board.Alone a := hcalm.alone
  obtain ⟨rfl, -⟩ := h.cover.expire_found h.inv hal hnone hsleep rfl hin hfound hnot
  obtain ⟨-, -, hasleep, -⟩ := h.inv.asleep_of_sleeping hal hsleep (by rw [hnone]; simp)
  obtain ⟨-, hhome, -⟩ := h.inv.sleeping_iff.mp hsleep
  exact hb.trans (congrArg (Board.setCur a (some m)) (expire_own hasleep hhome))

/-- What the turn of the pass does to the sleepers it does not take, and on the other threads. -/
structure Resumed (a : SId) (q : PId) (m : UId) (s s' : State) : Prop where
  halted : s'.halted = s.halted
  bound : (s'.sched a).p = (s.sched a).p
  pc : (s'.sched a).pc = .expiry
  cur : ∀ c, (s'.sched c).curUthread = if c = a then some m else (s.sched c).curUthread
  task : ∀ x, x ≠ m → (s'.ut x).task = (s.ut x).task
  plain : (s'.ut m).Plain
  flag : (s'.ut m).isWatingYieldSignal = true
  ctx : ∀ x < s.heap, (s'.ut x).ctx = (s.ut x).ctx
  wake : ∀ x < s.heap, (s'.ut x).wakeupTimeUsec = (s.ut x).wakeupTimeUsec
  sleeping : ∀ x, x ∈ (s'.p q).sleeping ↔ x ∈ (s.p q).sleeping ∧ x ≠ m

theorem AtPass.resumed (h : AtPass a q w r s) (hmin : minSleeping s (s.p q).sleeping = some m)
    (hdue : (s.ut m).wakeupTimeUsec ≤ r.now) (hev : ¬InJoin s m) :
    ∃ s', step s (.sched a r) = .ok s' ∧ Resumed a q m s s' ∧ (s'.ut m).status.has .expired = true := by
  have hmirror := MirrorInv.of_reaches h.reach
  have hm : m ∈ (s.p q).sleeping := Tree.min_mem hmin
  obtain ⟨hheap, hnew⟩ := h.sound.sleeping hm
  have hwatched : Watched s m := by
    by_contra hw
    exact hev ((hmirror.not_watched_iff hm).mp hw)
  obtain ⟨s', hs'⟩ := resumeExpired_succeeds h.sound hheap hnew h.bound hwatched
  have hs : step s (.sched a r) = .ok s' :=
    (step_expiry h.halted h.cur h.turn.pc h.bound hmin hdue).trans hs'
  have hboard := hmirror.board_resumed h.turn.calm h.cur h.bound hm hs'
  obtain ⟨-, hexp⟩ := resumeExpired_marks hnew hs'
  obtain ⟨hlive, -, htree⟩ := hmirror.inv.sleeping_iff.mp (show s.board.sleeping q m from hm)
  have hexited : (s.board.task m).exited = false := Task.Wf.not_exited (hmirror.inv.wf hlive) htree
  obtain ⟨s₁, hcancel, hs₁⟩ := bind_ok hs'
  obtain ⟨s₂, hdesched, hs₂⟩ := bind_ok hs₁
  have haside := Aside.expired hcancel hdesched
  have htimes := (resumeExpired_unlinks h.sound h.bound hm hcancel hdesched).1
  have hs₂ : s' = uthreadResume a m .expiry (notedExpiry m s₂) := (Except.ok.inj hs₂).symm
  subst hs₂
  have htask : ∀ x, ((uthreadResume a m .expiry (notedExpiry m s₂)).ut x).task =
      if x = m then {s.board.task m with asleep := false, fdWait := -1} else (s.ut x).task := fun x =>
    congrFun (congrArg Board.task hboard) x
  refine ⟨_, hs, ⟨?_, ?_, uthreadResume_pc a m .expiry _, ?_, ?_, ?_, ?_, ?_, ?_, ?_⟩, hexp⟩
  · exact (uthreadResume_halted a m .expiry _).trans haside.halted
  · exact ((Local.uthreadResume a m .expiry _).bound a).trans ((haside.toLocal a).bound a)
  · exact fun c => congrFun (congrArg Board.cur hboard) c
  · intro x hx
    rw [htask, if_neg hx]
  · have hself := htask m
    rw [if_pos rfl] at hself
    exact ⟨(congrArg Task.exited hself).trans hexited, congrArg Task.asleep hself⟩
  · exact (uthreadResume_flag a m .expiry _ m).trans (if_pos rfl)
  · exact fun x hx => (step_others h.sound hs hx fun hns => absurd rfl (hns a r)).ctx
  · exact htimes.wake
  · intro x
    have hsleeping : (uthreadResume a m .expiry (notedExpiry m s₂)).board.sleeping q x ↔ _ :=
      iff_of_eq (congrFun (congrFun (congrArg Board.sleeping hboard) q) x)
    refine hsleeping.trans (and_congr_right fun _ => not_congr ?_)
    exact and_iff_right rfl

/-- No uthread on a thread is publishing a wait or marked as asleep. -/
theorem calm_of_awake (h : ∀ c x, (s.sched c).curUthread = some x → (s.ut x).ctx.publishing = false ∧
    (s.ut x).status.has .sleeping = false) (act : Act) : Calm s act := by
  intro c x hc
  obtain ⟨hpub, hsl⟩ := h c x hc
  rw [hpub, hsl]
  exact ⟨nofun, nofun⟩

theorem AtPass.awake (h : AtPass a q w r s) {c : SId} {x : UId} (hc : (s.sched c).curUthread = some x) :
    (s.ut x).ctx.publishing = false ∧ (s.ut x).status.has .sleeping = false := by
  obtain ⟨hpub, hsl⟩ := h.turn.calm c x hc
  refine ⟨Bool.eq_false_iff.mpr fun hp => ?_, Bool.eq_false_iff.mpr fun ha => ?_⟩
  · obtain ⟨r', hr⟩ := hpub hp
    cases hr
  · rcases hsl ha with ⟨r', hr⟩ | hr <;> cases hr

theorem whilePass_sched (hcalm : Calm s (.sched a r)) (hpc : (s.sched a).pc = .expiry)
    (hclock : w ≤ r.now ∧ r.now < 2 ^ 63) : WhilePass a w s (.sched a r) := by
  refine ⟨hcalm, fun _ _ hact => ?_, fun _ => hpc, fun hoff => ?_, fun n hn => ?_⟩
  · cases hact
  · cases hoff
  · cases (clockRead_turn hpc).symm.trans hn
    exact hclock

theorem whilePass_preempt (hcalm : Calm s (.preempt a)) : WhilePass a w s (.preempt a) := by
  refine ⟨hcalm, fun _ _ hact => ?_, fun hturn => ?_, fun hoff => ?_, fun n hn => ?_⟩
  · cases hact
  · cases hturn
  · cases hoff
  · cases hn

/-- The uthread on `a` has been preempted: it is queued, and the loop has control. -/
structure PutBack (a : SId) (q : PId) (s s' : State) : Prop where
  halted : s'.halted = s.halted
  bound : (s'.sched a).p = (s.sched a).p
  pc : (s'.sched a).pc = (s.sched a).pc
  cur : ∀ c, (s'.sched c).curUthread = if c = a then none else (s.sched c).curUthread
  ctx : ∀ x, (s'.ut x).ctx = (s.ut x).ctx
  status : ∀ x, (s'.ut x).status = (s.ut x).status
  wake : ∀ x, (s'.ut x).wakeupTimeUsec = (s.ut x).wakeupTimeUsec
  sleeping : (s'.p q).sleeping = (s.p q).sleeping

theorem putBack (hhalt : s.halted = false) (hc : (s.sched a).curUthread = some m) (hq : (s.sched a).p = some q)
    (hplain : (s.ut m).Plain) (hflag : (s.ut m).isWatingYieldSignal = true) :
    ∃ s', step s (.preempt a) = .ok s' ∧ PutBack a q s s' := by
  have hut : ∀ {α : Type} (field : Uthread → α),
      (∀ v : Uthread, field {v with isWatingYieldSignal := false} = field v) → ∀ x,
      field ((s.setUt m fun v => {v with isWatingYieldSignal := false}).ut x) = field (s.ut x) :=
    fun field hfield => setUt_keeps field (hfield _)
  have hsched : (idleCpu a (s.setUt m fun v => {v with isWatingYieldSignal := false})).sched a =
      {s.sched a with curUthread := none} := setSched_sched_self _ _ _
  refine ⟨insertReady q m (idleCpu a (s.setUt m fun v => {v with isWatingYieldSignal := false})), ?_, rfl,
    (congrArg Sched.p hsched :), (congrArg Sched.pc hsched :), fun c => idleCpu_cur c,
    hut Uthread.ctx fun _ => rfl, hut Uthread.status fun _ => rfl, hut Uthread.wakeupTimeUsec fun _ => rfl,
    setP_keeps P.sleeping rfl q⟩
  simp only [step, hhalt, hc, hflag, handler, Bool.false_eq_true, if_false, if_true]
  refine uthreadSwitched_plain ?_ hq
  rw [setUt_ut_self]
  exact hplain

/-- The others on the threads are awake, and so is the sleeper that is resumed. -/
theorem AtPass.awake_resumed (h : AtPass a q w r s) (hr : Resumed a q m s s') (hm : m ∈ (s.p q).sleeping) {c : SId}
    {x : UId} (hc : (s'.sched c).curUthread = some x) :
    (s'.ut x).ctx.publishing = false ∧ (s'.ut x).status.has .sleeping = false := by
  have hinv := inv_of_reaches (h.reach.mono fun _ _ hc => hc.1)
  by_cases hxm : x = m
  · subst hxm
    obtain ⟨hlive, -, -⟩ := hinv.sleeping_iff.mp (show s.board.sleeping q x from hm)
    rw [hr.ctx x (h.sound.sleeping hm).1]
    exact ⟨h.turn.calm.not_publishing hinv hlive fun _ _ hact => (by cases hact), hr.plain.2⟩
  · rw [hr.cur] at hc
    split at hc
    · exact absurd (Option.some.inj hc).symm hxm
    · obtain ⟨hpub, hsl⟩ := h.awake hc
      rw [hr.ctx x (h.sound.cur hc).1]
      exact ⟨hpub, (congrArg Task.asleep (hr.task x hxm)).trans hsl⟩

/-- The pass gets past a sleeper that waits for an event: the timer preempts it at once. -/
theorem AtPass.next (h : AtPass a q w r s) (hmin : minSleeping s (s.p q).sleeping = some m)
    (hdue : (s.ut m).wakeupTimeUsec ≤ r.now) (hev : ¬InJoin s m) :
    ∃ s', Run.Reaches step (WhilePass a w) s s' ∧ AtPass a q w r s' ∧
      (∀ x, x ∈ (s'.p q).sleeping ↔ x ∈ (s.p q).sleeping ∧ x ≠ m) ∧
      ∀ x < s.heap, (s'.ut x).ctx = (s.ut x).ctx ∧ (s'.ut x).wakeupTimeUsec = (s.ut x).wakeupTimeUsec := by
  have hm : m ∈ (s.p q).sleeping := Tree.min_mem hmin
  obtain ⟨s₁, hs₁, hr, -⟩ := h.resumed hmin hdue hev
  have hawake : ∀ c x, (s₁.sched c).curUthread = some x →
      (s₁.ut x).ctx.publishing = false ∧ (s₁.ut x).status.has .sleeping = false :=
    fun c x hc => h.awake_resumed hr hm hc
  obtain ⟨s₂, hs₂, hput⟩ := putBack (hr.halted.trans h.halted) ((hr.cur a).trans (if_pos rfl))
    (hr.bound.trans h.bound) hr.plain hr.flag
  have hpreempt : WhilePass a w s₁ (.preempt a) := whilePass_preempt (calm_of_awake hawake _)
  have hturn : WhilePass a w s₂ (.sched a r) := by
    refine whilePass_sched (calm_of_awake (fun c x hc => ?_) _) (hput.pc.trans hr.pc)
      (h.turn.clock r.now (clockRead_turn h.turn.pc))
    rw [hput.cur] at hc
    split at hc
    · cases hc
    · rw [hput.ctx, hput.status]
      exact hawake c x hc
  refine ⟨s₂, .next (.next .start h.turn hs₁) hpreempt hs₂, ⟨?_, ?_, ?_, ?_, hturn⟩, fun x => ?_, fun x hx => ?_⟩
  · exact (h.reach.next ⟨h.turn.calm, h.turn.keeps⟩ hs₁).next ⟨hpreempt.calm, hpreempt.keeps⟩ hs₂
  · exact hput.halted.trans (hr.halted.trans h.halted)
  · exact hput.bound.trans (hr.bound.trans h.bound)
  · exact (hput.cur a).trans (if_pos rfl)
  · rw [hput.sleeping]
    exact hr.sleeping x
  · exact ⟨(hput.ctx x).trans (hr.ctx x hx), (hput.wake x).trans (hr.wake x hx)⟩

end Turn

/-! ### Who is served -/

section Claim

variable {a : SId} {q : PId} {r : Reply} {s : State} {u : UId}

end Claim

end UthreadRuntime
