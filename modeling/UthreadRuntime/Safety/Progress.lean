import UthreadRuntime.Safety.Crashes
import UthreadRuntime.Safety.Events
import UthreadRuntime.Safety.Locking
import UthreadRuntime.Safety.Passes

/-! Which threads can go on.

A thread that has started runs user code, a statement of library code or the scheduler loop: of
itself it waits for nothing but the lock. The timer can still take a uthread away
from that wait, if it may be preempted and has not exited. Where the lock is not held by a
suspended uthread, its holder is two statements from giving it back, and no thread waits longer. -/
namespace UthreadRuntime

open State

/-- The thread has an action, if only one that ends the process. -/
def Acts (s : State) (a : SId) : Prop := ∃ act, act.thread = a ∧ step s act ≠ .error .disabled

/-- The next statement of the uthread waits while the lock is held. -/
def NeedsLock (s : State) (u : UId) : Prop :=
  (∃ c, (s.ut u).ctx = .create c .lock) ∨
    (∃ k, Switches (s.ut u).ctx k) ∧ (s.ut u).status.has .exited = true

/-- The loop takes its last branch, which locks first. -/
def Ending (s : State) (a : SId) : Prop :=
  (s.sched a).curUthread = none ∧ (s.sched a).pc = .done ∧ s.nUthread = 0

/-- The thread waits for the lock: its uthread does, and the timer does not help it out, or its
loop is about to end the process. -/
def WaitsForLock (s : State) (a : SId) : Prop :=
  s.mutex.isSome = true ∧ ((∃ u, (s.sched a).curUthread = some u ∧ NeedsLock s u ∧
    ((s.ut u).isWatingYieldSignal = false ∨ (s.ut u).status.has .exited = true)) ∨ Ending s a)

/-! ### Unread events -/

/-- There are no more unread entries than entries. -/
def EventsFit (s : State) : Prop := ∀ q, (s.p q).numNewEvents ≤ (s.p q).eventlist.length

section EventsFit

variable {s s' : State} {a : SId}

/-- The lists are the same, and no more of them is unread. -/
theorem EventsFit.fewer (h : EventsFit s) (hev : ∀ q, (s'.p q).eventlist = (s.p q).eventlist ∧
    (s'.p q).numNewEvents ≤ (s.p q).numNewEvents) : EventsFit s' := by
  intro q
  rw [(hev q).1]
  exact Nat.le_trans (hev q).2 (h q)

theorem EventsFit.same (h : EventsFit s) (hev : ∀ q, (s'.p q).eventlist = (s.p q).eventlist ∧
    (s'.p q).numNewEvents = (s.p q).numNewEvents ∧ (s'.p q).posted = (s.p q).posted ∧
    (s'.p q).taken = (s.p q).taken) : EventsFit s' :=
  h.fewer fun q => ⟨(hev q).1, Nat.le_of_eq (hev q).2.1⟩

theorem EventsFit.setP {q : PId} {g : P → P} (h : EventsFit s)
    (hg : (g (s.p q)).numNewEvents ≤ (g (s.p q)).eventlist.length) : EventsFit (s.setP q g) := by
  intro r
  rw [setP_p]
  split
  · exact hg
  · exact h r

theorem EventsFit.schedStep {r : Reply} (h : EventsFit s) (hs : SchedStep a r s s') : EventsFit s' := by
  cases hs with
  | goes _ => exact h
  | another _ _ => exact h.setP (g := fun v => {v with tid := a}) (h _)
  | @expired q u s₁ s₂ _ _ _ _ hcancel hsl =>
    refine h.same fun r => ?_
    rw [(uthreadResume_p a u .expiry (notedExpiry u s₂)).1]
    exact (Aside.expired hcancel hsl).events r
  | @ready q u rest last _ _ _ =>
    refine h.same fun r => ?_
    rw [(uthreadResume_p a u _ _).1]
    exact (Aside.setP (g := fun v => {v with ready := rest}) fun _ => ⟨rfl, rfl, rfl, rfl⟩).events r
  | @noPoll q _ _ =>
    show EventsFit (s.setP q fun v => {v with numNewEvents := 0})
    exact h.setP (Nat.zero_le _)
  | @polled q _ _ _ =>
    show EventsFit (polled q r.events (s.setP q fun v => {v with numNewEvents := 0}))
    intro r'
    unfold polled
    rw [setP_p]
    split
    · exact Nat.le_refl _
    · exact (h.setP (Nat.zero_le _) : EventsFit (s.setP q fun v => {v with numNewEvents := 0})) r'
  | @took q e s' _ _ _ _ hh =>
    refine h.fewer fun r => ?_
    rw [((handleEvent_events hh).2 r).1, ((handleEvent_events hh).2 r).2.1, tookEvent_p]
    split
    · rename_i hr
      rw [hr]
      exact ⟨rfl, Nat.sub_le _ 1⟩
    · exact ⟨rfl, Nat.le_refl _⟩
  | handled _ hh => exact h.same (handleEvent_events hh).2
  | halted _ => exact h

theorem EventsFit.step {act : Act} (h : EventsFit s) (hs : step s act = .ok s') : EventsFit s' := by
  rcases step_frame hs with ⟨a, r, -, -, hrun⟩ | ⟨-, hstill⟩ | ⟨a, r, u, -, -, c, q, n, rest, -, -, -, -, rfl⟩
  · exact h.schedStep (schedRun_ok hrun)
  · exact h.same hstill.events
  · refine h.same fun r => ?_
    show ((handedOff c n q rest s).p r).eventlist = _ ∧ ((handedOff c n q rest s).p r).numNewEvents = _ ∧
      ((handedOff c n q rest s).p r).posted = _ ∧ ((handedOff c n q rest s).p r).taken = _
    rw [handedOff_p]
    split
    · rename_i hr
      rw [hr]
      exact ⟨rfl, rfl, rfl, rfl⟩
    · exact ⟨rfl, rfl, rfl, rfl⟩

theorem EventsFit.initial : EventsFit init := by
  intro q
  by_cases hq : q = 0
  · rw [hq]
    exact Nat.le_refl _
  · rw [init_p hq]
    exact Nat.le_refl _

theorem EventsFit.of_reaches {C : State → Act → Prop} (h : Reaches C s) : EventsFit s :=
  Run.Reaches.invariant h EventsFit.initial fun _ _ _ hf _ hs => hf.step hs

end EventsFit

/-! ### Statements that wait -/

section Statements

variable {s : State} {a : SId} {u : UId}

theorem bind_disabled {x : Except Stop PId} {g : PId → Except Stop State} (hx : x ≠ .error .disabled)
    (hg : ∀ q, g q ≠ .error .disabled) : x >>= g ≠ .error .disabled := by
  intro h
  rcases bind_error.mp h with h | ⟨q, -, h⟩
  · exact hx h
  · exact hg q h

theorem bound_disabled {site : Site} : s.bound a site ≠ .error .disabled := by
  intro h
  exact nomatch (bound_error.mp h).2

theorem home_disabled {site : Site} : s.home u site ≠ .error .disabled := by
  unfold State.home
  split <;> simp

/-- A switch waits exactly for the lock, to free the uthread. -/
theorem uthreadSwitched_disabled (hj : ∀ j, (s.ut u).utJoined = some j → (s.ut j).p = some 0) :
    uthreadSwitched a u s = .error .disabled ↔ (s.ut u).status.has .exited = true ∧ s.mutex.isSome = true := by
  unfold uthreadSwitched
  show (if (s.ut u).status.has .exited then wakeJoined u (idleCpu a s) >>= fun s => uthreadFree u s
    else if (s.ut u).status.has .sleeping then .ok (idleCpu a s)
    else (idleCpu a s).bound a .resumeReady >>= fun q => .ok (insertReady q u (idleCpu a s))) = _ ↔ _
  split
  · rename_i he
    obtain ⟨s₁, hs₁⟩ := wakeJoined_succeeds (s := idleCpu a s) hj
    have hlock : SameLock (idleCpu a s) s₁ := SameLock.transparent.wakeJoined hs₁
    have hm : s₁.mutex = s.mutex := hlock
    rw [hs₁]
    show uthreadFree u s₁ = _ ↔ _
    unfold uthreadFree
    rw [hm, he]
    cases s.mutex <;> simp
  · rename_i he
    refine iff_of_false ?_ fun h => he h.1
    split
    · simp
    · exact bind_disabled bound_disabled fun q => by simp

theorem uthreadSwitched_setUt_disabled (h : Sound s) (hu : u < s.heap) {g : Uthread → Uthread}
    (hstatus : (g (s.ut u)).status = (s.ut u).status) (hjoined : (g (s.ut u)).utJoined = (s.ut u).utJoined)
    (hp : (g (s.ut u)).p = (s.ut u).p) : uthreadSwitched a u (s.setUt u g) = .error .disabled ↔
      (s.ut u).status.has .exited = true ∧ s.mutex.isSome = true := by
  have hj : ∀ j, ((s.setUt u g).ut u).utJoined = some j → ((s.setUt u g).ut j).p = some 0 := by
    intro j hj
    rw [setUt_ut_self, hjoined] at hj
    rw [setUt_ut]
    split
    · rw [hp]
      exact (h.ut u hu).home
    · exact (h.ut j ((h.ut u hu).joined j hj)).home
  rw [uthreadSwitched_disabled hj, setUt_ut_self, hstatus]
  rfl

theorem diskFlagStmt_disabled {c : SId} : diskFlagStmt u c s ≠ .error .disabled := by
  unfold diskFlagStmt
  split <;> simp

theorem diskHandOffStmt_disabled {c : SId} {r : Reply} : diskHandOffStmt u c r s ≠ .error .disabled := by
  unfold diskHandOffStmt
  split
  · simp
  · split
    · simp
    · split
      · simp
      · split <;> simp

/-- **A statement of library code waits for nothing but the lock.** -/
theorem uthreadStmt_disabled (h : Sound s) (hu : u < s.heap) (hctx : (s.ut u).ctx ≠ .user) :
    (∀ r, uthreadStmt a u r s = .error .disabled) ↔ NeedsLock s u ∧ s.mutex.isSome = true := by
  have hswitch : ∀ {k k'}, (s.ut u).ctx = k → Switches k k' →
      ((∀ _ : Reply, uthreadSwitched a u (goto u k' s) = .error .disabled) ↔
        NeedsLock s u ∧ s.mutex.isSome = true) := by
    rintro k k' hk hsw
    unfold goto
    rw [uthreadSwitched_setUt_disabled h hu rfl rfl rfl]
    unfold NeedsLock
    rw [hk]
    constructor
    · exact fun hw => ⟨.inr ⟨⟨k', hsw⟩, (hw {}).1⟩, (hw {}).2⟩
    · rintro ⟨⟨c, hc⟩ | ⟨-, he⟩, hm⟩
      · rw [hc] at hsw
        cases hsw
      · exact fun _ => ⟨he, hm⟩
  -- a statement that goes on for some reply, and is none of those
  have hgo : ∀ {k : Ctx} {x : Reply → Except Stop State} (r : Reply), (s.ut u).ctx = k → x r ≠ .error .disabled →
      (∀ c, k ≠ .create c .lock) → (∀ k', ¬Switches k k') →
      ((∀ r, x r = .error .disabled) ↔ NeedsLock s u ∧ s.mutex.isSome = true) := by
    rintro k x r hk hx hcreate hsw
    refine iff_of_false (fun hall => hx (hall r)) ?_
    rintro ⟨⟨c, hc⟩ | ⟨⟨k', hk'⟩, -⟩, -⟩
    · exact hcreate c (hk.symm.trans hc)
    · rw [hk] at hk'
      exact hsw k' hk'
  unfold uthreadStmt
  cases hk : (s.ut u).ctx with
  | user => exact absurd hk hctx
  | yieldFlag => exact hgo {} hk (by simp) (by simp) (by rintro k' ⟨⟩)
  | yieldSwitch => exact hswitch hk .yield
  | sleep w pc =>
    cases pc with
    | switch => exact hswitch hk (.sleep w)
    | insert =>
      refine hgo {} hk ?_ (by simp) (by rintro k' ⟨⟩)
      unfold schedSleepStmt
      refine bind_disabled home_disabled fun q => ?_
      split <;> simp
    | _ => exact hgo {} hk (by simp [schedSleepStmt]) (by simp) (by rintro k' ⟨⟩)
  | register c pc =>
    cases pc with
    | ctl =>
      refine hgo {} hk ?_ (by simp) (by rintro k' ⟨⟩)
      unfold registerStmt
      refine bind_disabled bound_disabled fun q => ?_
      split <;> simp
    | insert =>
      refine hgo {} hk ?_ (by simp) (by rintro k' ⟨⟩)
      unfold registerStmt
      exact bind_disabled home_disabled fun q => by simp
    | _ => exact hgo {} hk (by simp [registerStmt]) (by simp) (by rintro k' ⟨⟩)
  | io c pc => exact hgo {} hk (by cases pc <;> simp [ioStmt]) (by simp) (by rintro k' ⟨⟩)
  | join t v pc => exact hgo {} hk (by simp) (by simp) (by rintro k' ⟨⟩)
  | exit v pc =>
    cases pc with
    | switch => exact hswitch hk (.exit v)
    | _ => exact hgo {} hk (by simp [exitStmt]) (by simp) (by rintro k' ⟨⟩)
  | createGet => exact hgo {} hk (by simp) (by simp) (by rintro k' ⟨⟩)
  | createAlloc c => exact hgo {} hk (by simp) (by simp) (by rintro k' ⟨⟩)
  | create c pc =>
    cases pc with
    | lock =>
      unfold createStmt NeedsLock
      dsimp only
      rw [hk]
      cases hm : s.mutex with
      | none => exact iff_of_false (fun hall => by simpa using hall {}) (by simp)
      | some v => simp
    | insert id p =>
      refine hgo {} hk ?_ (by simp) (by rintro k' ⟨⟩)
      unfold createStmt
      exact bind_disabled bound_disabled fun q => by simp
    | _ => exact hgo {} hk (by simp [createStmt]) (by simp) (by rintro k' ⟨⟩)
  | diskGet => exact hgo {} hk (by simp) (by simp) (by rintro k' ⟨⟩)
  | diskFlag c => exact hgo {} hk diskFlagStmt_disabled (by simp) (by rintro k' ⟨⟩)
  | diskHandOff c => exact hgo {} hk diskHandOffStmt_disabled (by simp) (by rintro k' ⟨⟩)
  | diskCall => exact hgo {} hk (by simp) (by simp) (by rintro k' ⟨⟩)

end Statements

/-! ### Threads -/

section Threads

variable {s : State} {a : SId} {u : UId}

/-- The loop waits for nothing before its last branch: `epoll_wait` has a timeout. -/
theorem schedRun_goes (h : Sound s) (hfit : EventsFit s) (hpc : (s.sched a).pc ≠ .off)
    (hlast : ¬((s.sched a).pc = .done ∧ s.nUthread = 0 ∧ s.mutex.isSome = true)) :
    schedRun a {} s ≠ .error .disabled := by
  unfold schedRun
  cases hk : (s.sched a).pc with
  | off => exact absurd hk hpc
  | another => exact bind_disabled bound_disabled fun q => by simp
  | top =>
    dsimp only
    split <;> simp
  | expiry =>
    show uthreadResumeExpired a {} s ≠ _
    unfold uthreadResumeExpired
    split
    · simp
    · rename_i q hq
      split
      · simp
      · rename_i u hmin
        split
        · obtain ⟨hu, hnew⟩ := h.sleeping (Tree.min_mem hmin)
          by_cases hw : Watched s u
          · obtain ⟨s', hs'⟩ := resumeExpired_succeeds h hu hnew hq hw
            rw [hs']
            simp
          · rw [resumeExpired_fails h hu hw]
            simp
        · simp
  | lastReady => exact bind_disabled bound_disabled fun q => by simp
  | ready last =>
    refine bind_disabled bound_disabled fun q => ?_
    split <;> simp
  | readyAfter last u =>
    dsimp only
    split <;> simp
  | pollCheck =>
    dsimp only
    split <;> simp
  | poll =>
    show uthreadPoll a {} s ≠ _
    unfold uthreadPoll
    refine bind_disabled bound_disabled fun q => ?_
    dsimp only
    split
    · simp [pollable]
    · simp
  | events =>
    dsimp only
    cases hq : (s.sched a).p with
    | none => simp
    | some q =>
      dsimp only
      split
      · simp
      · rename_i hn
        have hlt : (s.p q).numNewEvents - 1 < (s.p q).eventlist.length := by
          have hle := hfit q
          omega
        unfold takeEvent
        dsimp only
        rw [List.getElem?_eq_getElem hlt]
        dsimp only
        generalize (s.p q).eventlist[(s.p q).numNewEvents - 1] = e
        show handleEvent a e.fd .rd e.hup (.handleWr e.fd e.hup) (tookEvent a q e s) ≠ _
        have ht := (h.tookEvent (h.busy_of_p hq) q e).1
        rcases handleEvent_succeeds ht (((tookEvent_local a q e s).bound a).trans hq) e.fd .rd e.hup
          (.handleWr e.fd e.hup) with ⟨s', hs'⟩ | hs'
        · rw [hs']
          simp
        · rw [hs']
          simp
  | handleWr fd eof =>
    dsimp only
    cases hq : (s.sched a).p with
    | none =>
      unfold handleEvent uthreadDeschedEvent State.bound
      rw [hq]
      simp [bind, Except.bind]
    | some q =>
      rcases handleEvent_succeeds h hq fd .wr eof .events with ⟨s', hs'⟩ | hs'
      · rw [hs']
        simp
      · rw [hs']
        simp
  | done =>
    dsimp only
    split
    · rename_i hn
      rw [if_neg fun hm => hlast ⟨hk, hn, hm⟩]
      simp
    · simp

/-- In its last branch the loop waits for the lock. -/
theorem schedRun_waits (hpc : (s.sched a).pc = .done) (hn : s.nUthread = 0) (hm : s.mutex.isSome = true)
    (r : Reply) : schedRun a r s = .error .disabled := by
  unfold schedRun
  rw [hpc]
  dsimp only
  rw [if_pos hn, if_pos hm]

/-- A thread that runs a uthread waits only for the lock. -/
theorem acts_of_cur (h : Sound s) (hhalt : s.halted = false) (hc : (s.sched a).curUthread = some u) :
    Acts s a ↔ ¬WaitsForLock s a := by
  have hu := (h.cur hc).1
  have hpreempt : step s (.preempt a) = .error .disabled ↔ (s.ut u).isWatingYieldSignal = false ∨
      (s.ut u).status.has .exited = true ∧ s.mutex.isSome = true := by
    simp only [step, hhalt, hc, Bool.false_eq_true, if_false]
    cases hflag : (s.ut u).isWatingYieldSignal with
    | false => simp
    | true =>
      rw [if_pos rfl]
      unfold handler
      rw [uthreadSwitched_setUt_disabled h hu rfl rfl rfl]
      simp
  by_cases huser : (s.ut u).ctx = .user
  · refine iff_of_true ⟨.call a .yield, rfl, ?_⟩ ?_
    · simp [step, hhalt, hc, huser, enter]
    · rintro ⟨-, ⟨v, hv, hneeds, -⟩ | ⟨hnone, -⟩⟩
      · cases hc.symm.trans hv
        rcases hneeds with ⟨c, hctx⟩ | ⟨⟨k, hk⟩, -⟩
        · rw [huser] at hctx
          cases hctx
        · rw [huser] at hk
          cases hk
      · rw [hc] at hnone
        cases hnone
  · constructor
    · rintro ⟨act, rfl, hact⟩ ⟨hm, ⟨v, hv, hneeds, htimer⟩ | ⟨hnone, -⟩⟩
      rotate_left
      · rw [hc] at hnone
        cases hnone
      cases hc.symm.trans hv
      apply hact
      cases act with
      | call b c =>
        have hc' : (s.sched b).curUthread = some u := hc
        simp [step, hhalt, hc', huser]
      | stmt b r =>
        have hc' : (s.sched b).curUthread = some u := hc
        rw [step_stmt hhalt hc']
        exact (uthreadStmt_disabled h hu huser).mpr ⟨hneeds, hm⟩ r
      | preempt b => exact hpreempt.mpr (htimer.imp_right fun he => ⟨he, hm⟩)
      | sched b r =>
        have hc' : (s.sched b).curUthread = some u := hc
        simp [step, hhalt, hc']
    · intro hno
      by_contra hacts
      have hdisabled : ∀ act, act.thread = a → step s act = .error .disabled := by
        intro act ha
        by_contra hact
        exact hacts ⟨act, ha, hact⟩
      have hstmt := (uthreadStmt_disabled h hu huser).mp fun r => by
        rw [← step_stmt hhalt hc r]
        exact hdisabled (.stmt a r) rfl
      exact hno ⟨hstmt.2, .inl ⟨u, hc, hstmt.1, (hpreempt.mp (hdisabled (.preempt a) rfl)).imp_right And.left⟩⟩

theorem acts_iff (h : Sound s) (hfit : EventsFit s) (hhalt : s.halted = false) (hpc : (s.sched a).pc ≠ .off) :
    Acts s a ↔ ¬WaitsForLock s a := by
  cases hc : (s.sched a).curUthread with
  | some u => exact acts_of_cur h hhalt hc
  | none =>
    have hloop : ∀ r, step s (.sched a r) = schedRun a r s := fun r => by
      simp only [step, hhalt, hc, Bool.false_eq_true, if_false]
    constructor
    · rintro ⟨act, rfl, hact⟩ ⟨hm, ⟨u, hu, -⟩ | ⟨-, hdone, hn⟩⟩
      · rw [hc] at hu
        cases hu
      · apply hact
        cases act with
        | sched b r => exact (hloop r).trans (schedRun_waits hdone hn hm r)
        | call b k =>
          have hc' : (s.sched b).curUthread = none := hc
          simp [step, hhalt, hc']
        | stmt b r =>
          have hc' : (s.sched b).curUthread = none := hc
          simp [step, hhalt, hc']
        | preempt b =>
          have hc' : (s.sched b).curUthread = none := hc
          simp [step, hhalt, hc']
    · intro hno
      refine ⟨.sched a {}, rfl, ?_⟩
      rw [hloop]
      refine schedRun_goes h hfit hpc fun hwaits => ?_
      obtain ⟨hdone, hn, hm⟩ := hwaits
      exact hno ⟨hm, .inr ⟨hc, hdone, hn⟩⟩

end Threads

/-- **A thread waits for the lock or it can go on**, in every state of any run. -/
theorem thread_goes_on_iff {s : State} {a : SId} (h : Reaches (fun _ _ => True) s) (hhalt : s.halted = false)
    (hpc : (s.sched a).pc ≠ .off) : Acts s a ↔ ¬WaitsForLock s a :=
  acts_iff (Sound.of_reaches h) (EventsFit.of_reaches h) hhalt hpc

/-- The timer preempts main in `uthread_create`, with the lock, and the uthread it created ends:
nothing can happen any more. -/
theorem preemptedWithLock_stuck : ∃ s, exec preemptedWithLock = .ok s ∧ s.halted = false ∧ ¬Acts s 0 ∧
    ∀ a, a ≠ 0 → (s.sched a).pc = .off := by
  obtain ⟨s, hs, h1, h2, h3, h4, h5, h6, hoff⟩ := exec_passes preemptedWithLock
    (fun s => s.halted = false ∧ (s.sched 0).pc ≠ .off ∧ s.mutex.isSome = true ∧
      (s.sched 0).curUthread = some 1 ∧ (s.ut 1).ctx = .exit none .switch ∧
      (s.ut 1).status.has .exited = true ∧
      (s.sched 1).pc = .off ∧ (s.sched 2).pc = .off ∧ (s.sched 3).pc = .off)
    (by decide +kernel)
  have hreach := Run.reaches_of_run hs
  refine ⟨s, hs, h1, fun hacts => (thread_goes_on_iff hreach h1 h2).mp hacts ?_, fun a ha => ?_⟩
  · refine ⟨h3, .inl ⟨1, h4, .inr ⟨⟨.user, ?_⟩, h6⟩, .inr h6⟩⟩
    rw [h5]
    exact .exit none
  · by_cases hlt : a < maxProcs
    · have hcases : ∀ n : Nat, n < 4 → n ≠ 0 → n = 1 ∨ n = 2 ∨ n = 3 := by omega
      rcases hcases a hlt ha with rfl | rfl | rfl
      · exact hoff.1
      · exact hoff.2.1
      · exact hoff.2.2
    · exact ((Few.of_reaches hreach).off a (Nat.le_of_not_lt hlt)).2

/-! ### The holder of the lock -/

section Holder

variable {s : State} {a : SId} {u : UId}

/-- At most two statements, and the lock is free. -/
theorem LockOk.released (h : LockOk s) (hhalt : s.halted = false) (hm : s.mutex = some u)
    (hc : (s.sched a).curUthread = some u) : ∃ n s', n ≤ 2 ∧ Run.run UthreadRuntime.step s (stmts a n) = .ok s' ∧
      s'.mutex = none ∧ s'.halted = false ∧ s'.sched = s.sched := by
  -- the last statement with the lock, from any state
  have hunlock : ∀ {t : State} {c : SId} {id : Nat}, t.halted = false → (t.sched a).curUthread = some u →
      (t.ut u).ctx = .create c (.unlock id) → ∃ t', UthreadRuntime.step t (.stmt a {}) = .ok t' ∧ t'.mutex = none ∧
        t'.halted = false ∧ t'.sched = t.sched := by
    intro t c id ht hct hctx
    rw [step_stmt ht hct]
    simp only [uthreadStmt, hctx, createStmt]
    exact ⟨_, rfl, rfl, ht, rfl⟩
  have hl := (h.runs u hm).2
  cases hctx : (s.ut u).ctx with
  | create c pc =>
    rw [hctx] at hl
    cases pc with
    | count =>
      obtain ⟨t, ht, hth, htsched, htctx⟩ : ∃ t, UthreadRuntime.step s (.stmt a {}) = .ok t ∧ t.halted = false ∧
          t.sched = s.sched ∧ (t.ut u).ctx = .create c (.unlock s.nextUtId) := by
        rw [step_stmt hhalt hc]
        simp only [uthreadStmt, hctx, createStmt]
        exact ⟨_, rfl, hhalt, rfl, goto_ctx _⟩
      obtain ⟨s', hs', hm', hh', hsched'⟩ := hunlock hth (by rw [htsched]; exact hc) htctx
      refine ⟨2, s', Nat.le_refl 2, ?_, hm', hh', hsched'.trans htsched⟩
      show Run.run UthreadRuntime.step s (.stmt a {} :: .stmt a {} :: []) = _
      rw [Run.run_cons ht, Run.run_cons hs']
      rfl
    | unlock id =>
      obtain ⟨s', hs', hm', hh', hsched'⟩ := hunlock hhalt hc hctx
      refine ⟨1, s', by decide, ?_, hm', hh', hsched'⟩
      show Run.run UthreadRuntime.step s (.stmt a {} :: []) = _
      rw [Run.run_cons hs']
      rfl
    | _ => cases hl
  | _ =>
    rw [hctx] at hl
    cases hl

end Holder

/-- **No thread is stuck** in runs in which the timer preempts no uthread that holds the lock: each
thread that has started can go on, or can as soon as the uthread that holds the lock, which runs,
has executed at most two statements. -/
theorem no_thread_stuck {s : State} {a : SId} (h : Reaches KeepsLock s) (hhalt : s.halted = false)
    (hpc : (s.sched a).pc ≠ .off) :
    Acts s a ∨ ∃ u c n s', s.mutex = some u ∧ (s.sched c).curUthread = some u ∧ n ≤ 2 ∧
      Run.run step s (stmts c n) = .ok s' ∧ Acts s' a := by
  have hok := LockOk.of_reaches h
  have hfit := EventsFit.of_reaches h
  by_cases hw : WaitsForLock s a
  · obtain ⟨u, hm⟩ := Option.isSome_iff_exists.mp hw.1
    obtain ⟨⟨c, hc⟩, -⟩ := hok.runs u hm
    obtain ⟨n, s', hn, hs', hm', hhalt', hsched⟩ := hok.released hhalt hm hc
    have hreach : Reaches (fun _ _ => True) s' :=
      (h.mono fun _ _ _ => trivial).trans (Run.reaches_of_run hs')
    refine .inr ⟨u, c, n, s', hm, hc, hn, hs',
      (acts_iff (Sound.of_reaches hreach) (EventsFit.of_reaches hreach) hhalt' ?_).mpr ?_⟩
    · rw [hsched]
      exact hpc
    · rintro ⟨hsome, -⟩
      rw [hm'] at hsome
      cases hsome
  · exact .inl ((acts_iff hok.sound hfit hhalt hpc).mpr hw)

/-- Main, after a disk call that handed its p off, is in `uthread_create` and has the lock; the
uthread that the other thread runs has exited and is to be freed. -/
def exitMeetsLock : List Act := boot ++ calls 0 .disk 4 ++ calls 0 .create 3 ++ scheds 1 5 ++ calls 1 .finish 2

theorem exitMeetsLock_not_stuck : ∃ s, Reaches KeepsLock s ∧ ¬Acts s 1 ∧
    ∃ u c n s', s.mutex = some u ∧ (s.sched c).curUthread = some u ∧ n ≤ 2 ∧
      Run.run step s (stmts c n) = .ok s' ∧ Acts s' 1 := by
  have hread : (Run.checked step keepsLockCheck init exitMeetsLock).map (fun s =>
      (s.halted, s.mutex, (s.sched 1).curUthread, (s.ut 1).ctx, (s.ut 1).status.has .exited,
        decide ((s.sched 1).pc ≠ .off))) =
      some (false, some 0, some 1, .exit none .switch, true, true) := by decide +kernel
  obtain ⟨s, hs, hread⟩ := Option.map_eq_some_iff.mp hread
  simp only [Prod.mk.injEq, decide_eq_true_eq] at hread
  obtain ⟨hhalt, hm, hc, hctx, hexit, hpc⟩ := hread
  have hreach : Reaches KeepsLock s :=
    Run.reaches_of_checked (I := fun _ => True) hs trivial (fun _ _ _ _ _ _ => trivial)
      fun _ _ _ hcheck => keepsLock_of_check hcheck
  have hwaits : ¬Acts s 1 := by
    intro hacts
    refine (acts_iff (Sound.of_reaches hreach) (EventsFit.of_reaches hreach) hhalt hpc).mp hacts
      ⟨by rw [hm]; rfl, .inl ⟨1, hc, .inr ⟨⟨.user, ?_⟩, hexit⟩, .inr hexit⟩⟩
    rw [hctx]
    exact .exit none
  exact ⟨s, hreach, hwaits, (no_thread_stuck hreach hhalt hpc).resolve_left hwaits⟩

end UthreadRuntime
