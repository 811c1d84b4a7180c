import UthreadRuntime.Placement.Watched
import UthreadRuntime.Placement.Partition
import UthreadRuntime.Safety.Pointers
import UthreadRuntime.Safety.Records
import UthreadRuntime.Ledger.Books

/-! The interest set and the waiting tree.

A wait for an event is kept four times: in the interest set of the poller, in the waiting tree,
in the key `fd_wait` and in a flag of the status word. `_register_event` makes the entries one
after the other, and the handling of an event, an expiry and the return of `_register_event` each
drop some of them. Between library calls the four agree (`Mirror`). -/
namespace UthreadRuntime

open State Placement

/-! ### The flags of a wait -/

/-- The event whose flag the call may have set. -/
def Ctx.waitBit : Ctx → Option UthreadEvent
  | .register c .key | .register c .insert | .register c .unkey | .register c .unstatus => some c.event
  | .sleep (.event c) _ => some c.event
  | _ => none

/-- The flags of the waits: only that of the call under way, and it is set until the wait ends. -/
structure BitsOk (r : Uthread) : Prop where
  only : ∀ e, r.status.has (UthreadEvent.waitSt e) = true → r.ctx.waitBit = some e
  set : ∀ e, r.ctx.waitBit = some e → r.ctx.publishing = true ∨ r.status.has .sleeping = true →
    r.status.has e.waitSt = true

/-- What others do to a record: a flag is dropped only with the mark of the sleeper. -/
structure Fades (r r' : Uthread) : Prop where
  ctx : r'.ctx = r.ctx
  wait : ∀ e : UthreadEvent, r'.status.has e.waitSt = true → r.status.has e.waitSt = true
  kept : r'.status.has .sleeping = true → r.status.has .sleeping = true ∧
    ∀ e : UthreadEvent, r.status.has e.waitSt = true → r'.status.has e.waitSt = true

theorem Fades.of_status {r r' : Uthread} (hctx : r'.ctx = r.ctx) (hstatus : r'.status = r.status) : Fades r r' := by
  refine ⟨hctx, fun e he => ?_, fun hs => ⟨?_, fun e he => ?_⟩⟩
  · rwa [hstatus] at he
  · rwa [hstatus] at hs
  · rwa [hstatus]

theorem Fades.refl (r : Uthread) : Fades r r := Fades.of_status rfl rfl

theorem Fades.trans {r r' r'' : Uthread} (h : Fades r r') (h' : Fades r' r'') : Fades r r'' := by
  refine ⟨h'.ctx.trans h.ctx, fun e he => h.wait e (h'.wait e he), fun hs => ?_⟩
  obtain ⟨hs', hkept'⟩ := h'.kept hs
  obtain ⟨hs, hkept⟩ := h.kept hs'
  exact ⟨hs, fun e he => hkept' e (hkept e he)⟩

/-- A record whose sleeper has been taken out of the tree may lose its flag. -/
theorem Fades.awake {r r' : Uthread} (hctx : r'.ctx = r.ctx)
    (hwait : ∀ e : UthreadEvent, r'.status.has e.waitSt = true → r.status.has e.waitSt = true)
    (hs : r'.status.has .sleeping = false) : Fades r r' := by
  refine ⟨hctx, hwait, fun hs' => ?_⟩
  rw [hs] at hs'
  cases hs'

theorem BitsOk.fades {r r' : Uthread} (h : BitsOk r) (hf : Fades r r') (hpub : r.ctx.publishing = false) :
    BitsOk r' := by
  constructor
  · intro e he
    rw [hf.ctx]
    exact h.only e (hf.wait e he)
  · intro e he hset
    rw [hf.ctx] at he hset
    have hs : r'.status.has .sleeping = true := by
      rcases hset with hp | hs
      · rw [hpub] at hp
        cases hp
      · exact hs
    obtain ⟨hs', hkept⟩ := hf.kept hs
    exact hkept e (h.set e he (.inr hs'))

def AllFade (s s' : State) : Prop := ∀ v, Fades (s.ut v) (s'.ut v)

namespace AllFade

variable {s s' s'' : State} {a : SId} {u : UId}

theorem refl (s : State) : AllFade s s := fun _ => Fades.refl _

theorem trans (h : AllFade s s') (h' : AllFade s' s'') : AllFade s s'' := fun v => (h v).trans (h' v)

theorem of_eq (h : s'.ut = s.ut) : AllFade s s' := by
  intro v
  rw [h]
  exact Fades.refl _

theorem setUt {f : Uthread → Uthread} (h : Fades (s.ut u) (f (s.ut u))) : AllFade s (s.setUt u f) := by
  intro v
  rw [setUt_ut]
  split
  · rename_i hv
    rw [hv]
    exact h
  · exact Fades.refl _

theorem deschedSleep (h : uthreadDeschedSleep u s = .ok s') : AllFade s s' := by
  rcases uthreadDeschedSleep_ok h with ⟨-, rfl⟩ | ⟨-, q, -, rfl⟩
  · exact refl s'
  · refine (of_eq rfl : AllFade s (s.setP q _)).trans (setUt (Fades.awake rfl (fun e he => ?_) ?_))
    · cases e <;> simpa [UthreadEvent.waitSt] using he
    · simp

theorem deschedEvent {fd e : Int} {found : Option UId}
    (h : uthreadDeschedEvent a fd e s = .ok (found, s')) : AllFade s s' := by
  obtain ⟨q, -, -, ⟨-, rfl⟩ | ⟨v, -, hv⟩⟩ := uthreadDeschedEvent_ok h
  · exact refl s'
  · exact (of_eq rfl : AllFade s (s.setP q _)).trans (deschedSleep hv)

theorem wakeJoined (h : wakeJoined u s = .ok s') : AllFade s s' := by
  rcases wakeJoined_ok h with ⟨-, rfl⟩ | ⟨j, q, s₁, -, hd, -, rfl⟩
  · exact refl s'
  · have hnote : AllFade s₁ (s₁.setUt j fun v =>
        {v with hist := {v.hist with waits := .joined :: v.hist.waits}}) := setUt (Fades.of_status rfl rfl)
    exact (deschedSleep hd).trans (hnote.trans (of_eq rfl))

theorem switched (h : uthreadSwitched a u s = .ok s') : AllFade s s' := by
  have hi : AllFade s (idleCpu a s) := of_eq rfl
  rcases uthreadSwitched_ok h with ⟨-, s₁, hw, -, rfl⟩ | ⟨-, -, rfl⟩ | ⟨-, -, q, -, rfl⟩
  · have hf : AllFade s₁ (freed u s₁) := by
      refine (of_eq ?_ : AllFade s₁ _).trans (setUt (Fades.of_status rfl rfl))
      rfl
    exact hi.trans ((wakeJoined hw).trans hf)
  · exact hi
  · exact hi.trans (of_eq rfl)

theorem resume (h : Sound s) (hu : u < s.heap) (k : SchedAt) : AllFade s (uthreadResume a u k s) := by
  have h₀ : AllFade s (if (s.ut u).status.has .new then uthreadInit u s else s) := by
    split
    · rename_i hnew
      have hctx := ((h.ut u hu).new hnew).1
      refine setUt (Fades.awake hctx.symm (fun e he => ?_) ?_)
      · cases e <;> simp [UthreadEvent.waitSt] at he
      · simp
    · exact refl s
  unfold uthreadResume
  generalize (if (s.ut u).status.has .new then uthreadInit u s else s) = s₀ at h₀ ⊢
  have h₁ : AllFade (s₀.setSched a fun v => {v with curUthread := some u, pc := k})
      ((s₀.setSched a fun v => {v with curUthread := some u, pc := k}).setUt u fun v =>
        {v with isWatingYieldSignal := true}) := setUt (Fades.of_status rfl rfl)
  exact h₀.trans ((of_eq rfl : AllFade s₀ (s₀.setSched a _)).trans (h₁.trans (of_eq rfl)))

theorem notedEvent (u : UId) (isEof : Bool) (s : State) : AllFade s (notedEvent u isEof s) := by
  refine setUt ⟨rfl, fun e he => ?_, fun hs => ⟨?_, fun e he => ?_⟩⟩
  · cases isEof <;> cases e <;> simpa [UthreadEvent.waitSt] using he
  · cases isEof <;> simpa using hs
  · cases isEof <;> cases e <;> simpa [UthreadEvent.waitSt] using he

theorem clearsWait (hs : (s.ut u).status.has .sleeping = false) :
    AllFade s (s.setUt u fun v => {v with status := clearWait v.status}) := by
  refine setUt (Fades.awake rfl (fun e => has_clearWait _ _) ?_)
  exact (has_clearWait_of_ne _ _ (by simp) (by simp)).trans hs

end AllFade

section Scheduler

variable {s s' : State} {a : SId} {u : UId}

/-- Who was taken out of the tree is not marked as sleeping. -/
theorem deschedSleep_awake (h : uthreadDeschedSleep u s = .ok s') : (s'.ut u).status.has .sleeping = false := by
  rcases uthreadDeschedSleep_ok h with ⟨hs, rfl⟩ | ⟨-, q, -, rfl⟩
  · exact hs
  · simp [unlinkSleeper]

theorem deschedEvent_awake {fd e : Int} (h : uthreadDeschedEvent a fd e s = .ok (some u, s')) :
    (s'.ut u).status.has .sleeping = false := by
  obtain ⟨q, -, -, ⟨hnone, -⟩ | ⟨v, hv, hd⟩⟩ := uthreadDeschedEvent_ok h
  · cases hnone
  · cases hv
    exact deschedSleep_awake hd

theorem handleEvent_fades (h : Sound s) {fd : Int} {ev : UthreadEvent} {isEof : Bool} {k : SchedAt}
    (hs : handleEvent a fd ev isEof k s = .ok s') : AllFade s s' := by
  rcases handleEvent_ok hs with ⟨s₁, hd, rfl⟩ | ⟨u, s₁, s₂, hd, hfd, hdel, rfl⟩
  · exact (AllFade.deschedEvent hd).trans (AllFade.of_eq rfl)
  · obtain ⟨hn, hu₂, -⟩ := h.handled hd hfd hdel isEof
    obtain ⟨q, -, -, rfl⟩ := epollDel_ok hdel
    refine (AllFade.deschedEvent hd).trans ((AllFade.clearsWait (deschedEvent_awake hd)).trans ?_)
    exact (AllFade.of_eq rfl).trans ((AllFade.notedEvent u isEof _).trans (AllFade.resume hn hu₂ k))

/-- The cancelled wait loses its flag, and no other does. -/
theorem cancelEvent_fades (h : uthreadCancelEvent a u s = .ok s') (v : UId) :
    (v ≠ u → Fades (s.ut v) (s'.ut v)) ∧ (s'.ut v).ctx = (s.ut v).ctx ∧
      ∀ e : UthreadEvent, (s'.ut v).status.has e.waitSt = true → (s.ut v).status.has e.waitSt = true := by
  obtain ⟨q, s₁, -, -, rfl, hs₁⟩ := uthreadCancelEvent_ok h
  have hkey : AllFade s₁ (s₁.setUt u fun v => {v with fdWait := -1}) := AllFade.setUt (Fades.of_status rfl rfl)
  have hrest : AllFade (s.setUt u fun v => {v with status := clearWait v.status})
      (s₁.setUt u fun v => {v with fdWait := -1}) := by
    rcases hs₁ with ⟨-, rfl⟩ | ⟨-, found, hd⟩
    · exact (AllFade.of_eq rfl).trans hkey
    · exact (AllFade.of_eq rfl).trans ((AllFade.deschedEvent hd).trans hkey)
  have hv := hrest v
  by_cases hvu : v = u
  · subst hvu
    rw [setUt_ut_self] at hv
    exact ⟨fun hne => absurd rfl hne, hv.ctx, fun e he => has_clearWait _ _ (hv.wait e he)⟩
  · rw [setUt_ut, if_neg hvu] at hv
    exact ⟨fun _ => hv, hv.ctx, hv.wait⟩

theorem SchedStep.fades {r : Reply} (h : Sound s) (hs : SchedStep a r s s') : AllFade s s' := by
  cases hs with
  | goes _ | another _ _ | noPoll _ _ | polled _ _ _ | halted _ => exact AllFade.of_eq rfl
  | @expired q u s₁ s₂ _ _ hmin _ hcancel hsl =>
    obtain ⟨h₃, hu₂, -⟩ := h.expired (Tree.min_mem hmin) hcancel hsl
    have hafter := AllFade.resume (a := a) h₃ hu₂ .expiry
    intro v
    refine Fades.trans ?_ (hafter v)
    obtain ⟨hother, hctx, hwait⟩ := cancelEvent_fades hcancel v
    have hsleep := AllFade.deschedSleep hsl v
    unfold notedExpiry
    by_cases hvu : v = u
    · subst hvu
      rw [setUt_ut_self]
      refine Fades.awake (hsleep.ctx.trans hctx) (fun e he => hwait e (hsleep.wait e ?_)) ?_
      · cases e <;> simpa [UthreadEvent.waitSt] using he
      · simpa using deschedSleep_awake hsl
    · rw [setUt_ut, if_neg hvu]
      exact (hother hvu).trans hsleep
  | @ready q u rest last _ hq hr =>
    have hu : u < s.heap := h.ready (q := q) (by rw [hr]; exact List.mem_cons_self)
    have hp : Sound (s.setP q fun v => {v with ready := rest}) :=
      h.setP (fun w hw => h.ready (q := q) (by rw [hr]; exact List.mem_cons_of_mem u hw))
        (fun _ hw => h.sleeping hw) (fun _ hw => h.waiting hw) fun _ hw => h.interest hw
    exact (AllFade.of_eq rfl).trans (AllFade.resume hp hu _)
  | @took q e _ _ hq _ _ he =>
    have ht := (h.tookEvent (h.busy_of_p hq) q e).1
    have hut : (tookEvent a q e s).ut = s.ut := by
      unfold tookEvent
      dsimp only
      split <;> rfl
    exact (AllFade.of_eq hut).trans (handleEvent_fades ht he)
  | handled _ he => exact handleEvent_fades h he

end Scheduler

section Statements

variable {s s' : State} {a : SId} {u v : UId}

/-- A statement drops no flag of another uthread. -/
theorem Stmt.others_fade {r : Reply} (hs : Stmt a u r s s') (hvu : v ≠ u) (hv : v < s.heap) :
    Fades (s.ut v) (s'.ut v) := by
  rcases hs.other_record hvu hv with ⟨j, x, f, he⟩ | ⟨k, hsw⟩
  · rw [he]
    exact Fades.of_status rfl rfl
  · have hsw' := AllFade.switched hsw v
    rwa [goto_ut_of_ne hvu] at hsw'

theorem Entered.others_fade {c : Call} (hs : Entered a u s c s') (hvu : v ≠ u) : Fades (s.ut v) (s'.ut v) := by
  rcases hs.other_record hvu with he | he
  · rw [he]
    exact Fades.refl _
  · rw [he]
    refine ⟨rfl, fun e he => ?_, fun hs => ⟨?_, fun e he => ?_⟩⟩
    · cases e <;> simpa [UthreadEvent.waitSt] using he
    · simpa using hs
    · cases e <;> simpa [UthreadEvent.waitSt] using he

/-- **No step drops a flag of a wait that is not over**, but the statement of its own call. -/
theorem step_fades {act : Act} (h : Sound s) (hs : step s act = .ok s') (hv : v < s.heap) :
    Fades (s.ut v) (s'.ut v) ∨
      (∃ b c, act = .call b c ∧ (s.sched b).curUthread = some v ∧ Entered b v s c s') ∨
      ∃ b r, act = .stmt b r ∧ (s.sched b).curUthread = some v ∧ Stmt b v r s s' := by
  cases step_ok hs with
  | @call b c u _ hc _ hent =>
    by_cases hvu : v = u
    · subst hvu
      exact .inr (.inl ⟨b, c, rfl, hc, hent⟩)
    · exact .inl (hent.others_fade hvu)
  | @stmt b r u _ hc hstmt =>
    by_cases hvu : v = u
    · subst hvu
      exact .inr (.inr ⟨b, r, rfl, hc, hstmt⟩)
    · exact .inl (hstmt.others_fade hvu hv)
  | @preempt b u _ _ _ hsw =>
    left
    have hflag : AllFade s (s.setUt u fun x => {x with isWatingYieldSignal := false}) :=
      AllFade.setUt (Fades.of_status rfl rfl)
    exact (hflag.trans (AllFade.switched hsw)) v
  | sched _ hsched => exact .inl (hsched.fades h v)

/-- Outside a wait no flag is set. -/
theorem BitsOk.outside {r r' : Uthread} (h : BitsOk r) (hk : r.ctx.waitBit = none) (hk' : r'.ctx.waitBit = none)
    (hwait : ∀ e : UthreadEvent, r'.status.has e.waitSt = true → r.status.has e.waitSt = true) : BitsOk r' := by
  constructor
  · intro e he
    have hnone := h.only e (hwait e he)
    rw [hk] at hnone
    cases hnone
  · intro e he
    rw [hk'] at he
    cases he

/-- Within a wait the flag stays. -/
theorem BitsOk.within {r r' : Uthread} (h : BitsOk r) (hk : r'.ctx.waitBit = r.ctx.waitBit)
    (hwait : ∀ e : UthreadEvent, r'.status.has e.waitSt = r.status.has e.waitSt)
    (hset : r'.ctx.publishing = true ∨ r'.status.has .sleeping = true →
      r.ctx.publishing = true ∨ r.status.has .sleeping = true) : BitsOk r' := by
  constructor
  · intro e he
    rw [hwait] at he
    rw [hk]
    exact h.only e he
  · intro e he hs
    rw [hk] at he
    rw [hwait]
    exact h.set e he (hset hs)

theorem Own.bits {now : Nat} {k k' : Ctx} {f : Uthread → Uthread} (h : Own now k f k') {x : Uthread}
    (hx : x.ctx = k) (hok : BitsOk x) : BitsOk {f x with ctx := k'} := by
  cases h with
  | yieldFlag => exact hok.outside (by rw [hx]; rfl) rfl fun _ he => he
  | clock w | flag w | sleepYield w =>
    cases w with
    | join t v => exact hok.outside (by rw [hx]; rfl) rfl fun _ he => he
    | event c =>
      refine hok.within (by rw [hx]; rfl) (fun _ => rfl) fun hs => ?_
      rw [hx]
      exact hs
  | mark w =>
    cases w with
    | join t v =>
      refine hok.outside (by rw [hx]; rfl) rfl fun e he => ?_
      cases e <;> simpa [UthreadEvent.waitSt] using he
    | event c =>
      refine hok.within (by rw [hx]; rfl) (fun e => ?_) fun _ => .inl (by rw [hx]; rfl)
      cases e <;> simp [UthreadEvent.waitSt]
  | wake w =>
    cases w with
    | join t v =>
      refine hok.outside (by rw [hx]; rfl) rfl fun e he => ?_
      cases e <;> simpa [UthreadEvent.waitSt] using he
    | event c =>
      refine hok.within (by rw [hx]; rfl) (fun e => ?_) fun hs => ?_
      · cases e <;> simp [UthreadEvent.waitSt]
      · simp [Wait.return, Ctx.publishing] at hs
  | status c =>
    have hnone : ∀ e : UthreadEvent, x.status.has e.waitSt = false := by
      intro e
      rw [Bool.eq_false_iff]
      intro he
      have hbit := hok.only e he
      rw [hx] at hbit
      cases hbit
    constructor
    · intro e he
      have hadd : decide (c.event.waitSt = e.waitSt) = true := by simpa [hnone] using he
      have hev : c.event = e := by
        generalize c.event = e' at hadd
        cases e' <;> cases e <;> first | rfl | cases hadd
      rw [← hev]
      rfl
    · intro e he _
      cases he
      simp
  | key c =>
    exact hok.within (by rw [hx]; rfl) (fun _ => rfl) fun _ => .inl (by rw [hx]; rfl)
  | unkey c =>
    refine hok.within (by rw [hx]; rfl) (fun _ => rfl) fun hs => ?_
    rw [hx]
    exact hs
  | unstatus c =>
    constructor
    · intro e he
      simp only [Status.has_del, Bool.and_eq_true] at he
      have hbit := hok.only e he.2
      rw [hx] at hbit
      cases hbit
      simp at he
    · intro e he
      cases he
  | exitMark v =>
    refine hok.outside (by rw [hx]; rfl) ?_ fun e he => ?_
    · cases v <;> rfl
    · cases e <;> simpa [UthreadEvent.waitSt] using he
  | exitYield v => exact hok.outside (by rw [hx]; rfl) rfl fun _ he => he

theorem Moves.waitBit {r : Reply} {k k' : Ctx} (h : Moves a u r s k k') :
    k.waitBit = none ∧ k'.waitBit = none := by
  cases h <;> exact ⟨rfl, rfl⟩

theorem Switches.bits {k k' : Ctx} (h : Switches k k') {x : Uthread} (hx : x.ctx = k) (hok : BitsOk x) :
    BitsOk {x with ctx := k'} ∧ k'.publishing = false := by
  refine ⟨?_, by cases h <;> rfl⟩
  cases h with
  | yield | exit v => exact hok.outside (by rw [hx]; rfl) rfl fun _ he => he
  | sleep w =>
    cases w with
    | join t v => exact hok.outside (by rw [hx]; rfl) rfl fun _ he => he
    | event c =>
      refine hok.within (by rw [hx]; rfl) (fun _ => rfl) fun hs => ?_
      rw [hx]
      exact hs

/-- A statement keeps the flags of its uthread. -/
theorem Stmt.bits {r : Reply} (hs : Stmt a u r s s') (hu : u < s.heap) (hok : BitsOk (s.ut u)) : BitsOk (s'.ut u) := by
  have hgoto : ∀ {k : Ctx} {s₀ : State}, (goto u k s₀).ut u = {s₀.ut u with ctx := k} := by
    intro k s₀
    unfold goto
    rw [setUt_ut_self]
  have hret : ∀ {k : Ctx} {x : Int} {s₀ : State}, (s.ut u).ctx = k → k.waitBit = none →
      (s₀.ut u).status = (s.ut u).status → BitsOk ((returns a u x s₀).ut u) := by
    intro k x s₀ hctx hk hstatus
    unfold returns
    rw [setUt_ut_self]
    refine hok.outside (by rw [hctx]; exact hk) rfl fun e he => ?_
    rwa [← hstatus]
  have hgo : ∀ {k k' : Ctx} {s₀ : State}, (s.ut u).ctx = k → k.waitBit = none → k'.waitBit = none →
      (s₀.ut u).status = (s.ut u).status → BitsOk ((goto u k' s₀).ut u) := by
    intro k k' s₀ hctx hk hk' hstatus
    rw [hgoto]
    refine hok.outside (by rw [hctx]; exact hk) hk' fun e he => ?_
    rwa [← hstatus]
  have hkeep : ∀ {t : UId} {f : Uthread → Uthread}, (∀ x, (f x).status = x.status) →
      ((s.setUt t f).ut u).status = (s.ut u).status := by
    intro t f hf
    exact setUt_keeps Uthread.status (hf _) u
  cases hs with
  | own hctx hown =>
    rw [hgoto, setUt_ut_self]
    exact hown.bits hctx hok
  | moves hm =>
    obtain ⟨hk, hk'⟩ := hm.waitBit
    exact hgo rfl hk hk' rfl
  | io hctx h₀ hk' =>
    refine hgo hctx rfl ?_ ?_
    · rcases hk' with ⟨c, pc, rfl⟩ | ⟨c, rfl⟩ <;> rfl
    · rcases h₀ with rfl | ⟨e, rfl⟩ <;> rfl
  | ioReturns hctx h₀ | diskCall hctx h₀ =>
    refine hret hctx rfl ?_
    rcases h₀ with rfl | ⟨e, rfl⟩ <;> rfl
  | @linkSleeping w q t hctx _ _ =>
    rw [hgoto]
    cases w with
    | join t v => exact hok.outside (by rw [hctx]; rfl) rfl fun _ he => he
    | event c => exact hok.within (by rw [hctx]; rfl) (fun _ => rfl) fun _ => .inl (by rw [hctx]; rfl)
  | watch hctx _ _ => exact hgo hctx rfl rfl rfl
  | linkWaiting hctx _ =>
    rw [hgoto]
    exact hok.within (by rw [hctx]; rfl) (fun _ => rfl) fun _ => .inl (by rw [hctx]; rfl)
  | joinFails hctx | joinExited hctx _ | joinFree hctx => exact hret hctx rfl rfl
  | publish hctx | setRetval hctx | unpublish hctx | diskFlag hctx _ =>
    exact hgo hctx rfl rfl (hkeep fun _ => rfl)
  | resetRetval hctx => exact hret hctx rfl (hkeep fun _ => rfl)
  | store hctx =>
    refine hgo hctx rfl rfl ?_
    rw [storeRetval_ut]
  | switch hctx hk hsw =>
    obtain ⟨hok', hpub⟩ := hk.bits hctx hok
    have hfades := AllFade.switched hsw u
    rw [hgoto] at hfades
    exact hok'.fades hfades hpub
  | allocFails hctx _ =>
    rcases hctx with ⟨c, hctx⟩ | ⟨c, id, hctx⟩
    · exact hret hctx rfl rfl
    · exact hret hctx rfl rfl
  | lock hctx _ | count hctx | unlock hctx | handOff hctx _ _ _ => exact hgo hctx rfl rfl rfl
  | created hctx _ =>
    refine hret hctx rfl ?_
    rw [created_ut_of_lt hu]

theorem Call.head_waitBit (c : Call) : c.head.waitBit = none := by
  cases c <;> rfl

theorem Entered.bits {c : Call} (hs : Entered a u s c s') (huser : (s.ut u).ctx = .user) (hok : BitsOk (s.ut u)) :
    BitsOk (s'.ut u) := by
  refine hok.outside (by rw [huser]; rfl) (by rw [hs.ctx]; exact c.head_waitBit) fun e he => ?_
  have hent : ∀ {c}, ((entered u c s).ut u).status = (s.ut u).status := by
    intro c
    unfold entered
    rw [setUt_ut_self]
  cases hs with
  | goes _ _ _ =>
    unfold goto at he
    rw [setUt_ut_self] at he
    rwa [hent] at he
  | @detach t _ =>
    unfold returns at he
    rw [setUt_ut_self] at he
    dsimp only at he
    rw [setUt_ut] at he
    split at he
    · rename_i ht
      subst ht
      rw [← hent (c := .detach u)]
      cases e <;> simpa [UthreadEvent.waitSt] using he
    · rwa [hent] at he
  | close =>
    unfold returns at he
    rw [setUt_ut_self, closeFd_ut] at he
    rwa [hent] at he

end Statements

/-! ### Runs -/

/-- What the four entries of a wait need of each other, at every step. -/
structure MirrorInv (s : State) : Prop where
  sound : Sound s
  inv : Inv s.board
  cover : Cover s.board
  watchful : Watchful s.board
  bits : ∀ u < s.heap, (s.ut u).life = .live → BitsOk (s.ut u)

section Runs

variable {s s' : State} {act : Act}

/-- Nobody but the uthread that acts is publishing a wait. -/
theorem Calm.not_publishing (hcalm : Calm s act) (hi : Inv s.board) {v : UId} (hv : (s.ut v).life = .live)
    (hact : ∀ a r, act = .stmt a r → (s.sched a).curUthread ≠ some v) : (s.ut v).ctx.publishing = false := by
  rw [Bool.eq_false_iff]
  intro hp
  obtain ⟨a, ha⟩ := (hi.wf (u := v) hv).onCpu_of_publishing ((Ctx.publishing_mode _).trans hp)
  obtain ⟨r, hr⟩ := (hcalm a v ha).1 hp
  exact hact a r hr ha

theorem MirrorInv.step_bits (h : MirrorInv s) (hcalm : Calm s act) (hs : step s act = .ok s') {v : UId}
    (hv : v < s'.heap) (hl : (s'.ut v).life = .live) : BitsOk (s'.ut v) := by
  rcases step_born h.sound hs hv with hlt | ⟨huser, hnew, -⟩
  · have hlive : (s.ut v).life = .live := by
      rcases step_life h.sound hs hlt with hlife | ⟨hf, -⟩
      · rw [← hlife]
        exact hl
      · rw [hf] at hl
        cases hl
    have hok := h.bits v hlt hlive
    rcases step_fades h.sound hs hlt with hfades | ⟨b, c, rfl, hc, hent⟩ | ⟨b, r, rfl, hc, hstmt⟩
    · by_cases hown : ∃ a r, act = .stmt a r ∧ (s.sched a).curUthread = some v
      · obtain ⟨a, r, rfl, hc⟩ := hown
        cases step_ok hs with
        | stmt hc' hstmt =>
          cases hc.symm.trans hc'
          exact hstmt.bits hlt hok
      · refine hok.fades hfades (hcalm.not_publishing h.inv hlive fun a r hact hc => hown ⟨a, r, hact, hc⟩)
    · cases step_ok hs with
      | call hc' huser _ =>
        cases hc.symm.trans hc'
        exact hent.bits huser hok
    · exact hstmt.bits hlt hok
  · constructor
    · intro e he
      rw [hnew] at he
      cases e <;> simp [UthreadEvent.waitSt] at he
    · intro e he
      rw [huser] at he
      cases he

theorem MirrorInv.step (h : MirrorInv s) (hcalm : Calm s act) (hkeep : KeepsWatched s act)
    (hs : step s act = .ok s') : MirrorInv s' := by
  obtain ⟨hi', hcov'⟩ := cover_step h.sound h.inv h.cover hcalm hkeep hs
  refine ⟨h.sound.step hs, hi', hcov', ?_, fun v hv hl => h.step_bits hcalm hs hv hl⟩
  rcases refines_step h.sound h.inv hcalm hs with ⟨a, fd, hact, hb⟩ | hb | hm
  · rw [hb, closed_unwatched (hkeep a fd hact)]
    exact h.watchful
  · rw [hb]
    exact h.watchful
  · exact h.watchful.move h.cover h.inv hcalm.alone hm

theorem MirrorInv.initial : MirrorInv init := by
  refine ⟨Sound.initial, inv_initial, cover_initial, ⟨fun {q fd} hin => ?_⟩, fun u hu _ => ?_⟩
  · have hin' : fd ∈ (init.p q).interest.map Interest.fd := hin
    rw [(init_links q).2.2] at hin'
    cases hin'
  · rw [Nat.lt_one_iff.mp hu]
    constructor
    · intro e he
      cases e <;> cases he
    · intro e he
      cases he

theorem MirrorInv.of_reaches (h : Reaches (fun s act => Calm s act ∧ KeepsWatched s act) s) : MirrorInv s :=
  Run.Reaches.invariant h MirrorInv.initial fun _ _ _ hok hC hs => hok.step hC.1 hC.2 hs

end Runs

/-! ### Between library calls -/

/-- The uthread of `q` sleeps in its wait for the event of the descriptor. -/
def State.Awaits (s : State) (q : PId) (u : UId) (fd : Int) (e : UthreadEvent) : Prop :=
  (s.ut u).life = .live ∧ (s.ut u).p = some q ∧ (s.ut u).status.has .sleeping = true ∧
    ∃ c pc, (s.ut u).ctx = .sleep (.event c) pc ∧ c.fd = fd ∧ c.event = e

/-- The interest sets, the waiting trees, the keys and the flags tell the same waits. -/
structure Mirror (s : State) : Prop where
  interest_iff : ∀ q fd, fd ∈ (s.p q).interest.map Interest.fd ↔
    ∃! u, u ∈ (s.p q).waiting ∧ fdOnly (s.ut u).fdWait = fd
  bits : ∀ q u, u ∈ (s.p q).waiting → ∃ e : UthreadEvent, fdEvent (s.ut u).fdWait = e.toNat ∧
    ∀ e' : UthreadEvent, (s.ut u).status.has e'.waitSt = decide (e' = e)
  waiting_iff : ∀ q u fd (e : UthreadEvent), (u ∈ (s.p q).waiting ∧ fdOnly (s.ut u).fdWait = fd ∧
    fdEvent (s.ut u).fdWait = e.toNat) ↔ s.Awaits q u fd e
  found_iff : ∀ a q u fd (e : UthreadEvent), (s.sched a).p = some q →
    ((∃ s', uthreadDeschedEvent a fd e.toNat s = .ok (some u, s')) ↔ s.Awaits q u fd e)

section Quiet

variable {s : State} {q : PId} {u : UId} {fd : Int} {e : UthreadEvent}

theorem State.Awaits.waitsFor (h : s.Awaits q u fd e) : (s.board.task u).WaitsFor (.event fd e) := by
  obtain ⟨-, -, hs, c, pc, hctx, rfl, rfl⟩ := h
  have hmode : (s.board.task u).mode = Ctx.mode (.sleep (.event c) pc) := congrArg Ctx.mode hctx
  cases pc with
  | clock | insert => exact .inl hmode
  | mark => exact .inr (.inl hmode)
  | flag | yieldFlag | switch => exact .inr (.inr ⟨hs, .inl hmode⟩)
  | wake => exact .inr (.inr ⟨hs, .inr hmode⟩)

/-- The modes of a wait for an event are those of a sleep for it. -/
theorem Ctx.sleep_of_waits {k : Ctx} (h : k.mode = .arming (.event fd e) ∨ k.mode = .linked (.event fd e) ∨
      k.mode = .parking (.event fd e) ∨ k.mode = .parked (.event fd e)) :
    ∃ c pc, k = .sleep (.event c) pc ∧ c.fd = fd ∧ c.event = e := by
  cases k with
  | sleep w pc =>
    cases w with
    | join t v => cases pc <;> simp [Ctx.mode, Wait.goal] at h
    | event c =>
      refine ⟨c, pc, rfl, ?_⟩
      cases pc <;> simpa [Ctx.mode, Wait.goal] using h
  | join t v pc => cases pc <;> simp [Ctx.mode] at h
  | register c pc => cases pc <;> simp [Ctx.mode] at h
  | exit v pc => cases pc <;> simp [Ctx.mode] at h
  | _ => simp [Ctx.mode] at h

theorem MirrorInv.awaits_of_waits (h : MirrorInv s) (hq : Quiet s) (hl : (s.ut u).life = .live)
    (hp : (s.ut u).p = some q) (hw : (s.board.task u).WaitsFor (.event fd e)) : s.Awaits q u fd e := by
  have ha := hq.asleep_of_waits h.inv hl hw
  refine ⟨hl, hp, ha, Ctx.sleep_of_waits ?_⟩
  rcases hw with hm | hm | ⟨-, hm | hm⟩
  · exact .inl hm
  · exact .inr (.inl hm)
  · exact .inr (.inr (.inl hm))
  · exact .inr (.inr (.inr hm))

/-- Who is in the tree waits for what its key says. -/
theorem MirrorInv.awaits_of_mem (h : MirrorInv s) (hq : Quiet s) (hu : u ∈ (s.p q).waiting) :
    ∃ fd e, s.Awaits q u fd e ∧ (s.ut u).fdWait = waitKey fd e := by
  obtain ⟨hl, hp, fd, e, hw⟩ := h.inv.waiting_mem (b := s.board) hu
  exact ⟨fd, e, h.awaits_of_waits hq hl hp hw, (hw.key_eq (h.inv.wf hl)).1⟩

/-- And who waits is in the tree, under the key of its wait. -/
theorem MirrorInv.mem_of_awaits (h : MirrorInv s) (hw : s.Awaits q u fd e) :
    u ∈ (s.p q).waiting ∧ (s.ut u).fdWait = waitKey fd e :=
  ⟨h.cover.queued (b := s.board) hw.1 hw.2.1 hw.waitsFor, (hw.waitsFor.key_eq (h.inv.wf hw.1)).1⟩

theorem MirrorInv.waiting_iff (h : MirrorInv s) (hq : Quiet s) :
    (u ∈ (s.p q).waiting ∧ fdOnly (s.ut u).fdWait = fd ∧ fdEvent (s.ut u).fdWait = e.toNat) ↔
      s.Awaits q u fd e := by
  constructor
  · rintro ⟨hu, hfd, he⟩
    obtain ⟨f, e', hw, hk⟩ := h.awaits_of_mem hq hu
    rw [hk, fdOnly_waitKey] at hfd
    rw [hk, fdEvent_waitKey] at he
    have hev : e' = e := by
      cases e' <;> cases e <;> simp_all [UthreadEvent.toNat]
    rw [← hfd, ← hev]
    exact hw
  · intro hw
    obtain ⟨hu, hk⟩ := h.mem_of_awaits hw
    rw [hk, fdOnly_waitKey, fdEvent_waitKey]
    exact ⟨hu, rfl, rfl⟩

theorem MirrorInv.interest_iff (h : MirrorInv s) (hq : Quiet s) : fd ∈ (s.p q).interest.map Interest.fd ↔
    ∃! u, u ∈ (s.p q).waiting ∧ fdOnly (s.ut u).fdWait = fd := by
  have hholds : ∀ {v}, v ∈ (s.p q).waiting → fdOnly (s.ut v).fdWait = fd →
      s.board.live v ∧ (s.board.task v).home = some q ∧ (s.board.task v).Holds fd := by
    intro v hv hfd
    obtain ⟨f, e, hw, hk⟩ := h.awaits_of_mem hq hv
    rw [hk, fdOnly_waitKey] at hfd
    subst hfd
    exact ⟨hw.1, hw.2.1, .inr ⟨e, hw.waitsFor⟩⟩
  constructor
  · intro hin
    obtain ⟨u, hl, hp, hh⟩ := h.watchful.held (b := s.board) hin
    -- nobody is on the way into a wait, so who holds the descriptor waits for it
    have hwaits : ∃ e, (s.board.task u).WaitsFor (.event fd e) := by
      rcases hh with ⟨e, hm⟩ | hw
      · have hpub := hq.not_publishing h.inv hl
        have hm' : (s.ut u).ctx.mode = .registered fd e ∨ (s.ut u).ctx.mode = .keyed fd e := hm
        rcases hm' with hm' | hm' <;> rw [hm'] at hpub <;> cases hpub
      · exact hw
    obtain ⟨e, hw⟩ := hwaits
    obtain ⟨hu, hk⟩ := h.mem_of_awaits (h.awaits_of_waits hq hl hp hw)
    refine ⟨u, ⟨hu, by rw [hk, fdOnly_waitKey]⟩, fun v hv => ?_⟩
    obtain ⟨hvl, hvp, hvh⟩ := hholds hv.1 hv.2
    exact h.cover.one_each hvl hl hvp hp hvh (.inr ⟨e, hw⟩)
  · rintro ⟨u, ⟨hu, hfd⟩, -⟩
    obtain ⟨hl, hp, hh⟩ := hholds hu hfd
    exact h.cover.watched hl hp hh

theorem MirrorInv.wait_bits (h : MirrorInv s) (hq : Quiet s) (hu : u ∈ (s.p q).waiting) :
    ∃ e : UthreadEvent, fdEvent (s.ut u).fdWait = e.toNat ∧
      ∀ e' : UthreadEvent, (s.ut u).status.has e'.waitSt = decide (e' = e) := by
  obtain ⟨fd, e, ⟨hl, -, hs, c, pc, hctx, rfl, rfl⟩, hk⟩ := h.awaits_of_mem hq hu
  refine ⟨c.event, by rw [hk, fdEvent_waitKey], fun e' => ?_⟩
  have hok := h.bits u (h.sound.waiting hu) hl
  have hbit : (s.ut u).ctx.waitBit = some c.event := by rw [hctx]; rfl
  by_cases he : e' = c.event
  · rw [decide_eq_true he, he]
    exact hok.set _ hbit (.inr hs)
  · rw [decide_eq_false he, Bool.eq_false_iff]
    intro hhas
    exact he (Option.some.inj ((hok.only e' hhas).symm.trans hbit))

theorem MirrorInv.found_iff (h : MirrorInv s) (hq : Quiet s) {a : SId} (hb : (s.sched a).p = some q) :
    (∃ s', uthreadDeschedEvent a fd e.toNat s = .ok (some u, s')) ↔ s.Awaits q u fd e := by
  obtain ⟨found, s', hd⟩ := uthreadDeschedEvent_succeeds h.sound hb fd e.toNat
  obtain ⟨q', hb', hfind, -⟩ := uthreadDeschedEvent_ok hd
  obtain rfl : q' = q := Option.some.inj (hb'.symm.trans hb)
  constructor
  · rintro ⟨s'', hs''⟩
    rw [hd] at hs''
    cases hs''
    obtain ⟨hu, hk⟩ := Tree.find_eq_some hfind
    refine (h.waiting_iff hq).mp ⟨hu, ?_, ?_⟩
    · rw [hk]
      exact fdOnly_waitKey fd e
    · rw [hk]
      exact fdEvent_waitKey fd e
  · intro hw
    obtain ⟨hu, hk⟩ := h.mem_of_awaits hw
    have hfound : findWaiting s (waitKey fd e) (s.p q').waiting = some u := by
      unfold findWaiting
      rw [← hk]
      exact Tree.find_of_mem hu fun v hv hvk => h.inv.waiting_inj (b := s.board) hv hu hvk
    rw [hfound] at hfind
    rw [← hfind] at hd
    exact ⟨s', hd⟩

end Quiet

/-- **The interest set mirrors the waiting tree** between library calls, in every calm run in
which no watched descriptor is closed: a descriptor is watched when exactly one uthread waits for
it, that uthread has the flag of its event and not the other, and a search by descriptor and event
finds exactly who waits for them. -/
theorem mirror_of_reaches {s : State} (h : Reaches (fun s act => Calm s act ∧ KeepsWatched s act) s)
    (hq : Quiet s) : Mirror s := by
  have hinv := MirrorInv.of_reaches h
  constructor
  case interest_iff => exact fun q fd => hinv.interest_iff hq
  case bits => exact fun q u hu => hinv.wait_bits hq hu
  case waiting_iff => exact fun q u fd e => hinv.waiting_iff hq
  case found_iff => exact fun a q u fd e hb => hinv.found_iff hq hb

/-- Main waits for a descriptor to become readable, and the uthread it created runs. -/
def readerWaits : List Act := blockedRead 10 ++ scheds 0 8

theorem readerWaits_mirror : ∃ s, Reaches (fun s act => Calm s act ∧ KeepsWatched s act) s ∧ Quiet s ∧ Mirror s ∧
    (s.sched 0).curUthread = some 1 ∧ (s.p 0).interest.map Interest.fd = [5] ∧ (s.p 0).waiting = [0] := by
  have hread : (Run.checked step atomicCheck init readerWaits).map (fun s =>
      (forallCur (fun _ u => (s.ut u).ctx.outside) s, (s.sched 0).curUthread,
        (s.p 0).interest.map Interest.fd, (s.p 0).waiting)) = some (true, some 1, [5], [0]) := by decide +kernel
  obtain ⟨s, hs, hread⟩ := Option.map_eq_some_iff.mp hread
  simp only [Prod.mk.injEq] at hread
  obtain ⟨hquiet, hrest⟩ := hread
  have hreach := calm_of_atomic (reaches_of_atomicCheck hs)
  have hq : Quiet s := fun a u hc => (Few.of_reaches hreach).forallCur hquiet hc
  exact ⟨s, hreach, hq, mirror_of_reaches hreach hq, hrest⟩

def Act.isPreempt : Act → Bool
  | .preempt _ => true
  | _ => false

/-- Main and the uthread it created run on two threads. The other ends after main has marked
itself as asleep in its join, and before main has switched away. -/
def joinHit : List Act :=
  createdRuns ++ calls 0 .disk 4 ++ scheds 1 5 ++ calls 1 (.join 1 none) 9 ++ calls 0 .finish 3 ++ stmts 1 3

/-- Queued twice by that, main comes back from its join and blocks in a read. The second entry
of the queue resumes it there, and the read returns. -/
def readTwice : List Act :=
  joinHit ++ scheds 1 8 ++ stmts 1 3 ++ calls 1 (.io ⟨.read, 5, 1, 0⟩) 2 ++
    [.stmt 1 {ret := -1, errno := .eagain}] ++ stmts 1 12 ++ scheds 1 8 ++ stmts 1 6 ++
    [.stmt 1 {ret := 1}] ++ stmts 1 2

/-- The descriptor is watched for ever, and nobody waits for it. -/
theorem readTwice_not_mirror : ∃ s, exec readTwice = .ok s ∧
    readTwice.all (fun act => !act.isPreempt && !act.isClose) = true ∧ Quiet s ∧
    (s.sched 1).curUthread = some 0 ∧ (s.ut 0).ctx = .user ∧ 5 ∈ (s.p 0).interest.map Interest.fd ∧
    (s.p 0).waiting = [0] ∧ (s.ut 0).fdWait = -1 ∧ ¬Mirror s := by
  have hread : (exec readTwice).toOption.map (fun s =>
      (decide (forallCur (fun _ u => (s.ut u).ctx.outside) s = true ∧ (s.sched 1).curUthread = some 0 ∧
          (s.ut 0).ctx = .user),
        decide (5 ∈ (s.p 0).interest.map Interest.fd ∧ (s.p 0).waiting = [0] ∧ (s.ut 0).fdWait = -1))) =
      some (true, true) := by decide +kernel
  obtain ⟨s, hs, hread⟩ := Option.map_eq_some_iff.mp hread
  simp only [Prod.mk.injEq, decide_eq_true_eq] at hread
  obtain ⟨⟨hquiet, hc, hctx⟩, hin, hwaiting, hkey⟩ := hread
  have hfew : Few s := Few.of_reaches (Run.reaches_of_run (ok_of_toOption hs))
  refine ⟨s, ok_of_toOption hs, by decide +kernel, fun a u hc => hfew.forallCur hquiet hc, hc, hctx, hin, hwaiting,
    hkey, fun hmirror => ?_⟩
  obtain ⟨u, ⟨hu, hfd⟩, -⟩ := (hmirror.interest_iff 0 5).mp hin
  rw [hwaiting, List.mem_singleton] at hu
  rw [hu, hkey] at hfd
  exact absurd hfd (by decide)

end UthreadRuntime
