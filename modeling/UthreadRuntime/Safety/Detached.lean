import UthreadRuntime.Safety.Events
import UthreadRuntime.Safety.Pointers

/-! After a hand-off.

The sched that handed its p off has none. Its loop finds out at some of the places a
uthread comes back to and not at others, and the uthread itself goes on with library
code that reaches the queues through the sched. -/
namespace UthreadRuntime

open State

/-! ### The loop that has lost its p -/

/-- The loop tests its p before it uses it. -/
def SchedAt.checksP : SchedAt → Bool
  | .top | .readyAfter _ _ | .pollCheck | .events | .done => true
  | _ => false

theorem SchedAt.not_usesP_of_checksP {k : SchedAt} (h : k.checksP = true) : k.usesP = false := by
  cases k with
  | another => cases h
  | lastReady => cases h
  | ready last => cases h
  | poll => cases h
  | handleWr fd eof => cases h
  | _ => rfl

/-- A p is handed off only where the loop that loses it tests its p next. -/
def HandsOffChecked (s : State) (act : Act) : Prop :=
  ∀ c ∈ handingOff s act, (s.sched c).pc.checksP = true

instance (s : State) (act : Act) : Decidable (HandsOffChecked s act) :=
  inferInstanceAs (Decidable (∀ c ∈ handingOff s act, (s.sched c).pc.checksP = true))

/-- The context is that of a switch to the scheduler. -/
def Ctx.switches : Ctx → Bool
  | .yieldSwitch | .sleep _ .switch | .exit _ .switch => true
  | _ => false

theorem followsNull_of_switches {s : State} {a : SId} {u : UId} {k : Ctx} (h : k.switches = true) :
    FollowsNull s a u k ↔ (s.sched a).p = none ∧ (s.ut u).Plain := by
  cases k with
  | yieldSwitch => exact Iff.rfl
  | sleep w pc =>
    cases pc with
    | switch => exact Iff.rfl
    | _ => cases h
  | exit v pc =>
    cases pc with
    | switch => exact Iff.rfl
    | _ => cases h
  | _ => cases h

/-- The sched with the uthread it runs, if that passes a test. -/
def running (s : State) (a : SId) (t : Uthread → Bool) : Option (SId × UId) :=
  match (s.sched a).curUthread with
  | none => none
  | some u => if t (s.ut u) then some (a, u) else none

theorem running_eq_some {s : State} {a b : SId} {u : UId} {t : Uthread → Bool} :
    running s a t = some (b, u) ↔ b = a ∧ (s.sched a).curUthread = some u ∧ t (s.ut u) = true := by
  unfold running
  split
  · rename_i hc
    simp [hc]
  · rename_i v hc
    split
    · rename_i ht
      constructor
      · intro h
        cases h
        exact ⟨rfl, hc, ht⟩
      · rintro ⟨rfl, hu, -⟩
        rw [Option.some.inj (hc.symm.trans hu)]
    · rename_i ht
      constructor
      · intro h
        cases h
      · rintro ⟨-, hu, ht'⟩
        rw [Option.some.inj (hc.symm.trans hu)] at ht
        exact absurd ht' ht

/-- The sched, and the uthread that the action takes off it. -/
def switching (s : State) : Act → Option (SId × UId)
  | .stmt a _ => running s a fun v => v.ctx.switches
  | .preempt a => running s a fun v => v.isWatingYieldSignal
  | _ => none

/-- A switch follows NULL when the uthread must be queued and there is no p. -/
theorem switching_follows {s : State} {act : Act} {a : SId} {u : UId} (h : switching s act = some (a, u)) :
    ActFollowsNull s act ↔ (s.sched a).p = none ∧ (s.ut u).Plain := by
  cases act with
  | call b c => cases h
  | sched b r => cases h
  | stmt b r =>
    obtain ⟨rfl, hc, hsw⟩ := (running_eq_some (t := fun v => v.ctx.switches)).mp h
    unfold ActFollowsNull
    simp [hc, followsNull_of_switches hsw]
  | preempt b =>
    obtain ⟨rfl, hc, hflag⟩ := (running_eq_some (t := fun v => v.isWatingYieldSignal)).mp h
    unfold ActFollowsNull
    simp [hc, hflag]

/-- A uthread whose sched has no p gives the CPU back only when it has exited or gone to sleep. -/
def ReturnsDone (s : State) (act : Act) : Prop :=
  ∀ au ∈ switching s act, (s.sched au.1).p = none → ¬(s.ut au.2).Plain

instance (s : State) (act : Act) : Decidable (ReturnsDone s act) :=
  inferInstanceAs (Decidable (∀ au ∈ switching s act, (s.sched au.1).p = none → ¬(s.ut au.2).Plain))

/-- A sched without a p is idle, or its loop stands where the p is tested. -/
def Tested (s : State) : Prop :=
  ∀ a, (s.sched a).p = none → (s.sched a).pc = .off ∨ (s.sched a).pc.checksP = true

theorem Tested.schedRun {s s' : State} {a : SId} {r : Reply} (h : Tested s)
    (hs : schedRun a r s = .ok s') : Tested s' := by
  have hl := schedRun_local hs
  intro c hc
  rw [hl.bound] at hc
  by_cases hca : c = a
  · subst hca
    have hpc : (s.sched c).pc.checksP = true := by
      rcases h c hc with hoff | hpc
      · exact absurd hoff (schedRun_ok hs).started
      · exact hpc
    have hno : ∀ {q}, (s.sched c).p = some q → False := by
      intro q hq
      rw [hc] at hq
      cases hq
    cases schedRun_ok hs with
    | @goes k hgo =>
      have hk := setPc_pc c k s
      rw [hk]
      right
      generalize (s.sched c).pc = k₀ at hgo hpc
      cases hgo with
      | work hq => exact (hno hq).elim
      | noneDue _ => cases hpc
      | last hq => exact (hno hq).elim
      | empty _ hq _ => exact (hno hq).elim
      | again _ _ hq => exact (hno hq).elim
      | poll hq => exact (hno hq).elim
      | _ => rfl
    | another _ hq => exact (hno hq).elim
    | expired _ hq _ _ _ _ => exact (hno hq).elim
    | ready _ hq _ => exact (hno hq).elim
    | noPoll _ hq => exact (hno hq).elim
    | polled _ hq _ => exact (hno hq).elim
    | took _ hq _ _ _ => exact (hno hq).elim
    | handled hpc' _ =>
      rw [hpc'] at hpc
      cases hpc
    | halted _ => exact .inr hpc
  · rw [hl.pc c hca]
    exact h c hc

theorem Tested.step {s s' : State} {act : Act} (h : Tested s) (hsnd : Sound s)
    (hc : HandsOffChecked s act) (hs : step s act = .ok s') : Tested s' := by
  rcases step_frame hs with ⟨a, r, -, -, hrun⟩ | ⟨-, hstill⟩ |
      ⟨a, r, u, rfl, hcur, c, q, n, rest, hctx, hq, hready, hidle, rfl⟩
  · exact h.schedRun hrun
  · intro d hd
    rw [hstill.bound] at hd
    rw [hstill.pc]
    exact h d hd
  · obtain ⟨-, hnc, -⟩ := hsnd.idle_ne hq hidle
    intro d hd
    have hd' : ((handedOff c n q rest s).sched d).p = none := hd
    show ((handedOff c n q rest s).sched d).pc = .off ∨ ((handedOff c n q rest s).sched d).pc.checksP = true
    rw [handedOff_sched hnc] at hd' ⊢
    split
    · exact .inr (hc c (handingOff_of_handsOver hcur hctx hq hready))
    · rename_i hdc
      rw [if_neg hdc] at hd'
      split
      · rename_i hdn
        rw [if_pos hdn] at hd'
        cases hd'
      · rename_i hdn
        rw [if_neg hdn] at hd'
        exact h d hd'

theorem Tested.initial : Tested init := by
  intro a ha
  by_cases ha0 : a = 0
  · rw [ha0] at ha
    cases ha
  · left
    rw [init_sched ha0]

/-- The action is a step of a scheduler: of its loop, or of `_uthread_resume` once the uthread
has switched back. -/
def InSched (s : State) (act : Act) : Prop := (∃ a r, act = .sched a r) ∨ (switching s act).isSome = true

/-- **The scheduler follows no NULL p, in every run whose hand-offs happen where the loop tests
its p and whose uthreads come back to a sched without one only to sleep or to exit.** -/
theorem sched_follows_no_null {s : State} {act : Act}
    (hreach : Reaches (fun s act => HandsOffChecked s act ∧ ReturnsDone s act) s)
    (hc : ReturnsDone s act) (hin : InSched s act) : ¬NullP (step s act) := by
  obtain ⟨hsnd, htested⟩ : Sound s ∧ Tested s :=
    Sound.initial.invariant hreach Tested.initial fun _ _ _ hs ht hc hstep => ht.step hs hc.1 hstep
  cases hhalt : s.halted with
  | true => simp [step, hhalt]
  | false =>
    rw [step_nullP hsnd hhalt]
    intro hnull
    rcases hin with ⟨a, r, rfl⟩ | hsw
    · obtain ⟨-, hp, huses⟩ := hnull
      rcases htested a hp with hoff | hpc
      · rw [hoff] at huses
        cases huses
      · rw [SchedAt.not_usesP_of_checksP hpc] at huses
        cases huses
    · obtain ⟨⟨a, u⟩, hau⟩ := Option.isSome_iff_exists.mp hsw
      obtain ⟨hp, hplain⟩ := (switching_follows hau).mp hnull
      exact hc (a, u) hau hp hplain

/-- Main, resumed from the ready queue, hands the p off and exits; its loop goes on. -/
theorem handedOff_exit_is_safe : ∃ s,
    Reaches (fun s act => HandsOffChecked s act ∧ ReturnsDone s act) s ∧ (s.sched 0).p = none ∧
    (s.sched 0).curUthread = none ∧ ¬NullP (step s (.sched 0 {})) := by
  have hread : (Run.checked step (fun s act => decide (HandsOffChecked s act ∧ ReturnsDone s act)) init
      (boot ++ calls 0 .disk 4 ++ calls 0 .mainEnd 3)).map (fun s =>
      ((s.sched 0).p, (s.sched 0).curUthread)) = some (none, none) := by decide +kernel
  obtain ⟨s, hs, hread⟩ := Option.map_eq_some_iff.mp hread
  simp only [Prod.mk.injEq] at hread
  have hreach : Reaches (fun s act => HandsOffChecked s act ∧ ReturnsDone s act) s :=
    Run.reaches_of_checked (I := fun _ => True) hs trivial (fun _ _ _ _ _ _ => trivial)
      fun _ _ _ hc => of_decide_eq_true hc
  refine ⟨s, hreach, hread.1, hread.2, sched_follows_no_null hreach ?_ (.inl ⟨0, {}, rfl⟩)⟩
  intro au hau
  cases hau

/-- A uthread that an event has resumed hands the p off and exits: its loop goes on to look
for one that waits to write, in the p it has lost. -/
theorem handedOff_event_follows_null : ∃ s,
    exec (twoEvents ++ calls 0 .create 8 ++ calls 0 .disk 4 ++ calls 0 .finish 3) = .ok s ∧
    (s.sched 0).p = none ∧ NullP (step s (.sched 0 {})) ∧
    step s (.sched 0 {}) = .error (.fault (.nullP .deschedEvent)) := by
  obtain ⟨s, hs, hp, hstop⟩ := exec_passes
    (twoEvents ++ calls 0 .create 8 ++ calls 0 .disk 4 ++ calls 0 .finish 3)
    (fun s => (s.sched 0).p = none ∧
      stopOf (step s (.sched 0 {})) = some (.fault (.nullP .deschedEvent)))
    (by decide +kernel)
  have herr := eq_error_of_stopOf hstop
  exact ⟨s, hs, hp, ⟨_, herr⟩, herr⟩

/-! ### The uthread that has handed its p off -/

/-- The uthread is put at the end of the ready queue of its own p, once and in no other. -/
def PutBackOnce (s s' : State) (u : UId) : Prop :=
  ∃ q, (s.ut u).p = some q ∧ (s'.p q).ready = (s.p q).ready ++ [u] ∧
    ∀ r, r ≠ q → (s'.p r).ready = (s.p r).ready

/-- The action follows no NULL p, and a uthread that yields without sleeping or exiting is put back. -/
def StaysUsable (s : State) (act : Act) : Prop :=
  ¬NullP (step s act) ∧
  ∀ a u, switching s act = some (a, u) → (s.ut u).Plain →
    ∃ s', step s act = .ok s' ∧ PutBackOnce s s' u

theorem uthreadSwitched_plain {s : State} {a : SId} {u : UId} {q : PId} (hplain : (s.ut u).Plain)
    (hq : (s.sched a).p = some q) : uthreadSwitched a u s = .ok (insertReady q u (idleCpu a s)) := by
  have hb : (idleCpu a s).bound a .resumeReady = .ok q := bound_of_some (by simpa [idleCpu] using hq)
  unfold uthreadSwitched
  show (if (s.ut u).status.has .exited then _ else if (s.ut u).status.has .sleeping then _
    else (idleCpu a s).bound a .resumeReady >>= fun q => .ok (insertReady q u (idleCpu a s))) = _
  rw [hplain.1, hplain.2, hb]
  rfl

/-- A switch is the second half of `_uthread_resume`, after a change to the uthread's own record
that none of its tests looks at. -/
theorem step_switching {s : State} {act : Act} {a : SId} {u : UId} (hhalt : s.halted = false)
    (h : switching s act = some (a, u)) :
    ∃ f : Uthread → Uthread, (f (s.ut u)).status = (s.ut u).status ∧
      step s act = uthreadSwitched a u (s.setUt u f) := by
  cases act with
  | call b c => cases h
  | sched b r => cases h
  | preempt b =>
    obtain ⟨rfl, hc, hflag⟩ := (running_eq_some (t := fun v => v.isWatingYieldSignal)).mp h
    refine ⟨fun v => {v with isWatingYieldSignal := false}, rfl, ?_⟩
    simp only [step, hhalt, hc, hflag, handler, Bool.false_eq_true, if_false, if_true]
  | stmt b r =>
    obtain ⟨rfl, hc, hsw⟩ := (running_eq_some (t := fun v => v.ctx.switches)).mp h
    have hstep : step s (.stmt a r) = uthreadStmt a u r s := by
      simp only [step, hhalt, hc, Bool.false_eq_true, if_false]
    rw [hstep]
    unfold uthreadStmt
    cases hctx : (s.ut u).ctx with
    | yieldSwitch => exact ⟨fun v => {v with ctx := .user}, rfl, rfl⟩
    | sleep w pc =>
      rw [hctx] at hsw
      cases pc with
      | switch => exact ⟨fun v => {v with ctx := .sleep w .wake}, rfl, rfl⟩
      | _ => cases hsw
    | exit v pc =>
      rw [hctx] at hsw
      cases pc with
      | switch => exact ⟨fun v => {v with ctx := .user}, rfl, rfl⟩
      | _ => cases hsw
    | _ => rw [hctx] at hsw; cases hsw

theorem running_uthread {s : State} {act : Act} {a : SId} {u : UId} (h : switching s act = some (a, u)) :
    (s.sched a).curUthread = some u := by
  cases act with
  | call b c => cases h
  | sched b r => cases h
  | preempt b =>
    obtain ⟨rfl, hc, -⟩ := (running_eq_some (t := fun v => v.isWatingYieldSignal)).mp h
    exact hc
  | stmt b r =>
    obtain ⟨rfl, hc, -⟩ := (running_eq_some (t := fun v => v.ctx.switches)).mp h
    exact hc

/-- A uthread that comes back to a sched with a p is queued there, and that p is its own. -/
theorem putBackOnce_of_switching {s : State} {act : Act} {a : SId} {u : UId} {q : PId} (h : Sound s)
    (hhalt : s.halted = false) (hsw : switching s act = some (a, u)) (hplain : (s.ut u).Plain)
    (hq : (s.sched a).p = some q) : ∃ s', step s act = .ok s' ∧ PutBackOnce s s' u := by
  obtain ⟨f, hf, hstep⟩ := step_switching hhalt hsw
  have hplain' : ((s.setUt u f).ut u).Plain := by
    unfold Uthread.Plain
    rw [setUt_ut_self, hf]
    exact hplain
  obtain rfl := h.one hq
  refine ⟨_, hstep.trans (uthreadSwitched_plain hplain' hq), 0,
    (h.ut u (h.cur (running_uthread hsw)).1).home, ?_, fun r hr => ?_⟩
  · simp [insertReady, idleCpu]
  · unfold insertReady
    rw [setP_p, if_neg hr]
    rfl

/-- **A uthread stays usable exactly as long as its next statement follows no NULL p**: it does
not register a descriptor on a sched without a p, does not enqueue a new uthread on one, and
does not give the CPU back to one unless it has exited or gone to sleep. -/
theorem stays_usable_iff {acts : List Act} {s : State} {act : Act} (hrun : exec acts = .ok s)
    (hhalt : s.halted = false) : StaysUsable s act ↔ ¬ActFollowsNull s act := by
  have h := Sound.of_reaches (Run.reaches_of_run hrun)
  refine ⟨fun hs hnull => hs.1 ((step_nullP h hhalt).mpr hnull), fun hno => ⟨?_, ?_⟩⟩
  · rw [step_nullP h hhalt]
    exact hno
  · intro a v hsw hplain
    cases hq : (s.sched a).p with
    | none => exact absurd ((switching_follows hsw).mpr ⟨hq, hplain⟩) hno
    | some q => exact putBackOnce_of_switching h hhalt hsw hplain hq

/-- Main hands its p off and returns from the disk call. -/
def afterDisk : List Act := boot ++ calls 0 .disk 4

/-- It may exit. -/
theorem afterDisk_exits : ∃ s, exec (afterDisk ++ calls 0 .mainEnd 2) = .ok s ∧
    (s.sched 0).p = none ∧ (s.sched 0).curUthread = some 0 ∧ StaysUsable s (.stmt 0 {}) := by
  obtain ⟨s, hs, hhalt, hp, hcur, hctx, hex⟩ := exec_passes (afterDisk ++ calls 0 .mainEnd 2)
    (fun s => s.halted = false ∧ (s.sched 0).p = none ∧ (s.sched 0).curUthread = some 0 ∧
      (s.ut 0).ctx = .exit none .switch ∧ (s.ut 0).status.has .exited = true)
    (by decide +kernel)
  refine ⟨s, hs, hp, hcur, (stays_usable_iff hs hhalt).mpr ?_⟩
  rintro ⟨u, hu, hnull⟩
  obtain rfl := Option.some.inj (hcur.symm.trans hu)
  rw [hctx] at hnull
  rw [hnull.2.1] at hex
  cases hex

/-- It cannot yield, create a uthread or wait for a descriptor. -/
theorem afterDisk_is_stuck :
    (∃ s, exec (afterDisk ++ calls 0 .yield 1) = .ok s ∧ (s.sched 0).p = none ∧ ¬StaysUsable s (.stmt 0 {}) ∧
      step s (.stmt 0 {}) = .error (.fault (.nullP .resumeReady))) ∧
    (∃ s, exec (afterDisk ++ calls 0 .create 7) = .ok s ∧ (s.sched 0).p = none ∧ ¬StaysUsable s (.stmt 0 {}) ∧
      step s (.stmt 0 {}) = .error (.fault (.nullP .create))) ∧
    ∃ s, exec (afterDisk ++ calls 0 (.io ⟨.accept, 5, 0, 0⟩) 1 ++
        [.stmt 0 {ret := -1, errno := .eagain}] ++ stmts 0 1) = .ok s ∧ (s.sched 0).p = none ∧
      ¬StaysUsable s (.stmt 0 {}) ∧ step s (.stmt 0 {}) = .error (.fault (.nullP .register)) := by
  have hstuck : ∀ (acts : List Act) (site : Site),
      (exec acts).map (fun s => decide ((s.sched 0).p = none ∧
        stopOf (step s (.stmt 0 {})) = some (.fault (.nullP site)))) = .ok true →
      ∃ s, exec acts = .ok s ∧ (s.sched 0).p = none ∧ ¬StaysUsable s (.stmt 0 {}) ∧
        step s (.stmt 0 {}) = .error (.fault (.nullP site)) := by
    intro acts site hread
    obtain ⟨s, hs, hp, hstop⟩ := exec_passes acts _ hread
    have herr := eq_error_of_stopOf hstop
    exact ⟨s, hs, hp, fun hu => hu.1 ⟨site, herr⟩, herr⟩
  exact ⟨hstuck _ .resumeReady (by decide +kernel), hstuck _ .create (by decide +kernel),
    hstuck _ .register (by decide +kernel)⟩

end UthreadRuntime
