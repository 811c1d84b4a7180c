import UthreadRuntime.Safety.SoundRuns

/-! Linking a sleeper.

The sleeping tree is ordered by wake-up instants alone, and `_uthread_sched_sleep`
asserts that its own is new. Two uthreads whose clock readings and timeouts add up to
one microsecond cannot both be linked. -/
namespace UthreadRuntime

open State

/-- The statements link the uthread in the sleeping tree of `q`, and no sleeper is lost. -/
def AddsSleeper (s : State) (u : UId) (q : PId) (acts : List Act) : Prop :=
  ∃ s', Run.run step s acts = .ok s' ∧ u ∈ (s'.p q).sleeping ∧
    ∀ v ∈ (s.p q).sleeping, v ∈ (s'.p q).sleeping

section Link

variable {s : State} {a : SId} {u : UId} {q : PId} {w : Wait} (hhalt : s.halted = false)
  (hc : (s.sched a).curUthread = some u) (hq : (s.ut u).p = some q)
include hhalt hc

theorem step_sleep {pc : SleepAt} (hctx : (s.ut u).ctx = .sleep w pc) (r : Reply) :
    step s (.stmt a r) = schedSleepStmt a u w pc r s := by
  simp only [step, hhalt, hc, uthreadStmt, hctx, Bool.false_eq_true, if_false]

include hq

/-- The assertion holds exactly when no node of the tree has the uthread's instant. -/
theorem adds_iff_at_insert (hctx : (s.ut u).ctx = .sleep w .insert) (r : Reply) :
    AddsSleeper s u q [.stmt a r] ↔
      ∀ v ∈ (s.p q).sleeping, (s.ut v).wakeupTimeUsec ≠ (s.ut u).wakeupTimeUsec := by
  have hstep := step_sleep hhalt hc hctx r
  unfold schedSleepStmt at hstep
  dsimp only at hstep
  rw [home_of_some hq] at hstep
  dsimp only [bind, Except.bind] at hstep
  cases hi : insertSleeping s u (s.p q).sleeping with
  | none =>
    obtain ⟨v, hv, he⟩ := Tree.insert_eq_none hi
    rw [hi] at hstep
    constructor
    · rintro ⟨s', hs', -⟩
      rw [Run.run_cons_error hstep] at hs'
      cases hs'
    · intro hne
      exact absurd he (hne v hv)
  | some t =>
    obtain ⟨rfl, hne⟩ := Tree.insert_eq_some hi
    rw [hi] at hstep
    refine ⟨fun _ => hne, fun _ => ?_⟩
    refine ⟨goto u (.sleep w .mark) (s.setP q fun v => {v with sleeping := u :: (s.p q).sleeping}),
      Run.run_cons hstep, ?_, fun v hv => ?_⟩
    · simp [goto]
    · simp [goto, hv]

/-- The same from the reading of the clock on; the uthread itself must not be in the tree. -/
theorem adds_iff_at_clock (hctx : (s.ut u).ctx = .sleep w .clock) (r r' : Reply) :
    AddsSleeper s u q [.stmt a r, .stmt a r'] ↔
      ∀ v ∈ (s.p q).sleeping, v ≠ u ∧ (s.ut v).wakeupTimeUsec ≠ wakeupTime r.now w.mescs := by
  have hstep := step_sleep hhalt hc hctx r
  have hnext := adds_iff_at_insert (w := w) (s := goto u (.sleep w .insert) (s.setUt u fun v =>
    {v with wakeupTimeUsec := wakeupTime r.now w.mescs})) (a := a) hhalt hc
    (q := q) (by simpa [goto] using hq) (by simp [goto]) r'
  have hsame : AddsSleeper s u q [.stmt a r, .stmt a r'] ↔
      AddsSleeper (goto u (.sleep w .insert) (s.setUt u fun v =>
        {v with wakeupTimeUsec := wakeupTime r.now w.mescs})) u q [.stmt a r'] := by
    unfold AddsSleeper
    rw [Run.run_cons hstep]
    rfl
  rw [hsame, hnext]
  have hself : ((goto u (.sleep w .insert) (s.setUt u fun v =>
      {v with wakeupTimeUsec := wakeupTime r.now w.mescs})).ut u).wakeupTimeUsec =
      wakeupTime r.now w.mescs := by
    simp [goto]
  rw [hself]
  refine forall₂_congr fun v _ => ?_
  by_cases hv : v = u
  · subst hv
    simp [hself]
  · simp [goto, setUt_ut, hv]

end Link

/-- **A sleeper is linked exactly when its instant is new in the tree**, in every state any
run gets to: at the link itself, and from the reading of the clock on. -/
theorem sleeper_added_iff {acts : List Act} {s : State} {a : SId} {u : UId} (hrun : exec acts = .ok s)
    (hhalt : s.halted = false) (hc : (s.sched a).curUthread = some u) :
    ∃ q, (s.ut u).p = some q ∧
      (∀ w r, (s.ut u).ctx = .sleep w .insert → (AddsSleeper s u q [.stmt a r] ↔
        ∀ v ∈ (s.p q).sleeping, (s.ut v).wakeupTimeUsec ≠ (s.ut u).wakeupTimeUsec)) ∧
      ∀ w r r', (s.ut u).ctx = .sleep w .clock → (AddsSleeper s u q [.stmt a r, .stmt a r'] ↔
        ∀ v ∈ (s.p q).sleeping, v ≠ u ∧ (s.ut v).wakeupTimeUsec ≠ wakeupTime r.now w.mescs) := by
  have h := Sound.of_reaches (Run.reaches_of_run hrun)
  have hq := (h.ut u (h.cur hc).1).home
  exact ⟨0, hq, fun w r hctx => adds_iff_at_insert hhalt hc hq hctx r,
    fun w r r' hctx => adds_iff_at_clock hhalt hc hq hctx r r'⟩

/-- Main joins the uthread it created, which then calls `uthread_read` on a descriptor with
nothing to read, up to its reading of the clock. -/
def joinThenRead : List Act :=
  boot ++ calls 0 (.join 1 none) 12 ++ scheds 0 8 ++ calls 0 (.io ⟨.read, 5, 1, 0⟩) 2 ++
    [.stmt 0 {ret := -1, errno := .eagain}] ++ stmts 0 6

/-- A read that starts eight seconds after the join. -/
theorem laterRead_added : ∃ s, exec joinThenRead = .ok s ∧ (s.ut 1).ctx = .sleep (.event ⟨.read, 5, 1, 0⟩) .clock ∧
    (s.p 0).sleeping = [0] ∧ AddsSleeper s 1 0 [.stmt 0 {now := 8000000}, .stmt 0 {}] := by
  obtain ⟨s, hs, h1, h2, h3, h4, h5, h6⟩ := exec_passes joinThenRead
    (fun s => s.halted = false ∧ (s.sched 0).curUthread = some 1 ∧
      (s.ut 1).ctx = .sleep (.event ⟨.read, 5, 1, 0⟩) .clock ∧ (s.p 0).sleeping = [0] ∧
      (s.ut 1).p = some 0 ∧ (s.ut 0).wakeupTimeUsec = 10000000)
    (by decide +kernel)
  obtain ⟨q, hq, -, hclock⟩ := sleeper_added_iff hs h1 h2
  obtain rfl : q = 0 := Option.some.inj (hq.symm.trans h5)
  refine ⟨s, hs, h3, h4, (hclock _ {now := 8000000} {} h3).mpr ?_⟩
  intro v hv
  rw [h4, List.mem_singleton] at hv
  subst hv
  rw [h6]
  decide

/-- Nine seconds after the join the read gets the wake-up instant of the join. -/
theorem equalInstants_refused : ∃ s, exec joinThenRead = .ok s ∧
    (s.ut 1).ctx = .sleep (.event ⟨.read, 5, 1, 0⟩) .clock ∧
    ¬AddsSleeper s 1 0 [.stmt 0 {now := 9000000}, .stmt 0 {}] ∧
    Run.run step s [.stmt 0 {now := 9000000}, .stmt 0 {}] = .error (.fault (.assertion .sleepInsert)) := by
  obtain ⟨s, hs, h1, h2⟩ := exec_passes joinThenRead
    (fun s => (s.ut 1).ctx = .sleep (.event ⟨.read, 5, 1, 0⟩) .clock ∧
      stopOf (Run.run step s [.stmt 0 {now := 9000000}, .stmt 0 {}]) =
        some (.fault (.assertion .sleepInsert)))
    (by decide +kernel)
  have hstop := eq_error_of_stopOf h2
  refine ⟨s, hs, h1, ?_, hstop⟩
  rintro ⟨s', hs', -⟩
  rw [hstop] at hs'
  cases hs'

end UthreadRuntime
