import UthreadRuntime.Safety.Frame
import UthreadRuntime.Safety.SoundRuns

/-! How many scheds there are to hand a p to.

`_runtime_init` makes `MAX_PROCS` scheds and starts one. Each hand-off takes the first
of the idle ones, and no function puts a sched back: a sched whose p was handed off
spins at the top of its loop. -/
namespace UthreadRuntime

open State

/-- No sched beyond those of `_runtime_init` ever runs. -/
structure Few (s : State) : Prop where
  idle : ∀ c ∈ s.schedIdle, c < maxProcs
  off : ∀ a, maxProcs ≤ a → (s.sched a).curUthread = none ∧ (s.sched a).pc = .off

theorem Few.still {s s' : State} {a : SId} (h : Few s) (hstill : Still a s s') : Few s' := by
  refine ⟨by rw [hstill.idle]; exact h.idle, fun d hd => ?_⟩
  obtain ⟨h1, h2⟩ := h.off d hd
  rw [hstill.pc]
  refine ⟨?_, h2⟩
  by_cases hda : d = a
  · rw [hda]
    rcases hstill.self with hself | hself
    · rw [hself, ← hda]
      exact h1
    · exact hself
  · rw [hstill.cur d hda]
    exact h1

theorem Few.step {s s' : State} {act : Act} (h : Few s) (hsnd : Sound s) (hs : step s act = .ok s') :
    Few s' := by
  rcases step_frame hs with ⟨a, r, -, hc, hrun⟩ | ⟨-, hstill⟩ |
      ⟨a, r, u, -, -, c, q, n, rest, -, hq, -, hidle, rfl⟩
  · have hl := schedRun_local hrun
    refine ⟨by rw [hl.idle]; exact h.idle, fun d hd => ?_⟩
    have hda : d ≠ a := by
      rintro rfl
      unfold schedRun at hrun
      rw [(h.off d hd).2] at hrun
      cases hrun
    rw [hl.cur d hda, hl.pc d hda]
    exact h.off d hd
  · exact h.still hstill
  · obtain ⟨hn, hnc, hsub⟩ := hsnd.idle_ne hq hidle
    refine ⟨fun d hd => h.idle d (hsub d hd).1, fun d hd => ?_⟩
    have hdn : d ≠ n := by
      rintro rfl
      exact absurd (h.idle d hn) (Nat.not_lt.mpr hd)
    show ((handedOff c n q rest s).sched d).curUthread = none ∧
      ((handedOff c n q rest s).sched d).pc = .off
    rw [handedOff_sched hnc, if_neg hdn]
    split
    · rename_i hdc
      rw [← hdc]
      exact h.off d hd
    · exact h.off d hd

theorem Few.initial : Few init := by
  refine ⟨by decide, fun a ha => ?_⟩
  have ha0 : a ≠ 0 := by
    rintro rfl
    exact absurd ha (by decide)
  rw [init_sched ha0]
  exact ⟨rfl, rfl⟩

theorem Few.of_reaches {C : State → Act → Prop} {s : State} (h : Reaches C s) : Few s :=
  (Sound.initial.invariant h Few.initial fun _ _ _ hs hf _ hstep => hf.step hs hstep).2

/-! ### Counting hand-offs -/

/-- The action is the hand-off of a disk call, its test passed. -/
def handsOffNow (s : State) : Act → Bool
  | .stmt a _ =>
    match (s.sched a).curUthread with
    | none => false
    | some u =>
      match (s.ut u).ctx with
      | .diskHandOff c => handsOff c s
      | _ => false
  | _ => false

/-- The hand-offs of a run. -/
def handOffs (s : State) : List Act → Nat
  | [] => 0
  | act :: rest =>
    (if handsOffNow s act then 1 else 0) +
      match step s act with
      | .ok s' => handOffs s' rest
      | .error _ => 0

theorem handsOff_iff {c : SId} {s : State} :
    handsOff c s = true ↔ ∃ q, (s.sched c).p = some q ∧ (s.p q).ready ≠ [] := by
  unfold handsOff
  split
  · rename_i hp
    simp [hp]
  · rename_i q hq
    simp [hq]

/-- A step takes a sched from the idle ones exactly when it hands off. -/
theorem schedIdle_step {s s' : State} {act : Act} (hs : step s act = .ok s') :
    s'.schedIdle.length + (if handsOffNow s act then 1 else 0) = s.schedIdle.length := by
  have hnot : s'.schedIdle = s.schedIdle → handsOffNow s act = false →
      s'.schedIdle.length + (if handsOffNow s act then 1 else 0) = s.schedIdle.length := by
    intro h1 h2
    rw [h1, h2]
    rfl
  by_cases hnow : handsOffNow s act = true
  · -- the test has passed, so the step that succeeded is the hand-off itself
    cases act with
    | stmt a r =>
      unfold handsOffNow at hnow
      dsimp only at hnow
      split at hnow
      · cases hnow
      · rename_i u hc
        split at hnow
        · rename_i c hctx
          obtain ⟨q, hq, hr⟩ := handsOff_iff.mp hnow
          unfold step at hs
          split at hs
          · cases hs
          · dsimp only at hs
            rw [hc] at hs
            dsimp only at hs
            unfold uthreadStmt at hs
            rw [hctx] at hs
            dsimp only at hs
            unfold diskHandOffStmt at hs
            rw [hq] at hs
            dsimp only at hs
            have hr' : (s.p q).ready.isEmpty = false := by simpa using hr
            rw [hr'] at hs
            cases hidle : s.schedIdle with
            | nil =>
              rw [hidle] at hs
              cases hs
            | cons n rest =>
              rw [hidle] at hs
              dsimp only at hs
              simp only [Bool.false_eq_true, if_false] at hs
              split at hs
              · cases hs
                have hn : handsOffNow s (.stmt a r) = true := by
                  simp only [handsOffNow, hc, hctx]
                  exact hnow
                rw [hn]
                rfl
              · cases hs
        · cases hnow
    | call a c => cases hnow
    | preempt a => cases hnow
    | sched a r => cases hnow
  · have hfalse : handsOffNow s act = false := by simpa using hnow
    rcases step_frame hs with ⟨a, r, -, -, hrun⟩ | ⟨-, hstill⟩ |
        ⟨a, r, u, rfl, hc, c, q, n, rest, hctx, hq, hr, -, -⟩
    · exact hnot (schedRun_local hrun).idle hfalse
    · exact hnot hstill.idle hfalse
    · have hn : handsOffNow s (.stmt a r) = true := by
        simp only [handsOffNow, hc, hctx]
        exact handsOff_iff.mpr ⟨q, hq, hr⟩
      exact absurd hn hnow

/-- **The idle scheds are those no hand-off has taken.** -/
theorem schedIdle_run {s s' : State} {acts : List Act} (h : Run.run step s acts = .ok s') :
    s'.schedIdle.length + handOffs s acts = s.schedIdle.length := by
  induction acts generalizing s with
  | nil =>
    cases h
    rfl
  | cons act rest ih =>
    unfold Run.run at h
    unfold handOffs
    cases hs : step s act with
    | error e => rw [hs] at h; cases h
    | ok t =>
      rw [hs] at h
      have h1 := schedIdle_step hs
      have h2 := ih h
      dsimp only
      omega

/-- What the hand-off needs: an idle sched, so that the pointer it removes is not `NULL`. -/
def FindsSched (s : State) (a : SId) : Prop :=
  s.schedIdle ≠ [] ∧ ∀ r, step s (.stmt a r) ≠ .error (.fault .nullSched)

/-- **A hand-off finds a sched exactly when fewer than three were made before it.** -/
theorem handOff_finds_sched_iff {acts : List Act} {s : State} {a c : SId} {u : UId}
    (hrun : exec acts = .ok s) (hhalt : s.halted = false) (hc : (s.sched a).curUthread = some u)
    (hctx : (s.ut u).ctx = .diskHandOff c) (hguard : handsOff c s = true) :
    FindsSched s a ↔ handOffs init acts < maxProcs - 1 := by
  have hlen := schedIdle_run hrun
  have hinit : init.schedIdle.length = maxProcs - 1 := rfl
  rw [hinit] at hlen
  obtain ⟨q, hq, hr⟩ := handsOff_iff.mp hguard
  have hr' : (s.p q).ready.isEmpty = false := by simpa using hr
  have hstep : ∀ r, step s (.stmt a r) = diskHandOffStmt u c r s := by
    intro r
    simp only [step, hhalt, hc, uthreadStmt, hctx, Bool.false_eq_true, if_false]
  constructor
  · rintro ⟨hne, -⟩
    have hpos : 0 < s.schedIdle.length := List.length_pos_of_ne_nil hne
    omega
  · intro hlt
    have hne : s.schedIdle ≠ [] := by
      intro hnil
      rw [hnil, List.length_nil] at hlen
      omega
    refine ⟨hne, fun r hfault => ?_⟩
    rw [hstep r] at hfault
    unfold diskHandOffStmt at hfault
    rw [hq] at hfault
    dsimp only at hfault
    rw [hr'] at hfault
    cases hidle : s.schedIdle with
    | nil => exact hne hidle
    | cons n rest =>
      rw [hidle] at hfault
      dsimp only at hfault
      simp only [Bool.false_eq_true, if_false] at hfault
      split at hfault
      · cases hfault
      · cases hfault

/-- The first hand-off: main has a disk call to make and the uthread it created is ready. -/
theorem first_handOff_finds_sched : ∃ s, exec (boot ++ calls 0 .disk 2) = .ok s ∧
    handsOff 0 s = true ∧ FindsSched s 0 := by
  have hread : (exec (boot ++ calls 0 .disk 2)).map (fun s => (s.halted, (s.sched 0).curUthread,
      (s.ut 0).ctx, handsOff 0 s)) = .ok (false, some 0, .diskHandOff 0, true) := by decide +kernel
  obtain ⟨s, hs, hread⟩ := map_ok hread
  simp only [Prod.mk.injEq] at hread
  obtain ⟨h1, h2, h3, h4⟩ := hread
  refine ⟨s, hs, h4, (handOff_finds_sched_iff hs h1 h2 h3 h4).mpr ?_⟩
  decide +kernel

/-- Four uthreads beside main; main, then the first three, each make a disk call, and the
last stands before its hand-off. -/
def fourthHandOff : List Act :=
  boot ++ calls 0 .create 8 ++ calls 0 .create 8 ++ calls 0 .create 8 ++
    calls 0 .disk 3 ++ scheds 1 5 ++ calls 1 .disk 3 ++ scheds 2 5 ++ calls 2 .disk 3 ++
    scheds 3 5 ++ calls 3 .disk 2

/-- The fourth hand-off of a run finds no sched. -/
theorem fourth_handOff_finds_none : ∃ s, exec fourthHandOff = .ok s ∧
    (s.sched 3).curUthread = some 3 ∧ (s.ut 3).ctx = .diskHandOff 3 ∧ handsOff 3 s = true ∧
    ¬FindsSched s 3 ∧ step s (.stmt 3 {}) = .error (.fault .nullSched) := by
  have hread : (exec fourthHandOff).map (fun s => ((s.sched 3).curUthread, (s.ut 3).ctx,
      handsOff 3 s, s.schedIdle, stopOf (step s (.stmt 3 {})))) =
      .ok (some 3, .diskHandOff 3, true, [], some (.fault .nullSched)) := by decide +kernel
  obtain ⟨s, hs, hread⟩ := map_ok hread
  simp only [Prod.mk.injEq] at hread
  obtain ⟨h1, h2, h3, h4, h5⟩ := hread
  exact ⟨s, hs, h1, h2, h3, fun hf => hf.1 h4, eq_error_of_stopOf h5⟩

end UthreadRuntime
