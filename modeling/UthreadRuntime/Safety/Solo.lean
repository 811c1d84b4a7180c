import UthreadRuntime.Safety.HandOff

/-! A uthread on one thread.

A uthread that is queued while it runs is resumed by the scheduler its p went to, and then runs
on two threads, on one stack. Where no uthread is resumed while it runs, each runs on one
thread. -/
namespace UthreadRuntime

open State

/-- No uthread is resumed while a thread runs it. -/
def ResumesSuspended (s : State) (act : Act) : Prop :=
  ∀ a r s' u, act = .sched a r → step s (.sched a r) = .ok s' → (s'.sched a).curUthread = some u →
    ∀ b, (s.sched b).curUthread ≠ some u

/-- No uthread runs on two threads. -/
def Solo (s : State) : Prop :=
  ∀ a b u, (s.sched a).curUthread = some u → (s.sched b).curUthread = some u → a = b

section Step

variable {s s' : State} {act : Act}

/-- Only a scheduler puts a uthread on its thread. -/
theorem step_cur_self (hs : step s act = .ok s') (hns : ∀ a r, act ≠ .sched a r) :
    (s'.sched act.thread).curUthread = (s.sched act.thread).curUthread ∨
      (s'.sched act.thread).curUthread = none := by
  rcases step_frame hs with ⟨a, r, hact, -, -⟩ | ⟨-, hstill⟩ | ⟨a, r, u, rfl, -, _, _, _, _, -, -, -, -, rfl⟩
  · exact absurd hact (hns a r)
  · exact hstill.self
  · exact .inl (handedOff_cur a)

/-- A uthread that runs ran there before, or has just been resumed. -/
theorem step_runs (hs : step s act = .ok s') {a : SId} {u : UId} (hc : (s'.sched a).curUthread = some u) :
    (s.sched a).curUthread = some u ∨ ∃ r, act = .sched a r := by
  by_cases ha : a = act.thread
  · cases act with
    | sched b r =>
      cases ha
      exact .inr ⟨r, rfl⟩
    | _ =>
      left
      rw [ha] at hc ⊢
      rcases step_cur_self hs (by simp) with h | h
      · exact h.symm.trans hc
      · rw [h] at hc
        cases hc
  · exact .inl ((step_cur hs ha).symm.trans hc)

theorem Solo.step (h : Solo s) (hres : ResumesSuspended s act) (hs : step s act = .ok s') : Solo s' := by
  intro a b u ha hb
  rcases step_runs hs ha with ha' | ⟨r, rfl⟩
  · rcases step_runs hs hb with hb' | ⟨r, rfl⟩
    · exact h a b u ha' hb'
    · exact absurd ha' (hres b r s' u rfl hs hb a)
  · rcases step_runs hs hb with hb' | ⟨r', hact⟩
    · exact absurd hb' (hres a r s' u rfl hs ha b)
    · cases hact
      rfl

theorem Solo.initial : Solo init := by
  intro a b u ha
  rw [init_cur] at ha
  cases ha

end Step

def resumesSuspendedCheck (s : State) : Act → Bool
  | .sched a r =>
    match step s (.sched a r) with
    | .error _ => true
    | .ok s' =>
      match (s'.sched a).curUthread with
      | none => true
      | some u => (List.range maxProcs).all fun b => (s.sched b).curUthread != some u
  | _ => true

theorem resumesSuspended_of_check {s : State} {act : Act} (hfew : Few s)
    (h : resumesSuspendedCheck s act = true) : ResumesSuspended s act := by
  rintro a r s' u rfl hs hc b hb
  have hall : (List.range maxProcs).all (fun b => (s.sched b).curUthread != some u) = true := by
    simpa [resumesSuspendedCheck, hs, hc] using h
  by_cases hlt : b < maxProcs
  · have hne := List.all_eq_true.mp hall b (List.mem_range.mpr hlt)
    rw [hb] at hne
    simp at hne
  · rw [(hfew.off b (Nat.le_of_not_lt hlt)).1] at hb
    cases hb

end UthreadRuntime
