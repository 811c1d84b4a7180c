import UthreadRuntime.Safety.HandOff
import UthreadRuntime.Safety.Records

/-! Who is left to a thread that blocks.

A uthread that makes a disk call blocks its thread, so the p is handed to another sched first;
but only when somebody is ready. A uthread that sleeps, or waits for a descriptor, stays with
the thread that blocks, and nobody resumes it when its time comes. -/
namespace UthreadRuntime

open State

/-- Nobody is left to the thread of `a`: its sched has no p, or one that holds no uthread. -/
def Deserted (s : State) (a : SId) : Prop := ∀ q, (s.sched a).p = some q → schedWorkDone (s.p q) = true

theorem Deserted.congr {s s' : State} {a : SId} (hb : (s'.sched a).p = (s.sched a).p)
    (hp : ∀ q, schedWorkDone (s'.p q) = schedWorkDone (s.p q)) : Deserted s' a ↔ Deserted s a := by
  unfold Deserted
  rw [hb]
  simp only [hp]

section Deserted

variable {s s' : State} {a c : SId} {u : UId}

end Deserted

end UthreadRuntime
