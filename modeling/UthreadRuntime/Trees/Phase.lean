import UthreadRuntime.Safety.Queues
import UthreadRuntime.Trees.Lockstep

/-! The ready phase, with the queue in memory.

`TAILQ_INSERT_TAIL` writes the entry of the uthread it inserts, wherever that stands. In a calm run
nobody is inserted who is queued, so the loop of `_sched_run` finds the uthreads of the list and
resumes them as `InPhase` says. A joiner that is preempted inside its join is queued when the uthread
it joins exits, is inserted again, and cuts off all that stands behind it. -/
namespace UthreadRuntime

open State Tailq

/-- The uthreads that turns of the loop over the ready queue of `q` resume. -/
def Concrete.noteResumed (q : PId) (x : Concrete) (act : Act) (x' : Concrete) (l : List UId) : List UId :=
  if takesReady q x.rt act then l ++ (x'.rt.sched act.thread).curUthread.toList else l

def Concrete.resumed (q : PId) (x : Concrete) (acts : List Act) : List UId :=
  Run.tally Concrete.step (Concrete.noteResumed q) x [] acts

end UthreadRuntime
