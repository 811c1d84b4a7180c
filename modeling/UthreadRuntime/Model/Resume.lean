import UthreadRuntime.Model.Desched

/-! Passing control between a scheduler and a uthread (`uthread.c`).

`_uthread_resume` is cut at its `_switch`: `uthreadResume` is what the scheduler
does before it runs the uthread, `uthreadSwitched` what it does once the uthread
has switched back, whether by its own `_uthread_yield` or from the signal handler.

A ready queue is the list of its uthreads. The macros of `sys/queue.h` do the same to the linked
entries in a calm run (`Rep`), where nobody is inserted who is queued. Elsewhere an
insertion may cut off the uthreads behind (`queuedJoiner`). -/
namespace UthreadRuntime

open State

/-- `_uthread_init`: the context of the uthread's function, and a status assigned, not or-ed. -/
def uthreadInit (u : UId) (s : State) : State :=
  s.setUt u fun v => {v with status := .only .ready, ctx := .user}

/-- `_uthread_resume` up to its `_switch`; the scheduler will go on at `k`. -/
def uthreadResume (a : SId) (u : UId) (k : SchedAt) (s : State) : State :=
  let s := if (s.ut u).status.has .new then uthreadInit u s else s
  let s := s.setSched a fun v => {v with curUthread := some u, pc := k}
  let s := s.setUt u fun v => {v with isWatingYieldSignal := true}
  {s with timer := addTimer 1 u s.timer}

/-- `TAILQ_INSERT_TAIL(&p->ready, ut, ready_next)` -/
def insertReady (q : PId) (u : UId) (s : State) : State :=
  s.setP q fun v => {v with ready := v.ready ++ [u]}

/-- The joiner of an exiting uthread is taken out of the sleeping tree and made ready. -/
def wakeJoined (u : UId) (s : State) : Except Stop State :=
  match (s.ut u).utJoined with
  | none => .ok s
  | some j => do
    let s ← uthreadDeschedSleep j s
    let q ← s.home j .resumeJoined
    .ok (insertReady q j (s.setUt j fun v =>
      {v with hist := {v.hist with waits := .joined :: v.hist.waits}}))

/-- `_uthread_free` or `_uthread_free_main`, and the id slot of a detached uthread.
The lock makes the thread wait while another holds it. -/
def uthreadFree (u : UId) (s : State) : Except Stop State :=
  if s.mutex.isSome then .error .disabled
  else
    let s := {s with nUthread := (s.nUthread + (2 ^ 32 - 1)) % 2 ^ 32}
    let s := if (s.ut u).status.has .detached then
        {s with bitmapUt := Function.update s.bitmapUt (s.ut u).id false}
      else s
    .ok (s.setUt u fun v => {v with life := .freed})

/-- `_uthread_resume` after its `_switch`. -/
def uthreadSwitched (a : SId) (u : UId) (s : State) : Except Stop State :=
  let s := s.setSched a fun v => {v with curUthread := none}
  if (s.ut u).status.has .exited then do
    let s ← wakeJoined u s
    uthreadFree u s
  else if (s.ut u).status.has .sleeping then .ok s
  else do
    let q ← s.bound a .resumeReady
    .ok (insertReady q u s)

end UthreadRuntime
