import UthreadRuntime.Model.State

/-! Taking uthreads out of the trees (`uthread_sched.c`).

`_uthread_desched_sleep`, `_uthread_desched_event` and `_uthread_cancel_event`
run inside one scheduler step. The first goes through the p of the uthread, the
second through the p of the thread.

A tree is the list of its uthreads, read by the keys they have now. The macros of `tree.h` do the same
to the linked nodes in a calm run (`Rep`), where no key is set that a node is linked under.
Elsewhere a search may miss a node that the list has, and a linked node may be linked again. -/
namespace UthreadRuntime

open State

/-- `RB_INSERT(uthread_rb_sleep, ...)`: ordered by `wakeup_time_usec`. -/
def insertSleeping (s : State) (u : UId) (t : List UId) : Option (List UId) :=
  Tree.insert (fun v => (s.ut v).wakeupTimeUsec) u t

/-- `RB_MIN(uthread_rb_sleep, ...)` -/
def minSleeping (s : State) (t : List UId) : Option UId :=
  Tree.min (fun v => (s.ut v).wakeupTimeUsec) t

/-- `RB_INSERT(uthread_rb_wait, ...)`: ordered by `fd_wait`. -/
def insertWaiting (s : State) (u : UId) (t : List UId) : Option (List UId) :=
  Tree.insert (fun v => (s.ut v).fdWait) u t

/-- `RB_FIND(uthread_rb_wait, ...)` -/
def findWaiting (s : State) (k : Int) (t : List UId) : Option UId :=
  Tree.find (fun v => (s.ut v).fdWait) k t

/-- `_uthread_desched_sleep` -/
def uthreadDeschedSleep (u : UId) (s : State) : Except Stop State :=
  if (s.ut u).status.has .sleeping then do
    let q ← s.home u .deschedSleep
    .ok ((s.setP q fun v => {v with sleeping := Tree.remove u v.sleeping}).setUt u fun v =>
      {v with status := (v.status.del .sleeping).add .ready})
  else .ok s

/-- `_uthread_desched_event`, on the thread of `a`. -/
def uthreadDeschedEvent (a : SId) (fd e : Int) (s : State) : Except Stop (Option UId × State) := do
  let q ← s.bound a .deschedEvent
  match findWaiting s (fdKey fd e) (s.p q).waiting with
  | none => .ok (none, s)
  | some u => do
    let s ← uthreadDeschedSleep u (s.setP q fun v => {v with waiting := Tree.remove u v.waiting})
    .ok (some u, s)

/-- The waiting flag is dropped, as `_uthread_cancel_event` and `handle_event` do it:
the second test names the event `UT_EVENT_WR`, whose bit is that of `UT_ST_READY`. -/
def clearWait (w : Status) : Status :=
  if w.has .waitRd then w.del .waitRd
  else if Flags.test w UthreadEvent.wr.toNat then Flags.clear w UthreadEvent.wr.toNat
  else w

/-- `epoll_ctl(ut->p->poller_fd, EPOLL_CTL_DEL, fd, &event)` under `assert`. -/
def epollDel (u : UId) (fd : Int) (site : Site) (e : Assertion) (s : State) : Except Stop State := do
  let q ← s.home u site
  match epollCtlDel fd (s.p q).interest with
  | none => .error (.fault (.assertion e))
  | some l => .ok (s.setP q fun v => {v with interest := l})

/-- `_uthread_cancel_event`, on the thread of `a`. -/
def uthreadCancelEvent (a : SId) (u : UId) (s : State) : Except Stop State := do
  let f := (s.ut u).fdWait
  let s ← epollDel u (fdOnly f) .cancelEvent .cancelDel
    (s.setUt u fun v => {v with status := clearWait v.status})
  let s ← if 0 ≤ f then (uthreadDeschedEvent a (fdOnly f) (fdEvent f) s).map Prod.snd else .ok s
  .ok (s.setUt u fun v => {v with fdWait := -1})

end UthreadRuntime
