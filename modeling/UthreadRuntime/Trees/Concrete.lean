import UthreadRuntime.Model.Inversion
import UthreadRuntime.Support.Tailq
import UthreadRuntime.Trees.Blind
import UthreadRuntime.Trees.Forest

/-! The runtime with its trees and ready queues in memory.

Where `uthread_sched.c` and `uthread.c` touch the tree of sleeping or of waiting uthreads, these
functions run the macros of `tree.h` on the records' own nodes, with the comparison functions of
the source; where they touch a ready queue, those of `sys/queue.h` on the records' own entries.
`rt` is the rest of the state. Its own lists of sleeping, waiting and ready uthreads stay empty, and
what touches no tree and no queue is done by the functions of the runtime. -/
namespace UthreadRuntime

open State Rb Tailq

/-- Why the machine stops: as the runtime does, or in a tree or a queue, where a null pointer was
followed or a loop did not end. -/
inductive Halt where
  | stop (e : Stop)
  | links
  deriving DecidableEq, Repr

structure Concrete where
  rt : State
  /-- `sleep_node` of every uthread, and `sleeping` of every p. -/
  sleeping : Forest PId UId
  /-- `wait_node` of every uthread, and `waiting` of every p. -/
  waiting : Forest PId UId
  /-- `ready_next` of every uthread, and `ready` of every p. -/
  ready : Queues PId UId

/-- `_uthread_sleep_cmp` -/
def uthreadSleepCmp (u1 u2 : Uthread) : Int :=
  if u1.wakeupTimeUsec < u2.wakeupTimeUsec then -1
  else if u1.wakeupTimeUsec = u2.wakeupTimeUsec then 0
  else 1

/-- `_uthread_wait_cmp` -/
def uthreadWaitCmp (ut1 ut2 : Uthread) : Int :=
  if ut1.fdWait < ut2.fdWait then -1
  else if ut1.fdWait = ut2.fdWait then 0
  else 1

namespace Concrete

/-- The turns that a loop in a tree may take: what a balanced tree of all records needs. -/
def fuel (x : Concrete) : Nat := turns x.rt.heap

def stopped {α : Type} (e : Except Stop α) : Except Halt α := e.mapError .stop

def inLinks {α : Type} : Option α → Except Halt α
  | some b => .ok b
  | none => .error .links

/-- The rest of the state goes on, and the trees and queues stay. -/
def rest (x : Concrete) (e : Except Stop State) : Except Halt Concrete :=
  (stopped e).map fun s => {x with rt := s}

/-! ### Taking uthreads out of the trees -/

/-- `_uthread_desched_sleep` -/
def uthreadDeschedSleep (u : UId) (x : Concrete) : Except Halt Concrete :=
  if (x.rt.ut u).status.has .sleeping then do
    let q ← stopped (x.rt.home u .deschedSleep)
    let t ← inLinks (x.sleeping.rbRemove x.fuel q u)
    .ok {x with
      rt := x.rt.setUt u fun v => {v with status := (v.status.del .sleeping).add .ready}
      sleeping := t}
  else .ok x

/-- `_uthread_desched_event`; `find_ut` is a record of its own, of which only `fd_wait` is set. -/
def uthreadDeschedEvent (a : SId) (fd e : Int) (x : Concrete) : Except Halt (Option UId × Concrete) := do
  let q ← stopped (x.rt.bound a .deschedEvent)
  let findUt : Uthread := {fdWait := fdKey fd e}
  match ← inLinks (x.waiting.rbFind x.fuel q (fun r v => uthreadWaitCmp r (x.rt.ut v)) findUt) with
  | none => .ok (none, x)
  | some u => do
    let t ← inLinks (x.waiting.rbRemove x.fuel q u)
    let x ← uthreadDeschedSleep u {x with waiting := t}
    .ok (some u, x)

/-- `_uthread_cancel_event` -/
def uthreadCancelEvent (a : SId) (u : UId) (x : Concrete) : Except Halt Concrete := do
  let f := (x.rt.ut u).fdWait
  let x ← x.rest (epollDel u (fdOnly f) .cancelEvent .cancelDel
    (x.rt.setUt u fun v => {v with status := clearWait v.status}))
  let x ← if 0 ≤ f then (uthreadDeschedEvent a (fdOnly f) (fdEvent f) x).map Prod.snd else .ok x
  .ok {x with rt := x.rt.setUt u fun v => {v with fdWait := -1}}

/-! ### Passing control -/

/-- `TAILQ_INSERT_TAIL(&p->ready, ut, ready_next)` -/
def insertReady (q : PId) (u : UId) (x : Concrete) : Except Halt Concrete :=
  (inLinks (x.ready.insertTail q u)).map fun t => {x with ready := t}

/-- The joiner of an exiting uthread is taken out of the sleeping tree and made ready. -/
def wakeJoined (u : UId) (x : Concrete) : Except Halt Concrete :=
  match (x.rt.ut u).utJoined with
  | none => .ok x
  | some j => do
    let x ← uthreadDeschedSleep j x
    let q ← stopped (x.rt.home j .resumeJoined)
    insertReady q j {x with rt := x.rt.setUt j fun v => {v with hist := {v.hist with waits := .joined :: v.hist.waits}}}

/-- `_uthread_resume` after its `_switch`. -/
def uthreadSwitched (a : SId) (u : UId) (x : Concrete) : Except Halt Concrete :=
  let x := {x with rt := idleCpu a x.rt}
  if (x.rt.ut u).status.has .exited then do
    let x ← wakeJoined u x
    x.rest (uthreadFree u x.rt)
  else if (x.rt.ut u).status.has .sleeping then .ok x
  else do
    let q ← stopped (x.rt.bound a .resumeReady)
    insertReady q u x

/-! ### The scheduler -/

/-- `_sched_work_done` -/
def schedWorkDone (q : PId) (x : Concrete) : Bool :=
  x.ready.isEmpty q && x.sleeping.rbEmpty q && x.waiting.rbEmpty q

/-- The uthread at the head of the sleeping tree, its time having come, is resumed. -/
def resumeExpired (a : SId) (u : UId) (x : Concrete) : Except Halt Concrete := do
  let x ← uthreadCancelEvent a u x
  let x ← uthreadDeschedSleep u x
  .ok {x with rt := uthreadResume a u .expiry (notedExpiry u x.rt)}

/-- One turn of the loop of `_uthread_resume_expired`. -/
def uthreadResumeExpired (a : SId) (r : Reply) (x : Concrete) : Except Halt Concrete :=
  match (x.rt.sched a).p with
  | none => .ok {x with rt := setPc a .lastReady x.rt}
  | some q => do
    match ← inLinks (x.sleeping.rbMin x.fuel q) with
    | none => .ok {x with rt := setPc a .lastReady x.rt}
    | some u =>
      if (x.rt.ut u).wakeupTimeUsec ≤ r.now then resumeExpired a u x
      else .ok {x with rt := setPc a .lastReady x.rt}

/-- `_uthread_min_timeout` -/
def uthreadMinTimeout (q : PId) (now now2 : Nat) (x : Concrete) : Except Halt Nat := do
  match ← inLinks (x.sleeping.rbMin x.fuel q) with
  | none => .ok 1000000
  | some u =>
    let min := (x.rt.ut u).wakeupTimeUsec
    .ok (if min > now then (min + 2 ^ 64 - now2) % 2 ^ 64 else 0)

/-- `_uthread_poll` -/
def uthreadPoll (a : SId) (r : Reply) (x : Concrete) : Except Halt Concrete := do
  let q ← stopped (x.rt.bound a .poll)
  let x := {x with rt := x.rt.setP q fun v => {v with numNewEvents := 0}}
  let usecs ← uthreadMinTimeout q r.now r.now2 x
  if usecs ≠ 0 ∧ x.ready.isEmpty q then
    if r.ok then
      if pollable (x.rt.p q).interest r.events then
        .ok {x with rt := setPc a .events (polled q r.events x.rt)}
      else .error (.stop .disabled)
    else .error (.stop (.fault (.assertion .epollWait)))
  else .ok {x with rt := setPc a .events x.rt}

/-- `handle_event`; the loop goes on at `k`. -/
def handleEvent (a : SId) (fd : Int) (ev : UthreadEvent) (isEof : Bool) (k : SchedAt) (x : Concrete) :
    Except Halt Concrete := do
  let (found, x) ← uthreadDeschedEvent a fd ev.toNat x
  match found with
  | none => .ok {x with rt := setPc a k x.rt}
  | some u =>
    if fd = fdOnly (x.rt.ut u).fdWait then do
      let x ← x.rest (epollDel u fd .handleEvent .eventDel
        (x.rt.setUt u fun v => {v with status := clearWait v.status}))
      .ok {x with rt := uthreadResume a u k (notedEvent u isEof x.rt)}
    else .error (.stop (.fault (.assertion .eventFd)))

/-- The last unread entry of the event list is taken and dispatched for reading. -/
def takeEvent (a : SId) (q : PId) (x : Concrete) : Except Halt Concrete :=
  match (x.rt.p q).eventlist[(x.rt.p q).numNewEvents - 1]? with
  | none => .error (.stop .disabled)
  | some e => handleEvent a e.fd .rd e.hup (.handleWr e.fd e.hup) {x with rt := tookEvent a q e x.rt}

/-- One step of `_sched_run` on the thread of `a`. -/
def schedRun (a : SId) (r : Reply) (x : Concrete) : Except Halt Concrete :=
  match (x.rt.sched a).pc with
  | .top =>
    match (x.rt.sched a).p with
    | none => .ok {x with rt := setPc a .done x.rt}
    | some q => .ok {x with rt := setPc a (if x.schedWorkDone q then .done else .expiry) x.rt}
  | .expiry => uthreadResumeExpired a r x
  | .lastReady => do
    let q ← stopped (x.rt.bound a .schedLastReady)
    let last ← inLinks (x.ready.last q)
    .ok {x with rt := setPc a (.ready last) x.rt}
  | .ready last => do
    let q ← stopped (x.rt.bound a .schedReady)
    match x.ready.first q with
    | none => .ok {x with rt := setPc a .pollCheck x.rt}
    | some u => do
      let t ← inLinks (x.ready.remove q u)
      .ok {x with rt := uthreadResume a u (.readyAfter last u) x.rt, ready := t}
  | .poll => uthreadPoll a r x
  | .events =>
    match (x.rt.sched a).p with
    | none => .ok {x with rt := setPc a .top x.rt}
    | some q => if (x.rt.p q).numNewEvents = 0 then .ok {x with rt := setPc a .top x.rt} else takeEvent a q x
  | .handleWr fd eof => handleEvent a fd .wr eof .events x
  | _ => x.rest (UthreadRuntime.schedRun a r x.rt)

/-! ### Statements -/

/-- `_uthread_sched_sleep`, on the thread of `a`. -/
def schedSleepStmt (a : SId) (u : UId) (w : Wait) (pc : SleepAt) (r : Reply) (x : Concrete) :
    Except Halt Concrete :=
  match pc with
  | .insert => do
    let q ← stopped (x.rt.home u .sleepInsert)
    let cmp := fun v v' => uthreadSleepCmp (x.rt.ut v) (x.rt.ut v')
    match ← inLinks (x.sleeping.rbInsert x.fuel q cmp u) with
    | (_, some _) => .error (.stop (.fault (.assertion .sleepInsert)))
    | (t, none) => .ok {x with rt := goto u (.sleep w .mark) x.rt, sleeping := t}
  | .switch => uthreadSwitched a u {x with rt := goto u (.sleep w .wake) x.rt}
  | _ => x.rest (UthreadRuntime.schedSleepStmt a u w pc r x.rt)

/-- `_register_event`, around its call of `_uthread_sched_sleep`. -/
def registerStmt (a : SId) (u : UId) (c : IoCall) (pc : RegisterAt) (x : Concrete) :
    Except Halt Concrete :=
  match pc with
  | .insert => do
    let q ← stopped (x.rt.home u .registerInsert)
    let cmp := fun v v' => uthreadWaitCmp (x.rt.ut v) (x.rt.ut v')
    -- what RB_INSERT returns is not looked at
    let (t, _) ← inLinks (x.waiting.rbInsert x.fuel q cmp u)
    .ok {x with rt := goto u (.sleep (.event c) .clock) x.rt, waiting := t}
  | _ => x.rest (UthreadRuntime.registerStmt a u c pc x.rt)

/-- `uthread_exit` -/
def exitStmt (a : SId) (u : UId) (v : Option Val) (pc : ExitAt) (x : Concrete) : Except Halt Concrete :=
  match pc with
  | .switch => uthreadSwitched a u {x with rt := goto u .user x.rt}
  | _ => x.rest (UthreadRuntime.exitStmt a u v pc x.rt)

/-- The record of a new uthread. -/
def allocated (id : Nat) (p : Option PId) (s : State) : State :=
  {s with
    ut := Function.update s.ut s.heap
      {id := id, status := .only .new, p := p, fdWait := -1, isWatingYieldSignal := true, life := .live}
    heap := s.heap + 1}

/-- `uthread_create`; `c` is the sched it fetched. -/
def createStmt (a : SId) (u : UId) (c : SId) (pc : CreateAt) (r : Reply) (x : Concrete) : Except Halt Concrete :=
  match pc with
  | .insert id p => do
    let q ← stopped (x.rt.bound c .create)
    let x' ← insertReady q x.rt.heap {x with rt := allocated id p x.rt}
    .ok {x' with rt := returns a u 0 x'.rt}
  | _ => x.rest (UthreadRuntime.createStmt a u c pc r x.rt)

/-- The hand-off of `pthread_disk_read` and `pthread_disk_write`. -/
def diskHandOffStmt (u : UId) (c : SId) (r : Reply) (x : Concrete) : Except Halt Concrete :=
  match (x.rt.sched c).p with
  | none => .ok {x with rt := goto u .diskCall x.rt}
  | some q =>
    if x.ready.isEmpty q then .ok {x with rt := goto u .diskCall x.rt}
    else
      match x.rt.schedIdle with
      | [] => .error (.stop (.fault .nullSched))
      | n :: rest =>
        if r.ok then .ok {x with rt := goto u .diskCall (handedOff c n q rest x.rt)}
        else .error (.stop (.fault (.assertion .threadCreate)))

/-- The next library statement of `u`, running on the thread of `a`. -/
def uthreadStmt (a : SId) (u : UId) (r : Reply) (x : Concrete) : Except Halt Concrete :=
  match (x.rt.ut u).ctx with
  | .yieldSwitch => uthreadSwitched a u {x with rt := goto u .user x.rt}
  | .sleep w pc => schedSleepStmt a u w pc r x
  | .register c pc => registerStmt a u c pc x
  | .exit v pc => exitStmt a u v pc x
  | .create c pc => createStmt a u c pc r x
  | .diskHandOff c => diskHandOffStmt u c r x
  | _ => x.rest (UthreadRuntime.uthreadStmt a u r x.rt)

/-- One action of the machine. -/
def step (x : Concrete) (act : Act) : Except Halt Concrete :=
  if x.rt.halted then x.rest (stepHalted act)
  else
    match act with
    | .call _ _ => x.rest (UthreadRuntime.step x.rt act)
    | .stmt a r =>
      match (x.rt.sched a).curUthread with
      | none => .error (.stop .disabled)
      | some u => uthreadStmt a u r x
    | .preempt a =>
      match (x.rt.sched a).curUthread with
      | none => .error (.stop .disabled)
      | some u =>
        if (x.rt.ut u).isWatingYieldSignal then
          uthreadSwitched a u {x with rt := x.rt.setUt u fun v => {v with isWatingYieldSignal := false}}
        else .error (.stop .disabled)
    | .sched a r =>
      match (x.rt.sched a).curUthread with
      | none => schedRun a r x
      | some _ => .error (.stop .disabled)

/-- The start, `_runtime_init` having emptied the trees and queues and `_uthread_create_main` having
inserted main. -/
def init : Concrete where
  rt := UthreadRuntime.init.bare
  sleeping := Forest.empty
  waiting := Forest.empty
  ready := (Queues.empty.insertTail 0 0).get rfl

end Concrete

end UthreadRuntime
