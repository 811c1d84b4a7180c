import UthreadRuntime.Model.Sleep

/-! The calls that manage uthreads (`uthread.c`).

Each runs on the stack of the calling uthread `u`, on the thread of sched `a`,
one statement a step. A pointer fetched by `_sched_get()` into a local variable
is part of the context, and stays the one that was fetched. -/
namespace UthreadRuntime

open State

/-- A library call returns to user code. -/
def returns (a : SId) (u : UId) (v : Int) (s : State) : State :=
  s.setUt u fun r => {r with ctx := .user, hist := {r.hist with result := some (v, (s.sched a).errno)}}

def setErrno (a : SId) (e : Errno) (s : State) : State := s.setSched a fun v => {v with errno := e}

/-- `_uthread_yield`, called by user code. -/
def yieldFlagStmt (u : UId) (s : State) : State :=
  goto u .yieldSwitch (s.setUt u fun v => {v with isWatingYieldSignal := false})

/-- `uthread_join` -/
def joinStmt (a : SId) (u t : UId) (r : Option Addr) (pc : JoinAt) (s : State) : State :=
  match pc with
  | .self =>
    if t = u then returns a u (-1) (setErrno a .edeadlk s) else goto u (.join t r .detached) s
  | .detached =>
    if (s.ut t).status.has .detached then returns a u (-1) (setErrno a .einval s)
    else goto u (.join t r .taken) s
  | .taken =>
    if (s.ut t).utJoined.isSome then returns a u (-1) (setErrno a .einval s)
    else goto u (.join t r .exited) s
  | .exited =>
    if (s.ut t).status.has .exited then
      returns a u 0 {s with bitmapUt := Function.update s.bitmapUt (s.ut t).id true}
    else goto u (.join t r .publish) s
  | .publish => goto u (.join t r .setRetval) (s.setUt t fun v => {v with utJoined := some u})
  | .setRetval => goto u (.sleep (.join t r) .clock) (s.setUt t fun v => {v with retval := r})
  | .expired =>
    if (s.ut u).status.has .expired then goto u (.join t r .unpublish) s
    else goto u (.join t r .free) s
  | .unpublish => goto u (.join t r .resetRetval) (s.setUt t fun v => {v with utJoined := none})
  | .resetRetval => returns a u 1 (s.setUt t fun v => {v with retval := r})
  | .free => returns a u 0 {s with bitmapUt := Function.update s.bitmapUt (s.ut t).id false}

/-- The value `uthread_exit` stores for the joiner. -/
def storeRetval (u : UId) (v : Val) (s : State) : State :=
  if v ≠ 0 ∧ (s.ut u).utJoined.isSome then
    match (s.ut u).retval with
    | some r => {s with mem := Function.update s.mem r v}
    | none => s
  else s

/-- `uthread_exit`; with no value, `main_end` and the end of `_uthread_exec`. -/
def exitStmt (a : SId) (u : UId) (v : Option Val) (pc : ExitAt) (s : State) : Except Stop State :=
  match pc with
  | .mark =>
    .ok (goto u (.exit v (if v.isSome then .store else .yieldFlag))
      (s.setUt u fun r => {r with status := r.status.add .exited}))
  | .store => .ok (goto u (.exit v .yieldFlag) (storeRetval u (v.getD 0) s))
  | .yieldFlag =>
    .ok (goto u (.exit v .switch) (s.setUt u fun r => {r with isWatingYieldSignal := false}))
  | .switch => uthreadSwitched a u (goto u .user s)

/-- `do next_ut_id = (next_ut_id + 1) % MAX_COUNT_UTHREAD; while (next_ut_id == 1)` -/
def nextId (n : Nat) : Nat :=
  let m := (n + 1) % maxCountUthread
  if m = 1 then (m + 1) % maxCountUthread else m

/-- `uthread_create` from its `calloc` on; `c` is the sched it fetched. Each record has a name of its
own, also where `calloc` returns the address of a freed one (`Model.Threads`). -/
def createStmt (a : SId) (u : UId) (c : SId) (pc : CreateAt) (r : Reply) (s : State) :
    Except Stop State :=
  match pc with
  | .lock =>
    if s.mutex.isSome then .error .disabled
    else .ok (goto u (.create c .count) {s with mutex := some u})
  | .count =>
    .ok (goto u (.create c (.unlock s.nextUtId))
      {s with
        nUthread := (s.nUthread + 1) % 2 ^ 32
        bitmapUt := Function.update s.bitmapUt s.nextUtId true
        nextUtId := nextId s.nextUtId})
  | .unlock id => .ok (goto u (.create c (.stack id)) {s with mutex := none})
  | .stack id => if r.ok then .ok (goto u (.create c (.bind id)) s) else .ok (returns a u (-1) s)
  | .bind id => .ok (goto u (.create c (.insert id (s.sched c).p)) s)
  | .insert id p => do
    let q ← s.bound c .create
    let n := s.heap
    let s := {s with
      ut := Function.update s.ut n
        {id := id, status := .only .new, p := p, fdWait := -1, isWatingYieldSignal := true, life := .live}
      heap := s.heap + 1}
    .ok (returns a u 0 (insertReady q n s))

/-- `pthread_disk_read` and `pthread_disk_write`: the preemption flag of whatever
uthread the fetched sched runs is cleared. -/
def diskFlagStmt (u : UId) (c : SId) (s : State) : Except Stop State :=
  match (s.sched c).curUthread with
  | none => .error (.fault .nullCur)
  | some v => .ok (goto u (.diskHandOff c) (s.setUt v fun r => {r with isWatingYieldSignal := false}))

/-- The test of the hand-off. -/
def handsOff (c : SId) (s : State) : Bool :=
  match (s.sched c).p with
  | none => false
  | some q => !(s.p q).ready.isEmpty

/-- The hand-off: the first idle sched is taken, bound to the p, and its thread created.
The preemption flag is cleared by then, so nothing comes between these statements. -/
def diskHandOffStmt (u : UId) (c : SId) (r : Reply) (s : State) : Except Stop State :=
  match (s.sched c).p with
  | none => .ok (goto u .diskCall s)
  | some q =>
    if (s.p q).ready.isEmpty then .ok (goto u .diskCall s)
    else
      match s.schedIdle with
      | [] => .error (.fault .nullSched)
      | n :: rest =>
        if r.ok then
          let s := {s with schedIdle := rest}
          let s := s.setSched n fun v => {v with p := some q, pc := .another}
          let s := s.setP q fun v => {v with sched := some n}
          .ok (goto u .diskCall (s.setSched c fun v => {v with p := none}))
        else .error (.fault (.assertion .threadCreate))

/-- The blocking system call itself. -/
def diskCallStmt (a : SId) (u : UId) (r : Reply) (s : State) : State :=
  returns a u r.ret (if r.ret = -1 then setErrno a r.errno s else s)

end UthreadRuntime
