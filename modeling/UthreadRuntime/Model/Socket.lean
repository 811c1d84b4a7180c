import UthreadRuntime.Model.Library

/-! The socket calls that reach the kernel (`uthread_socket.c`).

`uthread_accept`, `uthread_connect`, `uthread_read` and `uthread_write` are loops
around a system call: an answer that would block registers an event and sleeps.
`errno` is the thread's, and each test reads it anew. -/
namespace UthreadRuntime

open State

/-- The next turn of the loop. -/
def IoCall.loop (c : IoCall) : Ctx :=
  match c.kind with
  | .accept | .connect => .io c .sys
  | .read | .write => .io c .head

/-- The head of the loop: `UT_ST_FDEOF` ends it, and so does a complete write. -/
def ioHeadStmt (a : SId) (u : UId) (c : IoCall) (s : State) : State :=
  match c.kind with
  | .accept | .connect => goto u (.io c .sys) s
  | .read =>
    if (s.ut u).status.has .fdeof then returns a u (-1) s else goto u (.io c .fcntl) s
  | .write =>
    if c.sent = c.length then returns a u c.sent s
    else if (s.ut u).status.has .fdeof then returns a u (-1) s
    else goto u (.io c .sys) s

/-- What a system call that returned `ret` leads to, up to the first look at `errno`. -/
def ioTestStmt (a : SId) (u : UId) (c : IoCall) (ret : Int) (s : State) : State :=
  let e := (s.sched a).errno
  match c.kind with
  | .accept =>
    if ret = -1 then
      if e = .eagain ∨ e = .enfile ∨ e = .emfile then goto u (.register c .ctl) s
      else if e = .econnaborted then goto u (.io c .sys) s
      else returns a u (-1) s
    else returns a u ret s
  | .connect =>
    if ret = -1 then
      if e = .eagain ∨ e = .einprogress then goto u (.register c .ctl) s
      else returns a u (-1) s
    else returns a u ret s
  | .read =>
    if ret = -1 ∧ e ≠ .eagain then returns a u (-1) s else goto u (.io c (.retest ret)) s
  | .write =>
    if ret = 0 then returns a u c.sent s
    else if 0 < ret then goto u (.io {c with sent := c.sent + ret.toNat} .head) s
    else if ret = -1 ∧ e ≠ .eagain then returns a u (-1) s
    else goto u (.io c (.retest ret)) s

/-- The second look at `errno`, in `uthread_read` and `uthread_write`. -/
def ioRetestStmt (a : SId) (u : UId) (c : IoCall) (ret : Int) (s : State) : State :=
  if ret = -1 ∧ (s.sched a).errno = .eagain then goto u (.register c .ctl) s
  else if c.kind = .read ∧ 0 ≤ ret then returns a u ret s
  else goto u c.loop s

/-- After `_register_event` has returned. -/
def ioAfterStmt (a : SId) (u : UId) (c : IoCall) (s : State) : State :=
  match c.kind with
  | .accept | .write => goto u c.loop s
  | .connect =>
    if (s.ut u).status.has .expired then returns a u (-1) (setErrno a .etimedout s)
    else goto u c.loop s
  | .read => if (s.ut u).status.has .expired then returns a u (-2) s else goto u c.loop s

def ioStmt (a : SId) (u : UId) (c : IoCall) (pc : IoAt) (r : Reply) (s : State) :
    Except Stop State :=
  match pc with
  | .head => .ok (ioHeadStmt a u c s)
  | .fcntl => if r.ok then .ok (goto u (.io c .sys) s) else .error (.fault (.assertion .fcntl))
  | .sys =>
    .ok (goto u (.io c (.test r.ret)) (if r.ret = -1 then setErrno a r.errno s else s))
  | .test ret => .ok (ioTestStmt a u c ret s)
  | .retest ret => .ok (ioRetestStmt a u c ret s)
  | .after => .ok (ioAfterStmt a u c s)

end UthreadRuntime
