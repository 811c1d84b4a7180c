import UthreadRuntime.Model.Machine

/-! Descriptors and their modes (`uthread_socket`, and the kernel's side of the other socket calls).

The machine of `Model.Machine` leaves open what the kernel answers. Here it keeps a table of
modes: `accept` gives a descriptor that was closed, in blocking mode; `fcntl` sets `O_NONBLOCK`
on one that is open; `close` closes it. `uthread_socket` is the call that makes a socket and
sets its mode, two statements that the timer can part. -/
namespace UthreadRuntime

open State

/-- A descriptor, as the kernel has it. -/
inductive FdMode where
  | closed | blocking | nonblocking
  deriving DecidableEq, Repr

/-- What an action does to a descriptor. -/
inductive FdOp where
  | noOp
  /-- `sys_socket` has made it. -/
  | made (fd : Int)
  /-- The `fcntl` of `uthread_socket`, which returns it then. -/
  | socket (fd : Int)
  /-- `sys_accept` has made it. -/
  | accepted (fd : Int)
  /-- The `fcntl` of `uthread_read`. -/
  | read (fd : Int)
  | close (fd : Int)
  deriving DecidableEq, Repr

/-- The kernel gives out descriptors that are closed, and sets the mode of open ones. -/
def FdOp.granted (mode : Int → FdMode) : FdOp → Bool
  | .noOp | .close _ => true
  | .made fd | .accepted fd => decide (0 ≤ fd) && mode fd == .closed
  | .socket fd | .read fd => mode fd != .closed

def FdOp.apply (mode : Int → FdMode) : FdOp → Int → FdMode
  | .noOp => mode
  | .made fd | .accepted fd => Function.update mode fd .blocking
  | .socket fd | .read fd => Function.update mode fd .nonblocking
  | .close fd => Function.update mode fd .closed

/-- The statement of a socket call that reaches the kernel: `-1` makes no descriptor. -/
def ioOp (r : Reply) : Ctx → FdOp
  | .io c .fcntl => if r.ok then .read c.fd else .noOp
  | .io ⟨.accept, _, _, _⟩ .sys => if r.ret = -1 then .noOp else .accepted r.ret
  | _ => .noOp

def runOp (s : State) : Act → FdOp
  | .call _ (.close fd) => .close fd
  | .stmt a r =>
    match (s.sched a).curUthread with
    | none => .noOp
    | some u => ioOp r (s.ut u).ctx
  | _ => .noOp

/-- The runtime with its descriptors. -/
structure Files where
  rt : State := init
  mode : Int → FdMode
  /-- The socket that a uthread inside `uthread_socket` has made, its mode not set yet. -/
  sockFd : UId → Option Int := fun _ => none

inductive FileAct where
  | run (act : Act)
  /-- `sys_socket`, called by `uthread_socket` -/
  | socket (a : SId) (r : Reply)
  /-- `fcntl(sock_fd, F_SETFL, O_NONBLOCK)` -/
  | setNonblock (a : SId) (r : Reply)

/-- The uthread in user code on the thread of `a`. -/
def Files.user (x : Files) (a : SId) : Option UId :=
  if x.rt.halted then none
  else (x.rt.sched a).curUthread.filter fun u => decide ((x.rt.ut u).ctx = .user)

/-- A uthread inside `uthread_socket` makes no call. -/
def Files.busy (x : Files) : Act → Bool
  | .call a _ => ((x.rt.sched a).curUthread.bind x.sockFd).isSome
  | _ => false

def Files.op (x : Files) : FileAct → FdOp
  | .run act => runOp x.rt act
  | .socket _ r => .made r.ret
  | .setNonblock a _ =>
    match (x.user a).bind x.sockFd with
    | none => .noOp
    | some fd => .socket fd

/-- The statement of the program, whatever the kernel does. -/
def Files.stmt (x : Files) : FileAct → Except Stop Files
  | .run act => if x.busy act then .error .disabled else (step x.rt act).map fun s => {x with rt := s}
  | .socket a r =>
    match x.user a with
    | none => .error .disabled
    | some u =>
      if (x.sockFd u).isSome then .error .disabled
      else if r.ret = -1 then .error (.fault (.assertion .socket))
      else .ok {x with sockFd := Function.update x.sockFd u (some r.ret)}
  | .setNonblock a r =>
    match x.user a with
    | none => .error .disabled
    | some u =>
      if (x.sockFd u).isNone then .error .disabled
      else if r.ok then .ok {x with sockFd := Function.update x.sockFd u none}
      else .error (.fault (.assertion .fcntl))

def filesStep (x : Files) (act : FileAct) : Except Stop Files := do
  let y ← x.stmt act
  if (x.op act).granted x.mode then .ok {y with mode := (x.op act).apply x.mode} else .error .disabled

/-! ### Where descriptors come from -/

/-- The library call that gave a descriptor to user code. -/
inductive Origin where
  | socket | accept
  deriving DecidableEq, Repr

/-- History: where each open descriptor was obtained, and whether `uthread_read` has come to
its `fcntl` on it since. -/
structure Obtained where
  origin : Int → Option Origin := fun _ => none
  read : Int → Bool := fun _ => false

def FdOp.note (g : Obtained) : FdOp → Obtained
  | .noOp => g
  | .made fd | .close fd => ⟨Function.update g.origin fd none, Function.update g.read fd false⟩
  | .socket fd => {g with origin := Function.update g.origin fd (some .socket)}
  | .accepted fd => ⟨Function.update g.origin fd (some .accept), Function.update g.read fd false⟩
  | .read fd => {g with read := Function.update g.read fd true}

def noteFile (x : Files) (act : FileAct) (_ : Files) (g : Obtained) : Obtained := (x.op act).note g

/-- The runtime with its descriptors and their history. -/
abbrev Filed := Files × Obtained

/-- The states reached in any run, from whatever descriptors the process was started with. -/
abbrev Filed.Reaches (mode : Int → FdMode) : Filed → Prop :=
  Run.Reaches (Run.noted filesStep noteFile) (fun _ _ => True) ({mode := mode}, {})

/-- The thread of `a` issues the system call of `c`. -/
def Files.Issues (x : Files) (a : SId) (c : IoCall) : Prop :=
  ∃ u, (x.rt.sched a).curUthread = some u ∧ (x.rt.ut u).ctx = .io c .sys

end UthreadRuntime
