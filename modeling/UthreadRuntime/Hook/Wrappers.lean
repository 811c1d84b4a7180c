import UthreadRuntime.Model.State
import UthreadRuntime.Support.Run

/-! The socket functions as loops around an inner call (`uthread_socket.c`).

Every one is a loop that tests, calls a function that does the work, looks at its result
and may wait for the descriptor. They differ in the tests, in the function they call and
in how they name it: four fetch the C library's with `dlsym`, nine write the plain name.
Here a body runs alone: what its inner call and its wait answer is given, and the scheduler
does not appear. -/
namespace UthreadRuntime.Hook

/-- The I/O functions of `myhook.c`. -/
inductive Entry where
  | connect | accept | read | write
  | recv | recvmsg | recvfrom | recvExact | readExact
  | send | sendmsg | sendto | writev
  deriving DecidableEq, Repr

/-- `struct iovec` -/
structure Iovec where
  base : Nat
  len : Nat
  deriving DecidableEq, Repr

/-- The arguments of a call; each function uses those it has. The pointer of a message is in
`buf`; `address_len` is a length or the pointer to one. -/
structure Args where
  fd : Int := 0
  buf : Nat := 0
  length : Nat := 0
  flags : BitVec 32 := 0#32
  address : Nat := 0
  addressLen : Nat := 0
  iov : List Iovec := []
  deriving DecidableEq, Repr

/-- `MSG_NOSIGNAL`, which the macro `FLAG` adds. -/
def msgNosignal : BitVec 32 := 0x4000#32

/-- How the inner function is named. -/
inductive Callee where
  | libc (e : Entry)
  | plain (e : Entry)
  deriving DecidableEq, Repr

inductive BodyAt where
  | head | fcntl | call
  | test (ret : Int)
  | register | after
  deriving DecidableEq, Repr

/-- An activation of a body: its arguments, `recvd`, `sent` or `total`, and `iov_index`. -/
structure Frame where
  args : Args
  done : Nat := 0
  iovIndex : Nat := 0
  pc : BodyAt
  deriving DecidableEq, Repr

/-- What the body reads of its uthread and its thread. -/
structure World where
  fdeof : Bool := false
  expired : Bool := false
  errno : Errno := .ok
  deriving DecidableEq, Repr

/-- What the kernel, the inner call and the wait answer to one statement. -/
structure Answer where
  ret : Int := 0
  errno : Errno := .ok
  ok : Bool := true
  fdeof : Bool := false
  expired : Bool := false

/-- How an activation ends. -/
inductive End where
  | returned (v : Int) (w : World)
  | aborted
  deriving DecidableEq, Repr

/-- What the result of the inner call leads to. -/
inductive Verdict where
  | returns (v : Int)
  | again (f : Frame)
  | waits

/-- What distinguishes one function from another. -/
structure Wrapper where
  /-- `while (done != length)` -/
  counted : Bool := false
  /-- The loop tests `UT_ST_FDEOF`. -/
  testsEof : Bool := true
  /-- `assert(fcntl(fd, F_SETFL, O_NONBLOCK) != -1)` -/
  setsNonblock : Bool := false
  callee : Callee
  args : Frame → Args
  verdict : Frame → Int → Errno → Verdict
  /-- The value and the `errno` when the wait has expired, if the function looks. -/
  onExpired : Option (Int × Option Errno) := none
  /-- The test at the end of a `do` loop: the value when it fails. -/
  bottom : Frame → Option Int := fun _ => none

/-! ### The families -/

/-- The rest of the buffer. -/
def restOf (f : Frame) : Args := {f.args with buf := f.args.buf + f.done, length := f.args.length - f.done}

def withFlag (a : Args) : Args := {a with flags := a.flags ||| msgNosignal}

/-- `uthread_read` and the functions made like it. -/
def readVerdict (f : Frame) (ret : Int) (e : Errno) : Verdict :=
  if ret = -1 ∧ e ≠ .eagain then .returns (-1)
  else if ret = -1 ∧ e = .eagain then .waits
  else if 0 ≤ ret then .returns ret
  else .again f

/-- The functions that add up what the inner call has done. -/
def countVerdict (f : Frame) (ret : Int) (e : Errno) : Verdict :=
  if ret = 0 then .returns f.done
  else if 0 < ret then .again {f with done := f.done + ret.toNat}
  else if ret = -1 ∧ e ≠ .eagain then .returns (-1)
  else if ret = -1 ∧ e = .eagain then .waits
  else .again f

def sendmsgVerdict (f : Frame) (ret : Int) (e : Errno) : Verdict :=
  if 0 ≤ ret then .returns ret
  else if ret = -1 ∧ e ≠ .eagain then .returns (-1)
  else if ret = -1 ∧ e = .eagain then .waits
  else .again f

def acceptVerdict (f : Frame) (ret : Int) (e : Errno) : Verdict :=
  if ret = -1 then
    if e = .eagain ∨ e = .enfile ∨ e = .emfile then .waits
    else if e = .econnaborted then .again f
    else .returns (-1)
  else .returns ret

def connectVerdict (_ : Frame) (ret : Int) (e : Errno) : Verdict :=
  if ret = -1 then
    if e = .eagain ∨ e = .einprogress then .waits else .returns (-1)
  else .returns ret

/-- The loop over the vector after `n` bytes were written: the entries with what is left of
them, and how many are done with. -/
def consume (n : Nat) : List Iovec → List Iovec × Nat
  | [] => ([], 0)
  | v :: rest =>
    if n = 0 then (v :: rest, 0)
    else if n < v.len then (⟨v.base + n, v.len - n⟩ :: rest, 0)
    else
      let (rest', k) := consume (n - v.len) rest
      (v :: rest', k + 1)

/-- `while (iov_index < iovcnt)` -/
def writevBottom (f : Frame) : Option Int :=
  if f.iovIndex < f.args.iov.length then none else some f.done

def writevVerdict (f : Frame) (n : Int) (e : Errno) : Verdict :=
  if 0 < n then
    let (left, k) := consume n.toNat (f.args.iov.drop f.iovIndex)
    let f := {f with
      args := {f.args with iov := f.args.iov.take f.iovIndex ++ left}
      done := f.done + n.toNat
      iovIndex := f.iovIndex + k}
    match writevBottom f with
    | none => .again f
    | some v => .returns v
  else if n = -1 ∧ e = .eagain then .waits
  else .returns n

/-! ### The functions -/

def uthreadAccept : Wrapper where
  testsEof := false
  callee := .libc .accept
  args f := f.args
  verdict := acceptVerdict

def uthreadConnect : Wrapper where
  testsEof := false
  callee := .libc .connect
  args f := f.args
  verdict := connectVerdict
  onExpired := some (-1, some .etimedout)

def uthreadRead : Wrapper where
  setsNonblock := true
  callee := .libc .read
  args f := f.args
  verdict := readVerdict
  onExpired := some (-2, none)

def uthreadRecv : Wrapper where
  setsNonblock := true
  callee := .plain .recv
  args f := withFlag f.args
  verdict := readVerdict
  onExpired := some (-2, none)

def uthreadRecvmsg : Wrapper := {uthreadRecv with callee := .plain .recvmsg}

def uthreadRecvfrom : Wrapper := {uthreadRecv with callee := .plain .recvfrom}

def uthreadRecvExact : Wrapper where
  counted := true
  callee := .plain .recv
  args f := withFlag (restOf f)
  verdict := countVerdict
  onExpired := some (-2, none)

def uthreadReadExact : Wrapper where
  counted := true
  callee := .plain .read
  args f := restOf f
  verdict := countVerdict
  onExpired := some (-2, none)

def uthreadWrite : Wrapper where
  counted := true
  callee := .libc .write
  args f := restOf f
  verdict := countVerdict

def uthreadSend : Wrapper where
  counted := true
  callee := .plain .send
  args f := withFlag (restOf f)
  verdict := countVerdict

def uthreadSendmsg : Wrapper where
  callee := .plain .sendmsg
  args f := withFlag f.args
  verdict := sendmsgVerdict

def uthreadSendto : Wrapper := {uthreadSendmsg with callee := .plain .sendto}

/-- The one function that looks at no flag. -/
def uthreadWritev : Wrapper where
  testsEof := false
  callee := .plain .writev
  args f := {f.args with iov := f.args.iov.drop f.iovIndex}
  verdict := writevVerdict
  bottom := writevBottom

/-- The function that the entry of `myhook.c` calls. -/
def Entry.wrapper : Entry → Wrapper
  | .connect => uthreadConnect
  | .accept => uthreadAccept
  | .read => uthreadRead
  | .write => uthreadWrite
  | .recv => uthreadRecv
  | .recvmsg => uthreadRecvmsg
  | .recvfrom => uthreadRecvfrom
  | .recvExact => uthreadRecvExact
  | .readExact => uthreadReadExact
  | .send => uthreadSend
  | .sendmsg => uthreadSendmsg
  | .sendto => uthreadSendto
  | .writev => uthreadWritev

/-! ### Running a body -/

/-- What a wait, or a library function that may have waited, leaves behind. -/
def World.after (w : World) (r : Answer) : World :=
  {fdeof := w.fdeof || r.fdeof, expired := w.expired || r.expired, errno := r.errno}

/-- The head of the loop, and the test of a `while` that counts. -/
def headStmt (x : Wrapper) (f : Frame) (w : World) : Except End (Frame × World) :=
  if x.counted ∧ f.done = f.args.length then .error (.returned f.done w)
  else if x.testsEof ∧ w.fdeof then .error (.returned (-1) w)
  else .ok ({f with pc := if x.setsNonblock then .fcntl else .call}, w)

/-- The inner call has answered. -/
def answered (x : Wrapper) (w : World) (r : Answer) : World :=
  match x.callee with
  | .libc _ => if r.ret = -1 then {w with errno := r.errno} else w
  | .plain _ => w.after r

def testStmt (x : Wrapper) (f : Frame) (ret : Int) (w : World) : Except End (Frame × World) :=
  match x.verdict f ret w.errno with
  | .returns v => .error (.returned v w)
  | .again f => .ok ({f with pc := .head}, w)
  | .waits => .ok ({f with pc := .register}, w)

/-- After `_register_event`. -/
def afterStmt (x : Wrapper) (f : Frame) (w : World) : Except End (Frame × World) :=
  match x.onExpired, w.expired with
  | some (v, e), true => .error (.returned v {w with errno := e.getD w.errno})
  | _, _ =>
    match x.bottom f with
    | some v => .error (.returned v w)
    | none => .ok ({f with pc := .head}, w)

/-- One statement of a body. -/
def bodyStep (x : Wrapper) (s : Frame × World) (r : Answer) : Except End (Frame × World) :=
  match s.1.pc with
  | .head => headStmt x s.1 s.2
  | .fcntl => if r.ok then .ok ({s.1 with pc := .call}, s.2) else .error .aborted
  | .call => .ok ({s.1 with pc := .test r.ret}, answered x s.2 r)
  | .test ret => testStmt x s.1 ret s.2
  | .register => .ok ({s.1 with pc := .after}, s.2.after r)
  | .after => afterStmt x s.1 s.2

/-- The start of a body. -/
def entered (a : Args) (w : World) : Frame × World := ({args := a, pc := .head}, w)

end UthreadRuntime.Hook
