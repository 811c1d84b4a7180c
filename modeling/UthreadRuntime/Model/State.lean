import UthreadRuntime.Support.Flags
import UthreadRuntime.Support.Tree
import Mathlib.Algebra.Group.Nat.Defs
import Mathlib.Logic.Function.Basic

/-! The data of the runtime (`uthread_inner.h`, `timer.h`).

A uthread, a sched and a p are named by their addresses, and memory is three
functions from addresses to records, so an update through any pointer is seen by
every holder of it. A released record keeps its last contents and is marked
`freed`: `_uthread_resume` reads `status` and `id` of the uthread it has just
freed, and a caller may hold the pointer of one that exited long ago.

A uthread's saved context is where its library code stands (`Ctx`), one
constructor per statement the timer can interrupt; `user` is the uthread's own
function. A kernel thread and its sched are one-to-one, so what belongs to the
thread (its `errno`, whether it exists, where its scheduler loop stands) is kept
in the sched. Fields the code writes and never reads are left out. -/
namespace UthreadRuntime

/-- `struct uthread *` -/
abbrev UId := Nat
/-- `struct sched *` -/
abbrev SId := Nat
/-- `struct p *` -/
abbrev PId := Nat
/-- `void **` -/
abbrev Addr := Nat
/-- `void *`, with `0` for `NULL` -/
abbrev Val := Nat

def maxProcs : Nat := 4
def maxCountUthread : Nat := 10000000
def timeWheelSize : Nat := 10

inductive Errno where
  | ok | eagain | einprogress | enfile | emfile | econnaborted | econnreset | etimedout
  | edeadlk | einval
  | other (code : Nat)
  deriving DecidableEq, Repr

/-! ### Events and descriptors -/

/-- `enum uthread_event` -/
inductive UthreadEvent where
  | rd | wr
  deriving DecidableEq, Repr

/-- The number the enumeration gives the event. -/
def UthreadEvent.toNat : UthreadEvent → Nat
  | .rd => 0
  | .wr => 1

/-- `FD_KEY(fd, e)`: the descriptor in the high half of an `int64_t`, the event in the low one. -/
def fdKey (fd e : Int) : Int := fd * 4294967296 + e

/-- `FD_EVENT(f)`: the low half, as an `int32_t`. -/
def fdEvent (f : Int) : Int := f.bmod 4294967296

/-- `FD_ONLY(f)`: the arithmetic shift that drops the low half. -/
def fdOnly (f : Int) : Int := f / 4294967296

/-- One member of an epoll interest set; `armed` is cleared when a one-shot event is reported. -/
structure Interest where
  fd : Int
  event : UthreadEvent
  armed : Bool
  deriving DecidableEq, Repr

/-- `epoll_ctl(EPOLL_CTL_ADD)`: `none` is the result `-1` (`EBADF`, `EEXIST`). -/
def epollCtlAdd (fd : Int) (e : UthreadEvent) (l : List Interest) : Option (List Interest) :=
  if fd < 0 ∨ fd ∈ l.map Interest.fd then none else some (⟨fd, e, true⟩ :: l)

/-- `epoll_ctl(EPOLL_CTL_DEL)`: `none` is the result `-1` (`EBADF`, `ENOENT`). -/
def epollCtlDel (fd : Int) (l : List Interest) : Option (List Interest) :=
  if fd ∈ l.map Interest.fd then some (l.filter fun i => i.fd != fd) else none

/-- `struct epoll_event` as `epoll_wait` fills it: the code reads `data.fd` and `EPOLLHUP`. -/
structure EpollEvent where
  fd : Int
  hup : Bool
  deriving DecidableEq, Repr

/-! ### The status word -/

/-- `enum uthread_st` -/
inductive UthreadSt where
  | new | ready | exited | sleeping | detached | expired | fdeof | waitRd | waitWr
  deriving DecidableEq, Repr

def UthreadSt.toNat : UthreadSt → Nat
  | .new => 0
  | .ready => 1
  | .exited => 2
  | .sleeping => 3
  | .detached => 4
  | .expired => 5
  | .fdeof => 6
  | .waitRd => 7
  | .waitWr => 8

/-- `enum uthread_st status`, used as a word of flags. -/
abbrev Status := BitVec 32

def Status.has (w : Status) (b : UthreadSt) : Bool := Flags.test w b.toNat
def Status.add (w : Status) (b : UthreadSt) : Status := Flags.set w b.toNat
def Status.del (w : Status) (b : UthreadSt) : Status := Flags.clear w b.toNat
def Status.only (b : UthreadSt) : Status := Flags.bit b.toNat

theorem UthreadSt.toNat_lt (b : UthreadSt) : b.toNat < 32 := by
  cases b <;> decide

theorem UthreadSt.toNat_inj (a b : UthreadSt) : a.toNat = b.toNat ↔ a = b := by
  constructor
  · intro h
    cases a <;> cases b <;> simp_all [UthreadSt.toNat]
  · rintro rfl
    rfl

@[simp] theorem Status.has_add (w : Status) (a b : UthreadSt) :
    (w.add a).has b = (decide (a = b) || w.has b) := by
  simp only [Status.has, Status.add, Flags.test_set _ _ _ b.toNat_lt, UthreadSt.toNat_inj]

@[simp] theorem Status.has_del (w : Status) (a b : UthreadSt) :
    (w.del a).has b = (!decide (a = b) && w.has b) := by
  simp only [Status.has, Status.del, Flags.test_clear _ _ _ b.toNat_lt, UthreadSt.toNat_inj]

@[simp] theorem Status.has_only (a b : UthreadSt) : (Status.only a).has b = decide (a = b) := by
  simp only [Status.has, Status.only, Flags.test_bit _ _ b.toNat_lt, UthreadSt.toNat_inj]

@[simp] theorem Status.has_zero (b : UthreadSt) : Status.has (0#32) b = false := Flags.test_zero _

/-! ### Where library code stands -/

/-- The socket calls that reach the kernel. -/
inductive IoKind where
  | accept | connect | read | write
  deriving DecidableEq, Repr

/-- A socket call in progress: its arguments, and `sent` for the loop of `uthread_write`. -/
structure IoCall where
  kind : IoKind
  fd : Int
  length : Nat
  sent : Nat
  deriving DecidableEq, Repr

/-- The event each call passes to `_register_event`. -/
def IoCall.event (c : IoCall) : UthreadEvent :=
  match c.kind with
  | .accept | .read => .rd
  | .connect | .write => .wr

/-- The timeout each call passes to `_register_event`, in milliseconds. -/
def IoCall.timeout (c : IoCall) : Nat :=
  match c.kind with
  | .read => 1000
  | .accept | .connect | .write => 0

/-- Why a uthread calls `_uthread_sched_sleep`. -/
inductive Wait where
  | join (ut : UId) (retval : Option Addr)
  | event (c : IoCall)
  deriving DecidableEq, Repr

/-- The `mescs` each caller passes to `_uthread_sched_sleep`. -/
def Wait.mescs : Wait → Nat
  | .join _ _ => 10000
  | .event c => c.timeout

/-- The statements of `_uthread_sched_sleep`, the two of its `_uthread_yield` included. -/
inductive SleepAt where
  | clock | insert | mark | flag | yieldFlag | switch | wake
  deriving DecidableEq, Repr

/-- The statements of `_register_event` around its call of `_uthread_sched_sleep`. -/
inductive RegisterAt where
  | ctl | status | key | insert | unkey | unstatus
  deriving DecidableEq, Repr

/-- The statements of `uthread_join` before and after its sleep. -/
inductive JoinAt where
  | self | detached | taken | exited | publish | setRetval
  | expired | unpublish | resetRetval | free
  deriving DecidableEq, Repr

/-- The statements of `uthread_create` after its `calloc`. The new record is the call's
own until it is enqueued: what was put in it so far, its `id` and its `p`, is kept here. -/
inductive CreateAt where
  | lock
  | count
  | unlock (id : Nat)
  | stack (id : Nat)
  | bind (id : Nat)
  | insert (id : Nat) (p : Option PId)
  deriving DecidableEq, Repr

/-- The statements of the socket calls around `_register_event`. -/
inductive IoAt where
  | head | fcntl | sys
  | test (ret : Int)
  | retest (ret : Int)
  | after
  deriving DecidableEq, Repr

/-- The statements of `uthread_exit`; `main_end` and `_uthread_exec` store no value. -/
inductive ExitAt where
  | mark | store | yieldFlag | switch
  deriving DecidableEq, Repr

/-- The saved context of a uthread: the next statement it executes. -/
inductive Ctx where
  | user
  | yieldFlag
  | yieldSwitch
  | sleep (w : Wait) (pc : SleepAt)
  | register (c : IoCall) (pc : RegisterAt)
  | io (c : IoCall) (pc : IoAt)
  | join (ut : UId) (retval : Option Addr) (pc : JoinAt)
  | exit (retval : Option Val) (pc : ExitAt)
  | createGet
  | createAlloc (sched : SId)
  | create (sched : SId) (pc : CreateAt)
  | diskGet
  | diskFlag (curSched : SId)
  | diskHandOff (curSched : SId)
  | diskCall
  deriving DecidableEq, Repr

/-- The scheduler thread's place in `_sched_run` and in the functions it calls. -/
inductive SchedAt where
  | off
  | another
  | top
  | expiry
  | lastReady
  | ready (lastReady : Option UId)
  | readyAfter (lastReady : Option UId) (ut : UId)
  | pollCheck
  | poll
  | events
  | handleWr (fd : Int) (isEof : Bool)
  | done
  deriving DecidableEq, Repr

/-! ### Records -/

inductive Life where
  | fresh | live | freed
  deriving DecidableEq, Repr

/-- How a wait ended. -/
inductive Wake where
  | expired | event | joined
  deriving DecidableEq, Repr

/-- The library calls of user code. -/
inductive Call where
  | yield
  | create
  | join (ut : UId) (retval : Option Addr)
  | exit (retval : Val)
  | finish
  | mainEnd
  | detach (ut : UId)
  | disk
  | io (c : IoCall)
  | close (fd : Int)
  deriving DecidableEq, Repr

/-- History of the current or last library call. The program keeps none of it: no
statement reads a field of it. -/
structure History where
  call : Option Call := none
  /-- How the waits of the call ended, latest first. -/
  waits : List Wake := []
  /-- The value the call returned, with the thread's `errno` at that moment. -/
  result : Option (Int × Errno) := none
  deriving DecidableEq, Repr

/-- `struct uthread` -/
structure Uthread where
  id : Nat := 0
  status : Status := 0#32
  isMain : Bool := false
  wakeupTimeUsec : Nat := 0
  utJoined : Option UId := none
  p : Option PId := none
  retval : Option Addr := none
  fdWait : Int := 0
  isWatingYieldSignal : Bool := false
  ctx : Ctx := .user
  life : Life := .fresh
  hist : History := {}

/-- `struct p`, with the interest set of its `poller_fd`. -/
structure P where
  ready : List UId := []
  sleeping : List UId := []
  waiting : List UId := []
  interest : List Interest := []
  eventlist : List EpollEvent := []
  numNewEvents : Nat := 0
  sched : Option SId := none
  tid : SId := 0
  /-- History: the entries `epoll_wait` has placed, and those passed to `handle_event`. -/
  posted : List EpollEvent := []
  taken : List EpollEvent := []

/-- `struct sched` -/
structure Sched where
  p : Option PId := none
  curUthread : Option UId := none
  pc : SchedAt := .off
  errno : Errno := .ok

/-- `struct timer_node` -/
structure TimerNode where
  rotation : Nat
  ut : UId
  deriving DecidableEq, Repr

/-- `struct timer_wheel` -/
structure TimerWheel where
  slot : Nat → List TimerNode := fun _ => []
  current : Nat := 0

/-- `add_timer(len, ut)` -/
def addTimer (len : Nat) (ut : UId) (w : TimerWheel) : TimerWheel :=
  let pos := (len + w.current) % timeWheelSize
  {w with slot := Function.update w.slot pos (⟨len / timeWheelSize, ut⟩ :: w.slot pos)}

/-- `struct global_data`, the records behind its pointers and the memory user code
hands to `uthread_join`. -/
structure State where
  ut : UId → Uthread := fun _ => {}
  p : PId → P := fun _ => {}
  sched : SId → Sched := fun _ => {}
  schedIdle : List SId := []
  nUthread : Nat := 0
  bitmapUt : Nat → Bool := fun _ => false
  nextUtId : Nat := 0
  mutex : Option UId := none
  timer : TimerWheel := {}
  mem : Addr → Val := fun _ => 0
  /-- The next record `uthread_create` hands out. -/
  heap : UId := 0
  /-- A `_sched_run` has taken its last branch: it has the lock and has called `free_source()`. -/
  halted : Bool := false
  /-- History: an event of the descriptor that the uthread registered was taken from the
  event list before the uthread had yielded. -/
  consumed : UId → Bool := fun _ => false

namespace State

def setUt (u : UId) (f : Uthread → Uthread) (s : State) : State :=
  {s with ut := Function.update s.ut u (f (s.ut u))}

def setP (q : PId) (f : P → P) (s : State) : State :=
  {s with p := Function.update s.p q (f (s.p q))}

def setSched (a : SId) (f : Sched → Sched) (s : State) : State :=
  {s with sched := Function.update s.sched a (f (s.sched a))}

section Updates

variable (s : State) (u v : UId) (q r : PId) (a c : SId) (f : Uthread → Uthread) (g : P → P)
  (h : Sched → Sched)

theorem setUt_ut : (s.setUt u f).ut v = if v = u then f (s.ut u) else s.ut v := by
  simp [setUt, Function.update_apply]

theorem setP_p : (s.setP q g).p r = if r = q then g (s.p q) else s.p r := by
  simp [setP, Function.update_apply]

theorem setSched_sched : (s.setSched a h).sched c = if c = a then h (s.sched a) else s.sched c := by
  simp [setSched, Function.update_apply]

@[simp] theorem setUt_p : (s.setUt u f).p = s.p := rfl
@[simp] theorem setUt_sched : (s.setUt u f).sched = s.sched := rfl
@[simp] theorem setUt_schedIdle : (s.setUt u f).schedIdle = s.schedIdle := rfl
@[simp] theorem setUt_heap : (s.setUt u f).heap = s.heap := rfl
@[simp] theorem setUt_consumed : (s.setUt u f).consumed = s.consumed := rfl
@[simp] theorem setP_ut : (s.setP q g).ut = s.ut := rfl
@[simp] theorem setP_sched : (s.setP q g).sched = s.sched := rfl
@[simp] theorem setP_schedIdle : (s.setP q g).schedIdle = s.schedIdle := rfl
@[simp] theorem setP_heap : (s.setP q g).heap = s.heap := rfl
@[simp] theorem setSched_ut : (s.setSched a h).ut = s.ut := rfl
@[simp] theorem setSched_p : (s.setSched a h).p = s.p := rfl
@[simp] theorem setSched_schedIdle : (s.setSched a h).schedIdle = s.schedIdle := rfl
@[simp] theorem setSched_heap : (s.setSched a h).heap = s.heap := rfl

@[simp] theorem setUt_ut_self : (s.setUt u f).ut u = f (s.ut u) := by
  simp [setUt]

@[simp] theorem setP_p_self : (s.setP q g).p q = g (s.p q) := by
  simp [setP]

@[simp] theorem setSched_sched_self : (s.setSched a h).sched a = h (s.sched a) := by
  simp [setSched]

theorem setUt_setUt (f' : Uthread → Uthread) :
    (s.setUt u f).setUt u f' = s.setUt u fun r => f' (f r) := by
  simp [setUt]

end Updates

section Keeps

variable {α : Type} {s : State} {u : UId} {q : PId} {a : SId} {f : Uthread → Uthread} {g : P → P}
  {h : Sched → Sched}

/-- What an update leaves alone of the record, it leaves alone of all of them. -/
theorem setUt_keeps (field : Uthread → α) (hf : field (f (s.ut u)) = field (s.ut u)) (v : UId) :
    field ((s.setUt u f).ut v) = field (s.ut v) := by
  rw [setUt_ut]
  split
  · rename_i hv
    rw [hv]
    exact hf
  · rfl

theorem setP_keeps (field : P → α) (hg : field (g (s.p q)) = field (s.p q)) (r : PId) :
    field ((s.setP q g).p r) = field (s.p r) := by
  rw [setP_p]
  split
  · rename_i hr
    rw [hr]
    exact hg
  · rfl

theorem setSched_keeps (field : Sched → α) (hh : field (h (s.sched a)) = field (s.sched a)) (c : SId) :
    field ((s.setSched a h).sched c) = field (s.sched c) := by
  rw [setSched_sched]
  split
  · rename_i hc
    rw [hc]
    exact hh
  · rfl

end Keeps

end State

/-! ### Why a step does not happen -/

/-- Where a pointer to a p is followed. -/
inductive Site where
  | deschedSleep | deschedEvent | cancelEvent | handleEvent
  | resumeReady | resumeJoined
  | schedLastReady | schedReady | poll | another
  | create | register | registerInsert | sleepInsert
  | tick
  deriving DecidableEq, Repr

/-- The assertions of the code that can fail. -/
inductive Assertion where
  | cancelDel | eventFd | eventDel | epollWait | registerAdd | sleepInsert | threadCreate | fcntl | socket
  deriving DecidableEq, Repr

inductive Fault where
  | nullP (site : Site)
  | nullSched
  | nullCur
  | assertion (a : Assertion)
  /-- The loop of the first sched goes on after `free_source()` has freed the stack it runs on. -/
  | freedStack
  deriving DecidableEq, Repr

/-- An action that cannot be taken, or one that ends the process. -/
inductive Stop where
  | disabled
  | fault (f : Fault)
  deriving DecidableEq, Repr

namespace State

/-- `ut->p`, about to be followed. -/
def home (u : UId) (site : Site) (s : State) : Except Stop PId :=
  match (s.ut u).p with
  | some q => .ok q
  | none => .error (.fault (.nullP site))

/-- `sched->p`, about to be followed. -/
def bound (a : SId) (site : Site) (s : State) : Except Stop PId :=
  match (s.sched a).p with
  | some q => .ok q
  | none => .error (.fault (.nullP site))

end State

/-- What the kernel, the allocator and the clock answer to one statement. -/
structure Reply where
  now : Nat := 0
  /-- The second clock reading of `_uthread_min_timeout`. -/
  now2 : Nat := 0
  ret : Int := 0
  errno : Errno := .ok
  ok : Bool := true
  events : List EpollEvent := []

end UthreadRuntime
