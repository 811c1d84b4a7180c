import UthreadRuntime.Model.Socket
import UthreadRuntime.Model.Sched
import UthreadRuntime.Support.Run

/-! The runtime as a machine.

An action is one thread's: user code makes a library call, the uthread executes
its next library statement, the timer preempts it, or the scheduler loop goes one
step on. Threads take their actions in any order. -/
namespace UthreadRuntime

open State

inductive Act where
  | call (a : SId) (c : Call)
  | stmt (a : SId) (r : Reply)
  | preempt (a : SId)
  | sched (a : SId) (r : Reply)

/-- The thread that acts. -/
def Act.thread : Act → SId
  | .call a _ | .stmt a _ | .preempt a | .sched a _ => a

/-- The next library statement of `u`, running on the thread of `a`. -/
def uthreadStmt (a : SId) (u : UId) (r : Reply) (s : State) : Except Stop State :=
  match (s.ut u).ctx with
  | .user => .error .disabled
  | .yieldFlag => .ok (yieldFlagStmt u s)
  | .yieldSwitch => uthreadSwitched a u (goto u .user s)
  | .sleep w pc => schedSleepStmt a u w pc r s
  | .register c pc => registerStmt a u c pc s
  | .io c pc => ioStmt a u c pc r s
  | .join t v pc => .ok (joinStmt a u t v pc s)
  | .exit v pc => exitStmt a u v pc s
  | .createGet => .ok (goto u (.createAlloc a) s)
  | .createAlloc c => if r.ok then .ok (goto u (.create c .lock) s) else .ok (returns a u (-1) s)
  | .create c pc => createStmt a u c pc r s
  | .diskGet => .ok (goto u (.diskFlag a) s)
  | .diskFlag c => diskFlagStmt u c s
  | .diskHandOff c => diskHandOffStmt u c r s
  | .diskCall => .ok (diskCallStmt a u r s)

/-- `close(fd)` of the C library: the kernel drops the descriptor from every interest set. -/
def closeFd (fd : Int) (s : State) : State :=
  {s with p := fun q => {s.p q with interest := (s.p q).interest.filter fun i => i.fd != fd}}

/-- User code makes a call. A pointer it passes is one that `uthread_create` gave it. -/
def enter (a : SId) (u : UId) (c : Call) (s : State) : Except Stop State :=
  let s := s.setUt u fun v => {v with hist := {call := some c}}
  match c with
  | .yield => .ok (goto u .yieldFlag s)
  | .create => .ok (goto u .createGet s)
  | .join t r => if (s.ut t).life = .fresh then .error .disabled else .ok (goto u (.join t r .self) s)
  | .exit v => .ok (goto u (.exit (some v) .mark) s)
  | .finish => if (s.ut u).isMain then .error .disabled else .ok (goto u (.exit none .mark) s)
  | .mainEnd => .ok (goto u (.exit none .mark) s)
  | .detach t =>
    if (s.ut t).life = .fresh then .error .disabled
    else .ok (returns a u 0 (s.setUt t fun v => {v with status := v.status.add .detached}))
  | .disk => .ok (goto u .diskGet s)
  | .io c => if c.sent = 0 then .ok (goto u (.io c .head) s) else .error .disabled
  | .close fd => .ok (returns a u 0 (closeFd fd s))

/-- The SIGUSR1 handler: `_uthread_yield` from wherever the uthread stands. -/
def handler (a : SId) (u : UId) (s : State) : Except Stop State :=
  uthreadSwitched a u (s.setUt u fun v => {v with isWatingYieldSignal := false})

/-- `free_source()` has been called. It frees the stack of every sched, and the loop of the first
one runs on it; the others run on the stacks of their threads. All that is left otherwise is
`exit(0)` of the thread that called it. -/
def stepHalted : Act → Except Stop State
  | .sched 0 _ => .error (.fault .freedStack)
  | _ => .error .disabled

/-- One action of the machine. -/
def step (s : State) (act : Act) : Except Stop State :=
  if s.halted then stepHalted act
  else
    match act with
    | .call a c =>
      match (s.sched a).curUthread with
      | none => .error .disabled
      | some u => if (s.ut u).ctx = .user then enter a u c s else .error .disabled
    | .stmt a r =>
      match (s.sched a).curUthread with
      | none => .error .disabled
      | some u => uthreadStmt a u r s
    | .preempt a =>
      match (s.sched a).curUthread with
      | none => .error .disabled
      | some u => if (s.ut u).isWatingYieldSignal then handler a u s else .error .disabled
    | .sched a r =>
      match (s.sched a).curUthread with
      | none => schedRun a r s
      | some _ => .error .disabled

/-! ### The start -/

/-- `_runtime_init`: all scheds made are idle but the first, which takes the first p. -/
def runtimeInit : State where
  sched := Function.update (fun _ => {}) 0 {p := some 0, pc := .top}
  p := Function.update (fun _ => {}) 0 {sched := some 0}
  schedIdle := (List.range maxProcs).tail

/-- `_uthread_create_main`, up to its switch to the scheduler. Main will go on inside
the `uthread_create` that called it, which has fetched the first sched. -/
def uthreadCreateMain (s : State) : State :=
  {insertReady 0 0 s with
    ut := Function.update s.ut 0
      {isMain := true, status := .only .ready, p := (s.sched 0).p, fdWait := -1,
        isWatingYieldSignal := true, ctx := .createAlloc 0, life := .live,
        hist := {call := some .create}}
    bitmapUt := Function.update s.bitmapUt 0 true
    nextUtId := s.nextUtId + 1
    nUthread := s.nUthread + 1
    heap := 1}

def init : State := uthreadCreateMain runtimeInit

/-! Main is the only uthread and is queued, and its sched is the only one that has a p. -/

theorem init_ut {u : UId} (hu : u ≠ 0) : init.ut u = {} := by
  show Function.update _ 0 _ u = _
  rw [Function.update_of_ne hu]
  rfl

theorem init_sched {a : SId} (ha : a ≠ 0) : init.sched a = {} := by
  show runtimeInit.sched a = _
  simp [runtimeInit, ha]

theorem init_p {q : PId} (hq : q ≠ 0) : init.p q = {} := by
  show (insertReady 0 0 runtimeInit).p q = _
  simp [insertReady, setP_p, runtimeInit, hq]

theorem init_cur (a : SId) : (init.sched a).curUthread = none := by
  by_cases ha : a = 0
  · rw [ha]
    rfl
  · rw [init_sched ha]

theorem init_links (q : PId) :
    (init.p q).sleeping = [] ∧ (init.p q).waiting = [] ∧ (init.p q).interest = [] := by
  by_cases hq : q = 0
  · subst hq
    exact ⟨rfl, rfl, rfl⟩
  · rw [init_p hq]
    exact ⟨rfl, rfl, rfl⟩

theorem init_ready {q : PId} {u : UId} (hu : u ∈ (init.p q).ready) : q = 0 ∧ u = 0 := by
  by_cases hq : q = 0
  · subst hq
    have hu' : u ∈ ([0] : List UId) := hu
    exact ⟨rfl, List.mem_singleton.mp hu'⟩
  · rw [init_p hq] at hu
    cases hu

/-- The states the runtime gets to when every action meets `C`. -/
abbrev Reaches (C : State → Act → Prop) : State → Prop := Run.Reaches step C init

/-- The execution of a list of actions from the start. -/
def exec (acts : List Act) : Except Stop State := Run.run step init acts

/-! ### Pieces of concrete runs -/

/-- `n` statements of the uthread on the thread of `a`, every request granted. -/
def stmts (a : SId) (n : Nat) : List Act := List.replicate n (.stmt a {})

/-- `n` steps of the scheduler of `a`, at time `0` and with no event reported. -/
def scheds (a : SId) (n : Nat) : List Act := List.replicate n (.sched a {})

/-- Main runs and has created its first uthread. -/
def boot : List Act := scheds 0 4 ++ stmts 0 7

/-- The uthread on the thread of `a` makes a call and executes `n` statements of it. -/
def calls (a : SId) (c : Call) (n : Nat) : List Act := .call a c :: stmts a n

/-- The uthread that main created runs. -/
def createdRuns : List Act := boot ++ calls 0 .yield 2 ++ scheds 0 8

/-- Main reads from a descriptor that has nothing to read, up to the `n`-th statement of its wait. -/
def blockedRead (n : Nat) : List Act :=
  boot ++ calls 0 (.io ⟨.read, 5, 1, 0⟩) 2 ++ [.stmt 0 {ret := -1, errno := .eagain}] ++ stmts 0 (2 + n)

end UthreadRuntime
