import UthreadRuntime.Model.Machine

/-! The timer thread and its signals (`timer.c`, and `handler` of `uthread.c`).

The machine of `Model.Machine` lets the timer preempt a uthread in one action. Here that
action is taken apart. Every ten milliseconds `tick` walks one slot of the wheel and sends
`SIGUSR1` to the thread of each uthread that is due; the signal is pending until the thread
handles it, at whatever point it then is. A thread is on the stack of its scheduler or on
that of its uthread, and the two differ from what `cur_uthread` says around a `_switch`:
`_uthread_resume` sets `cur_uthread` before it switches and resets it after. -/
namespace UthreadRuntime

open State

/-! ### The wheel -/

/-- The loop of `tick` over the nodes of a slot: those that stay, with a rotation less to
go, and the uthreads of those that are due. -/
def tickSlot : List TimerNode → List TimerNode × List UId
  | [] => ([], [])
  | n :: rest =>
    let (kept, due) := tickSlot rest
    if n.rotation > 0 then ({n with rotation := n.rotation - 1} :: kept, due) else (kept, n.ut :: due)

/-- The uthreads whose nodes the next `tick` frees. -/
def TimerWheel.due (w : TimerWheel) : List UId := (tickSlot (w.slot w.current)).2

/-- The wheel after a `tick`. -/
def TimerWheel.turned (w : TimerWheel) : TimerWheel where
  slot := Function.update w.slot w.current (tickSlot (w.slot w.current)).1
  current := (w.current + 1) % timeWheelSize

/-! ### Threads and signals -/

/-- On which stack a thread is. -/
inductive Stage where
  /-- In scheduler code, with no uthread taken. -/
  | sched
  /-- In `_uthread_resume`, before its `_switch`. -/
  | entering
  /-- On the stack of its uthread. -/
  | uthread
  /-- In `_uthread_resume`, after its `_switch`: `own` is whether the uthread switched back
  by itself or from the signal handler. -/
  | leaving (own : Bool)
  deriving DecidableEq, Repr

/-- The runtime with its threads' stacks and the signals in flight. -/
structure Ticking where
  rt : State := init
  stage : SId → Stage := fun _ => .sched
  /-- `SIGUSR1` is pending for the thread: the uthreads it was sent for. A signal that is
  pending already is not queued again, so one delivery answers them all. -/
  pending : SId → List UId := fun _ => []
  /-- History: the ticks since the uthread was last resumed. -/
  since : UId → Nat := fun _ => 0

/-- The uthread's next statement is the `_switch` of `_uthread_yield`. -/
def Ctx.switching : Ctx → Bool
  | .yieldSwitch | .sleep _ .switch | .exit _ .switch => true
  | _ => false

/-- `tick` sends the signal for one uthread that is due. -/
def tickNode (u : UId) (s : State) (pending : SId → List UId) : Except Stop (SId → List UId) :=
  if (s.ut u).isWatingYieldSignal then do
    let q ← s.home u .tick
    .ok (Function.update pending (s.p q).tid (pending (s.p q).tid ++ [u]))
  else .ok pending

/-- The signals of a `tick`. -/
def tickNodes (s : State) : List UId → (SId → List UId) → Except Stop (SId → List UId)
  | [], pending => .ok pending
  | u :: rest, pending => do
    let pending ← tickNode u s pending
    tickNodes s rest pending

inductive TickAct where
  /-- An action of the runtime other than a preemption or a `_switch`. -/
  | run (act : Act)
  /-- The `_switch` of `_uthread_resume`, or the one of `_uthread_yield`. -/
  | switch (a : SId)
  /-- `_uthread_resume` goes on after its `_switch`. -/
  | back (a : SId)
  /-- The thread handles the signal that is pending for it. -/
  | deliver (a : SId)
  | tick

/-- Why a step does not happen. -/
inductive TickStop where
  | stop (e : Stop)
  /-- The handler runs in scheduler code: its `_switch` saves the scheduler's registers as
  the context of `cur_uthread`. -/
  | clobbers
  deriving DecidableEq, Repr

/-- An error of the runtime. -/
def liftStop {α : Type} : Except Stop α → Except TickStop α
  | .ok x => .ok x
  | .error e => .error (.stop e)

namespace Ticking

/-- May the thread take the action where it is? -/
def allows (s : Ticking) : Act → Bool
  | .call a _ => s.stage a == .uthread
  | .stmt a _ => s.stage a == .uthread &&
    match (s.rt.sched a).curUthread with
    | none => false
    | some u => !(s.rt.ut u).ctx.switching
  | .preempt _ => false
  | .sched a _ => s.stage a == .sched

def setStage (a : SId) (k : Stage) (s : Ticking) : Ticking :=
  {s with stage := Function.update s.stage a k}

/-- An action of the runtime. A scheduler that has taken a uthread is about to switch. -/
def run (s : Ticking) (act : Act) : Except TickStop Ticking :=
  if s.allows act then do
    let rt ← liftStop (UthreadRuntime.step s.rt act)
    match act, (rt.sched act.thread).curUthread with
    | .sched a _, some u =>
      .ok {s with
        rt := rt
        stage := Function.update s.stage a .entering
        since := Function.update s.since u 0}
    | _, _ => .ok {s with rt := rt}
  else .error (.stop .disabled)

/-- `_switch` -/
def switch (s : Ticking) (a : SId) : Except TickStop Ticking :=
  match s.stage a, (s.rt.sched a).curUthread with
  | .entering, some _ => .ok (s.setStage a .uthread)
  | .uthread, some u =>
    if (s.rt.ut u).ctx.switching then .ok (s.setStage a (.leaving true)) else .error (.stop .disabled)
  | _, _ => .error (.stop .disabled)

/-- `_uthread_resume` after its `_switch`. The uthread's own `_switch` has left its context
behind it. -/
def back (s : Ticking) (a : SId) : Except TickStop Ticking :=
  match s.stage a, (s.rt.sched a).curUthread with
  | .leaving true, some _ => do
    let rt ← liftStop (UthreadRuntime.step s.rt (.stmt a {}))
    .ok ({s with rt := rt}.setStage a .sched)
  | .leaving false, some u => do
    let rt ← liftStop (uthreadSwitched a u s.rt)
    .ok ({s with rt := rt}.setStage a .sched)
  | _, _ => .error (.stop .disabled)

/-- `handler`: the `_uthread_yield` of `cur_uthread`, from wherever the thread is. -/
def deliver (s : Ticking) (a : SId) : Except TickStop Ticking :=
  if s.pending a = [] then .error (.stop .disabled)
  else
    match (s.rt.sched a).curUthread with
    | none => .error (.stop (.fault .nullCur))
    | some u =>
      if s.stage a = .uthread then
        .ok {s with
          rt := s.rt.setUt u fun v => {v with isWatingYieldSignal := false}
          stage := Function.update s.stage a (.leaving false)
          pending := Function.update s.pending a []}
      else .error .clobbers

/-- `tick` -/
def tick (s : Ticking) : Except TickStop Ticking := do
  let pending ← liftStop (tickNodes s.rt s.rt.timer.due s.pending)
  .ok {s with
    rt := {s.rt with timer := s.rt.timer.turned}
    pending := pending
    since := fun u => s.since u + 1}

/-- One action of the runtime and its timer. -/
def step (s : Ticking) (act : TickAct) : Except TickStop Ticking :=
  if s.rt.halted then .error (.stop .disabled)
  else
    match act with
    | .run act => s.run act
    | .switch a => s.switch a
    | .back a => s.back a
    | .deliver a => s.deliver a
    | .tick => s.tick

/-- The states the runtime and its timer get to when every action meets `C`. -/
abbrev Reaches (C : Ticking → TickAct → Prop) : Ticking → Prop := Run.Reaches step C {}

/-- The execution of a list of actions from the start. -/
def exec (acts : List TickAct) : Except TickStop Ticking := Run.run step {} acts

end Ticking

/-! ### Pieces of concrete runs -/

def runs (acts : List Act) : List TickAct := acts.map .run

/-- The uthread on the thread of `a` makes a call and, after `n` statements, switches away. -/
def callsOff (a : SId) (c : Call) (n : Nat) : List TickAct := runs (calls a c n) ++ [.switch a, .back a]

/-- Main runs and has created its first uthread. -/
def tickingBoot : List TickAct := runs (scheds 0 4) ++ [.switch 0] ++ runs (stmts 0 7)

/-- The uthread that main created runs. -/
def tickingCreatedRuns : List TickAct :=
  tickingBoot ++ callsOff 0 .yield 1 ++ runs (scheds 0 8) ++ [.switch 0]

end UthreadRuntime
