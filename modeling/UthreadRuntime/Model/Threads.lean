import UthreadRuntime.Model.Timer

/-! The registers of the threads.

`Model.Machine` keeps where the code of a uthread stands in the uthread's record. The record of
the program has the context that the last `_switch` away from the uthread saved, and while it runs
the registers of its thread say where it stands. The two are the same thing as long as a uthread
is resumed only when it has switched away. A uthread that is queued while it runs, and whose p has
been handed off, is resumed by the new thread from its saved context, and then runs on both.

An action here is one of `Model.Timer`, taken by the code that stands where the registers of the
thread say.

Records are told apart by their addresses, and `calloc` may put the record of a new uthread where that
of a freed one was. `addr` is what it returns for each record. Whatever still refers to the address
then refers to the new uthread. -/
namespace UthreadRuntime

open State

/-- Whom a pointer to `u` refers to once the record `n` has been put at its address. -/
def newRecord (addr : UId → Addr) (n u : UId) : UId := if addr u = addr n then n else u

def Ctx.readdress (f : UId → UId) : Ctx → Ctx
  | .join u retval pc => .join (f u) retval pc
  | .sleep (.join u retval) pc => .sleep (.join (f u) retval) pc
  | k => k

def SchedAt.readdress (f : UId → UId) : SchedAt → SchedAt
  | .ready last => .ready (last.map f)
  | .readyAfter last u => .readyAfter (last.map f) (f u)
  | pc => pc

/-- Every pointer to a uthread that the runtime keeps, taken over to another one. -/
def State.readdress (f : UId → UId) (s : State) : State :=
  {s with
    ut := fun u => {s.ut u with
      utJoined := (s.ut u).utJoined.map f
      ctx := (s.ut u).ctx.readdress f}
    p := fun q => {s.p q with
      ready := (s.p q).ready.map f
      sleeping := (s.p q).sleeping.map f
      waiting := (s.p q).waiting.map f}
    sched := fun a => {s.sched a with
      curUthread := (s.sched a).curUthread.map f
      pc := (s.sched a).pc.readdress f}
    timer := {s.timer with slot := fun pos => (s.timer.slot pos).map fun n => {n with ut := f n.ut}}}

/-- The runtime with the registers of its threads; a record has its saved context. -/
structure Threads where
  tk : Ticking := {}
  /-- Where the code of the uthread on the thread stands. -/
  regs : SId → Ctx := fun _ => .user

/-- Where a uthread goes on that has switched away by itself: behind its `_switch`. -/
def Ctx.afterSwitch : Ctx → Ctx
  | .sleep w .switch => .sleep w .wake
  | _ => .user

/-- The record of the uthread with another context. -/
def Ticking.setCtx (u : UId) (k : Ctx) (t : Ticking) : Ticking :=
  {t with rt := t.rt.setUt u fun v => {v with ctx := k}}

namespace Threads

/-- The action of the uthread on the thread of `a`. It reads and moves the registers and leaves
the saved context alone. -/
def onRegs (s : Threads) (a : SId) (act : TickAct) : Except TickStop Threads :=
  match (s.tk.rt.sched a).curUthread with
  | none => .error (.stop .disabled)
  | some u => do
    let t ← (s.tk.setCtx u (s.regs a)).step act
    .ok {tk := t.setCtx u (s.tk.rt.ut u).ctx, regs := Function.update s.regs a (t.rt.ut u).ctx}

/-- `_switch`: the one of `_uthread_resume` loads the saved context, the one of `_uthread_yield`
saves it. -/
def switch (s : Threads) (a : SId) : Except TickStop Threads :=
  match (s.tk.rt.sched a).curUthread with
  | none => .error (.stop .disabled)
  | some u =>
    if s.tk.stage a = .entering then do
      let t ← s.tk.step (.switch a)
      .ok {tk := t, regs := Function.update s.regs a (s.tk.rt.ut u).ctx}
    else do
      let t ← (s.tk.setCtx u (s.regs a)).step (.switch a)
      .ok {s with tk := t.setCtx u (s.regs a).afterSwitch}

/-- `handler`: its `_switch` saves the registers as they were when the signal came. -/
def deliver (s : Threads) (a : SId) : Except TickStop Threads :=
  match (s.tk.rt.sched a).curUthread with
  | none => .error (.stop (.fault .nullCur))
  | some u => do
    let t ← s.tk.step (.deliver a)
    .ok {s with tk := t.setCtx u (s.regs a)}

/-- One action of the threads and the timer. -/
def act (s : Threads) (act : TickAct) : Except TickStop Threads :=
  match act with
  | .run (.sched _ _) | .tick => do
    let t ← s.tk.step act
    .ok {s with tk := t}
  | .run b => s.onRegs b.thread act
  | .switch a => s.switch a
  | .back a => s.onRegs a act
  | .deliver a => s.deliver a

/-- The action is the last statement of a `uthread_create`, with which the new record is in use. -/
def creates (s : Threads) : TickAct → Bool
  | .run (.stmt a _) =>
    match (s.tk.rt.sched a).curUthread, s.regs a with
    | some _, .create _ (.insert _ _) => true
    | _, _ => false
  | _ => false

/-- The pointers in the registers of the threads are taken over as well. -/
def readdress (f : UId → UId) (s : Threads) : Threads where
  tk := {s.tk with rt := s.tk.rt.readdress f}
  regs := fun a => (s.regs a).readdress f

/-- One action. A new record takes over what refers to its address. -/
def step (addr : UId → Addr) (s : Threads) (act : TickAct) : Except TickStop Threads := do
  let s' ← s.act act
  .ok (if s.creates act then s'.readdress (newRecord addr s.tk.rt.heap) else s')

/-- The states the threads and the timer get to when every action meets `C`. -/
abbrev Reaches (addr : UId → Addr) (C : Threads → TickAct → Prop) : Threads → Prop :=
  Run.Reaches (step addr) C {}

end Threads

/-- A uthread is preempted only inside its own function. -/
def InBody (s : Threads) (act : TickAct) : Prop := ∀ a, act = .deliver a → s.regs a = .user

end UthreadRuntime
