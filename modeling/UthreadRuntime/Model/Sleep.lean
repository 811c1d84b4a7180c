import UthreadRuntime.Model.Resume

/-! Going to sleep (`uthread_sched.c`).

`_uthread_sched_sleep` and `_register_event` run on the uthread's own stack, one
statement a step. Between two of them the timer may preempt the uthread as long
as its `is_wating_yield_signal` is set, which is until the statement `flag`. -/
namespace UthreadRuntime

open State

/-- Go on to another statement. -/
def goto (u : UId) (c : Ctx) (s : State) : State := s.setUt u fun r => {r with ctx := c}

/-- The statement after a wait: `_uthread_sched_sleep` returns to its caller. -/
def Wait.return : Wait → Ctx
  | .join t r => .join t r .expired
  | .event c => .register c .unkey

/-- `now + mescs * 1000` in 64 bits; `0` stands for `(1<<31-1) * 1000`, where `-` binds tighter. -/
def wakeupTime (now mescs : Nat) : Nat :=
  (now + (if mescs = 0 then 2 ^ 30 * 1000 else mescs) * 1000) % 2 ^ 64

/-- `_uthread_sched_sleep`, on the thread of `a`. -/
def schedSleepStmt (a : SId) (u : UId) (w : Wait) (pc : SleepAt) (r : Reply) (s : State) :
    Except Stop State :=
  match pc with
  | .clock =>
    .ok (goto u (.sleep w .insert) (s.setUt u fun v =>
      {v with wakeupTimeUsec := wakeupTime r.now w.mescs}))
  | .insert => do
    let q ← s.home u .sleepInsert
    match insertSleeping s u (s.p q).sleeping with
    | none => .error (.fault (.assertion .sleepInsert))
    | some t => .ok (goto u (.sleep w .mark) (s.setP q fun v => {v with sleeping := t}))
  | .mark =>
    .ok (goto u (.sleep w .flag) (s.setUt u fun v => {v with status := v.status.add .sleeping}))
  | .flag =>
    .ok (goto u (.sleep w .yieldFlag) (s.setUt u fun v => {v with isWatingYieldSignal := false}))
  | .yieldFlag =>
    .ok (goto u (.sleep w .switch) (s.setUt u fun v => {v with isWatingYieldSignal := false}))
  | .switch => uthreadSwitched a u (goto u (.sleep w .wake) s)
  | .wake =>
    .ok (goto u w.return (s.setUt u fun v => {v with status := v.status.del .sleeping}))

/-- The status flag `_register_event` sets for an event. -/
def UthreadEvent.waitSt : UthreadEvent → UthreadSt
  | .rd => .waitRd
  | .wr => .waitWr

/-- `_register_event`, around its call of `_uthread_sched_sleep`. The descriptor goes
to the poller of the thread's p, the uthread to the trees of its own. -/
def registerStmt (a : SId) (u : UId) (c : IoCall) (pc : RegisterAt) (s : State) :
    Except Stop State :=
  match pc with
  | .ctl => do
    let q ← s.bound a .register
    match epollCtlAdd c.fd c.event (s.p q).interest with
    | none => .error (.fault (.assertion .registerAdd))
    | some l =>
      let s := {s with consumed := Function.update s.consumed u false}
      .ok (goto u (.register c .status) (s.setP q fun v => {v with interest := l}))
  | .status =>
    .ok (goto u (.register c .key) (s.setUt u fun v => {v with status := v.status.add c.event.waitSt}))
  | .key =>
    .ok (goto u (.register c .insert) (s.setUt u fun v => {v with fdWait := fdKey c.fd c.event.toNat}))
  | .insert => do
    -- the result of RB_INSERT is not looked at: with an equal key in the tree nothing is linked
    let q ← s.home u .registerInsert
    let t := (insertWaiting s u (s.p q).waiting).getD (s.p q).waiting
    .ok (goto u (.sleep (.event c) .clock) (s.setP q fun v => {v with waiting := t}))
  | .unkey => .ok (goto u (.register c .unstatus) (s.setUt u fun v => {v with fdWait := -1}))
  | .unstatus =>
    .ok (goto u (.io c .after) (s.setUt u fun v => {v with status := v.status.del c.event.waitSt}))

end UthreadRuntime
