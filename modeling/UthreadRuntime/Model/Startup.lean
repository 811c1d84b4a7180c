import UthreadRuntime.Model.Machine

/-! Start-up (`_runtime_init`, `free_source`).

The first `uthread_create` finds no sched for its thread and initialises the runtime: each of the
first scheds gets a stack from the allocator. When one is refused, `_runtime_init` returns with
what it has done so far, the call returns `-1`, and the next call begins anew: it empties the
lists and overwrites the pointers to the stacks. -/
namespace UthreadRuntime

/-- The process while it starts, with what only start-up and the end of the process use. -/
structure Startup where
  rt : State := {}
  schedWithStack : List SId := []
  pIdle : List PId := []
  /-- `sched->stack`, by the name of the block. -/
  stack : SId → Option Nat := fun _ => none
  /-- What main's thread finds under `uthread_sched_key`. -/
  key : Option SId := none
  /-- The blocks that the allocator has handed out; the next one gets this name. -/
  blocks : Nat := 0
  /-- The blocks given back. -/
  freed : List Nat := []
  /-- The threads that run `create_timewheel`. -/
  wheels : Nat := 0

namespace Startup

/-- The global data at the head of `_runtime_init`. -/
def initGlobal (g : Startup) : Startup :=
  {g with
    rt := {g.rt with mutex := none, schedIdle := [], bitmapUt := fun _ => false, nextUtId := 0}
    schedWithStack := []
    pIdle := []}

/-- A turn of the loop of `_runtime_init` whose `calloc` succeeds. The code runs on main's thread,
which will be that of the first sched. -/
def initSched (i : Nat) (g : Startup) : Startup :=
  {g with
    stack := Function.update g.stack i (some g.blocks)
    blocks := g.blocks + 1
    schedWithStack := g.schedWithStack ++ [i]
    pIdle := g.pIdle ++ [i]
    rt := {g.rt with
      schedIdle := g.rt.schedIdle ++ [i]
      p := Function.update g.rt.p i {g.rt.p i with ready := [], sleeping := [], waiting := [], tid := 0}}}

/-- The loop of `_runtime_init`, and whether it has come to its end. -/
def initScheds (calloc : Nat → Bool) : List Nat → Startup → Startup × Bool
  | [], g => (g, true)
  | i :: rest, g =>
    if calloc i then initScheds calloc rest (initSched i g)
    else ({g with stack := Function.update g.stack i none}, false)

/-- The first sched takes the first p, and main's thread gets its key. The two lists are as long
as the loop has made them. What `pthread_create` answers for the timer's thread is not looked at;
here it has succeeded. -/
def startFirst (g : Startup) : Startup :=
  match g.rt.schedIdle, g.pIdle with
  | a :: scheds, q :: ps =>
    {g with
      rt := {g.rt with
        schedIdle := scheds
        sched := Function.update g.rt.sched a {g.rt.sched a with p := some q, pc := .top}
        p := Function.update g.rt.p q {g.rt.p q with sched := some a, interest := []}}
      pIdle := ps
      key := some a
      wheels := g.wheels + 1}
  | _, _ => g

/-- `_runtime_init`, by which requests for a stack are granted. -/
def runtimeInit (calloc : Nat → Bool) (g : Startup) : Startup :=
  let (g, complete) := initScheds calloc (List.range maxProcs) g.initGlobal
  if complete then g.startFirst else g

/-- `uthread_create` up to the end of the initialisation, which it does when its thread has no sched. -/
def firstCreate (calloc : Nat → Bool) (g : Startup) : Startup :=
  if g.key.isSome then g else g.runtimeInit calloc

/-- The calls of `uthread_create` before main is a uthread, one after the other. -/
def tries (l : List (Nat → Bool)) : Startup := l.foldl (fun g calloc => g.firstCreate calloc) {}

/-- `free_source`, before the process ends. -/
def freeSource (g : Startup) : Startup :=
  {g with freed := g.freed ++ g.schedWithStack.filterMap g.stack}

end Startup

end UthreadRuntime
