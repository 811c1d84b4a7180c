import UthreadRuntime.Model.State

/-! Where every uthread is: the abstract scheduler.

The runtime keeps a uthread in one of three places: running on a sched, in a ready
queue, in a sleeping tree. What moves it is spread over a dozen functions, but the
moves themselves are few. A `Board` is the containers and, for each uthread, the
little of its record that decides where it goes; `Mode` is how far it is in a
call that blocks or ends it. `Move` lists everything the runtime can do to a board;
the program can also close a descriptor (`closed`).

The code's own states are mapped to boards in `Placement.Refinement`; nothing here
depends on how a move is carried out. -/
namespace UthreadRuntime.Placement

/-- What a blocked uthread waits for. -/
inductive Goal where
  | join (t : UId)
  | event (fd : Int) (e : UthreadEvent)
  deriving DecidableEq

/-- How far a uthread is. From `choosing` to `linked` it has begun to publish a wait
that it is not asleep for yet. -/
inductive Mode where
  /-- Nothing of it is published. -/
  | free
  /-- The target of a join was seen to have no joiner. -/
  | choosing (t : UId)
  /-- The target of a join was also seen not to have exited. -/
  | deciding (t : UId)
  /-- The descriptor is in the interest set. -/
  | registered (fd : Int) (e : UthreadEvent)
  /-- And the key of the wait is set. -/
  | keyed (fd : Int) (e : UthreadEvent)
  /-- The wait is published: as the target's joiner, or in the waiting tree. -/
  | arming (g : Goal)
  /-- In the sleeping tree, not marked asleep. -/
  | linked (g : Goal)
  /-- Marked asleep, or woken since; its own switch is still to come. -/
  | parking (g : Goal)
  /-- Switched away, or woken since. -/
  | parked (g : Goal)
  /-- Back from a join. -/
  | joined (t : UId)
  /-- Back from an event wait, whose key may still be set. -/
  | unkeying
  /-- Marked as exited. -/
  | exiting
  deriving DecidableEq

/-- The wait is being published. -/
def Mode.publishing : Mode → Bool
  | .choosing _ | .deciding _ | .registered _ _ | .keyed _ _ | .arming _ | .linked _ => true
  | _ => false

/-- The part of a uthread's record that decides where it goes. -/
structure Task where
  life : Life
  home : Option PId
  asleep : Bool
  exited : Bool
  joined : Option UId
  fdWait : Int
  mode : Mode

/-- Who is where. -/
structure Board where
  task : UId → Task
  cur : SId → Option UId
  bound : SId → Option PId
  ready : PId → List UId
  sleeping : PId → UId → Prop
  waiting : PId → UId → Prop
  interest : PId → Int → Prop

namespace Board

def setTask (u : UId) (t : Task) (b : Board) : Board :=
  {b with task := fun v => if v = u then t else b.task v}

def setMode (u : UId) (m : Mode) (b : Board) : Board :=
  b.setTask u {b.task u with mode := m}

def setLife (u : UId) (l : Life) (b : Board) : Board :=
  b.setTask u {b.task u with life := l}

def setFdWait (u : UId) (k : Int) (b : Board) : Board :=
  b.setTask u {b.task u with fdWait := k}

def setCur (a : SId) (o : Option UId) (b : Board) : Board :=
  {b with cur := fun a' => if a' = a then o else b.cur a'}

def setReady (q : PId) (l : List UId) (b : Board) : Board :=
  {b with ready := fun q' => if q' = q then l else b.ready q'}

def linkSleeping (q : PId) (u : UId) (b : Board) : Board :=
  {b with sleeping := fun q' v => b.sleeping q' v ∨ (q' = q ∧ v = u)}

def unlinkSleeping (q : PId) (u : UId) (b : Board) : Board :=
  {b with sleeping := fun q' v => b.sleeping q' v ∧ ¬(q' = q ∧ v = u)}

def linkWaiting (q : PId) (u : UId) (b : Board) : Board :=
  {b with waiting := fun q' v => b.waiting q' v ∨ (q' = q ∧ v = u)}

def unlinkWaiting (q : PId) (u : UId) (b : Board) : Board :=
  {b with waiting := fun q' v => b.waiting q' v ∧ ¬(q' = q ∧ v = u)}

def watch (q : PId) (fd : Int) (b : Board) : Board :=
  {b with interest := fun q' f => b.interest q' f ∨ (q' = q ∧ f = fd)}

def unwatch (q : PId) (fd : Int) (b : Board) : Board :=
  {b with interest := fun q' f => b.interest q' f ∧ ¬(q' = q ∧ f = fd)}

/-- The kernel drops a closed descriptor from every interest set. -/
def closed (fd : Int) (b : Board) : Board :=
  {b with interest := fun q f => b.interest q f ∧ f ≠ fd}

def live (b : Board) (u : UId) : Prop := (b.task u).life = .live

def onCpu (b : Board) (u : UId) : Prop := ∃ a, b.cur a = some u

/-- A sleeping uthread is taken out of the tree and unmarked. -/
def desched (u : UId) (b : Board) : Board :=
  if (b.task u).asleep then
    match (b.task u).home with
    | some q => (b.unlinkSleeping q u).setTask u {b.task u with asleep := false}
    | none => b
  else b

/-- The joiner of `u` is taken out of the sleeping tree and made ready. -/
def wakeJoiner (u : UId) (b : Board) : Board :=
  match (b.task u).joined with
  | none => b
  | some j =>
    match (b.task j).home with
    | none => b
    | some q => (b.desched j).setReady q (b.ready q ++ [j])

/-- The wait whose time has come, or whose event has: out of the waiting tree, out of
the sleeping tree. -/
def deschedFound (q : PId) : Option UId → Board → Board
  | none, b => b
  | some v, b => (b.unlinkWaiting q v).desched v

end Board

open Board

/-- The key by which an event wait is found. -/
abbrev waitKey (fd : Int) (e : UthreadEvent) : Int := fdKey fd e.toNat

/-- What switching away does to a mode: only a uthread's own switch parks it. -/
def Away (m m' : Mode) : Prop := m' = m ∨ ∃ g, m = .parking g ∧ m' = .parked g

/-- Everything the runtime can do to a board, on the thread of `a`. -/
inductive Move (a : SId) : Board → Board → Prop where
  | choose {b : Board} {u t : UId} : b.cur a = some u → (b.task u).mode = .free →
      (b.task t).joined = none → (b.task t).life ≠ .fresh → Move a b (b.setMode u (.choosing t))
  | giveUp {b : Board} {u t : UId} : b.cur a = some u → (b.task u).mode = .choosing t →
      Move a b (b.setMode u .free)
  | decide {b : Board} {u t : UId} : b.cur a = some u → (b.task u).mode = .choosing t →
      (b.task t).exited = false → Move a b (b.setMode u (.deciding t))
  | publish {b : Board} {u t : UId} : b.cur a = some u → (b.task u).mode = .deciding t → t ≠ u →
      Move a b ((b.setTask t {b.task t with joined := some u}).setMode u (.arming (.join t)))
  | register {b : Board} {u : UId} {q : PId} {fd : Int} {e : UthreadEvent} : b.cur a = some u →
      (b.task u).mode = .free → b.bound a = some q → 0 ≤ fd → ¬b.interest q fd →
      Move a b ((b.watch q fd).setMode u (.registered fd e))
  | key {b : Board} {u : UId} {fd : Int} {e : UthreadEvent} : b.cur a = some u →
      (b.task u).mode = .registered fd e →
      Move a b (b.setTask u {b.task u with fdWait := waitKey fd e, mode := .keyed fd e})
  | queue {b : Board} {u : UId} {q : PId} {fd : Int} {e : UthreadEvent} : b.cur a = some u →
      (b.task u).mode = .keyed fd e → (b.task u).home = some q →
      (∀ v, b.waiting q v → (b.task v).fdWait ≠ (b.task u).fdWait) →
      Move a b ((b.linkWaiting q u).setMode u (.arming (.event fd e)))
  | queueRefused {b : Board} {u v : UId} {q : PId} {fd : Int} {e : UthreadEvent} : b.cur a = some u →
      (b.task u).mode = .keyed fd e → (b.task u).home = some q →
      b.waiting q v → (b.task v).fdWait = (b.task u).fdWait →
      Move a b (b.setMode u (.arming (.event fd e)))
  | link {b : Board} {u : UId} {q : PId} {g : Goal} : b.cur a = some u →
      (b.task u).mode = .arming g → (b.task u).home = some q →
      Move a b ((b.linkSleeping q u).setMode u (.linked g))
  | mark {b : Board} {u : UId} {g : Goal} : b.cur a = some u → (b.task u).mode = .linked g →
      Move a b (b.setTask u {b.task u with asleep := true, mode := .parking g})
  | backJoined {b : Board} {u t : UId} : b.cur a = some u → (b.task u).mode = .parked (.join t) →
      Move a b (b.setTask u {b.task u with asleep := false, mode := .joined t})
  | backEvent {b : Board} {u : UId} {fd : Int} {e : UthreadEvent} : b.cur a = some u →
      (b.task u).mode = .parked (.event fd e) →
      Move a b (b.setTask u {b.task u with asleep := false, mode := .unkeying})
  | unkey {b : Board} {u : UId} : b.cur a = some u → (b.task u).mode = .unkeying →
      Move a b (b.setTask u {b.task u with fdWait := -1, mode := .free})
  | unpublish {b : Board} {u t : UId} : b.cur a = some u → (b.task u).mode = .joined t →
      Move a b (b.setTask t {b.task t with joined := none})
  | finishJoin {b : Board} {u t : UId} : b.cur a = some u → (b.task u).mode = .joined t →
      Move a b (b.setMode u .free)
  | exit {b : Board} {u : UId} : b.cur a = some u → (b.task u).mode = .free →
      Move a b (b.setTask u {b.task u with exited := true, mode := .exiting})
  | create {b : Board} {n : UId} {q : PId} : (b.task n).life = .fresh → 
      Move a b ((b.setTask n ⟨.live, some q, false, false, none, -1, .free⟩).setReady q (b.ready q ++ [n]))
  | handOff {b : Board} {c n : SId} {q : PId} : b.bound c = some q → b.cur n = none → n ≠ c →
      Move a b {b with bound := fun a' => if a' = c then none else if a' = n then some q else b.bound a'}
  | switchFree {b : Board} {u : UId} {m : Mode} : b.cur a = some u → (b.task u).exited = true →
      (∀ j, (b.task u).joined = some j → (b.task j).home ≠ none) →
      Move a b ((((b.setMode u m).setCur a none).wakeJoiner u).setLife u .freed)
  | switchSleep {b : Board} {u : UId} {m : Mode} : b.cur a = some u → (b.task u).exited = false →
      (b.task u).asleep = true → Away (b.task u).mode m → Move a b ((b.setCur a none).setMode u m)
  | switchReady {b : Board} {u : UId} {q : PId} {m : Mode} : b.cur a = some u →
      (b.task u).exited = false → (b.task u).asleep = false → b.bound a = some q →
      Away (b.task u).mode m → (b.task u).mode.publishing = false →
      Move a b (((b.setCur a none).setReady q (b.ready q ++ [u])).setMode u m)
  | resume {b : Board} {u : UId} {q : PId} {rest : List UId} : b.cur a = none → b.bound a = some q →
      b.ready q = u :: rest → Move a b ((b.setReady q rest).setCur a (some u))
  | expire {b : Board} {u : UId} {q : PId} {fd : Int} {found : Option UId} : b.cur a = none →
      b.bound a = some q → b.sleeping q u → fd = fdOnly (b.task u).fdWait → b.interest q fd →
      (∀ v, found = some v → b.waiting q v ∧ (b.task v).fdWait = (b.task u).fdWait) →
      (found = none → ∀ v, b.waiting q v → (b.task v).fdWait ≠ (b.task u).fdWait) →
      Move a b (((((b.unwatch q fd).deschedFound q found).setFdWait u (-1)).desched u).setCur a (some u))
  | event {b : Board} {u : UId} {q : PId} {fd : Int} {e : UthreadEvent} : b.cur a = none →
      b.bound a = some q → b.waiting q u → (b.task u).fdWait = waitKey fd e → b.interest q fd →
      Move a b (((b.deschedFound q (some u)).unwatch q fd).setCur a (some u))

/-- No other thread's uthread is publishing a wait or asleep without having switched away. -/
def Board.Alone (b : Board) (a : SId) : Prop :=
  ∀ c u, b.cur c = some u → (b.task u).mode.publishing = true ∨ (b.task u).asleep = true → c = a

end UthreadRuntime.Placement
