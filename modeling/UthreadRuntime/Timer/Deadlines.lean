import UthreadRuntime.Model.Timer
import UthreadRuntime.Support.Chain
import UthreadRuntime.Support.Countdown

/-! When a node of the wheel comes up.

The ticks a node has left are spread over its place and its rotation: the way from the hand to
its slot, and ten for each rotation. Taken together they are counted down by one with every
tick, so that the wheel is a bag of uthreads with the ticks they have left. The lists of the
wheel are first followed through memory, as `tick` does with its pointer to a pointer. -/
namespace UthreadRuntime

/-! ### The wheel in memory -/

/-- `struct timer_wheel`: its slots point to lists of `struct timer_node`. -/
structure LinkedWheel where
  nodes : Chain.Memory TimerNode
  current : Nat

/-- The test of `tick`: a node with rotations to go stays, with one less. -/
def rotated (n : TimerNode) : Option TimerNode :=
  if n.rotation > 0 then some {n with rotation := n.rotation - 1} else none

namespace LinkedWheel

/-- `tick`, with the uthreads whose nodes it has come to and freed. -/
def tick (w : LinkedWheel) : Option (LinkedWheel × List UId) :=
  (Chain.sweep rotated (w.nodes.bound + 1) (.head w.current) w.nodes).map fun (nodes, gone) =>
    (⟨nodes, (w.current + 1) % timeWheelSize⟩, gone.map TimerNode.ut)

/-- `add_timer(len, ut)`, with the address that `malloc` returned. -/
def addTimer (len : Nat) (ut : UId) (node : Nat) (w : LinkedWheel) : LinkedWheel :=
  let pos := (len + w.current) % timeWheelSize
  {w with nodes := w.nodes.push pos node ⟨len / timeWheelSize, ut⟩}

/-- The calls in turn, with what each `tick` came to. -/
def run (malloc : Chain.Memory TimerNode → Nat) (w : LinkedWheel) :
    List (Countdown.Op UId) → Option (LinkedWheel × List (List UId))
  | [] => some (w, [])
  | .add len ut :: ops => run malloc (w.addTimer len ut (malloc w.nodes)) ops
  | .tick :: ops => do
    let (w, gone) ← w.tick
    let (w, outs) ← run malloc w ops
    some (w, gone :: outs)

end LinkedWheel

/-- The memory holds the lists of the wheel. -/
def Links (w : LinkedWheel) (t : TimerWheel) : Prop :=
  ∃ lists, Chain.Holds w.nodes lists ∧ (∀ i, t.slot i = (lists i).map Prod.snd) ∧ t.current = w.current

theorem kept_rotated (l : List (Nat × TimerNode)) :
    (Chain.kept rotated l).map Prod.snd = (tickSlot (l.map Prod.snd)).1 := by
  induction l with
  | nil => rfl
  | cons x rest ih =>
    unfold Chain.kept at ih ⊢
    by_cases hx : x.2.rotation > 0
    · simp [rotated, tickSlot, hx, ← ih]
    · simp [rotated, tickSlot, hx, ← ih]

theorem gone_rotated (l : List (Nat × TimerNode)) :
    (Chain.gone rotated l).map TimerNode.ut = (tickSlot (l.map Prod.snd)).2 := by
  induction l with
  | nil => rfl
  | cons x rest ih =>
    unfold Chain.gone at ih ⊢
    by_cases hx : x.2.rotation > 0
    · simp [rotated, tickSlot, hx, ← ih]
    · simp [rotated, tickSlot, hx, ← ih]

section Links

variable {w : LinkedWheel} {t : TimerWheel}

theorem Links.addTimer (h : Links w t) (len : Nat) (ut : UId) {node : Nat}
    (hnode : w.nodes.node node = none) : Links (w.addTimer len ut node) (UthreadRuntime.addTimer len ut t) := by
  obtain ⟨lists, hl, hslot, hcur⟩ := h
  refine ⟨_, hl.push ((len + w.current) % timeWheelSize) hnode ⟨len / timeWheelSize, ut⟩, fun i => ?_, hcur⟩
  unfold UthreadRuntime.addTimer
  dsimp only
  rw [hcur]
  by_cases hi : i = (len + w.current) % timeWheelSize
  · subst hi
    rw [Function.update_self, Function.update_self, List.map_cons, hslot]
  · rw [Function.update_of_ne hi, Function.update_of_ne hi, hslot]

/-- The walk through the pointers is the loop over the list. -/
theorem Links.tick (h : Links w t) : ∃ w', w.tick = some (w', t.due) ∧ Links w' t.turned := by
  obtain ⟨lists, hl, hslot, hcur⟩ := h
  obtain ⟨nodes, hsweep, hl'⟩ := hl.sweep rotated w.current
  refine ⟨⟨nodes, (w.current + 1) % timeWheelSize⟩, ?_, _, hl', fun i => ?_, ?_⟩
  · unfold LinkedWheel.tick TimerWheel.due
    rw [hsweep, hslot, hcur, ← gone_rotated]
    rfl
  · unfold TimerWheel.turned
    dsimp only
    rw [hcur]
    by_cases hi : i = w.current
    · subst hi
      rw [Function.update_self, Function.update_self, kept_rotated, hslot]
    · rw [Function.update_of_ne hi, Function.update_of_ne hi, hslot]
  · unfold TimerWheel.turned
    rw [hcur]

end Links

/-! ### The ticks that are left -/

/-- The nodes of a slot that the hand reaches after `d` ticks: their uthreads, and the ticks
before the one that takes them out. -/
def bag (d : Nat) (l : List TimerNode) : Multiset (Nat × UId) :=
  Multiset.ofList (l.map fun n => (d + timeWheelSize * n.rotation, n.ut))

theorem bag_cons (d : Nat) (n : TimerNode) (l : List TimerNode) :
    bag d (n :: l) = (d + timeWheelSize * n.rotation, n.ut) ::ₘ bag d l := rfl

/-- A slot ahead of the hand: nothing is due, and the hand comes one nearer. -/
theorem bag_ahead (d : Nat) (l : List TimerNode) :
    Countdown.due (bag (d + 1) l) = 0 ∧ Countdown.turned (bag (d + 1) l) = bag d l := by
  induction l with
  | nil => exact ⟨rfl, rfl⟩
  | cons n rest ih =>
    rw [bag_cons, bag_cons, Nat.add_right_comm, Countdown.due_cons_succ, Countdown.turned_cons_succ,
      ih.1, ih.2]
    exact ⟨rfl, rfl⟩

/-- The slot at the hand: the nodes without a rotation are due, the others have the length of
the wheel before them, less the tick. -/
theorem bag_atHand (l : List TimerNode) :
    Countdown.due (bag 0 l) = (tickSlot l).2 ∧ Countdown.turned (bag 0 l) = bag 9 (tickSlot l).1 := by
  induction l with
  | nil => exact ⟨rfl, rfl⟩
  | cons n rest ih =>
    rw [bag_cons, Nat.zero_add]
    simp only [tickSlot]
    cases hr : n.rotation with
    | zero =>
      rw [Nat.mul_zero, Countdown.due_cons_zero, Countdown.turned_cons_zero, ih.1, ih.2]
      exact ⟨rfl, rfl⟩
    | succ k =>
      rw [show timeWheelSize * (k + 1) = 9 + timeWheelSize * k + 1 by unfold timeWheelSize; omega,
        Countdown.due_cons_succ, Countdown.turned_cons_succ, ih.1, ih.2]
      exact ⟨rfl, rfl⟩

namespace TimerWheel

/-- The ticks before the hand is at the slot. -/
def ahead (w : TimerWheel) (pos : Nat) : Nat := (pos + timeWheelSize - w.current) % timeWheelSize

def agendaBelow (w : TimerWheel) : Nat → Multiset (Nat × UId)
  | 0 => 0
  | k + 1 => bag (w.ahead k) (w.slot k) + w.agendaBelow k

/-- Every node of the wheel, as its uthread and the ticks it has left. -/
def agenda (w : TimerWheel) : Multiset (Nat × UId) := w.agendaBelow timeWheelSize

section Agenda

variable {w : TimerWheel} (hcur : w.current < timeWheelSize)
include hcur

theorem bag_addTimer (len : Nat) (ut : UId) (pos : Nat) :
    bag ((addTimer len ut w).ahead pos) ((addTimer len ut w).slot pos) =
      if pos = (len + w.current) % timeWheelSize then (len, ut) ::ₘ bag (w.ahead pos) (w.slot pos)
      else bag (w.ahead pos) (w.slot pos) := by
  unfold addTimer
  dsimp only
  split
  · rename_i hpos
    have hleft : w.ahead pos + timeWheelSize * (len / timeWheelSize) = len := by
      unfold ahead
      unfold timeWheelSize at hpos hcur ⊢
      omega
    rw [← hpos, Function.update_self, bag_cons]
    exact congrArg (fun n => (n, ut) ::ₘ _) hleft
  · rename_i hpos
    rw [Function.update_of_ne hpos]
    rfl

theorem agendaBelow_addTimer (len : Nat) (ut : UId) (k : Nat) :
    (addTimer len ut w).agendaBelow k =
      if (len + w.current) % timeWheelSize < k then (len, ut) ::ₘ w.agendaBelow k else w.agendaBelow k := by
  induction k with
  | zero => rfl
  | succ k ih =>
    unfold agendaBelow
    rw [ih, bag_addTimer hcur]
    rcases Nat.lt_trichotomy k ((len + w.current) % timeWheelSize) with h | h | h
    · rw [if_neg (by omega), if_neg (by omega), if_neg (by omega)]
    · rw [if_pos h, if_neg (by omega), if_pos (by omega), Multiset.cons_add]
    · rw [if_neg (by omega), if_pos h, if_pos (by omega), Multiset.add_cons]

/-- `add_timer` adds its uthread, with `len` ticks left. -/
theorem agenda_addTimer (len : Nat) (ut : UId) :
    (addTimer len ut w).agenda = (len, ut) ::ₘ w.agenda := by
  unfold agenda
  rw [agendaBelow_addTimer hcur, if_pos (Nat.mod_lt _ (by decide))]

/-- What a tick does to one slot. -/
theorem bag_turned {pos : Nat} (hpos : pos < timeWheelSize) :
    Countdown.due (bag (w.ahead pos) (w.slot pos)) =
      (if pos = w.current then (w.due : Multiset UId) else 0) ∧
    bag (w.turned.ahead pos) (w.turned.slot pos) = Countdown.turned (bag (w.ahead pos) (w.slot pos)) := by
  unfold turned
  by_cases h : pos = w.current
  · subst h
    obtain ⟨hdue, hturned⟩ := bag_atHand (w.slot w.current)
    have hhere : w.ahead w.current = 0 := by
      unfold ahead timeWheelSize
      omega
    have hnext : (w.current + timeWheelSize - (w.current + 1) % timeWheelSize) % timeWheelSize = 9 := by
      unfold timeWheelSize at hcur ⊢
      omega
    rw [hhere, hdue, hturned, if_pos rfl]
    refine ⟨rfl, ?_⟩
    dsimp only
    rw [Function.update_self]
    exact congrArg (fun d => bag d _) hnext
  · have hahead : w.ahead pos =
        (pos + timeWheelSize - (w.current + 1) % timeWheelSize) % timeWheelSize + 1 := by
      unfold ahead
      unfold timeWheelSize at hcur hpos ⊢
      omega
    rw [hahead, (bag_ahead _ _).1, (bag_ahead _ _).2, if_neg h]
    refine ⟨rfl, ?_⟩
    dsimp only
    rw [Function.update_of_ne h]
    rfl

theorem agendaBelow_turned {k : Nat} (hk : k ≤ timeWheelSize) :
    Countdown.due (w.agendaBelow k) = (if w.current < k then (w.due : Multiset UId) else 0) ∧
    w.turned.agendaBelow k = Countdown.turned (w.agendaBelow k) := by
  induction k with
  | zero => exact ⟨rfl, rfl⟩
  | succ k ih =>
    obtain ⟨hdue, hturned⟩ := ih (Nat.le_of_succ_le hk)
    obtain ⟨hat, hatTurned⟩ := bag_turned hcur hk
    unfold agendaBelow
    rw [Countdown.due_add, Countdown.turned_add, hat, hdue, hatTurned, hturned]
    refine ⟨?_, rfl⟩
    rcases Nat.lt_trichotomy w.current k with h | h | h
    · rw [if_neg (by omega), if_pos h, if_pos (by omega), Multiset.zero_add]
    · rw [if_pos h.symm, if_neg (by omega), if_pos (by omega), Multiset.add_zero]
    · rw [if_neg (by omega), if_neg (by omega), if_neg (by omega), Multiset.zero_add]

/-- A tick comes to the uthreads with no tick left, and takes one from the others. -/
theorem agenda_turned : Countdown.due w.agenda = w.due ∧ w.turned.agenda = Countdown.turned w.agenda := by
  obtain ⟨hdue, hturned⟩ := agendaBelow_turned hcur (Nat.le_refl _)
  rw [if_pos hcur] at hdue
  exact ⟨hdue, hturned⟩

end Agenda

end TimerWheel

/-! ### Every run of the wheel -/

section Runs

variable {malloc : Chain.Memory TimerNode → Nat} (hmalloc : ∀ m : Chain.Memory TimerNode, m.node (malloc m) = none)
include hmalloc

/-- The calls in turn, against the bag. -/
theorem Links.run {w : LinkedWheel} {t : TimerWheel} (h : Links w t) (hcur : t.current < timeWheelSize)
    (ops : List (Countdown.Op UId)) :
    ∃ w' t' outs, w.run malloc ops = some (w', outs) ∧ Links w' t' ∧
      t'.agenda = Countdown.after t.agenda ops ∧ outs.map Multiset.ofList = Countdown.outs t.agenda ops := by
  induction ops generalizing w t with
  | nil => exact ⟨w, t, [], rfl, h, rfl, rfl⟩
  | cons op ops ih =>
    cases op with
    | add len ut =>
      obtain ⟨w', t', outs, hrun, hlinks, hafter, houts⟩ := ih (h.addTimer len ut (hmalloc w.nodes)) hcur
      rw [TimerWheel.agenda_addTimer hcur] at hafter houts
      exact ⟨w', t', outs, hrun, hlinks, hafter, houts⟩
    | tick =>
      obtain ⟨w₁, htick, hlinks₁⟩ := h.tick
      obtain ⟨hdue, hturned⟩ := TimerWheel.agenda_turned hcur
      obtain ⟨w', t', outs, hrun, hlinks, hafter, houts⟩ := ih hlinks₁ (Nat.mod_lt _ (by decide))
      rw [hturned] at hafter houts
      refine ⟨w', t', t.due :: outs, ?_, hlinks, hafter, ?_⟩
      · simp only [LinkedWheel.run, htick, hrun, bind, Option.bind]
      · rw [List.map_cons, houts, ← hdue]
        rfl

/-- **The wheel is a bag of uthreads with the ticks they have left.** Whatever was in it and
in whatever order `add_timer` and `tick` are called, a tick comes to the uthreads that have
none left. A node that is added is come to once, by the tick number `len + 1` from then: with
it and without it, every tick comes to the same, but for that one. -/
theorem wheel_counts_down {w : LinkedWheel} {t : TimerWheel} (h : Links w t)
    (hcur : w.current < timeWheelSize) (ops : List (Countdown.Op UId)) :
    ∃ w' t' outs, w.run malloc ops = some (w', outs) ∧ Links w' t' ∧
      t'.agenda = Countdown.after t.agenda ops ∧ outs.map Multiset.ofList = Countdown.outs t.agenda ops ∧
      outs.length = Countdown.ticks ops ∧
      ∀ pre len ut post, ops = pre ++ .add len ut :: post →
        ∃ w₁ outs₁, w.run malloc (pre ++ post) = some (w₁, outs₁) ∧
          outs.map Multiset.ofList =
            (outs₁.map Multiset.ofList).modify (Countdown.ticks pre + len) (ut ::ₘ ·) := by
  have hcur' : t.current < timeWheelSize := by
    obtain ⟨-, -, -, he⟩ := h
    rw [he]
    exact hcur
  obtain ⟨w', t', outs, hrun, hlinks, hafter, houts⟩ := h.run hmalloc hcur' ops
  refine ⟨w', t', outs, hrun, hlinks, hafter, houts, ?_, fun pre len ut post hops => ?_⟩
  · rw [← List.length_map (f := Multiset.ofList), houts, Countdown.outs_length]
  · obtain ⟨w₁, t₁, outs₁, hrun₁, -, -, houts₁⟩ := h.run hmalloc hcur' (pre ++ post)
    refine ⟨w₁, outs₁, hrun₁, ?_⟩
    rw [houts, houts₁, hops, Countdown.outs_add]

end Runs

/-- An empty wheel with its hand at a slot. -/
def emptyWheel (current : Nat) : LinkedWheel where
  nodes := {head := fun _ => none, node := fun _ => none, bound := 0, unused := fun _ _ => rfl}
  current := current

theorem emptyWheel_links (current : Nat) : Links (emptyWheel current) {current := current} :=
  ⟨fun _ => [], ⟨fun _ => rfl, fun _ => List.nodup_nil, fun _ _ _ h => nomatch h⟩, fun _ => rfl, rfl⟩

/-- With the hand at the last slot and a length of the wheel's size: the eleventh tick. -/
theorem wheel_counts_down_ten : ∃ w' outs,
    (emptyWheel 9).run (fun m => m.bound) (.add 10 7 :: List.replicate 12 .tick) = some (w', outs) ∧
    outs.map Multiset.ofList = (List.replicate 12 0).modify 10 (7 ::ₘ ·) := by
  have hmalloc : ∀ m : Chain.Memory TimerNode, m.node m.bound = none := fun m => m.unused _ (Nat.le_refl _)
  obtain ⟨w', t', outs, hrun, -, -, -, -, hadd⟩ := wheel_counts_down hmalloc (emptyWheel_links 9)
    (by decide) (.add 10 7 :: List.replicate 12 .tick)
  obtain ⟨w₁, outs₁, hrun₁, houts⟩ := hadd [] 10 7 (List.replicate 12 .tick) rfl
  have hwithout : (((emptyWheel 9).run (fun m => m.bound) (List.replicate 12 .tick)).map Prod.snd) =
      some (List.replicate 12 []) := by
    decide +kernel
  have houts₁ : outs₁ = List.replicate 12 [] := by
    rw [show ([] : List (Countdown.Op UId)) ++ List.replicate 12 .tick = List.replicate 12 .tick from rfl] at hrun₁
    rw [hrun₁] at hwithout
    exact Option.some.inj hwithout
  rw [houts₁] at houts
  exact ⟨w', outs, hrun, houts⟩

end UthreadRuntime
