import UthreadRuntime.Trees.Histories

/-! Several trees over one field.

The records of all p's are linked through the same `RB_ENTRY`, each p having a head of its own.
An operation on one tree leaves the others alone as long as no record is in two of them
(`Forest.Represents`). -/
namespace UthreadRuntime.Rb
open RedBlack

/-- The heads, and the field of every record. -/
structure Forest (ι α : Type) where
  rbhRoot : ι → Option α
  field : α → Node α

variable {ι α κ : Type}

namespace Forest

/-- The tree with one of the heads. -/
def tree (f : Forest ι α) (i : ι) : Memory α := ⟨f.rbhRoot i, f.field⟩

/-- What an operation on the tree with the head `i` has made of it. -/
def put [DecidableEq ι] (f : Forest ι α) (i : ι) (m : Memory α) : Forest ι α :=
  ⟨Function.update f.rbhRoot i m.rbhRoot, m.field⟩

/-- Records that `calloc` has cleared, and heads after `RB_INIT`. -/
def empty : Forest ι α := ⟨fun _ => none, fun _ => ⟨none, none, none, .black⟩⟩

section Operations
variable [DecidableEq ι] [DecidableEq α] {β : Type} (fuel : Nat) (f : Forest ι α) (i : ι)

def rbInsert (cmp : α → α → Int) (x : α) : Option (Forest ι α × Option α) :=
  ((f.tree i).rbInsert cmp fuel x).map fun r => (f.put i r.1, r.2)

def rbRemove (x : α) : Option (Forest ι α) :=
  ((f.tree i).rbRemove fuel x).map fun r => f.put i r.1

omit [DecidableEq ι] [DecidableEq α] in
def rbFind (cmp : β → α → Int) (x : β) : Option (Option α) := (f.tree i).rbFind cmp fuel x

omit [DecidableEq ι] [DecidableEq α] in
def rbMin : Option (Option α) := (f.tree i).rbMin fuel

omit [DecidableEq ι] [DecidableEq α] in
def rbEmpty : Bool := (f.tree i).rbEmpty

end Operations

section Put
variable [DecidableEq ι] (f : Forest ι α) (i : ι) (m : Memory α)

@[simp] theorem tree_put : (f.put i m).tree i = m := by
  simp [tree, put]

@[simp] theorem put_tree : f.put i (f.tree i) = f := by
  simp [tree, put]

theorem rbhRoot_put {j : ι} (hj : j ≠ i) : ((f.put i m).tree j).rbhRoot = (f.tree j).rbhRoot :=
  Function.update_of_ne hj _ _

end Put

/-- Every tree has the nodes of its list, and no node is in two trees. -/
structure Represents [LinearOrder κ] (f : Forest ι α) (key : α → κ) (l : ι → List α) : Prop where
  tree : ∀ i, Rb.Represents (f.tree i) key (l i)
  apart : ∀ {i j x}, x ∈ l i → x ∈ l j → i = j

variable [LinearOrder κ] {f : Forest ι α} {key key' : α → κ} {l l' : ι → List α} {i : ι} {x : α}
  {cmp : α → α → Int} {fuel : Nat}

theorem represents_empty (key : α → κ) : (empty : Forest ι α).Represents key fun _ => [] :=
  ⟨fun i => represents_rbInit ((empty : Forest ι α).tree i) key, fun h => absurd h List.not_mem_nil⟩

/-- Only the keys of linked nodes matter. -/
theorem Represents.congr_key (h : f.Represents key l) (hk : ∀ i, ∀ x ∈ l i, key' x = key x) :
    f.Represents key' l :=
  ⟨fun i => (h.tree i).congr_key (hk i), h.apart⟩

section Write
variable [DecidableEq ι]

/-- One of the trees is replaced, and the nodes of the others were not written. -/
theorem Represents.put {m : Memory α} {xs : List α} (h : f.Represents key l) (hm : Rb.Represents m key xs)
    (hframe : ∀ b, b ≠ x → b ∉ l i → m.field b = f.field b) (hxs : ∀ b ∈ xs, b = x ∨ b ∈ l i)
    (hx : ∀ j, j ≠ i → x ∉ l j) : (f.put i m).Represents key (Function.update l i xs) := by
  have hother : ∀ j b, j ≠ i → b ∈ l j → b ≠ x ∧ b ∉ l i := fun j b hj hb =>
    ⟨fun he => hx j hj (he ▸ hb), fun hb' => hj (h.apart hb hb')⟩
  constructor
  · intro j
    by_cases hj : j = i
    · subst hj
      rwa [tree_put, Function.update_self]
    · rw [Function.update_of_ne hj]
      exact (h.tree j).frame (f.rbhRoot_put i m hj) fun b hb =>
        hframe b (hother j b hj hb).1 (hother j b hj hb).2
  · intro j k b hb hb'
    have hcases : ∀ j, b ∈ Function.update l i xs j → (j = i ∧ (b = x ∨ b ∈ l i)) ∨ (j ≠ i ∧ b ∈ l j) := by
      intro j hb
      by_cases hj : j = i
      · subst hj
        rw [Function.update_self] at hb
        exact .inl ⟨rfl, hxs b hb⟩
      · rw [Function.update_of_ne hj] at hb
        exact .inr ⟨hj, hb⟩
    have hclash : ∀ j, j ≠ i → b ∈ l j → (b = x ∨ b ∈ l i) → False := by
      intro j hj hb hor
      obtain ⟨hne, hni⟩ := hother j b hj hb
      exact hor.elim hne hni
    rcases hcases j hb with ⟨hj, hor⟩ | ⟨hj, hj'⟩ <;> rcases hcases k hb' with ⟨hk, hor'⟩ | ⟨hk, hk'⟩
    · rw [hj, hk]
    · exact (hclash k hk hk' hor).elim
    · exact (hclash j hj hj' hor').elim
    · exact h.apart hj' hk'

variable [DecidableEq α]

theorem Represents.rbInsert (hc : Compares cmp key x (key x)) (h : f.Represents key l)
    (hfuel : turns (l i).length ≤ fuel) (hx : ∀ j, j ≠ i → x ∉ l j) :
    (Tree.insert key x (l i) = none ∧ ∃ a, f.rbInsert fuel i cmp x = some (f, some a)) ∨
    (Tree.insert key x (l i) = some (x :: l i) ∧ ∃ f', f.rbInsert fuel i cmp x = some (f', none) ∧
      f'.Represents key (Function.update l i (x :: l i))) := by
  rcases (h.tree i).rbInsert hc hfuel with ⟨hl, a, -, -, hrun⟩ | ⟨hl, m, hrun, hm, hframe⟩
  · exact .inl ⟨hl, a, by simp [Forest.rbInsert, hrun]⟩
  · refine .inr ⟨hl, _, by simp [Forest.rbInsert, hrun], h.put hm hframe (fun b hb => ?_) hx⟩
    exact List.mem_cons.mp hb

theorem Represents.rbRemove (h : f.Represents key l) (hx : x ∈ l i) (hfuel : turns (l i).length ≤ fuel) :
    ∃ f', f.rbRemove fuel i x = some f' ∧
      f'.Represents key (Function.update l i (Tree.remove x (l i))) := by
  obtain ⟨m, hrun, hm, hframe⟩ := (h.tree i).rbRemove hx hfuel
  refine ⟨f.put i m, by simp [Forest.rbRemove, hrun], ?_⟩
  refine h.put (x := x) hm (fun b _ hb => hframe b hb) (fun b hb => ?_) fun j hj hxj => hj (h.apart hxj hx)
  exact .inr (Tree.mem_remove.mp hb).1

end Write

end Forest

end UthreadRuntime.Rb
