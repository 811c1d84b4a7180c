import Mathlib.Data.List.Find
import Mathlib.Data.List.MinMax

/-! An ordered tree, as far as its users can tell.

A node carries its own key, and the key is read when an operation runs. The tree
is the collection of its nodes: `insert` refuses a node whose key compares equal
to a present one, `find` returns a node with the given key, `min` one with the
least key, `next` the least one above a given node, `remove` unlinks a node. Balance and colours have
no effect on any of these as long as the key of a linked node is not set, so they do not appear. -/
namespace UthreadRuntime.Tree

variable {α κ : Type} (key : α → κ)

/-- The tree with `x` linked, or `none` when a node with an equal key is in the way. -/
def insert [DecidableEq κ] (x : α) (t : List α) : Option (List α) :=
  if t.any (fun y => key y == key x) then none else some (x :: t)

def find [DecidableEq κ] (k : κ) (t : List α) : Option α := t.find? (fun y => key y == k)

def min [LinearOrder κ] (t : List α) : Option α := t.argmin key

def max [LinearOrder κ] (t : List α) : Option α := t.argmax key

/-- The first node whose key is not below `k`. -/
def nfind [LinearOrder κ] (k : κ) (t : List α) : Option α := min key (t.filter fun y => decide (k ≤ key y))

/-- The first node after `x`. -/
def next [LinearOrder κ] (x : α) (t : List α) : Option α := min key (t.filter fun y => decide (key x < key y))

/-- The last node before `x`. -/
def prev [LinearOrder κ] (x : α) (t : List α) : Option α := max key (t.filter fun y => decide (key y < key x))

def remove [DecidableEq α] (x : α) (t : List α) : List α := t.filter (fun y => y != x)

variable {key}

theorem insert_eq_some [DecidableEq κ] {x : α} {t t' : List α} (h : insert key x t = some t') :
    t' = x :: t ∧ ∀ y ∈ t, key y ≠ key x := by
  unfold insert at h
  split at h
  · cases h
  · rename_i hany
    refine ⟨(Option.some.inj h).symm, fun y hy he => hany ?_⟩
    exact List.any_eq_true.mpr ⟨y, hy, by simpa using he⟩

theorem insert_eq_none [DecidableEq κ] {x : α} {t : List α} (h : insert key x t = none) :
    ∃ y ∈ t, key y = key x := by
  unfold insert at h
  split at h
  · rename_i hany
    obtain ⟨y, hy, he⟩ := List.any_eq_true.mp hany
    exact ⟨y, hy, by simpa using he⟩
  · cases h

theorem find_eq_some [DecidableEq κ] {k : κ} {t : List α} {x : α} (h : find key k t = some x) :
    x ∈ t ∧ key x = k :=
  ⟨List.mem_of_find?_eq_some h, by simpa using List.find?_some h⟩

theorem find_eq_none [DecidableEq κ] {k : κ} {t : List α} (h : find key k t = none) :
    ∀ x ∈ t, key x ≠ k := by
  intro x hx he
  simpa [he] using List.find?_eq_none.mp h x hx

/-- A node whose key no other node shares is the one `find` returns. -/
theorem find_of_mem [DecidableEq κ] {t : List α} {x : α} (hx : x ∈ t)
    (hu : ∀ y ∈ t, key y = key x → y = x) : find key (key x) t = some x := by
  cases h : find key (key x) t with
  | none => exact absurd rfl (find_eq_none h x hx)
  | some y =>
    obtain ⟨hy, hk⟩ := find_eq_some h
    rw [hu y hy hk]

theorem min_mem [LinearOrder κ] {t : List α} {x : α} (h : min key t = some x) : x ∈ t :=
  List.argmin_mem h

theorem min_le [LinearOrder κ] {t : List α} {x y : α} (h : min key t = some x) (hy : y ∈ t) :
    key x ≤ key y :=
  List.le_of_mem_argmin hy h

theorem max_mem [LinearOrder κ] {t : List α} {x : α} (h : max key t = some x) : x ∈ t :=
  List.argmax_mem h

theorem le_max [LinearOrder κ] {t : List α} {x y : α} (h : max key t = some x) (hy : y ∈ t) :
    key y ≤ key x :=
  List.le_of_mem_argmax hy h

theorem max_eq_none [LinearOrder κ] {t : List α} (h : max key t = none) : t = [] :=
  List.argmax_eq_none.mp h

theorem min_eq_none [LinearOrder κ] {t : List α} (h : min key t = none) : t = [] :=
  List.argmin_eq_none.mp h

@[simp] theorem mem_remove [DecidableEq α] {x y : α} {t : List α} :
    y ∈ remove x t ↔ y ∈ t ∧ y ≠ x := by
  simp [remove]

end UthreadRuntime.Tree
