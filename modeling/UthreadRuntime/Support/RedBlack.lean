import Mathlib.Algebra.Group.Nat.Defs
import Mathlib.Data.List.Nodup
import Mathlib.Data.Nat.Log
import Mathlib.Order.Lattice

/-! Red-black trees and a place in one.

A place is a subtree and the path above it, nearest crumb first; `plug` closes it again.
The conditions on colours are read at a place (`Fits`), so that a repair which works its
way up from a leaf is argued about where it stands. Left and right are a parameter. -/
namespace UthreadRuntime.RedBlack

inductive Color where
  | red
  | black
  deriving DecidableEq, Repr

inductive Side where
  | left
  | right
  deriving DecidableEq, Repr

def Side.other : Side → Side
  | .left => .right
  | .right => .left

@[simp] theorem Side.other_other (s : Side) : s.other.other = s := by cases s <;> rfl

@[simp] theorem Side.other_ne (s : Side) : s.other ≠ s := by cases s <;> decide

@[simp] theorem Side.ne_other (s : Side) : s ≠ s.other := by cases s <;> decide

theorem Side.eq_or_eq_other (s s' : Side) : s' = s ∨ s' = s.other := by
  cases s <;> cases s' <;> simp [Side.other]

variable {α : Type}

inductive RBTree (α : Type) where
  | nil
  | node (c : Color) (l : RBTree α) (a : α) (r : RBTree α)
  deriving DecidableEq, Repr

/-- A node with `near` on side `s` and `far` on the other. -/
def Side.node (s : Side) (c : Color) (near : RBTree α) (a : α) (far : RBTree α) : RBTree α :=
  match s with
  | .left => .node c near a far
  | .right => .node c far a near

/-- What of a node lies before its child on side `s` and after it. -/
def Side.around (s : Side) (a : α) (far : List α) : List α × List α :=
  match s with
  | .left => ([], a :: far)
  | .right => (far ++ [a], [])

namespace RBTree

/-- The node at the root. -/
def top : RBTree α → Option α
  | nil => none
  | node _ _ a _ => some a

/-- The colour of the root; an empty tree counts as black. -/
def color : RBTree α → Color
  | nil => .black
  | node c _ _ _ => c

def toList : RBTree α → List α
  | nil => []
  | node _ l a r => l.toList ++ a :: r.toList

def height : RBTree α → Nat
  | nil => 0
  | node _ l _ r => max l.height r.height + 1

def blacken : RBTree α → RBTree α
  | nil => nil
  | node _ l a r => node .black l a r

@[simp] theorem top_nil : (nil : RBTree α).top = none := rfl
@[simp] theorem top_node (c : Color) (l r : RBTree α) (a : α) : (node c l a r).top = some a := rfl
@[simp] theorem color_nil : (nil : RBTree α).color = .black := rfl
@[simp] theorem color_node (c : Color) (l r : RBTree α) (a : α) : (node c l a r).color = c := rfl
@[simp] theorem toList_nil : (nil : RBTree α).toList = [] := rfl
@[simp] theorem toList_node (c : Color) (l r : RBTree α) (a : α) :
    (node c l a r).toList = l.toList ++ a :: r.toList := rfl

@[simp] theorem top_side (s : Side) (c : Color) (t u : RBTree α) (a : α) :
    (s.node c t a u).top = some a := by cases s <;> rfl

@[simp] theorem color_side (s : Side) (c : Color) (t u : RBTree α) (a : α) :
    (s.node c t a u).color = c := by cases s <;> rfl

@[simp] theorem blacken_side (s : Side) (c : Color) (t u : RBTree α) (a : α) :
    (s.node c t a u).blacken = s.node .black t a u := by cases s <;> rfl

@[simp] theorem toList_blacken (t : RBTree α) : t.blacken.toList = t.toList := by cases t <;> rfl

@[simp] theorem color_blacken (t : RBTree α) : t.blacken.color = .black := by cases t <;> rfl

@[simp] theorem top_blacken (t : RBTree α) : t.blacken.top = t.top := by cases t <;> rfl

theorem blacken_eq_self {t : RBTree α} (h : t.color = .black) : t.blacken = t := by
  cases t with
  | nil => rfl
  | node c l a r => rw [show c = .black from h]; rfl

theorem toList_side (s : Side) (c : Color) (t u : RBTree α) (a : α) :
    (s.node c t a u).toList = (s.around a u.toList).1 ++ t.toList ++ (s.around a u.toList).2 := by
  cases s <;> simp [Side.node, Side.around]

theorem height_side (s : Side) (c : Color) (t u : RBTree α) (a : α) :
    (s.node c t a u).height = max t.height u.height + 1 := by
  cases s
  · rfl
  · exact congrArg (· + 1) (Nat.max_comm ..)

theorem mem_side {s : Side} {c : Color} {t u : RBTree α} {a b : α} :
    b ∈ (s.node c t a u).toList ↔ b ∈ t.toList ∨ b = a ∨ b ∈ u.toList := by
  cases s
  · simp [Side.node]
  · simp [Side.node]
    tauto

theorem top_mem {t : RBTree α} {a : α} (h : t.top = some a) : a ∈ t.toList := by
  cases t with
  | nil => cases h
  | node c l b r => simp_all

theorem top_eq_none {t : RBTree α} : t.top = none ↔ t = nil := by
  cases t <;> simp

theorem toList_eq_nil {t : RBTree α} : t.toList = [] ↔ t = nil := by
  cases t <;> simp

/-- A tree with a root is a node, seen from either side. -/
theorem exists_side (s : Side) {t : RBTree α} {a : α} (h : t.top = some a) :
    ∃ u v, t = s.node t.color u a v := by
  cases t with
  | nil => cases h
  | node c l b r =>
    obtain rfl : b = a := Option.some.inj h
    cases s with
    | left => exact ⟨l, r, rfl⟩
    | right => exact ⟨r, l, rfl⟩

theorem exists_top {t : RBTree α} (h : t ≠ nil) : ∃ a, t.top = some a := by
  cases t with
  | nil => exact absurd rfl h
  | node c l a r => exact ⟨a, rfl⟩

/-- Turning a node to side `s` brings up the root of its other child. -/
theorem toList_turn (s : Side) (c c' d d' : Color) (t u v : RBTree α) (a b : α) :
    (s.node c t a (s.node c' u b v)).toList = (s.node d (s.node d' t a u) b v).toList := by
  cases s <;> simp [Side.node]

/-- Every path from the root to a leaf has `n` black nodes, and a red node has no red child. -/
def Balanced : RBTree α → Nat → Prop
  | nil, n => n = 0
  | node .red l _ r, n => (l.Balanced n ∧ r.Balanced n) ∧ l.color = .black ∧ r.color = .black
  | node .black l _ r, n => ∃ m, n = m + 1 ∧ l.Balanced m ∧ r.Balanced m

theorem balanced_nil {n : Nat} : (nil : RBTree α).Balanced n ↔ n = 0 := Iff.rfl

theorem balanced_red {s : Side} {t u : RBTree α} {a : α} {n : Nat} :
    (s.node .red t a u).Balanced n ↔
      (t.Balanced n ∧ u.Balanced n) ∧ t.color = .black ∧ u.color = .black := by
  cases s
  · rfl
  · simp only [Side.node, Balanced]
    tauto

theorem balanced_black {s : Side} {t u : RBTree α} {a : α} {n : Nat} :
    (s.node .black t a u).Balanced n ↔ ∃ m, n = m + 1 ∧ t.Balanced m ∧ u.Balanced m := by
  cases s
  · rfl
  · simp only [Side.node, Balanced]
    grind

theorem balanced_black_succ {s : Side} {t u : RBTree α} {a : α} {n : Nat} :
    (s.node .black t a u).Balanced (n + 1) ↔ t.Balanced n ∧ u.Balanced n := by
  rw [balanced_black]
  constructor
  · rintro ⟨m, hm, ht, hu⟩
    obtain rfl : n = m := by omega
    exact ⟨ht, hu⟩
  · exact fun h => ⟨n, rfl, h⟩

theorem Balanced.blacken_of_red {t : RBTree α} {n : Nat} (h : t.Balanced n)
    (hc : t.color = .red) : t.blacken.Balanced (n + 1) := by
  cases t with
  | nil => cases hc
  | node c l a r =>
    obtain rfl : c = .red := hc
    exact ⟨n, rfl, h.1⟩

/-- A tree with a black node on every path is not empty. -/
theorem Balanced.ne_nil {t : RBTree α} {n : Nat} (h : t.Balanced (n + 1)) : t ≠ nil := by
  rintro rfl
  cases balanced_nil.mp h

theorem Balanced.height_le {t : RBTree α} {n : Nat} (h : t.Balanced n) :
    t.height ≤ 2 * n + (if t.color = .red then 1 else 0) := by
  induction t generalizing n with
  | nil => exact Nat.zero_le _
  | node c l a r ihl ihr =>
    cases c with
    | red =>
      obtain ⟨⟨hl, hr⟩, hcl, hcr⟩ := h
      have hl := ihl hl
      have hr := ihr hr
      simp only [hcl, hcr, height, color_node] at hl hr ⊢
      simp at hl hr ⊢
      omega
    | black =>
      obtain ⟨m, rfl, hl, hr⟩ := h
      have hl := ihl hl
      have hr := ihr hr
      simp only [height, color_node]
      simp
      split at hl <;> split at hr <;> omega

theorem Balanced.pow_le {t : RBTree α} {n : Nat} (h : t.Balanced n) :
    2 ^ n ≤ t.toList.length + 1 := by
  induction t generalizing n with
  | nil => simp [balanced_nil.mp h]
  | node c l a r ihl ihr =>
    cases c with
    | red =>
      have hl := ihl h.1.1
      simp only [toList_node, List.length_append, List.length_cons]
      omega
    | black =>
      obtain ⟨m, rfl, hl, hr⟩ := h
      have hl := ihl hl
      have hr := ihr hr
      simp only [toList_node, List.length_append, List.length_cons, Nat.pow_succ]
      omega

/-- A red-black tree: balanced, with a black root. -/
def IsRedBlack (t : RBTree α) : Prop := t.color = .black ∧ ∃ n, t.Balanced n

theorem isRedBlack_nil : (nil : RBTree α).IsRedBlack := ⟨rfl, 0, rfl⟩

theorem Balanced.isRedBlack_blacken {t : RBTree α} {n : Nat} (h : t.Balanced n) :
    t.blacken.IsRedBlack := by
  refine ⟨color_blacken t, ?_⟩
  cases t with
  | nil => exact ⟨n, h⟩
  | node c l a r =>
    cases c with
    | red => exact ⟨n + 1, n, rfl, h.1⟩
    | black => exact ⟨n, h⟩

/-- The height of a red-black tree of `n` nodes is at most `2 lg (n + 1)`. -/
theorem IsRedBlack.height_le {t : RBTree α} (h : t.IsRedBlack) :
    t.height ≤ 2 * Nat.log 2 (t.toList.length + 1) := by
  obtain ⟨hc, n, hn⟩ := h
  have hh := hn.height_le
  have hlog : n ≤ Nat.log 2 (t.toList.length + 1) := Nat.le_log_of_pow_le (by decide) hn.pow_le
  rw [hc] at hh
  simp at hh
  omega

end RBTree

open UthreadRuntime.RedBlack.RBTree

/-- One node above a place: the side the place is on, and the other child. -/
structure Crumb (α : Type) where
  side : Side
  color : Color
  node : α
  sibling : RBTree α

abbrev Path (α : Type) := List (Crumb α)

def Crumb.fill (c : Crumb α) (t : RBTree α) : RBTree α := c.side.node c.color t c.node c.sibling

def plug : RBTree α → Path α → RBTree α
  | t, [] => t
  | t, c :: k => plug (c.fill t) k

namespace Path

/-- The parent of the place. -/
def top : Path α → Option α
  | [] => none
  | c :: _ => some c.node

def before : Path α → List α
  | [] => []
  | c :: k => before k ++ (c.side.around c.node c.sibling.toList).1

def after : Path α → List α
  | [] => []
  | c :: k => (c.side.around c.node c.sibling.toList).2 ++ after k

@[simp] theorem top_nil : top ([] : Path α) = none := rfl
@[simp] theorem top_cons (c : Crumb α) (k : Path α) : top (c :: k) = some c.node := rfl
@[simp] theorem before_nil : before ([] : Path α) = [] := rfl
@[simp] theorem after_nil : after ([] : Path α) = [] := rfl

/-- A way down that keeps left passes nothing on its left. -/
theorem before_eq_nil {k : Path α} (h : ∀ q ∈ k, q.side = .left) : before k = [] := by
  induction k with
  | nil => rfl
  | cons q k ih =>
    simp [before, Side.around, h q (List.mem_cons_self ..),
      ih fun q hq => h q (List.mem_cons_of_mem _ hq)]

theorem after_eq_nil {k : Path α} (h : ∀ q ∈ k, q.side = .right) : after k = [] := by
  induction k with
  | nil => rfl
  | cons q k ih =>
    simp [after, Side.around, h q (List.mem_cons_self ..),
      ih fun q hq => h q (List.mem_cons_of_mem _ hq)]

end Path

@[simp] theorem plug_nil (t : RBTree α) : plug t [] = t := rfl
@[simp] theorem plug_cons (t : RBTree α) (c : Crumb α) (k : Path α) :
    plug t (c :: k) = plug (c.fill t) k := rfl

theorem plug_append (t : RBTree α) (j k : Path α) : plug t (j ++ k) = plug (plug t j) k := by
  induction j generalizing t with
  | nil => rfl
  | cons c j ih => exact ih (c.fill t)

theorem toList_plug (t : RBTree α) (k : Path α) :
    (plug t k).toList = Path.before k ++ t.toList ++ Path.after k := by
  induction k generalizing t with
  | nil => simp
  | cons c k ih =>
    rw [plug_cons, ih, Crumb.fill, toList_side]
    simp [Path.before, Path.after]

/-- Every node of a tree has a place. -/
theorem exists_plug {t : RBTree α} {a : α} (h : a ∈ t.toList) :
    ∃ c l r k, t = plug (.node c l a r) k := by
  suffices hplug : ∀ k : Path α, ∃ c l r j, plug t k = plug (.node c l a r) j from hplug []
  induction t with
  | nil => cases h
  | node c l b r ihl ihr =>
    intro k
    rcases List.mem_append.mp h with h | h
    · exact ihl h (⟨.left, c, b, r⟩ :: k)
    · rcases List.mem_cons.mp h with rfl | h
      · exact ⟨c, l, r, k, rfl⟩
      · exact ihr h (⟨.right, c, b, l⟩ :: k)

/-- What is at a place can be exchanged for anything with the same nodes in the same order. -/
theorem toList_plug_congr {t u : RBTree α} (k : Path α) (h : t.toList = u.toList) :
    (plug t k).toList = (plug u k).toList := by
  rw [toList_plug, toList_plug, h]

theorem length_le_height (t : RBTree α) (k : Path α) :
    k.length + t.height ≤ (plug t k).height := by
  induction k generalizing t with
  | nil => simp
  | cons c k ih =>
    have hfill : t.height + 1 ≤ (c.fill t).height := by
      rw [Crumb.fill, height_side]
      omega
    have := ih (c.fill t)
    simp only [List.length_cons, plug_cons]
    omega

/-- The path has a nearest crumb, and it is black. -/
def Path.BlackTop : Path α → Prop
  | [] => False
  | c :: _ => c.color = .black

/-- A tree of black height `n` may stand at the place. -/
def Path.Balanced : Path α → Nat → Prop
  | [], _ => True
  | c :: k, n => c.sibling.Balanced n ∧
      match c.color with
      | .red => c.sibling.color = .black ∧ Path.BlackTop k ∧ Path.Balanced k n
      | .black => Path.Balanced k (n + 1)

theorem Path.balanced_red {s : Side} {a : α} {u : RBTree α} {k : Path α} {n : Nat} :
    Path.Balanced (⟨s, .red, a, u⟩ :: k) n ↔
      u.Balanced n ∧ u.color = .black ∧ Path.BlackTop k ∧ Path.Balanced k n := Iff.rfl

theorem Path.balanced_black {s : Side} {a : α} {u : RBTree α} {k : Path α} {n : Nat} :
    Path.Balanced (⟨s, .black, a, u⟩ :: k) n ↔ u.Balanced n ∧ Path.Balanced k (n + 1) := Iff.rfl

/-- `t` stands at the place with nothing to repair. A red root needs a black parent. -/
def Fits (t : RBTree α) (k : Path α) (n : Nat) : Prop :=
  t.Balanced n ∧ Path.Balanced k n ∧ (t.color = .red → Path.BlackTop k)

theorem Fits.up {t : RBTree α} {c : Crumb α} {k : Path α} {n : Nat} (h : Fits t (c :: k) n) :
    ∃ m, Fits (c.fill t) k m := by
  obtain ⟨s, d, a, u⟩ := c
  obtain ⟨ht, hk, hc⟩ := h
  cases d with
  | red =>
    obtain ⟨hu, huc, hkt, hk⟩ := Path.balanced_red.mp hk
    have htc : t.color = .black := by
      cases htc : t.color with
      | black => rfl
      | red => cases hc htc
    exact ⟨n, RBTree.balanced_red.mpr ⟨⟨ht, hu⟩, htc, huc⟩, hk, fun _ => hkt⟩
  | black =>
    obtain ⟨hu, hk⟩ := Path.balanced_black.mp hk
    refine ⟨n + 1, balanced_black_succ.mpr ⟨ht, hu⟩, hk, fun hred => ?_⟩
    simp [Crumb.fill] at hred

theorem Fits.down {t : RBTree α} {c : Crumb α} {k : Path α} {n : Nat} (h : Fits (c.fill t) k n) :
    ∃ m, Fits t (c :: k) m := by
  obtain ⟨s, d, a, u⟩ := c
  obtain ⟨ht, hk, hc⟩ := h
  cases d with
  | red =>
    obtain ⟨⟨ht, hu⟩, htc, huc⟩ := RBTree.balanced_red.mp ht
    exact ⟨n, ht, Path.balanced_red.mpr ⟨hu, huc, hc (by simp [Crumb.fill]), hk⟩,
      fun hred => by rw [htc] at hred; cases hred⟩
  | black =>
    obtain ⟨m, rfl, ht, hu⟩ := RBTree.balanced_black.mp ht
    exact ⟨m, ht, Path.balanced_black.mpr ⟨hu, hk⟩, fun _ => rfl⟩

/-- A tree is red-black just when any of its places has nothing to repair. -/
theorem isRedBlack_plug_iff (t : RBTree α) (k : Path α) :
    (plug t k).IsRedBlack ↔ ∃ n, Fits t k n := by
  induction k generalizing t with
  | nil =>
    refine ⟨fun ⟨hc, n, hn⟩ => ⟨n, hn, trivial, fun hred => ?_⟩, fun ⟨n, hn, _, hc⟩ => ⟨?_, n, hn⟩⟩
    · rw [plug_nil] at hc
      rw [hc] at hred
      cases hred
    · rw [plug_nil]
      cases htc : t.color with
      | black => rfl
      | red => exact (hc htc).elim
  | cons c k ih =>
    rw [plug_cons, ih]
    exact ⟨fun ⟨n, h⟩ => h.down, fun ⟨n, h⟩ => h.up⟩

/-- A place one black node short is mended with a red node from across. -/
theorem isRedBlack_plug_borrow {s : Side} {c : Color} {t near far u : RBTree α} {p q w : α}
    {k : Path α} {n : Nat} (ht : t.Balanced n) (hnear : near.Balanced n) (hfar : far.Balanced n)
    (hred : far.color = .red) (hk : Path.Balanced (⟨s, c, q, u⟩ :: k) (n + 1)) :
    (plug (s.node c (s.node .black t p near) w far.blacken) k).IsRedBlack := by
  have hnear' : (s.node .black t p near).Balanced (n + 1) :=
    RBTree.balanced_black_succ.mpr ⟨ht, hnear⟩
  have hfar' : far.blacken.Balanced (n + 1) := hfar.blacken_of_red hred
  refine (isRedBlack_plug_iff _ _).mpr ?_
  cases c with
  | red =>
    obtain ⟨-, -, hktop, hk⟩ := Path.balanced_red.mp hk
    exact ⟨n + 1, RBTree.balanced_red.mpr ⟨⟨hnear', hfar'⟩, by simp, by simp⟩, hk, fun _ => hktop⟩
  | black =>
    obtain ⟨-, hk⟩ := Path.balanced_black.mp hk
    exact ⟨n + 2, RBTree.balanced_black_succ.mpr ⟨hnear', hfar'⟩, hk, fun h => by simp at h⟩

/-- The colours do not depend on which nodes a tree has. -/
theorem Path.balanced_rename (j k : Path α) (s : Side) (c : Color) (a b : α) (u : RBTree α)
    {n : Nat} (h : Path.Balanced (j ++ ⟨s, c, a, u⟩ :: k) n) :
    Path.Balanced (j ++ ⟨s, c, b, u⟩ :: k) n := by
  induction j generalizing n with
  | nil => exact h
  | cons d j ih =>
    obtain ⟨side, color, node, sibling⟩ := d
    cases color with
    | black => exact ⟨h.1, ih h.2⟩
    | red =>
      refine ⟨h.1, h.2.1, ?_, ih h.2.2.2⟩
      have htop := h.2.2.1
      cases j with
      | nil => exact htop
      | cons => exact htop

end UthreadRuntime.RedBlack
