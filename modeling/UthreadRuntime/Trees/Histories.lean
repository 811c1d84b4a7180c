import UthreadRuntime.Support.Tree
import UthreadRuntime.Trees.Update

/-! The pointers against the collection of their nodes.

`Represents` relates a memory to a list in any order, the form in which the rest of the
development has its trees. Each operation agrees with its namesake on lists; so does any
history of operations in which keys are set and nodes linked only outside the tree, and nodes
unlinked only inside. -/
namespace UthreadRuntime.Rb
open RedBlack

variable {α κ : Type} [LinearOrder κ] {o : α → Node α} {cmp : α → α → Int} {key : α → κ}
  {m m' : Memory α} {xs l : List α} {x : α} {fuel : Nat}

/-- The nodes of the tree in memory are those of `l`. -/
def Represents (m : Memory α) (key : α → κ) (l : List α) : Prop :=
  ∃ xs, Stores m.field m key xs ∧ xs.Perm l

theorem Stores.own (h : Stores o m key xs) : Stores m.field m key xs := by
  obtain ⟨t, ht, hrb, hasc, hlist⟩ := h
  exact ⟨t, ht.outside_congr fun b hb => (ht.outside b hb).symm, hrb, hasc, hlist⟩

/-- What is written outside a tree does not touch it. -/
theorem Stores.frame (h : Stores o m key xs) (hroot : m'.rbhRoot = m.rbhRoot)
    (hf : ∀ b ∈ xs, m'.field b = m.field b) : Stores m'.field m' key xs := by
  obtain ⟨t, ht, hrb, hasc, rfl⟩ := h
  have hplug : (plug t [] : RBTree α).toList = t.toList := rfl
  exact ⟨t, ⟨ht.linked.frame hf, hroot.trans ht.above, ht.nodup, fun _ _ => rfl⟩, hrb, hasc, rfl⟩

theorem stores_rbInit (m : Memory α) (key : α → κ) : Stores m.field m.rbInit key [] :=
  ⟨.nil, ⟨trivial, rfl, List.nodup_nil, fun _ _ => rfl⟩, RBTree.isRedBlack_nil, List.Pairwise.nil, rfl⟩

theorem represents_rbInit (m : Memory α) (key : α → κ) : Represents m.rbInit key [] :=
  ⟨[], stores_rbInit m key, List.Perm.nil⟩

/-- Two nodes with the same key in the tree are one. -/
theorem Represents.eq_of_key (h : Represents m key l) {a b : α} (ha : a ∈ l) (hb : b ∈ l)
    (hk : key a = key b) : a = b := by
  obtain ⟨xs, hs, hp⟩ := h
  exact hs.ascending.eq_of_key (hp.mem_iff.mpr ha) (hp.mem_iff.mpr hb) hk

theorem Represents.nodup (h : Represents m key l) : l.Nodup := by
  obtain ⟨xs, hs, hp⟩ := h
  exact hp.nodup_iff.mp hs.ascending.nodup

theorem Represents.congr_key {key' : α → κ} (h : Represents m key l)
    (hk : ∀ x ∈ l, key' x = key x) : Represents m key' l := by
  obtain ⟨xs, hs, hp⟩ := h
  exact ⟨xs, hs.congr_key fun x hx => hk x (hp.mem_iff.mp hx), hp⟩

theorem Represents.frame (h : Represents m key l) (hroot : m'.rbhRoot = m.rbhRoot)
    (hf : ∀ b ∈ l, m'.field b = m.field b) : Represents m' key l := by
  obtain ⟨xs, hs, hp⟩ := h
  exact ⟨xs, hs.frame hroot fun b hb => hf b (hp.mem_iff.mp hb), hp⟩

/-- `RB_EMPTY` -/
theorem Represents.rbEmpty (h : Represents m key l) : m.rbEmpty = l.isEmpty := by
  obtain ⟨xs, hs, hp⟩ := h
  rw [Bool.eq_iff_iff, hs.rbEmpty, List.isEmpty_iff]
  exact ⟨fun hx => (hx ▸ hp).nil_eq.symm, fun hl => (hl ▸ hp).eq_nil⟩

/-- `RB_FIND` finds what a search of the list finds. -/
theorem Represents.rbFind {β : Type} {cmp : β → α → Int} {y : β} {k : κ}
    (hc : Compares cmp key y k) (h : Represents m key l) (hfuel : turns l.length ≤ fuel) :
    m.rbFind cmp fuel y = some (Tree.find key k l) := by
  obtain ⟨xs, hs, hp⟩ := h
  rw [hs.rbFind hc (by rwa [hp.length_eq])]
  congr 1
  cases hf : Tree.find key k l with
  | none =>
    refine find?_eq_none_of fun b hb => ?_
    simpa using Tree.find_eq_none hf b (hp.mem_iff.mp hb)
  | some a =>
    obtain ⟨ha, hka⟩ := Tree.find_eq_some hf
    cases hf' : xs.find? fun b => decide (key b = k) with
    | none =>
      have hno := List.find?_eq_none.mp hf' a (hp.mem_iff.mpr ha)
      simp [hka] at hno
    | some b =>
      have hb := List.mem_of_find?_eq_some hf'
      have hkb : key b = k := by simpa using List.find?_some hf'
      rw [hs.ascending.eq_of_key hb (hp.mem_iff.mpr ha) (hkb.trans hka.symm)]

/-! The ends of the nodes in order are the extremes of the list. -/

theorem Ascending.min_eq (h : Ascending key xs) (hp : xs.Perm l) : Tree.min key l = xs.head? := by
  cases hmin : Tree.min key l with
  | none =>
    obtain rfl := Tree.min_eq_none hmin
    rw [hp.eq_nil]
    rfl
  | some a =>
    have ha := hp.mem_iff.mpr (Tree.min_mem hmin)
    cases xs with
    | nil => cases ha
    | cons b ys =>
      have hb := Tree.min_le hmin (hp.mem_iff.mp (List.mem_cons_self ..))
      have hle : key b ≤ key a := by
        rcases List.mem_cons.mp ha with rfl | ha
        · exact le_refl _
        · exact ((List.pairwise_cons.mp h).1 a ha).le
      rw [h.eq_of_key ha (List.mem_cons_self ..) (le_antisymm hb hle)]
      rfl

theorem Ascending.max_eq (h : Ascending key xs) (hp : xs.Perm l) : Tree.max key l = xs.getLast? := by
  cases hmax : Tree.max key l with
  | none =>
    obtain rfl := Tree.max_eq_none hmax
    rw [hp.eq_nil]
    rfl
  | some a =>
    have ha := hp.mem_iff.mpr (Tree.max_mem hmax)
    rcases List.eq_nil_or_concat' xs with rfl | ⟨ys, b, rfl⟩
    · cases ha
    · have hlast : b ∈ ys ++ [b] := List.mem_append_right ys (List.mem_singleton_self b)
      have hb := Tree.le_max hmax (hp.mem_iff.mp hlast)
      have hle : key a ≤ key b := by
        rcases List.mem_append.mp ha with ha | ha
        · exact ((List.pairwise_append.mp h).2.2 a ha b (List.mem_singleton_self b)).le
        · rw [List.mem_singleton.mp ha]
      rw [h.eq_of_key ha hlast (le_antisymm hle hb), List.getLast?_append]
      rfl

/-- `RB_MIN` returns the node with the least key. -/
theorem Represents.rbMin (h : Represents m key l) (hfuel : turns l.length ≤ fuel) :
    m.rbMin fuel = some (Tree.min key l) := by
  obtain ⟨xs, hs, hp⟩ := h
  rw [hs.rbMin (by rwa [hp.length_eq]), hs.ascending.min_eq hp]

/-- `RB_MAX` returns the node with the greatest key. -/
theorem Represents.rbMax (h : Represents m key l) (hfuel : turns l.length ≤ fuel) :
    m.rbMax fuel = some (Tree.max key l) := by
  obtain ⟨xs, hs, hp⟩ := h
  rw [hs.rbMax (by rwa [hp.length_eq]), hs.ascending.max_eq hp]

/-- `RB_NFIND` returns the first node whose key is not below the one that is searched for. -/
theorem Represents.rbNfind {β : Type} {cmp : β → α → Int} {y : β} {k : κ}
    (hc : Compares cmp key y k) (h : Represents m key l) (hfuel : turns l.length ≤ fuel) :
    m.rbNfind cmp fuel y = some (Tree.nfind key k l) := by
  obtain ⟨xs, hs, hp⟩ := h
  have hasc : Ascending key (xs.filter fun b => decide (k ≤ key b)) := hs.ascending.filter _
  rw [hs.rbNfind hc (by rwa [hp.length_eq]), Tree.nfind, hasc.min_eq (hp.filter _), List.head?_filter]

/-- The nodes on the two sides of one are those with lesser and with greater keys. -/
theorem Ascending.filter_around {pre post : List α} (h : Ascending key (pre ++ x :: post)) :
    ((pre ++ x :: post).filter fun b => decide (key x < key b)) = post ∧
    ((pre ++ x :: post).filter fun b => decide (key b < key x)) = pre := by
  obtain ⟨-, -, hpre, hpost⟩ := h.split
  constructor
  · have hno : (pre.filter fun b => decide (key x < key b)) = [] :=
      List.filter_eq_nil_iff.mpr fun b hb => by simpa using (hpre b hb).le
    have hall : (post.filter fun b => decide (key x < key b)) = post :=
      List.filter_eq_self.mpr fun b hb => by simpa using hpost b hb
    rw [List.filter_append, hno, List.filter_cons_of_neg (by simp), hall, List.nil_append]
  · have hno : (post.filter fun b => decide (key b < key x)) = [] :=
      List.filter_eq_nil_iff.mpr fun b hb => by simpa using (hpost b hb).le
    have hall : (pre.filter fun b => decide (key b < key x)) = pre :=
      List.filter_eq_self.mpr fun b hb => by simpa using hpre b hb
    rw [List.filter_append, hall, List.filter_cons_of_neg (by simp), hno, List.append_nil]

section Write
variable [DecidableEq α]

/-- `RB_NEXT` and `RB_PREV` of a node of the tree return those with the next greater and the next
lesser key. -/
theorem Represents.neighbours (h : Represents m key l) (hx : x ∈ l) (hfuel : turns l.length ≤ fuel) :
    m.rbNext fuel x = some (Tree.next key x l) ∧ m.rbPrev fuel x = some (Tree.prev key x l) := by
  obtain ⟨xs, hs, hp⟩ := h
  obtain ⟨pre, post, rfl⟩ := List.append_of_mem (hp.mem_iff.mpr hx)
  obtain ⟨hnext, hprev⟩ := hs.neighbours (show turns (pre ++ x :: post).length ≤ fuel by rwa [hp.length_eq])
  obtain ⟨hafter, hbefore⟩ := hs.ascending.filter_around
  obtain ⟨hpre, hpost, -, -⟩ := hs.ascending.split
  constructor
  · rw [hnext, Tree.next, hpost.min_eq (hafter ▸ hp.filter _)]
  · rw [hprev, Tree.prev, hpre.max_eq (hbefore ▸ hp.filter _)]

/-- `RB_INSERT` refuses a node exactly when the list does, and then returns the node in the way;
else it links the node, and writes no node outside the tree. -/
theorem Represents.rbInsert (hc : Compares cmp key x (key x)) (h : Represents m key l)
    (hfuel : turns l.length ≤ fuel) :
    (Tree.insert key x l = none ∧ ∃ a ∈ l, key a = key x ∧ m.rbInsert cmp fuel x = some (m, some a)) ∨
    (Tree.insert key x l = some (x :: l) ∧ ∃ m', m.rbInsert cmp fuel x = some (m', none) ∧
      Represents m' key (x :: l) ∧ ∀ b, b ≠ x → b ∉ l → m'.field b = m.field b) := by
  obtain ⟨xs, hs, hp⟩ := h
  rcases hs.rbInsert hc (x := x) (show turns xs.length ≤ fuel by rwa [hp.length_eq]) with
    ⟨a, ha, hk, hrun⟩ | ⟨hfresh, m', ys, hrun, hs', hp'⟩
  · left
    refine ⟨?_, a, hp.mem_iff.mp ha, hk, hrun⟩
    simp only [Tree.insert, List.any_eq_true]
    rw [if_pos ⟨a, hp.mem_iff.mp ha, by simpa using hk⟩]
  · right
    refine ⟨?_, m', hrun, ⟨ys, hs'.own, hp'.trans (hp.cons x)⟩, fun b hbx hbl => ?_⟩
    · simp only [Tree.insert, List.any_eq_true]
      rw [if_neg]
      rintro ⟨a, ha, hk⟩
      exact hfresh a (hp.mem_iff.mpr ha) (by simpa using hk)
    · obtain ⟨t, ht, -, -, rfl⟩ := hs'
      refine ht.outside b fun hb => ?_
      rcases List.mem_cons.mp (hp'.mem_iff.mp hb) with rfl | hb
      · exact hbx rfl
      · exact hbl (hp.mem_iff.mp hb)

/-- `RB_REMOVE` of a node of the tree takes it out of the list, and writes no node outside. -/
theorem Represents.rbRemove (h : Represents m key l) (hx : x ∈ l) (hfuel : turns l.length ≤ fuel) :
    ∃ m', m.rbRemove fuel x = some (m', x) ∧ Represents m' key (Tree.remove x l) ∧
      ∀ b ∉ l, m'.field b = m.field b := by
  have hnodup := h.nodup
  obtain ⟨xs, hs, hp⟩ := h
  obtain ⟨m', n, hrun, hs'⟩ := hs.rbRemove (hp.mem_iff.mpr hx)
    (show turns xs.length ≤ fuel by rwa [hp.length_eq])
  have herase : l.erase x = Tree.remove x l := hnodup.erase_eq_filter x
  refine ⟨m', hrun, ⟨_, hs'.own, ?_⟩, fun b hb => ?_⟩
  · rw [← herase]
    exact hp.erase x
  · obtain ⟨t, ht, -, -, hlist⟩ := hs'
    have hbx : b ≠ x := fun he => hb (he ▸ hx)
    rw [ht.outside b fun hmem => ?_, Function.update_of_ne hbx]
    have hmem' : b ∈ t.toList := hmem
    rw [hlist] at hmem'
    exact hb (hp.mem_iff.mp (List.mem_of_mem_erase hmem'))

/-! ### Histories -/

/-- What the owner of a tree does with it. -/
inductive Op (α κ : Type) where
  | key (x : α) (k : κ)
  | insert (x : α)
  | remove (x : α)
  | find (x : α)
  | nfind (x : α)
  | min
  | max
  | next (x : α)
  | prev (x : α)

/-- An operation on the pointers, with the node it returns. -/
def Op.onMemory (cmp : (α → κ) → α → α → Int) (fuel : Nat) :
    Op α κ → (α → κ) × Memory α → Option (((α → κ) × Memory α) × Option α)
  | .key x k, (key, m) => some ((Function.update key x k, m), none)
  | .insert x, (key, m) => (m.rbInsert (cmp key) fuel x).map fun r => ((key, r.1), r.2)
  | .remove x, (key, m) => (m.rbRemove fuel x).map fun r => ((key, r.1), some r.2)
  | .find x, (key, m) => (m.rbFind (cmp key) fuel x).map fun r => ((key, m), r)
  | .nfind x, (key, m) => (m.rbNfind (cmp key) fuel x).map fun r => ((key, m), r)
  | .min, (key, m) => (m.rbMin fuel).map fun r => ((key, m), r)
  | .max, (key, m) => (m.rbMax fuel).map fun r => ((key, m), r)
  | .next x, (key, m) => (m.rbNext fuel x).map fun r => ((key, m), r)
  | .prev x, (key, m) => (m.rbPrev fuel x).map fun r => ((key, m), r)

/-- The operation on the list. The key of a linked node is not to be set, and of a node that is
not linked neither its unlinking nor its neighbours are to be asked for. -/
def Op.onList : Op α κ → (α → κ) × List α → Option (((α → κ) × List α) × Option α)
  | .key x k, (key, l) => if x ∈ l then none else some ((Function.update key x k, l), none)
  | .insert x, (key, l) =>
    match Tree.insert key x l with
    | some l' => some ((key, l'), none)
    | none => some ((key, l), Tree.find key (key x) l)
  | .remove x, (key, l) => if x ∈ l then some ((key, Tree.remove x l), some x) else none
  | .find x, (key, l) => some ((key, l), Tree.find key (key x) l)
  | .nfind x, (key, l) => some ((key, l), Tree.nfind key (key x) l)
  | .min, (key, l) => some ((key, l), Tree.min key l)
  | .max, (key, l) => some ((key, l), Tree.max key l)
  | .next x, (key, l) => if x ∈ l then some ((key, l), Tree.next key x l) else none
  | .prev x, (key, l) => if x ∈ l then some ((key, l), Tree.prev key x l) else none

/-- A list of operations, with all they return. -/
def history {σ : Type} (run : Op α κ → σ → Option (σ × Option α)) :
    List (Op α κ) → σ → Option (σ × List (Option α))
  | [], s => some (s, [])
  | op :: ops, s => do
    let (s, out) ← run op s
    let (s, outs) ← history run ops s
    some (s, out :: outs)

variable {cmpOf : (α → κ) → α → α → Int}

/-- One operation on the pointers does what it does on the list. -/
theorem onMemory_refines (hc : ∀ key x, Compares (cmpOf key) key x (key x)) {op : Op α κ} {key' : α → κ}
    {l' : List α} {out : Option α} (h : Represents m key l)
    (hop : op.onList (key, l) = some ((key', l'), out)) (hfuel : turns l.length ≤ fuel) :
    l'.length ≤ l.length + 1 ∧
      ∃ m', op.onMemory cmpOf fuel (key, m) = some ((key', m'), out) ∧ Represents m' key' l' := by
  cases op with
  | key x k =>
    simp only [Op.onList] at hop
    split at hop
    · cases hop
    · rename_i hx
      cases hop
      refine ⟨Nat.le_succ _, m, rfl, h.congr_key fun y hy => Function.update_of_ne ?_ _ _⟩
      exact fun he => hx (he ▸ hy)
  | insert x =>
    rcases h.rbInsert (hc key _) (x := x) hfuel with ⟨hl, a, ha, hk, hrun⟩ | ⟨hl, m', hrun, h', -⟩
    · simp only [Op.onList, hl] at hop
      cases hop
      refine ⟨Nat.le_succ _, m, ?_, h⟩
      rw [← hk, Tree.find_of_mem ha fun b hb hkb => h.eq_of_key hb ha hkb]
      simp [Op.onMemory, hrun]
    · simp only [Op.onList, hl] at hop
      cases hop
      exact ⟨Nat.le_refl _, m', by simp [Op.onMemory, hrun], h'⟩
  | remove x =>
    simp only [Op.onList] at hop
    split at hop
    · rename_i hx
      cases hop
      obtain ⟨m', hrun, h', -⟩ := h.rbRemove hx hfuel
      refine ⟨Nat.le_succ_of_le (List.length_filter_le ..), m', by simp [Op.onMemory, hrun], h'⟩
    · cases hop
  | find x =>
    cases hop
    exact ⟨Nat.le_succ _, m, by simp [Op.onMemory, h.rbFind (hc key _) hfuel], h⟩
  | nfind x =>
    cases hop
    exact ⟨Nat.le_succ _, m, by simp [Op.onMemory, h.rbNfind (hc key _) hfuel], h⟩
  | min =>
    cases hop
    exact ⟨Nat.le_succ _, m, by simp [Op.onMemory, h.rbMin hfuel], h⟩
  | max =>
    cases hop
    exact ⟨Nat.le_succ _, m, by simp [Op.onMemory, h.rbMax hfuel], h⟩
  | next x =>
    simp only [Op.onList] at hop
    split at hop
    · rename_i hx
      cases hop
      exact ⟨Nat.le_succ _, m, by simp [Op.onMemory, (h.neighbours hx hfuel).1], h⟩
    · cases hop
  | prev x =>
    simp only [Op.onList] at hop
    split at hop
    · rename_i hx
      cases hop
      exact ⟨Nat.le_succ _, m, by simp [Op.onMemory, (h.neighbours hx hfuel).2], h⟩
    · cases hop

theorem history_refines_from (hc : ∀ key x, Compares (cmpOf key) key x (key x)) {ops : List (Op α κ)}
    {key' : α → κ} {l' : List α} {outs : List (Option α)} (h : Represents m key l)
    (hops : history Op.onList ops (key, l) = some ((key', l'), outs))
    (hfuel : turns (l.length + ops.length) ≤ fuel) :
    ∃ m', history (Op.onMemory cmpOf fuel) ops (key, m) = some ((key', m'), outs) ∧
      Represents m' key' l' := by
  induction ops generalizing m key l outs with
  | nil =>
    cases hops
    exact ⟨m, rfl, h⟩
  | cons op ops ih =>
    obtain ⟨⟨⟨key₁, l₁⟩, out⟩, hop, hops⟩ := Option.bind_eq_some_iff.mp hops
    obtain ⟨⟨⟨key₂, l₂⟩, outs₂⟩, hrest, hend⟩ := Option.bind_eq_some_iff.mp hops
    cases hend
    simp only [List.length_cons] at hfuel
    obtain ⟨hlen, m₁, hrun, h₁⟩ := onMemory_refines hc h hop
      (show turns l.length ≤ fuel from (turns_mono (by omega)).trans hfuel)
    obtain ⟨m', hrun', h'⟩ := ih h₁ hrest ((turns_mono (by omega)).trans hfuel)
    exact ⟨m', by simp [history, hrun, hrun'], h'⟩

/-- **Any history of a tree from `RB_INIT` on returns, by the pointers, what it returns on the
list of the nodes.** Every loop ends within `2 lg (n + 1) + 1` turns for `n` operations, and what
is left is a red-black tree of the nodes that are left. -/
theorem history_refines (hc : ∀ key x, Compares (cmpOf key) key x (key x)) (m : Memory α) {ops : List (Op α κ)}
    {key' : α → κ} {l' : List α} {outs : List (Option α)}
    (hops : history Op.onList ops (key, []) = some ((key', l'), outs)) :
    ∃ m' t, history (Op.onMemory cmpOf (turns ops.length)) ops (key, m.rbInit) =
        some ((key', m'), outs) ∧
      Holds m'.field m' t ∧ t.IsRedBlack ∧ Ascending key' t.toList ∧ t.toList.Perm l' ∧
      t.height ≤ 2 * Nat.log 2 (l'.length + 1) := by
  obtain ⟨m', hrun, xs, ⟨t, ht, hrb, hasc, rfl⟩, hp⟩ :=
    history_refines_from hc (represents_rbInit m key) hops
      (show turns (0 + ops.length) ≤ turns ops.length by rw [Nat.zero_add])
  exact ⟨m', t, hrun, ht, hrb, hasc, hp, hp.length_eq ▸ hrb.height_le⟩

/-- Three nodes are linked, a fourth is refused, and the least is unlinked, between looks at the
ends and at neighbours. -/
def threeLinked : List (Op Nat Nat) :=
  [.key 1 30, .key 2 10, .key 3 20, .key 4 20, .insert 1, .insert 2, .insert 3, .insert 4, .min, .max,
    .next 3, .prev 3, .remove 2, .find 4, .nfind 2, .prev 3]

/-- Memory nobody has written to. -/
def blankNodes : Memory Nat := ⟨none, fun _ => ⟨none, none, none, .black⟩⟩

theorem threeLinked_refines : ∃ key m' t,
    history (Op.onMemory (fun (key : Nat → Nat) a b => (key a : Int) - key b) (turns 16)) threeLinked
      (fun _ => 0, blankNodes.rbInit) = some ((key, m'),
      [none, none, none, none, none, none, none, some 3, some 2, some 1, some 1, some 2, some 2, some 3,
        some 3, none]) ∧
    Holds m'.field m' t ∧ t.IsRedBlack ∧ Ascending key t.toList ∧ t.toList.Perm [3, 1] ∧ t.height ≤ 2 := by
  have hc : ∀ (key : Nat → Nat) x, Compares (fun a b => (key a : Int) - key b) key x (key x) := by
    intro key x
    constructor <;> intro b <;> omega
  have hops : ∃ key, history Op.onList threeLinked ((fun _ => 0), []) = some ((key, [3, 1]),
      [none, none, none, none, none, none, none, some 3, some 2, some 1, some 1, some 2, some 2, some 3,
        some 3, none]) := ⟨_, rfl⟩
  obtain ⟨key, hops⟩ := hops
  obtain ⟨m', t, hrun, ht, hrb, hasc, hp, hheight⟩ := history_refines hc blankNodes hops
  exact ⟨key, m', t, hrun, ht, hrb, hasc, hp, hheight⟩

end Write

end UthreadRuntime.Rb
