import UthreadRuntime.Trees.Histories

/-! Walks through a tree in memory.

The macros of the `RB_FOREACH` family are one loop: from a node it goes on by `RB_NEXT`, or by
`RB_PREV`. The plain ones fetch the next node after the body, the `_SAFE` and `_FROM` ones before
it, so that their body may unlink the node it is given. -/
namespace UthreadRuntime.Rb
open RedBlack

variable {α κ : Type} [LinearOrder κ] {o : α → Node α} {key : α → κ} {m : Memory α} {xs pre post : List α}
  {x : α} {fuel n : Nat} {s : Side} {drop : α → Bool}

/-- The nodes in the order in which a walk to side `s` meets them. -/
def along : Side → List α → List α
  | .right, xs => xs
  | .left, xs => xs.reverse

@[simp] theorem length_along (s : Side) (xs : List α) : (along s xs).length = xs.length := by
  cases s <;> simp [along]

@[simp] theorem mem_along (s : Side) (xs : List α) : x ∈ along s xs ↔ x ∈ xs := by
  cases s <;> simp [along]

theorem filter_along (s : Side) (f : α → Bool) (xs : List α) : along s (xs.filter f) = (along s xs).filter f := by
  cases s <;> simp [along]

/-- `RB_NEXT` and `RB_PREV` go to the next node of the walk. -/
theorem Stores.neighbour [DecidableEq α] (h : Stores o m key xs) (hxs : along s xs = pre ++ x :: post)
    (hfuel : turns xs.length ≤ fuel) : m.neighbour s fuel x = some post.head? := by
  cases s with
  | right =>
    obtain rfl : xs = pre ++ x :: post := hxs
    exact (h.neighbours hfuel).1
  | left =>
    obtain rfl : xs = post.reverse ++ x :: pre.reverse := by
      have hrev := congrArg List.reverse (show xs.reverse = pre ++ x :: post from hxs)
      simpa using hrev
    rw [← List.getLast?_reverse]
    exact (h.neighbours hfuel).2

/-- `RB_MIN` and `RB_MAX` are the nodes that the walks begin at. -/
def Memory.first (s : Side) (fuel : Nat) (m : Memory α) : Option (Option α) :=
  match s with
  | .right => m.rbMin fuel
  | .left => m.rbMax fuel

theorem Stores.first (h : Stores o m key xs) (s : Side) (hfuel : turns xs.length ≤ fuel) :
    m.first s fuel = some (along s xs).head? := by
  cases s with
  | right => exact h.rbMin hfuel
  | left =>
    rw [Memory.first, h.rbMax hfuel, along, List.head?_reverse]

theorem Stores.outside (h : Stores o m key xs) {b : α} (hb : b ∉ xs) : m.field b = o b := by
  obtain ⟨t, ht, -, -, rfl⟩ := h
  exact ht.outside b hb

section Walk
variable [DecidableEq α]

/-- The loop of `RB_FOREACH` and `RB_FOREACH_REVERSE` from `x` on: the nodes it meets. -/
def foreachFrom (s : Side) (fuel : Nat) : Nat → Memory α → Option α → Option (List α)
  | 0, _, _ => none
  | _ + 1, _, none => some []
  | n + 1, m, some x => do
    let next ← m.neighbour s fuel x
    let rest ← foreachFrom s fuel n m next
    some (x :: rest)

/-- `RB_FOREACH` -/
def rbForeach (fuel n : Nat) (m : Memory α) : Option (List α) := do
  let x ← m.rbMin fuel
  foreachFrom .right fuel n m x

/-- `RB_FOREACH_REVERSE` -/
def rbForeachReverse (fuel n : Nat) (m : Memory α) : Option (List α) := do
  let x ← m.rbMax fuel
  foreachFrom .left fuel n m x

/-- The loop that fetches the next node first. Its body unlinks the nodes that `drop` picks. -/
def foreachSafeFrom (s : Side) (drop : α → Bool) (fuel : Nat) :
    Nat → Memory α → Option α → Option (Memory α × List α)
  | 0, _, _ => none
  | _ + 1, m, none => some (m, [])
  | n + 1, m, some x => do
    let y ← m.neighbour s fuel x
    let m ← if drop x then (m.rbRemove fuel x).map Prod.fst else some m
    let (m, rest) ← foreachSafeFrom s drop fuel n m y
    some (m, x :: rest)

/-- `RB_FOREACH_SAFE` -/
def rbForeachSafe (drop : α → Bool) (fuel n : Nat) (m : Memory α) : Option (Memory α × List α) := do
  let x ← m.rbMin fuel
  foreachSafeFrom .right drop fuel n m x

/-- `RB_FOREACH_REVERSE_SAFE` -/
def rbForeachReverseSafe (drop : α → Bool) (fuel n : Nat) (m : Memory α) : Option (Memory α × List α) := do
  let x ← m.rbMax fuel
  foreachSafeFrom .left drop fuel n m x

/-- `RB_FOREACH_FROM` -/
def rbForeachFrom (drop : α → Bool) (fuel n : Nat) (m : Memory α) (y : Option α) :
    Option (Memory α × List α) :=
  foreachSafeFrom .right drop fuel n m y

/-- `RB_FOREACH_REVERSE_FROM` -/
def rbForeachReverseFrom (drop : α → Bool) (fuel n : Nat) (m : Memory α) (y : Option α) :
    Option (Memory α × List α) :=
  foreachSafeFrom .left drop fuel n m y

theorem foreachFrom_eq (h : Stores o m key xs) (hfuel : turns xs.length ≤ fuel)
    (hxs : along s xs = pre ++ post) (hn : post.length < n) :
    foreachFrom s fuel n m post.head? = some post := by
  induction post generalizing pre n with
  | nil =>
    obtain ⟨n, rfl⟩ : ∃ i, n = i + 1 := ⟨n - 1, by omega⟩
    rfl
  | cons x post ih =>
    obtain ⟨n, rfl⟩ : ∃ i, n = i + 1 := ⟨n - 1, by omega⟩
    have hnext := h.neighbour hxs hfuel
    rw [List.append_cons] at hxs
    simp [foreachFrom, hnext, ih hxs (by simpa using hn)]

/-- What is unlinked is what the walk was given: the rest of it stays as it was. -/
theorem foreachSafeFrom_eq (drop : α → Bool) (h : Stores o m key xs) (hfuel : turns xs.length ≤ fuel)
    (hxs : along s xs = pre ++ post) (hn : post.length < n) :
    ∃ o' m' ys, foreachSafeFrom s drop fuel n m post.head? = some (m', post) ∧ Stores o' m' key ys ∧
      (along s ys = pre ++ post.filter fun x => !drop x) ∧ ∀ b ∉ xs, o' b = o b := by
  induction post generalizing pre n m o xs with
  | nil =>
    obtain ⟨n, rfl⟩ : ∃ i, n = i + 1 := ⟨n - 1, by omega⟩
    exact ⟨o, m, xs, rfl, h, by simpa using hxs, fun _ _ => rfl⟩
  | cons x post ih =>
    obtain ⟨n, rfl⟩ : ∃ i, n = i + 1 := ⟨n - 1, by omega⟩
    have hnext := h.neighbour hxs hfuel
    have hn : post.length < n := by simpa using hn
    cases hd : drop x with
    | true =>
      have hx : x ∈ xs := by
        rw [← mem_along s, hxs]
        simp
      obtain ⟨m₁, node, hrun, h₁⟩ := h.rbRemove hx hfuel
      have hnodup : (pre ++ x :: post).Nodup := by
        rw [← hxs]
        cases s with
        | right => exact h.ascending.nodup
        | left => exact List.nodup_reverse.mpr h.ascending.nodup
      rw [h.ascending.nodup.erase_eq_filter] at h₁
      have hrest : along s (xs.filter fun y => y != x) = pre ++ post := by
        rw [filter_along, hxs, ← hnodup.erase_eq_filter, List.erase_append_right, List.erase_cons_head]
        rw [List.nodup_append'] at hnodup
        exact fun hp => hnodup.2.2 hp (List.mem_cons_self ..)
      have hless : turns (xs.filter fun y => y != x).length ≤ fuel :=
        (turns_mono (List.length_filter_le ..)).trans hfuel
      obtain ⟨o', m', ys, hgo, hs', hys, hframe⟩ := ih h₁ hless hrest hn
      refine ⟨o', m', ys, ?_, hs', by simpa [hd] using hys, fun b hb => ?_⟩
      · simp [foreachSafeFrom, hnext, hd, hrun, hgo]
      · rw [hframe b fun hmem => hb (List.mem_of_mem_filter hmem), Function.update_of_ne]
        exact fun he => hb (he ▸ hx)
    | false =>
      rw [List.append_cons] at hxs
      obtain ⟨o', m', ys, hgo, hs', hys, hframe⟩ := ih h hfuel hxs hn
      refine ⟨o', m', ys, ?_, hs', by simpa [hd] using hys, hframe⟩
      simp [foreachSafeFrom, hnext, hd, hgo]

/-- The tree has lost the nodes of `xs` that `drop` picks, and no node outside was written. -/
def Leaves (drop : α → Bool) (key : α → κ) (m : Memory α) (xs : List α) (m' : Memory α) : Prop :=
  Stores m'.field m' key (xs.filter fun x => !drop x) ∧ ∀ b ∉ xs, m'.field b = m.field b

/-- A walk from a node on, in either direction. -/
theorem foreachSafeFrom_leaves (drop : α → Bool) (h : Stores m.field m key xs) (hfuel : turns xs.length ≤ fuel)
    (hxs : along s xs = pre ++ post) (hn : post.length < n) :
    ∃ m', foreachSafeFrom s drop fuel n m post.head? = some (m', post) ∧
      Leaves (fun x => decide (x ∈ post) && drop x) key m xs m' := by
  obtain ⟨o', m', ys, hrun, hs', hys, hframe⟩ := foreachSafeFrom_eq drop h hfuel hxs hn
  have hnodup : (pre ++ post).Nodup := by
    rw [← hxs]
    cases s with
    | right => exact h.ascending.nodup
    | left => exact List.nodup_reverse.mpr h.ascending.nodup
  have hkeep : ys = xs.filter fun x => !(decide (x ∈ post) && drop x) := by
    have hsame : along s ys = along s (xs.filter fun x => !(decide (x ∈ post) && drop x)) := by
      rw [hys, filter_along, hxs, List.filter_append]
      congr 1
      · refine (List.filter_eq_self.mpr fun x hx => ?_).symm
        have hout : x ∉ post := (List.nodup_append'.mp hnodup).2.2 hx
        simp [hout]
      · exact List.filter_congr fun x hx => by simp [hx]
    cases s with
    | right => exact hsame
    | left => exact List.reverse_injective hsame
  refine ⟨m', hrun, hkeep ▸ hs'.own, fun b hb => ?_⟩
  rw [hs'.outside fun hmem => hb ?_, hframe b hb]
  rw [hkeep] at hmem
  exact List.mem_of_mem_filter hmem

/-- **The walks meet every node once, in order**, up and down; so do those whose body unlinks
nodes as it is given them, and the tree is left with the others. -/
theorem foreach_meets_all (h : Stores m.field m key xs) (drop : α → Bool) (hfuel : turns xs.length ≤ fuel)
    (hn : xs.length < n) :
    rbForeach fuel n m = some xs ∧ rbForeachReverse fuel n m = some xs.reverse ∧
    (∃ m', rbForeachSafe drop fuel n m = some (m', xs) ∧ Leaves drop key m xs m') ∧
    ∃ m', rbForeachReverseSafe drop fuel n m = some (m', xs.reverse) ∧ Leaves drop key m xs m' := by
  have hmin := h.first .right hfuel
  have hmax := h.first .left hfuel
  have hlen : ∀ s, (along s xs).length < n := fun s => by rwa [length_along]
  have hplain : ∀ s, foreachFrom s fuel n m (along s xs).head? = some (along s xs) := fun s =>
    foreachFrom_eq h hfuel (List.nil_append _).symm (hlen s)
  have hsafe : ∀ s, ∃ m', foreachSafeFrom s drop fuel n m (along s xs).head? = some (m', along s xs) ∧
      Leaves drop key m xs m' := by
    intro s
    obtain ⟨m', hrun, hkept, hframe⟩ :=
      foreachSafeFrom_leaves drop h hfuel (List.nil_append _).symm (hlen s)
    have hall : (xs.filter fun x => !(decide (x ∈ along s xs) && drop x)) = xs.filter fun x => !drop x :=
      List.filter_congr fun x hx => by simp [hx]
    exact ⟨m', hrun, hall ▸ hkept, hframe⟩
  obtain ⟨m₁, hup, hleft₁⟩ := hsafe .right
  obtain ⟨m₂, hdown, hleft₂⟩ := hsafe .left
  refine ⟨?_, ?_, ⟨m₁, ?_, hleft₁⟩, m₂, ?_, hleft₂⟩
  · exact (congrArg (· >>= foreachFrom .right fuel n m) hmin).trans (hplain .right)
  · exact (congrArg (· >>= foreachFrom .left fuel n m) hmax).trans (hplain .left)
  · exact (congrArg (· >>= foreachSafeFrom .right drop fuel n m) hmin).trans hup
  · exact (congrArg (· >>= foreachSafeFrom .left drop fuel n m) hmax).trans hdown

/-- A tree of three, the second of them its root. -/
def threeNodes : Memory Nat where
  rbhRoot := some 2
  field a :=
    if a = 2 then ⟨some 1, some 3, none, .black⟩
    else if a = 1 ∨ a = 3 then ⟨none, none, some 2, .red⟩
    else ⟨none, none, none, .red⟩

theorem threeNodes_stores : Stores threeNodes.field threeNodes id [1, 2, 3] := by
  refine ⟨.node .black (.node .red .nil 1 .nil) 2 (.node .red .nil 3 .nil), ⟨?_, rfl, by decide, fun _ _ => rfl⟩,
    ⟨rfl, 1, 0, rfl, ?_, ?_⟩, ?_, rfl⟩
  · exact ⟨rfl, ⟨rfl, trivial, trivial⟩, rfl, trivial, trivial⟩
  · exact ⟨⟨rfl, rfl⟩, rfl, rfl⟩
  · exact ⟨⟨rfl, rfl⟩, rfl, rfl⟩
  · show List.Pairwise (fun a b : Nat => a < b) [1, 2, 3]
    decide

theorem threeNodes_walks : ∃ m m', rbForeach 5 4 threeNodes = some [1, 2, 3] ∧
    rbForeachReverse 5 4 threeNodes = some [3, 2, 1] ∧
    rbForeachSafe (fun a => a == 2) 5 4 threeNodes = some (m, [1, 2, 3]) ∧ Stores m.field m id [1, 3] ∧
    rbForeachReverseSafe (fun a => a == 2) 5 4 threeNodes = some (m', [3, 2, 1]) ∧ Stores m'.field m' id [1, 3] := by
  obtain ⟨hup, hdown, ⟨m, hsafe, hleft⟩, m', hback, hleft'⟩ :=
    foreach_meets_all threeNodes_stores (fun a => a == 2) (show turns 3 ≤ 5 by decide) (show 3 < 4 by decide)
  exact ⟨m, m', hup, hdown, hsafe, hleft.1, hback, hleft'.1⟩

omit [DecidableEq α] in
/-- The nodes from a key on are the end of the list. -/
theorem Ascending.filter_eq (h : Ascending key xs) (k : κ) :
    (xs.filter fun x => decide (k ≤ key x)) = xs.dropWhile fun x => !decide (k ≤ key x) := by
  induction xs with
  | nil => rfl
  | cons x xs ih =>
    obtain ⟨hx, hxs⟩ := List.pairwise_cons.mp h
    by_cases hk : k ≤ key x
    · rw [List.filter_eq_self.mpr]
      · simp [hk]
      · intro y hy
        rcases List.mem_cons.mp hy with rfl | hy
        · simpa using hk
        · simpa using hk.trans (hx y hy).le
    · rw [List.filter_cons_of_neg (by simpa using hk), ih hxs]
      simp [hk]

/-- **A walk from what `RB_NFIND` returns** meets the nodes whose keys are not below the one that
was searched for, in ascending order, and unlinks of these those that its body picks. -/
theorem foreach_from_nfind {β : Type} {cmp : β → α → Int} {y : β} {k : κ} (hc : Compares cmp key y k)
    (h : Stores m.field m key xs) (drop : α → Bool) (hfuel : turns xs.length ≤ fuel) (hn : xs.length < n) :
    ∃ r m', m.rbNfind cmp fuel y = some r ∧
      rbForeachFrom drop fuel n m r = some (m', xs.filter fun x => decide (k ≤ key x)) ∧
      Leaves (fun x => decide (k ≤ key x) && drop x) key m xs m' := by
  have hend := h.ascending.filter_eq k
  have hxs : along .right xs = (xs.takeWhile fun x => !decide (k ≤ key x)) ++
      xs.filter fun x => decide (k ≤ key x) := by
    rw [hend, List.takeWhile_append_dropWhile]
    rfl
  obtain ⟨m', hrun, hkept, hframe⟩ := foreachSafeFrom_leaves drop h hfuel hxs
    ((List.length_filter_le ..).trans_lt hn)
  have hsame : (xs.filter fun x => !(decide (x ∈ xs.filter fun x => decide (k ≤ key x)) && drop x)) =
      xs.filter fun x => !(decide (k ≤ key x) && drop x) :=
    List.filter_congr fun x hx => by simp [hx]
  refine ⟨_, m', h.rbNfind hc hfuel, ?_, hsame ▸ hkept, hframe⟩
  rw [← List.head?_filter]
  exact hrun

theorem threeNodes_from_two : ∃ r m', threeNodes.rbNfind (fun (k a : Nat) => (k : Int) - a) 5 2 = some r ∧
    rbForeachFrom (fun _ => true) 5 4 threeNodes r = some (m', [2, 3]) ∧ Stores m'.field m' id [1] := by
  have hc : Compares (fun (k a : Nat) => (k : Int) - a) id 2 2 := by
    constructor <;> intro b <;> simp only [id_eq] <;> omega
  obtain ⟨r, m', hfind, hwalk, hleft⟩ :=
    foreach_from_nfind hc threeNodes_stores (fun _ => true) (show turns 3 ≤ 5 by decide) (show 3 < 4 by decide)
  exact ⟨r, m', hfind, hwalk, hleft.1⟩

end Walk

end UthreadRuntime.Rb
