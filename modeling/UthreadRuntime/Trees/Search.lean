import UthreadRuntime.Trees.Linked

/-! Reading a tree: what `RB_FIND`, `RB_NFIND`, `RB_MINMAX`, `RB_NEXT` and `RB_PREV` return,
in terms of the list of the nodes in their order (`Stores`). The tree being red-black, none
takes more turns than twice the logarithm of its size. -/
namespace UthreadRuntime.Rb
open RedBlack

variable {α κ : Type} [LinearOrder κ] {o : α → Node α}

/-- `cmp x` compares the key `k`, that of `x`, with the keys of the nodes. -/
structure Compares {β : Type} (cmp : β → α → Int) (key : α → κ) (x : β) (k : κ) : Prop where
  neg : ∀ b, cmp x b < 0 ↔ k < key b
  pos : ∀ b, 0 < cmp x b ↔ key b < k

theorem Compares.eq_of {β : Type} {cmp : β → α → Int} {key : α → κ} {x : β} {k : κ}
    (h : Compares cmp key x k) {b : α} (hn : ¬ cmp x b < 0) (hp : ¬ 0 < cmp x b) : k = key b :=
  le_antisymm (not_lt.mp fun hlt => hp ((h.pos b).mpr hlt))
    (not_lt.mp fun hlt => hn ((h.neg b).mpr hlt))

/-- The nodes have ascending keys. -/
def Ascending (key : α → κ) (xs : List α) : Prop := xs.Pairwise fun a b => key a < key b

/-- The memory holds a red-black tree whose nodes are `xs`, in ascending order of their keys. -/
def Stores (o : α → Node α) (m : Memory α) (key : α → κ) (xs : List α) : Prop :=
  ∃ t, Holds o m t ∧ t.IsRedBlack ∧ Ascending key t.toList ∧ t.toList = xs

/-- As many turns as any loop of a tree of `n` nodes needs. -/
def turns (n : Nat) : Nat := 2 * Nat.log 2 (n + 1) + 1

theorem turns_mono {n n' : Nat} (h : n ≤ n') : turns n ≤ turns n' := by
  have := Nat.log_mono_right (b := 2) (Nat.add_le_add_right h 1)
  simp only [turns]
  omega

theorem height_lt_turns {t : RBTree α} (h : t.IsRedBlack) : t.height < turns t.toList.length := by
  have := h.height_le
  simp only [turns]
  omega

theorem Ascending.split {key : α → κ} {xs ys : List α} {a : α}
    (h : Ascending key (xs ++ a :: ys)) :
    Ascending key xs ∧ Ascending key ys ∧ (∀ b ∈ xs, key b < key a) ∧ ∀ b ∈ ys, key a < key b := by
  obtain ⟨hx, hy, hxy⟩ := List.pairwise_append.mp h
  obtain ⟨ha, hy⟩ := List.pairwise_cons.mp hy
  exact ⟨hx, hy, fun b hb => hxy b hb a (List.mem_cons_self ..), ha⟩

/-- Keys tell nodes apart. -/
theorem Ascending.eq_of_key {key : α → κ} {xs : List α} (h : Ascending key xs) {a b : α}
    (ha : a ∈ xs) (hb : b ∈ xs) (hk : key a = key b) : a = b := by
  obtain ⟨pre, post, rfl⟩ := List.append_of_mem ha
  obtain ⟨-, -, hpre, hpost⟩ := h.split
  rcases List.mem_append.mp hb with hb | hb
  · exact absurd hk (hpre b hb).ne'
  · rcases List.mem_cons.mp hb with rfl | hb
    · rfl
    · exact absurd hk (hpost b hb).ne

theorem Ascending.nodup {key : α → κ} {xs : List α} (h : Ascending key xs) : xs.Nodup :=
  h.imp fun hlt he => absurd (congrArg key he) hlt.ne

theorem find?_eq_none_of {xs : List α} {f : α → Bool} (h : ∀ b ∈ xs, f b = false) :
    xs.find? f = none :=
  List.find?_eq_none.mpr fun b hb => by simp [h b hb]

section Find
variable {β : Type} {cmp : β → α → Int} {key : α → κ} {m : Memory α} {p : Option α}
  {t : RBTree α} {x : β} {y : κ} {fuel : Nat}

theorem findFrom_eq (hc : Compares cmp key x y) (hl : Linked m p t) (ht : Ascending key t.toList)
    (hfuel : t.height < fuel) :
    m.findFrom cmp fuel x t.top = some (t.toList.find? fun b => decide (key b = y)) := by
  induction t generalizing p fuel with
  | nil =>
    obtain ⟨fuel, rfl⟩ : ∃ f, fuel = f + 1 := ⟨fuel - 1, by omega⟩
    rfl
  | node c l a r ihl ihr =>
    obtain ⟨fuel, rfl⟩ : ∃ f, fuel = f + 1 := ⟨fuel - 1, by omega⟩
    obtain ⟨ha, hll, hlr⟩ := hl
    obtain ⟨hsl, hsr, hbelow, habove⟩ := ht.split
    simp only [RBTree.height] at hfuel
    simp only [RBTree.top_node, Memory.findFrom, ha, RBTree.toList_node, List.find?_append]
    split
    · rename_i hlt
      have hxa := (hc.neg a).mp hlt
      have hright : r.toList.find? (fun b => decide (key b = y)) = none :=
        find?_eq_none_of fun b hb => by simpa using (hxa.trans (habove b hb)).ne'
      rw [ihl hll hsl (by omega), List.find?_cons_of_neg (by simpa using hxa.ne'), hright,
        Option.or_none]
    · split
      · rename_i hgt
        have hax := (hc.pos a).mp hgt
        have hleft : l.toList.find? (fun b => decide (key b = y)) = none :=
          find?_eq_none_of fun b hb => by simpa using ((hbelow b hb).trans hax).ne
        rw [ihr hlr hsr (by omega), List.find?_cons_of_neg (by simpa using hax.ne), hleft,
          Option.none_or]
      · rename_i hn hp
        have hxa : y = key a := hc.eq_of hn hp
        have hleft : l.toList.find? (fun b => decide (key b = y)) = none :=
          find?_eq_none_of fun b hb => by simpa [hxa] using (hbelow b hb).ne
        rw [hleft, List.find?_cons_of_pos (by simp [hxa]), Option.none_or]

theorem nfindFrom_eq (hc : Compares cmp key x y) (hl : Linked m p t) (ht : Ascending key t.toList)
    (hfuel : t.height < fuel) (res : Option α) :
    m.nfindFrom cmp fuel x t.top res =
      some ((t.toList.find? fun b => decide (y ≤ key b)).or res) := by
  induction t generalizing p fuel res with
  | nil =>
    obtain ⟨fuel, rfl⟩ : ∃ f, fuel = f + 1 := ⟨fuel - 1, by omega⟩
    rfl
  | node c l a r ihl ihr =>
    obtain ⟨fuel, rfl⟩ : ∃ f, fuel = f + 1 := ⟨fuel - 1, by omega⟩
    obtain ⟨ha, hll, hlr⟩ := hl
    obtain ⟨hsl, hsr, hbelow, habove⟩ := ht.split
    simp only [RBTree.height] at hfuel
    simp only [RBTree.top_node, Memory.nfindFrom, ha, RBTree.toList_node, List.find?_append]
    split
    · rename_i hlt
      have hxa := (hc.neg a).mp hlt
      rw [ihl hll hsl (by omega), List.find?_cons_of_pos (by simpa using hxa.le), Option.or_assoc]
      rfl
    · split
      · rename_i hgt
        have hax := (hc.pos a).mp hgt
        have hleft : l.toList.find? (fun b => decide (y ≤ key b)) = none :=
          find?_eq_none_of fun b hb => by simpa using (hbelow b hb).trans hax
        rw [ihr hlr hsr (by omega), List.find?_cons_of_neg (by simpa using hax), hleft,
          Option.none_or]
      · rename_i hn hp
        have hxa : y = key a := hc.eq_of hn hp
        have hleft : l.toList.find? (fun b => decide (y ≤ key b)) = none :=
          find?_eq_none_of fun b hb => by simpa [hxa] using hbelow b hb
        rw [hleft, List.find?_cons_of_pos (by simp [hxa])]
        rfl

theorem minMaxFrom_eq (val : Int) (hl : Linked m p t) (hfuel : t.height < fuel)
    (parent : Option α) :
    m.minMaxFrom val fuel t.top parent =
      some ((if val < 0 then t.toList.head? else t.toList.getLast?).or parent) := by
  induction t generalizing p fuel parent with
  | nil =>
    obtain ⟨fuel, rfl⟩ : ∃ f, fuel = f + 1 := ⟨fuel - 1, by omega⟩
    simp [Memory.minMaxFrom]
  | node c l a r ihl ihr =>
    obtain ⟨fuel, rfl⟩ : ∃ f, fuel = f + 1 := ⟨fuel - 1, by omega⟩
    obtain ⟨ha, hll, hlr⟩ := hl
    simp only [RBTree.height] at hfuel
    simp only [RBTree.top_node, Memory.minMaxFrom, ha, RBTree.toList_node]
    split
    · rw [ihl hll (by omega)]
      rename_i hval
      simp [hval, List.head?_append]
    · rw [ihr hlr (by omega)]
      rename_i hval
      simp [hval, List.getLast?_append, List.getLast?_cons]

end Find

section Walk
variable [DecidableEq α] {m : Memory α} {p : Option α} {s : Side} {t u : RBTree α} {a : α}
  {k : Path α} {fuel : Nat}

omit [DecidableEq α] in
/-- The walk down one side stops at a node that lacks that child, with only crumbs of that
side above it. -/
theorem farthest_spec (hl : Linked m p t) (htop : t.top = some a) (hfuel : t.height ≤ fuel) :
    ∃ b c v j, m.farthest s fuel a = some b ∧ t = plug (s.node c .nil b v) j ∧
      ∀ q ∈ j, q.side = s := by
  induction t generalizing p a fuel with
  | nil => cases htop
  | node c l b r ihl ihr =>
    obtain rfl : b = a := Option.some.inj htop
    suffices hside : ∀ near far, RBTree.node c l b r = s.node c near b far →
        (∀ {p : Option α} {a : α} {fuel : Nat}, Linked m p near → near.top = some a →
          near.height ≤ fuel → ∃ b c v j, m.farthest s fuel a = some b ∧
            near = plug (s.node c .nil b v) j ∧ ∀ q ∈ j, q.side = s) →
        ∃ b' c' v j, m.farthest s fuel b = some b' ∧
          RBTree.node c l b r = plug (s.node c' .nil b' v) j ∧ ∀ q ∈ j, q.side = s by
      cases s with
      | left => exact hside l r rfl ihl
      | right => exact hside r l rfl ihr
    intro near far hnode ih
    rw [hnode] at hl hfuel ⊢
    rw [RBTree.height_side] at hfuel
    obtain ⟨fuel, rfl⟩ : ∃ f, fuel = f + 1 := ⟨fuel - 1, by omega⟩
    have hb : (m.field b).child s = near.top := by simp [hl.field]
    cases hnear : near.top with
    | none =>
      rw [RBTree.top_eq_none] at hnear
      subst hnear
      exact ⟨b, c, far, [], by simp [Memory.farthest, hb], rfl, by simp⟩
    | some a =>
      obtain ⟨b', c', v, j, hrun, hplug, hj⟩ :=
        ih (linked_side.mp hl).2.1 hnear (show near.height ≤ fuel by omega)
      refine ⟨b', c', v, j ++ [⟨s, c, b, far⟩], ?_, ?_, ?_⟩
      · simp [Memory.farthest, hb, hnear, hrun]
      · rw [plug_append, ← hplug]
        rfl
      · intro q hq
        rcases List.mem_append.mp hq with hq | hq
        · exact hj q hq
        · rw [List.mem_singleton.mp hq]

/-- What lies next to the subtree `t` of a place on side `s`: its first node or the first after
it, its last node or the last before it. -/
def beyond (s : Side) (t : RBTree α) (k : Path α) : Option α :=
  match s with
  | .right => (t.toList ++ Path.after k).head?
  | .left => (Path.before k ++ t.toList).getLast?

omit [DecidableEq α] in
theorem At.child_eq_iff {q : Crumb α} (h : At o m t (q :: k)) (htop : t.top = some a) (s : Side) :
    (m.field q.node).child s = some a ↔ q.side = s := by
  obtain ⟨s', c, b, u⟩ := q
  have hb : m.field b = Node.of s' (some a) u.top (Path.top k) c := by simpa [htop] using h.above.1
  rcases Side.eq_or_eq_other s' s with rfl | rfl
  · simp [hb]
  · have hne : u.top ≠ some a := fun hu =>
      (nodup_plug.mp h.nodup).2.2 a (RBTree.top_mem htop)
        (mem_nodes_cons.mpr (.inr (.inl (RBTree.top_mem hu))))
    simp [hb, hne]

theorem climb_spec (h : At o m t k) (htop : t.top = some a) (hfuel : k.length < fuel) :
    m.climb s fuel a = some (beyond s .nil k) := by
  induction k generalizing t a fuel with
  | nil =>
    obtain ⟨fuel, rfl⟩ : ∃ f, fuel = f + 1 := ⟨fuel - 1, by omega⟩
    have ha : (m.field a).rbeParent = none := h.parent_eq htop
    cases s <;> simp [Memory.climb, ha, beyond]
  | cons q k ih =>
    obtain ⟨fuel, rfl⟩ : ∃ f, fuel = f + 1 := ⟨fuel - 1, by omega⟩
    have ha : (m.field a).rbeParent = some q.node := h.parent_eq htop
    have hchild := h.child_eq_iff htop s
    by_cases hq : q.side = s
    · simp only [Memory.climb, ha, hchild.mpr hq, if_true]
      rw [ih (at_cons.mp h) (by simp [Crumb.fill]) (by simpa using hfuel)]
      cases s <;> simp [beyond, Path.before, Path.after, Side.around, hq]
    · have hne : ¬ (m.field q.node).child s = some a := fun he => hq (hchild.mp he)
      simp only [Memory.climb, ha, if_neg hne]
      cases s <;> cases hs : q.side <;> simp_all [beyond, Path.before, Path.after, Side.around]

theorem neighbour_spec {c : Color} (h : At o m (s.node c t a u) k) (hfuel : t.height ≤ fuel)
    (hfuel' : k.length < fuel) : m.neighbour s fuel a = some (beyond s t k) := by
  have ha : m.field a = Node.of s t.top u.top (Path.top k) c := h.linked.field
  cases htop : t.top with
  | some b =>
    obtain ⟨b', c', v, j, hrun, hplug, hj⟩ :=
      farthest_spec (s := s.other) (linked_side.mp h.linked).2.1 htop hfuel
    have hbeyond : beyond s t k = some b' := by
      rw [hplug]
      cases s with
      | left => simp [beyond, toList_plug, Path.after_eq_nil hj, Side.node, Side.other]
      | right => simp [beyond, toList_plug, Path.before_eq_nil hj, Side.node, Side.other]
    simp [Memory.neighbour, ha, htop, hrun, hbeyond]
  | none =>
    rw [RBTree.top_eq_none] at htop
    subst htop
    have hclimb := climb_spec (s := s) h (RBTree.top_side ..) hfuel'
    rcases k with _ | ⟨q, k⟩
    · simp [Memory.neighbour, ha, hclimb]
    · have hchild := h.child_eq_iff (RBTree.top_side ..) s.other
      simp only [Memory.neighbour, ha, Node.child_of, RBTree.top_nil, Node.rbeParent_of,
        Path.top_cons, hchild]
      split
      · rename_i hq
        cases s <;> simp_all [beyond, Path.before, Path.after, Side.around, Side.other]
      · exact hclimb

end Walk

section Stored
variable {β : Type} [DecidableEq α] {cmp : β → α → Int} {key : α → κ} {m : Memory α} {xs : List α}
  {x : α} {fuel : Nat}

omit [DecidableEq α] in
theorem Stores.ascending (h : Stores o m key xs) : Ascending key xs := by
  obtain ⟨t, -, -, hasc, rfl⟩ := h
  exact hasc

omit [DecidableEq α] in
theorem Stores.rbEmpty (h : Stores o m key xs) : m.rbEmpty = true ↔ xs = [] := by
  obtain ⟨t, ht, -, -, rfl⟩ := h
  simp [Memory.rbEmpty, ht.rbhRoot, RBTree.top_eq_none, RBTree.toList_eq_nil]

omit [DecidableEq α] in
/-- Only the keys of the nodes in the tree matter. -/
theorem Stores.congr_key {key' : α → κ} (h : Stores o m key xs) (hk : ∀ x ∈ xs, key' x = key x) :
    Stores o m key' xs := by
  obtain ⟨t, ht, hrb, hasc, rfl⟩ := h
  refine ⟨t, ht, hrb, hasc.imp_of_mem fun ha hb hlt => ?_, rfl⟩
  rw [hk _ ha, hk _ hb]
  exact hlt

omit [DecidableEq α] in
/-- `RB_FIND` returns the node with the key that is searched for. -/
theorem Stores.rbFind {y : β} {k : κ} (hc : Compares cmp key y k) (h : Stores o m key xs)
    (hfuel : turns xs.length ≤ fuel) :
    m.rbFind cmp fuel y = some (xs.find? fun b => decide (key b = k)) := by
  obtain ⟨t, ht, hrb, hasc, rfl⟩ := h
  have hheight := height_lt_turns hrb
  rw [Memory.rbFind, ht.rbhRoot]
  exact findFrom_eq hc ht.linked hasc (by omega)

omit [DecidableEq α] in
/-- `RB_NFIND` returns the first node whose key is not below the one searched for. -/
theorem Stores.rbNfind {y : β} {k : κ} (hc : Compares cmp key y k) (h : Stores o m key xs)
    (hfuel : turns xs.length ≤ fuel) :
    m.rbNfind cmp fuel y = some (xs.find? fun b => decide (k ≤ key b)) := by
  obtain ⟨t, ht, hrb, hasc, rfl⟩ := h
  have hheight := height_lt_turns hrb
  rw [Memory.rbNfind, ht.rbhRoot, nfindFrom_eq hc ht.linked hasc (by omega), Option.or_none]

omit [DecidableEq α] in
theorem Stores.rbMin (h : Stores o m key xs) (hfuel : turns xs.length ≤ fuel) :
    m.rbMin fuel = some xs.head? := by
  obtain ⟨t, ht, hrb, hasc, rfl⟩ := h
  have hheight := height_lt_turns hrb
  rw [Memory.rbMin, Memory.rbMinMax, ht.rbhRoot, minMaxFrom_eq _ ht.linked (by omega)]
  simp [Memory.rbNegInf]

omit [DecidableEq α] in
theorem Stores.rbMax (h : Stores o m key xs) (hfuel : turns xs.length ≤ fuel) :
    m.rbMax fuel = some xs.getLast? := by
  obtain ⟨t, ht, hrb, hasc, rfl⟩ := h
  have hheight := height_lt_turns hrb
  rw [Memory.rbMax, Memory.rbMinMax, ht.rbhRoot, minMaxFrom_eq _ ht.linked (by omega)]
  simp [Memory.rbInf]

/-- `RB_NEXT` and `RB_PREV` step along the order of the nodes. -/
theorem Stores.neighbours {pre post : List α} (h : Stores o m key (pre ++ x :: post))
    (hfuel : turns (pre ++ x :: post).length ≤ fuel) :
    m.rbNext fuel x = some post.head? ∧ m.rbPrev fuel x = some pre.getLast? := by
  obtain ⟨t, ht, hrb, hasc, hlist⟩ := h
  have hheight := height_lt_turns hrb
  rw [hlist] at hheight
  obtain ⟨c, l, r, k, rfl⟩ := exists_plug (t := t) (a := x) (by simp [hlist])
  have hplace := holds_plug.mp ht
  have hlen := length_le_height (.node c l x r) k
  simp only [RBTree.height] at hlen
  -- the node occurs once, so what is around it is what is around its place
  have hsplit : Path.before k ++ l.toList = pre ∧ r.toList ++ Path.after k = post := by
    have hnodup := hasc.nodup
    rw [hlist, List.nodup_append'] at hnodup
    obtain ⟨-, hpost, hdisj⟩ := hnodup
    have hlist' : (Path.before k ++ l.toList) ++ x :: (r.toList ++ Path.after k) =
        pre ++ x :: post := by
      rw [← hlist, toList_plug]
      simp
    have hx : x ∉ pre := fun hx => hdisj hx (List.mem_cons_self ..)
    have hx' : x ∉ post := (List.nodup_cons.mp hpost).1
    obtain ⟨hpre, -, hpost⟩ := (List.append_cons_inj_of_notMem hx hx').mp hlist'.symm
    exact ⟨hpre.symm, hpost.symm⟩
  have hnext := neighbour_spec (s := .right) hplace (show r.height ≤ fuel by omega) (by omega)
  have hprev := neighbour_spec (s := .left) hplace (show l.height ≤ fuel by omega) (by omega)
  simp only [beyond] at hnext hprev
  rw [hsplit.1] at hprev
  rw [hsplit.2] at hnext
  exact ⟨hnext, hprev⟩

end Stored

end UthreadRuntime.Rb
