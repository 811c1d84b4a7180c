import UthreadRuntime.Trees.Nodes

/-! A tree laid out in memory, and a place in it.

`At o m t k` says that `m` holds the tree `plug t k`, spoken of at the place of `t`: every
node has the children, the parent and the colour it should, the head or the nearest crumb
points at the root of `t`, and what is in no node of the tree is as in `o`. Moving the place
changes nothing in memory (`at_cons`), so each primitive is described once, at the node it
works on. -/
namespace UthreadRuntime.Rb
open RedBlack

variable {α : Type}

/-- The node of a subtree with `near` on side `s`. -/
def Node.of (s : Side) (near far parent : Option α) (c : Color) : Node α :=
  match s with
  | .left => ⟨near, far, parent, c⟩
  | .right => ⟨far, near, parent, c⟩

section Node
variable (s : Side) (x y p : Option α) (c : Color)

@[simp] theorem Node.child_of : (Node.of s x y p c).child s = x := by cases s <;> rfl
@[simp] theorem Node.child_other_of : (Node.of s x y p c).child s.other = y := by cases s <;> rfl
@[simp] theorem Node.rbeParent_of : (Node.of s x y p c).rbeParent = p := by cases s <;> rfl
@[simp] theorem Node.rbeColor_of : (Node.of s x y p c).rbeColor = c := by cases s <;> rfl

end Node

/-- The nodes of a path and of the trees beside it. -/
def nodes (k : Path α) : List α := Path.before k ++ Path.after k

@[simp] theorem nodes_nil : nodes ([] : Path α) = [] := rfl

theorem mem_nodes_cons {c : Crumb α} {k : Path α} {b : α} :
    b ∈ nodes (c :: k) ↔ b = c.node ∨ b ∈ c.sibling.toList ∨ b ∈ nodes k := by
  cases hs : c.side <;> simp [nodes, Path.before, Path.after, Side.around, hs] <;> tauto

theorem mem_plug {t : RBTree α} {k : Path α} {b : α} :
    b ∈ (plug t k).toList ↔ b ∈ t.toList ∨ b ∈ nodes k := by
  rw [toList_plug, nodes]
  simp only [List.mem_append]
  tauto

theorem nodup_plug {t : RBTree α} {k : Path α} :
    (plug t k).toList.Nodup ↔
      t.toList.Nodup ∧ (nodes k).Nodup ∧ ∀ b ∈ t.toList, b ∉ nodes k := by
  have hperm : (plug t k).toList.Perm (t.toList ++ nodes k) := by
    rw [toList_plug, nodes, ← List.append_assoc]
    exact (List.perm_append_comm).append_right _
  rw [hperm.nodup_iff, List.nodup_append']
  rfl

theorem nodup_side {s : Side} {c : Color} {t u : RBTree α} {a : α} :
    (s.node c t a u).toList.Nodup ↔
      t.toList.Nodup ∧ u.toList.Nodup ∧ a ∉ t.toList ∧ a ∉ u.toList ∧
        ∀ b ∈ t.toList, b ∉ u.toList := by
  cases s <;> simp [Side.node, List.nodup_append'] <;> grind [List.Disjoint]

/-- The tree `t` below the pointer `p` is laid out in `m`. -/
def Linked (m : Memory α) (p : Option α) : RBTree α → Prop
  | .nil => True
  | .node c l a r =>
    m.field a = ⟨l.top, r.top, p, c⟩ ∧ Linked m (some a) l ∧ Linked m (some a) r

theorem linked_side {m : Memory α} {p : Option α} {s : Side} {c : Color} {t u : RBTree α} {a : α} :
    Linked m p (s.node c t a u) ↔
      m.field a = Node.of s t.top u.top p c ∧ Linked m (some a) t ∧ Linked m (some a) u := by
  cases s
  · rfl
  · simp only [Side.node, Linked, Node.of]
    tauto

/-- The path `k` is laid out in `m`, with the pointer `hole` where the place is. -/
def Above (m : Memory α) (hole : Option α) : Path α → Prop
  | [] => m.rbhRoot = hole
  | c :: k =>
    m.field c.node = Node.of c.side hole c.sibling.top (Path.top k) c.color ∧
      Linked m (some c.node) c.sibling ∧ Above m (some c.node) k

structure At (o : α → Node α) (m : Memory α) (t : RBTree α) (k : Path α) : Prop where
  linked : Linked m (Path.top k) t
  above : Above m t.top k
  nodup : (plug t k).toList.Nodup
  outside : ∀ b ∉ (plug t k).toList, m.field b = o b

/-- The memory holds the tree. -/
abbrev Holds (o : α → Node α) (m : Memory α) (t : RBTree α) : Prop := At o m t []

variable {o : α → Node α}

/-- Only what is in no node of the tree is compared with `o`. -/
theorem At.outside_congr {o' : α → Node α} {m : Memory α} {t : RBTree α} {k : Path α}
    (h : At o m t k) (ho : ∀ b ∉ (plug t k).toList, o b = o' b) : At o' m t k :=
  ⟨h.linked, h.above, h.nodup, fun b hb => (h.outside b hb).trans (ho b hb)⟩

theorem at_cons {m : Memory α} {t : RBTree α} {c : Crumb α} {k : Path α} :
    At o m t (c :: k) ↔ At o m (c.fill t) k := by
  constructor
  · intro h
    obtain ⟨hc, hs, hk⟩ := h.above
    exact ⟨linked_side.mpr ⟨hc, h.linked, hs⟩, by simpa [Crumb.fill] using hk, h.nodup, h.outside⟩
  · intro h
    obtain ⟨hc, ht, hs⟩ := linked_side.mp h.linked
    exact ⟨ht, ⟨hc, hs, by simpa [Crumb.fill] using h.above⟩, h.nodup, h.outside⟩

/-- From a node down to its child on side `s`. -/
theorem at_near {m : Memory α} {t u : RBTree α} {s : Side} {c : Color} {a : α} {k : Path α} :
    At o m (s.node c t a u) k ↔ At o m t (⟨s, c, a, u⟩ :: k) := by
  rw [at_cons]
  rfl

/-- From a node down to its other child. -/
theorem at_far {m : Memory α} {t u : RBTree α} {s : Side} {c : Color} {a : α} {k : Path α} :
    At o m (s.node c t a u) k ↔ At o m u (⟨s.other, c, a, t⟩ :: k) := by
  rw [at_cons]
  cases s <;> rfl

/-- From a place to the one across. -/
theorem at_swap {m : Memory α} {t u : RBTree α} {s : Side} {c : Color} {a : α} {k : Path α} :
    At o m t (⟨s, c, a, u⟩ :: k) ↔ At o m u (⟨s.other, c, a, t⟩ :: k) := at_near.symm.trans at_far

theorem at_append {m : Memory α} {t : RBTree α} {j k : Path α} :
    At o m t (j ++ k) ↔ At o m (plug t j) k := by
  induction j generalizing t with
  | nil => rfl
  | cons c j ih =>
    rw [List.cons_append, at_cons]
    exact ih

theorem holds_plug {m : Memory α} {t : RBTree α} {k : Path α} :
    Holds o m (plug t k) ↔ At o m t k := by
  rw [Holds, ← at_append, List.append_nil]

theorem Holds.rbhRoot {m : Memory α} {t : RBTree α} (h : Holds o m t) : m.rbhRoot = t.top := h.above

/-- Below a crumb no node is the root. -/
theorem top_plug_mem (t : RBTree α) (q : Crumb α) (k : Path α) :
    ∃ b ∈ nodes (q :: k), (plug t (q :: k)).top = some b := by
  induction k generalizing t q with
  | nil => exact ⟨q.node, mem_nodes_cons.mpr (.inl rfl), by simp [Crumb.fill]⟩
  | cons q' k ih =>
    obtain ⟨b, hb, htop⟩ := ih (q.fill t) q'
    exact ⟨b, mem_nodes_cons.mpr (.inr (.inr hb)), htop⟩

theorem At.top_ne_root {m : Memory α} {t : RBTree α} {q : Crumb α} {k : Path α}
    (h : At o m t (q :: k)) : t.top ≠ m.rbhRoot := by
  obtain ⟨b, hb, htop⟩ := top_plug_mem t q k
  rw [(holds_plug.mpr h).rbhRoot, htop]
  exact fun ht => (nodup_plug.mp h.nodup).2.2 b (RBTree.top_mem ht) hb

/-- Two memories that agree on the nodes of a tree hold it alike. -/
theorem Linked.frame {m m' : Memory α} {p : Option α} {t : RBTree α} (h : Linked m p t)
    (hf : ∀ b ∈ t.toList, m'.field b = m.field b) : Linked m' p t := by
  induction t generalizing p with
  | nil => trivial
  | node c l a r ihl ihr =>
    obtain ⟨ha, hl, hr⟩ := h
    exact ⟨(hf a (by simp)).trans ha, ihl hl fun b hb => hf b (by simp [hb]),
      ihr hr fun b hb => hf b (by simp [hb])⟩

theorem Above.frame {m m' : Memory α} {x : Option α} {k : Path α} (h : Above m x k)
    (hr : m'.rbhRoot = m.rbhRoot) (hf : ∀ b ∈ nodes k, m'.field b = m.field b) :
    Above m' x k := by
  induction k generalizing x with
  | nil => exact hr.trans h
  | cons c k ih =>
    obtain ⟨hc, hs, hk⟩ := h
    exact ⟨(hf c.node (mem_nodes_cons.mpr (.inl rfl))).trans hc,
      hs.frame fun b hb => hf b (mem_nodes_cons.mpr (.inr (.inl hb))),
      ih hk fun b hb => hf b (mem_nodes_cons.mpr (.inr (.inr hb)))⟩

theorem Linked.field {m : Memory α} {p : Option α} {s : Side} {c : Color} {t u : RBTree α} {a : α}
    (h : Linked m p (s.node c t a u)) : m.field a = Node.of s t.top u.top p c :=
  (linked_side.mp h).1

theorem At.parent_eq {m : Memory α} {t : RBTree α} {a : α} {k : Path α} (h : At o m t k)
    (htop : t.top = some a) : (m.field a).rbeParent = Path.top k := by
  obtain ⟨l, r, hts⟩ := RBTree.exists_side .left htop
  have hlinked := h.linked
  rw [hts] at hlinked
  exact congrArg Node.rbeParent hlinked.field

/-- Which child of its parent a place is can be told from the parent's left pointer, unless
both children are missing. -/
theorem At.side_eq [DecidableEq α] {m : Memory α} {t : RBTree α} {q : Crumb α} {k : Path α}
    (h : At o m t (q :: k)) (hne : t ≠ .nil ∨ q.sibling ≠ .nil) :
    (if (m.field q.node).rbeLeft = t.top then Side.left else .right) = q.side := by
  obtain ⟨s, c, a, u⟩ := q
  have ha : m.field a = Node.of s t.top u.top (Path.top k) c := h.above.1
  cases s with
  | left => exact if_pos (congrArg Node.rbeLeft ha)
  | right =>
    refine if_neg fun htop => ?_
    have hleft : u.top = t.top := (congrArg Node.rbeLeft ha).symm.trans htop
    obtain ⟨-, -, hout⟩ := nodup_plug.mp h.nodup
    cases ht : t.top with
    | none =>
      rw [ht, RBTree.top_eq_none] at hleft
      exact hne.elim (fun hn => hn (RBTree.top_eq_none.mp ht)) fun hn => hn hleft
    | some b =>
      rw [ht] at hleft
      exact hout b (RBTree.top_mem ht) (mem_nodes_cons.mpr (.inr (.inl (RBTree.top_mem hleft))))

/-- What a place's node is apart from. -/
theorem At.apart {m : Memory α} {s : Side} {c : Color} {t u : RBTree α} {a : α} {k : Path α}
    (h : At o m (s.node c t a u) k) :
    a ∉ t.toList ∧ a ∉ u.toList ∧ a ∉ nodes k := by
  obtain ⟨hside, -, hout⟩ := nodup_plug.mp h.nodup
  obtain ⟨-, -, ht, hu, -⟩ := nodup_side.mp hside
  exact ⟨ht, hu, hout a (RBTree.mem_side.mpr (.inr (.inl rfl)))⟩

namespace Memory

theorem isRed_top {m : Memory α} {p : Option α} {t : RBTree α} (h : Linked m p t) :
    m.isRed t.top = true ↔ t.color = .red := by
  cases t with
  | nil => simp [isRed]
  | node c l a r =>
    obtain ⟨ha, -⟩ := h
    simp [isRed, ha]

variable [DecidableEq α] (m : Memory α)

section Fields
variable {m} {s : Side} {x y p : Option α} {c : Color} {a b : α}

theorem field_setChild (h : m.field a = Node.of s x y p c) (z : Option α) :
    (m.setChild a s z).field a = Node.of s z y p c := by
  cases s <;> simp [setChild, update, h, Node.of, Node.setChild]

theorem field_setChild_other (h : m.field a = Node.of s x y p c) (z : Option α) :
    (m.setChild a s.other z).field a = Node.of s x z p c := by
  cases s <;> simp [setChild, update, h, Node.of, Node.setChild, Side.other]

theorem field_setParent (h : m.field a = Node.of s x y p c) (q : Option α) :
    (m.setParent a q).field a = Node.of s x y q c := by
  cases s <;> simp [setParent, update, h, Node.of]

theorem field_setColor (h : m.field a = Node.of s x y p c) (d : Color) :
    (m.setColor a d).field a = Node.of s x y p d := by
  cases s <;> simp [setColor, update, h, Node.of]

theorem field_update_of_ne (h : b ≠ a) (n : Node α) : (m.update a n).field b = m.field b :=
  Function.update_of_ne h _ _

theorem field_setChild_of_ne (h : b ≠ a) (z : Option α) :
    (m.setChild a s z).field b = m.field b := field_update_of_ne h _

theorem field_setParent_of_ne (h : b ≠ a) (q : Option α) :
    (m.setParent a q).field b = m.field b := field_update_of_ne h _

theorem field_setColor_of_ne (h : b ≠ a) (d : Color) :
    (m.setColor a d).field b = m.field b := field_update_of_ne h _

end Fields

theorem field_adopt {b : α} {t : RBTree α} (q : Option α) (hb : b ∉ t.toList) :
    (m.adopt t.top q).field b = m.field b := by
  cases ht : t.top with
  | none => rfl
  | some a =>
    have hne : b ≠ a := fun he => hb (he ▸ RBTree.top_mem ht)
    exact field_setParent_of_ne hne q

@[simp] theorem rbhRoot_setChild (a : α) (s : Side) (p : Option α) :
    (m.setChild a s p).rbhRoot = m.rbhRoot := rfl

@[simp] theorem rbhRoot_setParent (a : α) (p : Option α) :
    (m.setParent a p).rbhRoot = m.rbhRoot := rfl

@[simp] theorem rbhRoot_setColor (a : α) (c : Color) :
    (m.setColor a c).rbhRoot = m.rbhRoot := rfl

@[simp] theorem rbhRoot_adopt (p q : Option α) : (m.adopt p q).rbhRoot = m.rbhRoot := by
  cases p <;> rfl

theorem field_relink {b e : α} {k : Path α} (y : Option α) (hb : b ∉ nodes k) :
    (m.relink (Path.top k) e y).field b = m.field b := by
  cases k with
  | nil => rfl
  | cons c k =>
    have hne : b ≠ c.node := fun he => hb (mem_nodes_cons.mpr (.inl he))
    simp only [relink, Path.top_cons]
    split <;> exact field_setChild_of_ne hne y

end Memory

variable [DecidableEq α]

/-- A subtree is given a parent. -/
theorem Linked.adopt {m : Memory α} {p : Option α} {t : RBTree α} (h : Linked m p t)
    (hn : t.toList.Nodup) (q : Option α) : Linked (m.adopt t.top q) q t := by
  cases t with
  | nil => trivial
  | node c l a r =>
    obtain ⟨ha, hl, hr⟩ := h
    obtain ⟨-, -, hal, har, -⟩ := nodup_side (s := .left).mp hn
    refine ⟨?_, hl.frame fun b hb => ?_, hr.frame fun b hb => ?_⟩
    · exact Memory.field_setParent (s := .left) ha q
    · have hne : b ≠ a := fun he => hal (he ▸ hb)
      exact Memory.field_setParent_of_ne hne q
    · have hne : b ≠ a := fun he => har (he ▸ hb)
      exact Memory.field_setParent_of_ne hne q

/-- The pointer above a place is set. -/
theorem Above.relink {m : Memory α} {e : α} {k : Path α} (h : Above m (some e) k)
    (hk : (nodes k).Nodup) (he : e ∉ nodes k) (y : Option α) :
    Above (m.relink (Path.top k) e y) y k := by
  cases k with
  | nil => rfl
  | cons c k =>
    obtain ⟨s, d, a, u⟩ := c
    obtain ⟨ha, hu, hk'⟩ := h
    have hfresh : a ∉ u.toList ∧ a ∉ nodes k := by
      have hnd : (plug (Crumb.fill ⟨s, d, a, u⟩ .nil) k).toList.Nodup := by
        rw [← plug_cons, nodup_plug]
        exact ⟨by simp, hk, by simp⟩
      obtain ⟨hside, -, hout⟩ := nodup_plug.mp hnd
      exact ⟨(nodup_side.mp hside).2.2.2.1, hout a (RBTree.mem_side.mpr (.inr (.inl rfl)))⟩
    have hset : m.relink (some a) e y = m.setChild a s y := by
      cases s with
      | left => simp [Memory.relink, show (m.field a).rbeLeft = some e from congrArg _ ha]
      | right =>
        have hne : u.top ≠ some e := fun htop =>
          he (mem_nodes_cons.mpr (.inr (.inl (RBTree.top_mem htop))))
        simp [Memory.relink, show (m.field a).rbeLeft = u.top from congrArg _ ha, hne]
    rw [Path.top_cons, hset]
    refine ⟨?_, hu.frame fun b hb => ?_, hk'.frame rfl fun b hb => ?_⟩
    · exact Memory.field_setChild ha y
    · have hne : b ≠ a := fun he => hfresh.1 (he ▸ hb)
      exact Memory.field_setChild_of_ne hne y
    · have hne : b ≠ a := fun he => hfresh.2 (he ▸ hb)
      exact Memory.field_setChild_of_ne hne y

theorem At.setColor {m : Memory α} {s : Side} {c : Color} {t u : RBTree α} {a : α} {k : Path α}
    (h : At o m (s.node c t a u) k) (d : Color) : At o (m.setColor a d) (s.node d t a u) k := by
  obtain ⟨hat, hau, hak⟩ := h.apart
  obtain ⟨ha, ht, hu⟩ := linked_side.mp h.linked
  have hne : ∀ l : List α, a ∉ l → ∀ b ∈ l, (m.setColor a d).field b = m.field b := by
    intro l hl b hb
    have hne : b ≠ a := fun he => hl (he ▸ hb)
    exact Memory.field_setColor_of_ne hne d
  have hlist : (plug (s.node d t a u) k).toList = (plug (s.node c t a u) k).toList :=
    toList_plug_congr k (by cases s <;> rfl)
  refine ⟨linked_side.mpr ⟨?_, ht.frame (hne _ hat), hu.frame (hne _ hau)⟩, ?_, ?_, fun b hb => ?_⟩
  · exact Memory.field_setColor ha d
  · have habove := h.above.frame (show (m.setColor a d).rbhRoot = m.rbhRoot from rfl) (hne _ hak)
    simpa using habove
  · rw [hlist]
    exact h.nodup
  · rw [hlist] at hb
    have hba : b ≠ a := fun he => hb (mem_plug.mpr (.inl (RBTree.mem_side.mpr (.inr (.inl he)))))
    exact (Memory.field_setColor_of_ne hba d).trans (h.outside b hb)

/-- The root of the place is painted, if there is one. -/
theorem At.paint {m : Memory α} {t : RBTree α} {k : Path α} (h : At o m t k) :
    At o (m.paint t.top .black) t.blacken k := by
  cases t with
  | nil => exact h
  | node c l a r => exact At.setColor (s := .left) h .black

end UthreadRuntime.Rb
