import UthreadRuntime.Trees.Moves

/-! The repairs: `RB_INSERT_COLOR` after a red leaf was hung, `RB_REMOVE_COLOR` after a black
node was cut out. Each turn moves the one fault of the tree up the path or mends it, and keeps
the nodes in their order. -/
namespace UthreadRuntime.Rb
open RedBlack

variable {α : Type} [DecidableEq α] {o : α → Node α}

/-- The root is painted black. -/
theorem Holds.blacken_root {m : Memory α} {t : RBTree α} (h : Holds o m t) (hne : t ≠ .nil) :
    ∃ m', (do let root ← m.rbhRoot; some (m.setColor root .black)) = some m' ∧
      Holds o m' t.blacken := by
  obtain ⟨a, ha⟩ := RBTree.exists_top hne
  have hpaint := At.paint h
  rw [ha] at hpaint
  exact ⟨m.setColor a .black, by rw [h.rbhRoot, ha]; rfl, hpaint⟩

/-- Parent and uncle of the red node `x` are red: they become black and the grandparent red. -/
theorem insertColorTurn_recolor {m : Memory α} {s s' : Side} {X u w : RBTree α} {p g x : α}
    {k : Path α} (h : At o m X (⟨s', .red, p, u⟩ :: ⟨s, .black, g, w⟩ :: k)) (hw : w.color = .red) :
    ∃ m', m.insertColorTurn s g p x = some (m', g) ∧
      At o m' (s.node .red (s'.node .black X p u) g w.blacken) k := by
  have hp := at_cons.mp h
  have hg : m.field g = Node.of s (some p) w.top (Path.top k) .black := by
    simpa [Crumb.fill] using hp.above.1
  have hw' := at_swap.mp hp
  have hred : m.isRed w.top = true := (Memory.isRed_top hw'.linked).mpr hw
  have hparent := (at_swap.mpr hw'.paint).setColor .black
  have hgrand := (at_cons.mp hparent).setColor .red
  refine ⟨_, ?_, hgrand⟩
  simp [Memory.insertColorTurn, hg, hred, Memory.rbSetBlackRed]

/-- The uncle is black and the red node is on the outer side: one turn mends the tree. -/
theorem rotate_outer {m : Memory α} {s : Side} {A B w : RBTree α} {y g : α} {k : Path α}
    (h : At o m (s.node .red A y B) (⟨s, .black, g, w⟩ :: k)) :
    ∃ m', (m.rbSetBlackRed y g).rotate s.other g = some m' ∧
      At o m' A (⟨s, .black, y, s.other.node .red w g B⟩ :: k) := by
  have hgrand := (at_cons.mp (h.setColor .black)).setColor .red
  have hgrand' : At o (m.rbSetBlackRed y g) (s.other.node .red w g (s.other.node .black B y A)) k := by
    cases s <;> exact hgrand
  obtain ⟨m', hrun, hat⟩ := hgrand'.rotate
  refine ⟨m', hrun, at_cons.mpr ?_⟩
  cases s <;> exact hat

/-- The uncle is black: after at most one turn of the parent the red node is on the outer
side. `z` is the node that stays below, red as it was. -/
theorem insertColorTurn_rotate {m : Memory α} {s s' : Side} {X u w : RBTree α} {p g x : α}
    {k : Path α} {n : Nat} (h : At o m X (⟨s', .red, p, u⟩ :: ⟨s, .black, g, w⟩ :: k))
    (htop : X.top = some x) (hred : X.color = .red) (hw : w.color = .black)
    (hX : X.Balanced n) (hu : u.Balanced n) (huc : u.color = .black) :
    ∃ m' A B y z, m.insertColorTurn s g p x = some (m', z) ∧
      At o m' A (⟨s, .black, y, s.other.node .red w g B⟩ :: k) ∧
      (A.top = some z ∧ A.color = .red) ∧ A.Balanced n ∧ (B.Balanced n ∧ B.color = .black) ∧
      (Crumb.fill ⟨s, .black, y, s.other.node .red w g B⟩ A).toList =
        (Crumb.fill ⟨s, .black, g, w⟩ (Crumb.fill ⟨s', .red, p, u⟩ X)).toList := by
  have hfill := at_cons.mp h
  have hp : m.field p = Node.of s' (some x) u.top (some g) .red := by
    simpa [htop] using h.above.1
  have hg : m.field g = Node.of s (some p) w.top (Path.top k) .black := by
    simpa [Crumb.fill] using hfill.above.1
  have hnred : m.isRed w.top = false := by
    rw [Bool.eq_false_iff, ne_eq, Memory.isRed_top (at_swap.mp hfill).linked, hw]
    decide
  rcases Side.eq_or_eq_other s s' with rfl | rfl
  · -- the red node is outer already
    have hne : u.top ≠ some x := by
      intro hux
      obtain ⟨-, -, hout⟩ := nodup_plug.mp h.nodup
      exact hout x (RBTree.top_mem htop)
        (mem_nodes_cons.mpr (.inr (.inl (RBTree.top_mem hux))))
    obtain ⟨m', hrun, hat⟩ := rotate_outer hfill
    refine ⟨m', X, u, p, x, ?_, hat, ⟨htop, hred⟩, hX, ⟨hu, huc⟩, ?_⟩
    · simp [Memory.insertColorTurn, hg, hp, hnred, hne, hrun]
    · cases s' <;> simp [Crumb.fill, Side.node, Side.other]
  · -- the red node is inner: a turn of the parent first
    obtain ⟨l, r, hXs⟩ := RBTree.exists_side s htop
    rw [hred] at hXs
    obtain ⟨⟨hl, hr⟩, hlc, hrc⟩ := RBTree.balanced_red.mp (hXs ▸ hX)
    have hinner : At o m (s.node .red u p (s.node .red l x r)) (⟨s, .black, g, w⟩ :: k) := by
      rw [hXs] at hfill
      cases s <;> exact hfill
    obtain ⟨m₁, hrun₁, hat₁⟩ := hinner.rotate
    obtain ⟨m', hrun, hat⟩ := rotate_outer hat₁
    refine ⟨m', s.node .red u p l, r, x, p, ?_, hat, ⟨by simp, by simp⟩,
      RBTree.balanced_red.mpr ⟨⟨hu, hl⟩, huc, hlc⟩, ⟨hr, hrc⟩, ?_⟩
    · simp [Memory.insertColorTurn, hg, hp, hnred, hrun₁, hrun]
    · rw [hXs]
      cases s <;> simp [Crumb.fill, Side.node, Side.other]

/-- `RB_INSERT_COLOR` ends within the length of the path, and leaves a red-black tree. -/
theorem rbInsertColor_spec {m : Memory α} {X : RBTree α} {x : α} {k : Path α} {n fuel : Nat}
    (h : At o m X k) (htop : X.top = some x) (hred : X.color = .red) (hX : X.Balanced n)
    (hk : Path.Balanced k n) (hfuel : k.length < fuel) :
    ∃ m' T, m.rbInsertColor fuel x = some m' ∧ Holds o m' T ∧ T.IsRedBlack ∧
      T.toList = (plug X k).toList := by
  induction hlen : k.length using Nat.strongRecOn generalizing m X x k n fuel with
  | ind len ih =>
  subst hlen
  obtain ⟨fuel, rfl⟩ : ∃ f, fuel = f + 1 := ⟨fuel - 1, by omega⟩
  obtain ⟨l, r, hXs⟩ := RBTree.exists_side .left htop
  have hx : m.field x = Node.of .left l.top r.top (Path.top k) .red := by
    have hlinked := h.linked
    rw [hXs, hred] at hlinked
    exact hlinked.field
  rcases k with _ | ⟨⟨s', c, p, u⟩, k⟩
  · obtain ⟨m', hrun, hat⟩ := Holds.blacken_root h (by rintro rfl; cases htop)
    refine ⟨m', X.blacken, ?_, hat, hX.isRedBlack_blacken, X.toList_blacken⟩
    simpa [Memory.rbInsertColor, hx, Memory.isRed] using hrun
  have hp : m.field p = Node.of s' (some x) u.top (Path.top k) c := by
    simpa [htop] using h.above.1
  cases c with
  | black =>
    -- the parent is black: the loop is left, and the root is black as it is
    have hT : (plug X (⟨s', .black, p, u⟩ :: k)).IsRedBlack :=
      (isRedBlack_plug_iff _ _).mpr ⟨n, hX, hk, fun _ => rfl⟩
    have hne : plug X (⟨s', .black, p, u⟩ :: k) ≠ .nil := by
      intro hnil
      have hmem : x ∈ (plug X (⟨s', .black, p, u⟩ :: k)).toList :=
        mem_plug.mpr (.inl (RBTree.top_mem htop))
      simp [hnil] at hmem
    obtain ⟨m', hrun, hat⟩ := Holds.blacken_root (holds_plug.mpr h) hne
    rw [RBTree.blacken_eq_self hT.1] at hat
    refine ⟨m', _, ?_, hat, hT, rfl⟩
    simpa [Memory.rbInsertColor, hx, hp, Memory.isRed] using hrun
  | red =>
    obtain ⟨hu, huc, hktop, hk⟩ := Path.balanced_red.mp hk
    rcases k with _ | ⟨⟨s, c, g, w⟩, k⟩
    · exact hktop.elim
    obtain rfl : c = .black := hktop
    obtain ⟨hw, hk⟩ := Path.balanced_black.mp hk
    have hside : (if (m.field g).rbeLeft = some p then Side.left else .right) = s := by
      have := (at_cons.mp h).side_eq (.inl (by cases s' <;> simp [Crumb.fill, Side.node]))
      simpa [Crumb.fill] using this
    have hloop : m.rbInsertColor (fuel + 1) x =
        (m.insertColorTurn s g p x).bind fun r => r.1.rbInsertColor fuel r.2 := by
      simp [Memory.rbInsertColor, hx, hp, Memory.isRed, hside]
    rw [hloop]
    simp only [List.length_cons] at hfuel ih
    cases hwc : w.color with
    | red =>
      obtain ⟨m', hturn, hat⟩ := insertColorTurn_recolor (x := x) h hwc
      have hbal : (s.node .red (s'.node .black X p u) g w.blacken).Balanced (n + 1) :=
        RBTree.balanced_red.mpr ⟨⟨RBTree.balanced_black_succ.mpr ⟨hX, hu⟩,
          hw.blacken_of_red hwc⟩, by simp, by simp⟩
      obtain ⟨m'', T, hrun, hT, hrb, hlist⟩ := ih k.length (by omega) hat (RBTree.top_side ..)
        (RBTree.color_side ..) hbal hk (show k.length < fuel by omega) rfl
      refine ⟨m'', T, by simp [hturn, hrun], hT, hrb, ?_⟩
      rw [hlist, plug_cons, plug_cons]
      refine toList_plug_congr k ?_
      cases s <;> cases s' <;> simp [Crumb.fill, Side.node]
    | black =>
      obtain ⟨m', A, B, y, z, hturn, hat, ⟨hAz, hAc⟩, hA, ⟨hB, hBc⟩, hlist⟩ :=
        insertColorTurn_rotate h htop hred hwc hX hu huc
      have hpath : Path.Balanced (⟨s, .black, y, s.other.node .red w g B⟩ :: k) n :=
        Path.balanced_black.mpr ⟨RBTree.balanced_red.mpr ⟨⟨hw, hB⟩, hwc, hBc⟩, hk⟩
      obtain ⟨m'', T, hrun, hT, hrb, hlist'⟩ := ih (k.length + 1) (by omega) hat hAz hAc hA hpath
        (show k.length + 1 < fuel by omega) rfl
      refine ⟨m'', T, by simp [hturn, hrun], hT, hrb, ?_⟩
      rw [hlist', plug_cons, plug_cons, plug_cons]
      exact toList_plug_congr k hlist

/-- The far child of the sibling is red: it becomes black, and a turn gives the short side
the black node it lacks. -/
theorem borrow_spec {m : Memory α} {s : Side} {c : Color} {t near far : RBTree α} {p w : α}
    {k : Path α} (h : At o m t (⟨s, c, p, s.node .black near w far⟩ :: k)) :
    ∃ m', m.borrow s p w = some m' ∧
      At o m' (s.node c (s.node .black t p near) w far.blacken) k := by
  have hp : m.field p = Node.of s t.top (some w) (Path.top k) c := by
    simpa using h.above.1
  have hw := at_swap.mpr ((at_swap.mp h).setColor c)
  have hparent := (at_near.mpr hw).setColor .black
  have hfar := at_far.mp (at_far.mp hparent)
  have hpaint := at_far.mpr (at_far.mpr hfar.paint)
  obtain ⟨m', hrun, hat⟩ := hpaint.rotate
  refine ⟨m', ?_, hat⟩
  have hread : (((m.setColor w c).setColor p .black).field w).child s.other = far.top := by
    simpa using congrArg (·.child s.other) (at_far.mp hparent).linked.field
  simp [Memory.borrow, hp, hread, hrun]

/-- The sibling is black. With black children it becomes red and the fault moves up; otherwise
a red child of it, turned outward if need be, mends the tree. -/
theorem acrossBlack_spec {m : Memory α} {s : Side} {c : Color} {t near far : RBTree α} {p w : α}
    {k : Path α} {n : Nat} (h : At o m t (⟨s, c, p, s.node .black near w far⟩ :: k))
    (ht : t.Balanced n)
    (hk : Path.Balanced (⟨s, c, p, s.node .black near w far⟩ :: k) (n + 1)) :
    (∃ m', m.acrossBlack s p w = some (m', false) ∧ near.color = .black ∧ far.color = .black ∧
      At o m' (s.node c t p (s.node .red near w far)) k) ∨
    ∃ m' Y, m.acrossBlack s p w = some (m', true) ∧ At o m' Y k ∧ (plug Y k).IsRedBlack ∧
      Y.toList = (s.node c t p (s.node .black near w far)).toList := by
  have hw := at_swap.mp h
  have hfield : m.field w = Node.of s near.top far.top (some p) .black := hw.linked.field
  obtain ⟨hnear, hfar⟩ := RBTree.balanced_black_succ.mp hk.1
  have hnearRed := Memory.isRed_top (linked_side.mp hw.linked).2.1
  have hfarRed := Memory.isRed_top (linked_side.mp hw.linked).2.2
  have hboth : (!m.isRed (m.field w).rbeLeft && !m.isRed (m.field w).rbeRight) =
      (!m.isRed near.top && !m.isRed far.top) := by
    rw [hfield]
    cases s
    · rfl
    · exact Bool.and_comm ..
  cases hfc : far.color with
  | red =>
    right
    obtain ⟨m', hrun, hat⟩ := borrow_spec h
    refine ⟨m', _, ?_, hat, isRedBlack_plug_borrow ht hnear hfar hfc hk, ?_⟩
    · have hf : m.isRed far.top = true := hfarRed.mpr hfc
      rw [Memory.acrossBlack, hboth]
      simp [hf, hfield, hrun]
    · cases s <;> simp [Side.node]
  | black =>
    have hf : m.isRed far.top = false := by
      rw [Bool.eq_false_iff, ne_eq, hfarRed, hfc]
      decide
    cases hnc : near.color with
    | black =>
      left
      have hn : m.isRed near.top = false := by
        rw [Bool.eq_false_iff, ne_eq, hnearRed, hnc]
        decide
      refine ⟨m.setColor w .red, ?_, rfl, rfl, at_far.mpr (hw.setColor .red)⟩
      simp [Memory.acrossBlack, hboth, hf, hn]
    | red =>
      right
      have hn : m.isRed near.top = true := hnearRed.mpr hnc
      obtain ⟨b, hb⟩ : ∃ b, near.top = some b := RBTree.exists_top (by rintro rfl; cases hnc)
      obtain ⟨v, u, hsplit⟩ := RBTree.exists_side s hb
      rw [hnc] at hsplit
      obtain ⟨⟨hv, hu⟩, -, huc⟩ := RBTree.balanced_red.mp (hsplit ▸ hnear)
      -- the near child is painted, the sibling made red and turned away
      have hpaint := (at_near.mpr (at_near.mp hw).paint).setColor .red
      have hturn : At o ((m.paint near.top .black).setColor w .red)
          (s.other.node .red far w (s.other.node .black u b v)) (⟨s.other, c, p, t⟩ :: k) := by
        rw [hsplit, RBTree.blacken_side] at hpaint
        rw [hsplit]
        cases s <;> exact hpaint
      obtain ⟨m₁, hrun₁, hat₁⟩ := hturn.rotate
      have hat₂ : At o m₁ t (⟨s, c, p, s.node .black v b (s.other.node .red far w u)⟩ :: k) := by
        rw [at_swap]
        cases s <;> exact hat₁
      obtain ⟨m', hrun, hat⟩ := borrow_spec hat₂
      have hp : (m₁.field p).child s.other = some b := by
        simpa using congrArg (·.child s.other) hat₂.above.1
      have hred : (s.other.node .red far w u).Balanced n :=
        RBTree.balanced_red.mpr ⟨⟨hfar, hu⟩, hfc, huc⟩
      refine ⟨m', _, ?_, hat, isRedBlack_plug_borrow ht hv hred (by simp) hk, ?_⟩
      · rw [Memory.acrossBlack, hboth]
        simp [hn, hf, hfield, hrun₁, hp, hrun]
      · rw [hsplit]
        cases s <;> simp [Side.node, Side.other]

/-- Where a repair stands between two turns: `t` is one black node short at `k`, or red, and
then it is mended by painting it. -/
structure Short (t : RBTree α) (k : Path α) (n : Nat) : Prop where
  black : t.color = .black → t.Balanced n
  red : t.color = .red → t.blacken.Balanced (n + 1)
  path : Path.Balanced k (n + 1)

omit [DecidableEq α] in
theorem Short.of_balanced {t : RBTree α} {k : Path α} {n : Nat} (ht : t.Balanced n)
    (hk : Path.Balanced k (n + 1)) : Short t k n :=
  ⟨fun _ => ht, fun hc => ht.blacken_of_red hc, hk⟩

theorem acrossBlack_turn {m : Memory α} {s : Side} {c : Color} {t u : RBTree α} {p w : α}
    {k : Path α} {n : Nat} (h : At o m t (⟨s, c, p, u⟩ :: k)) (ht : t.Balanced n)
    (hk : Path.Balanced (⟨s, c, p, u⟩ :: k) (n + 1))
    (huw : u.top = some w) (huc : u.color = .black) :
    (∃ m' Y n', m.acrossBlack s p w = some (m', false) ∧ At o m' Y k ∧ Short Y k n' ∧
      (Y.top = some p ∧ Y.color = c) ∧ Y.toList = (Crumb.fill ⟨s, c, p, u⟩ t).toList) ∨
    ∃ m' T, m.acrossBlack s p w = some (m', true) ∧ Holds o m' T ∧ T.IsRedBlack ∧
      T.toList = (plug t (⟨s, c, p, u⟩ :: k)).toList := by
  obtain ⟨near, far, hus⟩ := RBTree.exists_side s huw
  rw [huc] at hus
  subst hus
  rcases acrossBlack_spec h ht hk with ⟨m', hrun, hnc, hfc, hat⟩ | ⟨m', Y, hrun, hat, hrb, hlist⟩
  · left
    obtain ⟨hnear, hfar⟩ := RBTree.balanced_black_succ.mp hk.1
    have hred : (s.node .red near w far).Balanced n :=
      RBTree.balanced_red.mpr ⟨⟨hnear, hfar⟩, hnc, hfc⟩
    have hlist : (s.node c t p (s.node .red near w far)).toList =
        (Crumb.fill ⟨s, c, p, s.node .black near w far⟩ t).toList := by
      cases s <;> simp [Crumb.fill, Side.node]
    have hboth : (s.node .black t p (s.node .red near w far)).Balanced (n + 1) :=
      RBTree.balanced_black_succ.mpr ⟨ht, hred⟩
    cases c with
    | red =>
      obtain ⟨-, -, -, hk⟩ := Path.balanced_red.mp hk
      refine ⟨m', _, n, hrun, hat, ⟨fun hc => ?_, fun _ => ?_, hk⟩, ⟨by simp, by simp⟩, hlist⟩
      · simp at hc
      · simpa using hboth
    | black =>
      obtain ⟨-, hk⟩ := Path.balanced_black.mp hk
      exact ⟨m', _, n + 1, hrun, hat, .of_balanced hboth hk, ⟨by simp, by simp⟩, hlist⟩
  · right
    exact ⟨m', _, hrun, holds_plug.mpr hat, hrb, toList_plug_congr k hlist⟩

/-- A red sibling is turned up first; the new sibling is black. -/
theorem removeColorTurn_red {m : Memory α} {s : Side} {t u v : RBTree α} {p w : α}
    {k : Path α} (h : At o m t (⟨s, .black, p, s.node .red u w v⟩ :: k)) :
    ∃ m', At o m' t (⟨s, .red, p, u⟩ :: ⟨s, .black, w, v⟩ :: k) ∧
      ∀ b, u.top = some b → m.removeColorTurn s p = m'.acrossBlack s p b := by
  have hp : m.field p = Node.of s t.top (some w) (Path.top k) .black := by
    simpa using h.above.1
  have hw : m.field w = Node.of s u.top v.top (some p) .red := (at_swap.mp h).linked.field
  have hblack := at_swap.mpr ((at_swap.mp h).setColor .black)
  obtain ⟨m', hrun, hat⟩ := ((at_near.mpr hblack).setColor .red).rotate
  have hplace := at_near.mp (at_near.mp hat)
  refine ⟨m', hplace, fun b hb => ?_⟩
  have hnew : (m'.field p).child s.other = some b := by
    simpa [hb] using congrArg (·.child s.other) hplace.above.1
  simp [Memory.removeColorTurn, hp, hw, Memory.rbSetBlackRed, hrun, hnew]

/-- A turn of `RB_REMOVE_COLOR`: the fault moves to the parent, or the tree is mended. When
the path does not get shorter, the parent is red and the next turn is the last. -/
theorem removeColorTurn_spec {m : Memory α} {s : Side} {c : Color} {t u : RBTree α} {p : α}
    {k : Path α} {n : Nat} (h : At o m t (⟨s, c, p, u⟩ :: k)) (ht : t.Balanced n)
    (hk : Path.Balanced (⟨s, c, p, u⟩ :: k) (n + 1)) :
    (∃ m' Y j n', m.removeColorTurn s p = some (m', false) ∧ At o m' Y j ∧ Short Y j n' ∧
      Y.top = some p ∧ (j.length = k.length ∨ Y.color = .red) ∧
      (plug Y j).toList = (plug t (⟨s, c, p, u⟩ :: k)).toList) ∨
    ∃ m' T, m.removeColorTurn s p = some (m', true) ∧ Holds o m' T ∧ T.IsRedBlack ∧
      T.toList = (plug t (⟨s, c, p, u⟩ :: k)).toList := by
  obtain ⟨w, huw⟩ := RBTree.exists_top hk.1.ne_nil
  cases huc : u.color with
  | black =>
    have hturn : m.removeColorTurn s p = m.acrossBlack s p w := by
      have hp : (m.field p).child s.other = some w := by
        simpa [huw] using congrArg (·.child s.other) h.above.1
      have hw : (m.field w).rbeColor = .black := by
        obtain ⟨near, far, hus⟩ := RBTree.exists_side s huw
        have hlinked := h.above.2.1
        rw [hus, huc] at hlinked
        simpa using congrArg Node.rbeColor hlinked.field
      simp [Memory.removeColorTurn, hp, hw]
    rw [hturn]
    rcases acrossBlack_turn h ht hk huw huc with ⟨m', Y, n', hrun, hat, hY, ⟨hYp, -⟩, hlist⟩ | hdone
    · exact .inl ⟨m', Y, k, n', hrun, hat, hY, hYp, .inl rfl, toList_plug_congr k hlist⟩
    · exact .inr hdone
  | red =>
    obtain ⟨near, far, hus⟩ := RBTree.exists_side s huw
    rw [huc] at hus
    subst hus
    cases c with
    | red => exact absurd hk.2.1 (by simp)
    | black =>
      obtain ⟨hbal, hk⟩ := Path.balanced_black.mp hk
      obtain ⟨⟨hnear, hfar⟩, hnc, -⟩ := RBTree.balanced_red.mp hbal
      obtain ⟨b, hb⟩ := RBTree.exists_top hnear.ne_nil
      obtain ⟨m₁, hat₁, hturn⟩ := removeColorTurn_red h
      rw [hturn b hb]
      have hk₁ : Path.Balanced (⟨s, .red, p, near⟩ :: ⟨s, .black, w, far⟩ :: k) (n + 1) :=
        Path.balanced_red.mpr ⟨hnear, hnc, rfl, Path.balanced_black.mpr ⟨hfar, hk⟩⟩
      have hlist₁ : (plug t (⟨s, .red, p, near⟩ :: ⟨s, .black, w, far⟩ :: k)).toList =
          (plug t (⟨s, .black, p, s.node .red near w far⟩ :: k)).toList := by
        rw [plug_cons, plug_cons, plug_cons]
        refine toList_plug_congr k ?_
        cases s <;> simp [Crumb.fill, Side.node]
      rcases acrossBlack_turn hat₁ ht hk₁ hb hnc with
        ⟨m', Y, n', hrun, hat, hY, ⟨hYp, hYc⟩, hlist⟩ | ⟨m', T, hrun, hat, hrb, hlist⟩
      · refine .inl ⟨m', Y, _, n', hrun, hat, hY, hYp, .inr hYc, ?_⟩
        rw [← hlist₁, plug_cons (t := t)]
        exact toList_plug_congr _ hlist
      · exact .inr ⟨m', T, hrun, hat, hrb, hlist.trans hlist₁⟩

/-- `RB_REMOVE_COLOR` ends within the length of the path, and leaves a red-black tree. -/
theorem rbRemoveColor_spec {m : Memory α} {t : RBTree α} {k : Path α} {n fuel : Nat}
    (h : At o m t k) (hs : Short t k n) (hfuel : k.length < fuel ∨ t.color = .red ∧ 0 < fuel) :
    ∃ m' T, m.rbRemoveColor fuel (Path.top k) t.top = some m' ∧ Holds o m' T ∧ T.IsRedBlack ∧
      T.toList = (plug t k).toList := by
  induction fuel generalizing m t k n with
  | zero => exact absurd hfuel (by omega)
  | succ fuel ih =>
    have hpaint : Holds o (m.paint t.top .black) (plug t.blacken k) := holds_plug.mpr h.paint
    have hlist : (plug t.blacken k).toList = (plug t k).toList :=
      toList_plug_congr k t.toList_blacken
    cases htc : t.color with
    | red =>
      have hred : m.isRed t.top = true := (Memory.isRed_top h.linked).mpr htc
      refine ⟨_, _, by simp [Memory.rbRemoveColor, hred], hpaint, ?_, hlist⟩
      exact (isRedBlack_plug_iff _ _).mpr ⟨n + 1, hs.red htc, hs.path, fun hc => by simp at hc⟩
    | black =>
      have hnred : m.isRed t.top = false := by
        rw [Bool.eq_false_iff, ne_eq, Memory.isRed_top h.linked, htc]
        decide
      rcases k with _ | ⟨⟨s, c, p, u⟩, k⟩
      · refine ⟨_, _, by simp [Memory.rbRemoveColor, Holds.rbhRoot h], hpaint, ?_, hlist⟩
        exact (hs.black htc).isRedBlack_blacken
      have hroot := h.top_ne_root
      have hside := h.side_eq (.inr hs.path.1.ne_nil)
      have hloop : m.rbRemoveColor (fuel + 1) (some p) t.top =
          (m.removeColorTurn s p).bind fun r =>
            if r.2 then some (r.1.paint r.1.rbhRoot .black)
            else r.1.rbRemoveColor fuel (r.1.field p).rbeParent (some p) := by
        simp only at hside
        simp [Memory.rbRemoveColor, hnred, hroot, hside]
      rw [Path.top_cons, hloop]
      have hfuel : k.length < fuel := by simpa [htc] using hfuel
      rcases removeColorTurn_spec h (hs.black htc) hs.path with
        ⟨m', Y, j, n', hrun, hat, hY, hYp, hlen, hlist'⟩ | ⟨m', T, hrun, hT, hrb, hlist'⟩
      · have hparent : (m'.field p).rbeParent = Path.top j := hat.parent_eq hYp
        obtain ⟨m'', T, hrun', hT, hrb, hlistT⟩ := ih hat hY
          (hlen.imp (fun hj => by omega) fun hc => ⟨hc, by omega⟩)
        refine ⟨m'', T, ?_, hT, hrb, hlistT.trans hlist'⟩
        rw [hYp] at hrun'
        simp [hrun, hparent, hrun']
      · have hblack := At.paint hT
        rw [RBTree.blacken_eq_self hrb.1] at hblack
        refine ⟨_, T, ?_, hblack, hrb, hlist'⟩
        simp [hrun, hT.rbhRoot]

end UthreadRuntime.Rb
