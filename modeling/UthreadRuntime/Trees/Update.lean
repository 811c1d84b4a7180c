import UthreadRuntime.Trees.Recolor
import UthreadRuntime.Trees.Search

/-! Writing a tree: `RB_INSERT` links a node in its order or returns the one with its key, and
`RB_REMOVE` unlinks a node, whatever its place. Both end within the bound for any loop, follow
no null pointer, and leave a red-black tree. -/
namespace UthreadRuntime.Rb
open RedBlack

variable {α κ : Type} [LinearOrder κ] [DecidableEq α] {o : α → Node α} {cmp : α → α → Int}
  {key : α → κ} {m : Memory α} {t : RBTree α} {k : Path α} {xs : List α} {x : α} {fuel : Nat}

/-- The key of `x` is where the place `k` is: above the keys before it, below those after it,
and `comp` says which child of its parent the place is. -/
structure Aims (key : α → κ) (x : α) (k : Path α) (comp : Int) : Prop where
  below : ∀ b ∈ Path.before k, key b < key x
  above : ∀ b ∈ Path.after k, key x < key b
  side : ∀ q j, k = q :: j → (comp < 0 ↔ q.side = .left)

omit [DecidableEq α] in
theorem insertPoint_spec (hc : Compares cmp key x (key x)) {comp : Int} (h : At o m t k)
    (hasc : Ascending key (plug t k).toList) (haim : Aims key x k comp) (hfuel : t.height < fuel) :
    (∃ a ∈ t.toList, key a = key x ∧
      m.insertPoint cmp fuel x t.top (Path.top k) comp = some (.inl a)) ∨
    ∃ j comp', m.insertPoint cmp fuel x t.top (Path.top k) comp = some (.inr (Path.top j, comp')) ∧
      plug .nil j = plug t k ∧ Aims key x j comp' := by
  induction t generalizing k comp fuel with
  | nil =>
    obtain ⟨fuel, rfl⟩ : ∃ f, fuel = f + 1 := ⟨fuel - 1, by omega⟩
    exact .inr ⟨k, comp, rfl, rfl, haim⟩
  | node c l a r ihl ihr =>
    obtain ⟨fuel, rfl⟩ : ∃ f, fuel = f + 1 := ⟨fuel - 1, by omega⟩
    simp only [RBTree.height] at hfuel
    have ha : m.field a = ⟨l.top, r.top, Path.top k, c⟩ := h.linked.1
    have hnode : Ascending key (l.toList ++ a :: r.toList) := by
      rw [toList_plug] at hasc
      exact (List.pairwise_append.mp (List.pairwise_append.mp hasc).1).2.1
    obtain ⟨-, -, hl, hr⟩ := hnode.split
    simp only [RBTree.top_node, Memory.insertPoint, ha]
    split
    · rename_i hlt
      have hxa := (hc.neg a).mp hlt
      have haim' : Aims key x (⟨.left, c, a, r⟩ :: k) (cmp x a) := by
        refine ⟨fun b hb => haim.below b (by simpa [Path.before, Side.around] using hb),
          fun b hb => ?_, fun q j hq => ?_⟩
        · simp only [Path.after, Side.around, List.cons_append, List.mem_cons, List.mem_append] at hb
          rcases hb with rfl | hb | hb
          · exact hxa
          · exact hxa.trans (hr b hb)
          · exact haim.above b hb
        · obtain ⟨rfl, -⟩ := List.cons.inj hq
          simpa using hlt
      rcases ihl ((at_cons (c := ⟨.left, c, a, r⟩)).mpr h) hasc haim'
        (show l.height < fuel by omega) with
        ⟨b, hb, hkey, hrun⟩ | ⟨j, comp', hrun, hplug, hj⟩
      · exact .inl ⟨b, by simp [hb], hkey, hrun⟩
      · exact .inr ⟨j, comp', hrun, hplug, hj⟩
    · split
      · rename_i hge hgt
        have hax := (hc.pos a).mp hgt
        have haim' : Aims key x (⟨.right, c, a, l⟩ :: k) (cmp x a) := by
          refine ⟨fun b hb => ?_,
            fun b hb => haim.above b (by simpa [Path.after, Side.around] using hb),
            fun q j hq => ?_⟩
          · simp only [Path.before, Side.around, List.mem_append, List.mem_singleton] at hb
            rcases hb with hb | hb | rfl
            · exact haim.below b hb
            · exact (hl b hb).trans hax
            · exact hax
          · obtain ⟨rfl, -⟩ := List.cons.inj hq
            simpa using hge
        rcases ihr ((at_cons (c := ⟨.right, c, a, l⟩)).mpr h) hasc haim'
          (show r.height < fuel by omega) with
          ⟨b, hb, hkey, hrun⟩ | ⟨j, comp', hrun, hplug, hj⟩
        · exact .inl ⟨b, by simp [hb], hkey, hrun⟩
        · exact .inr ⟨j, comp', hrun, hplug, hj⟩
      · rename_i hge hle
        exact .inl ⟨a, by simp, (hc.eq_of hge hle).symm, rfl⟩

/-- A red leaf where the keys ask for it, and its repair. -/
theorem insert_at {j : Path α} {comp : Int} (h : At o m .nil j) (hrb : (plug .nil j).IsRedBlack)
    (hx : x ∉ nodes j) (haim : Aims key x j comp) (hfuel : j.length < fuel) :
    ∃ m' t', (match Path.top j with
        | some p => if comp < 0 then (m.rbSet x (some p)).setChild p .left (some x)
          else (m.rbSet x (some p)).setChild p .right (some x)
        | none => (m.rbSet x none).setRoot (some x)).rbInsertColor fuel x = some m' ∧
      Holds o m' t' ∧ t'.IsRedBlack ∧ t'.toList = Path.before j ++ x :: Path.after j := by
  obtain ⟨n, hn, hj, -⟩ := (isRedBlack_plug_iff _ _).mp hrb
  obtain rfl := RBTree.balanced_nil.mp hn
  have hleaf : (RBTree.node .red .nil x .nil).Balanced 0 := ⟨⟨rfl, rfl⟩, rfl, rfl⟩
  have hat : At o (match Path.top j with
      | some p => if comp < 0 then (m.rbSet x (some p)).setChild p .left (some x)
        else (m.rbSet x (some p)).setChild p .right (some x)
      | none => (m.rbSet x none).setRoot (some x)) (.node .red .nil x .nil) j := by
    rcases j with _ | ⟨q, j⟩
    · exact Holds.leaf h x
    · have hgraft := (at_cons.mp h).graft (a := x) (s := q.side) (by
        rw [← Crumb.fill, ← plug_cons, mem_plug]
        simpa using hx)
      have hside := haim.side q j rfl
      cases hs : q.side with
      | left =>
        rw [hs] at hgraft hside
        simp only [Path.top_cons, if_pos (hside.mpr rfl)]
        rw [at_cons, Crumb.fill, hs]
        exact hgraft
      | right =>
        rw [hs] at hgraft hside
        simp only [Path.top_cons, if_neg (fun hlt => by simpa using hside.mp hlt)]
        rw [at_cons, Crumb.fill, hs]
        exact hgraft
  obtain ⟨m', t', hrun, ht', hrb', hlist⟩ := rbInsertColor_spec hat rfl rfl hleaf hj hfuel
  exact ⟨m', t', hrun, ht', hrb', by simpa [toList_plug] using hlist⟩

/-- `RB_INSERT` returns the node with the key of `x` and changes nothing, or links `x`. -/
theorem Stores.rbInsert (hc : Compares cmp key x (key x)) (h : Stores o m key xs)
    (hfuel : turns xs.length ≤ fuel) :
    (∃ a ∈ xs, key a = key x ∧ m.rbInsert cmp fuel x = some (m, some a)) ∨
    (∀ a ∈ xs, key a ≠ key x) ∧ ∃ m' ys, m.rbInsert cmp fuel x = some (m', none) ∧
      Stores o m' key ys ∧ ys.Perm (x :: xs) := by
  obtain ⟨t, ht, hrb, hasc, rfl⟩ := h
  have hheight := height_lt_turns hrb
  have haim : Aims key x [] 0 := ⟨by simp, by simp, fun q j hq => by cases hq⟩
  rcases insertPoint_spec hc ht hasc haim (by omega : t.height < fuel) with
    ⟨a, ha, hkey, hrun⟩ | ⟨j, comp, hrun, hplug, hj⟩
  · left
    refine ⟨a, ha, hkey, ?_⟩
    rw [Path.top_nil, ← ht.rbhRoot] at hrun
    simp [Memory.rbInsert, hrun]
  · right
    rw [Path.top_nil, ← ht.rbhRoot] at hrun
    rw [plug_nil] at hplug
    subst hplug
    have hlist : (plug .nil j : RBTree α).toList = Path.before j ++ Path.after j := by
      simp [toList_plug]
    have hfresh : ∀ a ∈ (plug .nil j : RBTree α).toList, key a ≠ key x := by
      intro a ha
      rw [hlist] at ha
      rcases List.mem_append.mp ha with ha | ha
      · exact (hj.below a ha).ne
      · exact (hj.above a ha).ne'
    have hxj : x ∉ nodes j := fun hx => hfresh x (by rwa [hlist]) rfl
    have hlen := length_le_height .nil j
    obtain ⟨m', t', hrun', ht', hrb', hlist'⟩ :=
      insert_at (holds_plug.mp ht) hrb hxj hj (by omega : j.length < fuel)
    refine ⟨hfresh, m', t'.toList, ?_, ⟨t', ht', hrb', ?_, rfl⟩, ?_⟩
    · simp only [Memory.rbInsert, hrun, Option.bind_eq_bind, Option.bind_some]
      cases hj : Path.top j <;>
        (simp only [hj] at hrun' ⊢
         rw [hrun', Option.bind_some])
    · rw [hlist] at hasc
      rw [hlist']
      obtain ⟨hb, ha, hba⟩ := List.pairwise_append.mp hasc
      refine List.pairwise_append.mpr ⟨hb, List.pairwise_cons.mpr ⟨hj.above, ha⟩, ?_⟩
      intro b hb' a ha'
      rcases List.mem_cons.mp ha' with rfl | ha'
      · exact hj.below b hb'
      · exact hba b hb' a ha'
    · rw [hlist', hlist]
      exact List.perm_middle

omit [DecidableEq α] in
/-- A node with an empty child was cut out of a red-black tree. A red one leaves nothing to
repair, a black one a place that is one black node short. -/
theorem cut {s : Side} {c : Color} {a : α} {u : RBTree α}
    (h : (plug (s.node c .nil a u) k).IsRedBlack) :
    (c = .red → Fits u k 0) ∧ (c = .black → Short u k 0) := by
  obtain ⟨n, hn, hk, hc⟩ := (isRedBlack_plug_iff _ _).mp h
  cases c with
  | red =>
    obtain ⟨⟨hnil, hu⟩, -, huc⟩ := RBTree.balanced_red.mp hn
    obtain rfl := RBTree.balanced_nil.mp hnil
    exact ⟨fun _ => ⟨hu, hk, fun hred => by rw [huc] at hred; cases hred⟩, fun hb => by cases hb⟩
  | black =>
    obtain ⟨n, rfl, hnil, hu⟩ := RBTree.balanced_black.mp hn
    obtain rfl := RBTree.balanced_nil.mp hnil
    exact ⟨fun hb => absurd hb (by decide), fun _ => .of_balanced hu hk⟩

/-- From `color:` on, `RB_REMOVE` leaves a red-black tree. -/
theorem finish_spec {c : Color} (old : α) (h : At o m t k) (hred : c = .red → Fits t k 0)
    (hblack : c = .black → Short t k 0) (hfuel : k.length < fuel) :
    ∃ m' t', Memory.rbRemove.finish fuel m c (Path.top k) t.top old = some (m', old) ∧
      Holds o m' t' ∧ t'.IsRedBlack ∧ t'.toList = (plug t k).toList := by
  cases c with
  | red =>
    exact ⟨m, plug t k, rfl, holds_plug.mpr h, (isRedBlack_plug_iff _ _).mpr ⟨0, hred rfl⟩, rfl⟩
  | black =>
    obtain ⟨m', t', hrun, ht', hrb, hlist⟩ := rbRemoveColor_spec h (hblack rfl) (.inl hfuel)
    exact ⟨m', t', by simp [Memory.rbRemove.finish, hrun], ht', hrb, hlist⟩

/-- `RB_REMOVE` of a node that lacks a child. -/
theorem unlink_spec {s : Side} {c : Color} {a : α} {u : RBTree α}
    (h : At o m (s.node c .nil a u) k) (hrb : (plug (s.node c .nil a u) k).IsRedBlack)
    (hfuel : k.length < fuel) :
    ∃ m' t', Memory.rbRemove.unlink fuel m a u.top = some (m', a) ∧
      Holds (Function.update o a (m.field a)) m' t' ∧ t'.IsRedBlack ∧ t'.toList = Path.before k ++ u.toList ++ Path.after k := by
  have ha : m.field a = Node.of s none u.top (Path.top k) c := h.linked.field
  obtain ⟨hat, -⟩ := h.unlink
  obtain ⟨hred, hblack⟩ := cut hrb
  obtain ⟨m', t', hrun, ht', hrb', hlist⟩ := finish_spec a hat hred hblack hfuel
  exact ⟨m', t', by simp [Memory.rbRemove.unlink, ha, hrun], ht', hrb', by rw [hlist, toList_plug]⟩

omit [DecidableEq α] in
theorem augmentUp_spec (h : At o m t k) {a : α} (htop : t.top = some a) (hfuel : k.length < fuel) :
    m.augmentUp fuel a = some () := by
  induction k generalizing t a fuel with
  | nil =>
    obtain ⟨fuel, rfl⟩ : ∃ f, fuel = f + 1 := ⟨fuel - 1, by omega⟩
    have ha : (m.field a).rbeParent = none := h.parent_eq htop
    simp [Memory.augmentUp, ha]
  | cons q k ih =>
    obtain ⟨fuel, rfl⟩ : ∃ f, fuel = f + 1 := ⟨fuel - 1, by omega⟩
    have ha : (m.field a).rbeParent = some q.node := h.parent_eq htop
    simp only [Memory.augmentUp, ha]
    exact ih (at_cons.mp h) (by simp [Crumb.fill]) (by simpa using hfuel)

omit [DecidableEq α] in
/-- A path with the node `b` where `a` was. -/
theorem Fits.rename {u : RBTree α} {s : Side} {c : Color} {j : Path α} {a b : α} {l : RBTree α}
    {n : Nat} (h : Fits u (j ++ ⟨s, c, a, l⟩ :: k) n) : Fits u (j ++ ⟨s, c, b, l⟩ :: k) n := by
  obtain ⟨hu, hk, hc⟩ := h
  refine ⟨hu, Path.balanced_rename j k s c a b l hk, fun hred => ?_⟩
  have htop := hc hred
  cases j with
  | nil => exact htop
  | cons => exact htop

theorem supplant_spec {c : Color} {a b : α} {l u : RBTree α} {lt : α}
    (h : At o m (Side.left.node c l a u) k) (hb : b ∉ (plug (Side.left.node c l a u) k).toList)
    (hl : l.top = some lt) :
    ∃ m', m.supplant a b = some m' ∧
      At (Function.update o a (m.field a)) m' (Side.left.node c l b u) k := by
  obtain ⟨hal, -, hak⟩ := h.apart
  have hab : a ≠ b := fun he =>
    hb (mem_plug.mpr (.inl (RBTree.mem_side.mpr (.inr (.inl he.symm)))))
  let m₁ := m.update b (m.field a)
  let m₂ := m₁.relink (Path.top k) a (some b)
  let m₃ := m₂.adopt l.top (some b)
  have ha₁ : m₁.field a = ⟨l.top, u.top, Path.top k, c⟩ :=
    (Memory.field_update_of_ne hab _).trans h.linked.1
  have ha₂ : m₂.field a = ⟨l.top, u.top, Path.top k, c⟩ :=
    (Memory.field_relink _ _ hak).trans ha₁
  have ha₃ : m₃.field a = ⟨l.top, u.top, Path.top k, c⟩ :=
    (Memory.field_adopt _ _ hal).trans ha₂
  refine ⟨m₃.adopt u.top (some b), ?_, h.replace hb⟩
  have hparent : m₁.relink (m₁.field a).rbeParent a (some b) = m₂ := by rw [ha₁]
  have hright : m₃.adopt (m₃.field a).rbeRight (some b) = m₃.adopt u.top (some b) := by rw [ha₃]
  have hleft : (m₂.field a).rbeLeft = some lt := by rw [ha₂, hl]
  have hset : m₂.setParent lt (some b) = m₃ := by
    simp only [m₃, hl]
    rfl
  calc m.supplant a b
      = (m₂.field a).rbeLeft.bind fun p =>
          some ((m₂.setParent p (some b)).adopt
            ((m₂.setParent p (some b)).field a).rbeRight (some b)) := by rw [← hparent]; rfl
    _ = some (m₃.adopt u.top (some b)) := by rw [hleft, Option.bind_some, hset, hright]

/-- `RB_REMOVE` of a node with two children: the next node in order is cut out and put in its
stead. -/
theorem remove_between {c : Color} {a : α} {l r : RBTree α} {lt rt : α}
    (h : At o m (.node c l a r) k) (hrb : (plug (.node c l a r) k).IsRedBlack)
    (hl : l.top = some lt) (hr : r.top = some rt) (hfuel : (plug (.node c l a r) k).height < fuel) :
    ∃ m' n t', m.rbRemove fuel a = some (m', a) ∧ Holds (Function.update o a n) m' t' ∧
      t'.IsRedBlack ∧ t'.toList = Path.before k ++ (l.toList ++ r.toList) ++ Path.after k := by
  have hlen := length_le_height (.node c l a r) k
  simp only [RBTree.height] at hlen
  have hlr : At o m r (⟨.right, c, a, l⟩ :: k) := (at_cons (c := ⟨.right, c, a, l⟩)).mpr h
  obtain ⟨e, d, v, j, hfar, hplug, hj⟩ :=
    farthest_spec (s := .left) hlr.linked hr (show r.height ≤ fuel by omega)
  -- `e` is the leftmost node of `r`, at the place `k₁`; `k₂` is that place with `e` for `a`
  let k₁ : Path α := j ++ ⟨.right, c, a, l⟩ :: k
  let k₂ : Path α := j ++ ⟨.right, c, e, l⟩ :: k
  have hat : At o m (Side.left.node d .nil e v) k₁ := by
    rw [at_append, ← hplug]
    exact hlr
  have hwhole : plug (Side.left.node d .nil e v) k₁ = plug (.node c l a r) k := by
    rw [plug_append, ← hplug]
    rfl
  have hcut := cut (by rw [hwhole]; exact hrb)
  have hlen₁ := length_le_height (Side.left.node d .nil e v) k₁
  have he : m.field e = ⟨none, v.top, Path.top k₁, d⟩ := hat.linked.1
  obtain ⟨hat₁, hkeep⟩ := hat.unlink
  let m₁ := (m.adopt v.top (Path.top k₁)).relink (Path.top k₁) e v.top
  have ha₁ : At (Function.update o e (m.field e)) m₁ (Side.left.node c l a (plug v j)) k := by
    have hup := at_append.mp hat₁
    exact at_cons.mp hup
  have hfresh : e ∉ (plug (Side.left.node c l a (plug v j)) k).toList := by
    have hplace : plug (Side.left.node c l a (plug v j)) k = plug v k₁ := by
      rw [plug_append]
      rfl
    obtain ⟨-, hev, hek⟩ := hat.apart
    rw [hplace, mem_plug]
    exact not_or.mpr ⟨hev, hek⟩
  obtain ⟨m₂, hsup, ha₂⟩ := supplant_spec ha₁ hfresh hl
  have hat₂ : At (Function.update o a (m₁.field a)) m₂ v k₂ := by
    rw [at_append]
    refine (at_cons (c := ⟨.right, c, e, l⟩)).mpr (ha₂.outside_congr fun b hb => ?_)
    have hbe : b ≠ e := fun he => hb (mem_plug.mpr (.inl (RBTree.mem_side.mpr (.inr (.inl he)))))
    by_cases hba : b = a
    · rw [hba, Function.update_self, Function.update_self]
    · rw [Function.update_of_ne hba, Function.update_of_ne hba, Function.update_of_ne hbe]
  have hparent : (if (m₁.field e).rbeParent = some a then some e else Path.top k₁) =
      Path.top k₂ := by
    rw [hkeep, he]
    cases j with
    | nil => simp [k₁, k₂]
    | cons q j =>
      have hqa : q.node ≠ a := fun hqa =>
        ha₁.apart.2.1 (mem_plug.mpr (.inr (mem_nodes_cons.mpr (.inl hqa.symm))))
      simp [k₁, k₂, hqa]
  obtain ⟨q, k₃, hk₃⟩ : ∃ q k₃, k₂ = q :: k₃ := by
    cases j with
    | nil => exact ⟨_, _, rfl⟩
    | cons q j => exact ⟨q, _, rfl⟩
  have hlen₂ : k₂.length = k₁.length := by simp [k₁, k₂]
  rw [hwhole] at hlen₁
  have haug : m₂.augmentUp fuel q.node = some () :=
    augmentUp_spec (at_cons.mp (hk₃ ▸ hat₂)) (by simp [Crumb.fill]) (by
      rw [hk₃, List.length_cons] at hlen₂
      omega)
  obtain ⟨m', t', hrun, ht', hrb', hlist⟩ := finish_spec a hat₂
    (fun hd => Fits.rename (hcut.1 hd)) (fun hd => ⟨(hcut.2 hd).black, (hcut.2 hd).red,
      Path.balanced_rename j k .right c a e l (hcut.2 hd).path⟩) (show k₂.length < fuel by omega)
  refine ⟨m', m₁.field a, t', ?_, ht', hrb', ?_⟩
  · have hfields : m.field a = ⟨some lt, some rt, Path.top k, c⟩ := by
      rw [← hl, ← hr]
      exact h.linked.1
    have htop : Path.top k₂ = some q.node := by rw [hk₃, Path.top_cons]
    simp only [Memory.rbRemove, hfields, hfar, he, Option.bind_eq_bind, Option.bind_some]
    simp only [m₁] at hparent hsup
    rw [hsup, Option.bind_some, hparent]
    simp only [htop, haug, Option.bind_some]
    rw [← htop]
    exact hrun
  · have hr' : r.toList = e :: (v.toList ++ Path.after j) := by
      simp [hplug, toList_plug, Path.before_eq_nil hj, Side.node]
    rw [hlist, plug_append]
    simp [toList_plug, Crumb.fill, Side.node, Path.before_eq_nil hj, hr']

/-- `RB_REMOVE` of a node of the tree unlinks just that node, and writes no node that is not
in the tree. -/
theorem Stores.rbRemove (h : Stores o m key xs) (hx : x ∈ xs) (hfuel : turns xs.length ≤ fuel) :
    ∃ m' n, m.rbRemove fuel x = some (m', x) ∧
      Stores (Function.update o x n) m' key (xs.erase x) := by
  obtain ⟨t, ht, hrb, hasc, rfl⟩ := h
  have hheight := height_lt_turns hrb
  obtain ⟨c, l, r, k, rfl⟩ := exists_plug hx
  have hat : At o m (.node c l x r) k := holds_plug.mp ht
  have hlen := length_le_height (.node c l x r) k
  have hfield : m.field x = ⟨l.top, r.top, Path.top k, c⟩ := hat.linked.1
  suffices hrun : ∃ m' n t', m.rbRemove fuel x = some (m', x) ∧
      Holds (Function.update o x n) m' t' ∧ t'.IsRedBlack ∧
      t'.toList = Path.before k ++ (l.toList ++ r.toList) ++ Path.after k by
    obtain ⟨m', n, t', hrun, ht', hrb', hlist⟩ := hrun
    have herase : (plug (.node c l x r) k).toList.erase x = t'.toList := by
      obtain ⟨hxl, -, hxk⟩ := At.apart (s := .left) hat
      have hnot : x ∉ Path.before k ++ l.toList := fun hmem =>
        (List.mem_append.mp hmem).elim (fun hb => hxk (List.mem_append_left _ hb)) hxl
      have hparts : (plug (.node c l x r) k).toList =
          (Path.before k ++ l.toList) ++ x :: (r.toList ++ Path.after k) := by
        simp [toList_plug]
      rw [hparts, List.erase_append_right _ hnot, List.erase_cons_head, hlist]
      simp
    refine ⟨m', n, hrun, t', ht', hrb', ?_, herase.symm⟩
    rw [← herase]
    exact hasc.sublist List.erase_sublist
  cases hl : l.top with
  | none =>
    rw [RBTree.top_eq_none] at hl
    subst hl
    obtain ⟨m', t', hrun, ht', hrb', hlist⟩ := unlink_spec (s := .left) hat hrb
      (show k.length < fuel by omega)
    exact ⟨m', _, t', by simp [Memory.rbRemove, hfield, hrun], ht', hrb', by simpa using hlist⟩
  | some lt =>
    cases hr : r.top with
    | none =>
      rw [RBTree.top_eq_none] at hr
      subst hr
      obtain ⟨m', t', hrun, ht', hrb', hlist⟩ := unlink_spec (s := .right) hat hrb
        (show k.length < fuel by omega)
      rw [hl] at hrun
      exact ⟨m', _, t', by simp [Memory.rbRemove, hfield, hl, hrun], ht', hrb', by simpa using hlist⟩
    | some rt => exact remove_between hat hrb hl hr (by omega)

end UthreadRuntime.Rb
