import UthreadRuntime.Trees.Linked

/-! What the primitives of the red-black trees do to a tree in memory: a turn, a new leaf,
a node cut out, a node put in another's stead. Each is followed through its assignments
once; what it leaves alone is framed. -/
namespace UthreadRuntime.Rb
open RedBlack

variable {α : Type} [DecidableEq α] {o : α → Node α} {m : Memory α} {s : Side} {c d : Color}
  {t u v : RBTree α} {a b : α} {k : Path α}

/-- A turn brings the child up, colours staying with their nodes. -/
theorem At.rotate (h : At o m (s.node c t a (s.node d u b v)) k) :
    ∃ m', m.rotate s a = some m' ∧ At o m' (s.node d (s.node c t a u) b v) k := by
  obtain ⟨hside, hk, hout⟩ := nodup_plug.mp h.nodup
  obtain ⟨-, hside', hat, has, htub⟩ := nodup_side.mp hside
  obtain ⟨hu, -, hbu, hbv, huv⟩ := nodup_side.mp hside'
  simp only [RBTree.mem_side, not_or] at has htub hout
  obtain ⟨hau, hab, hav⟩ := has
  have hba : b ≠ a := Ne.symm hab
  have hak : a ∉ nodes k := hout a (.inr (.inl rfl))
  have hbk : b ∉ nodes k := hout b (.inr (.inr (.inr (.inl rfl))))
  have hbt : b ∉ t.toList := fun hb => (htub b hb).2.1 rfl
  obtain ⟨ha, hlt, hlb⟩ := linked_side.mp h.linked
  obtain ⟨hb, hlu, hlv⟩ := linked_side.mp hlb
  simp only [RBTree.top_side] at ha
  -- the memory after each assignment
  let m₁ := m.setChild a s.other u.top
  let m₂ := m₁.adopt u.top (some a)
  let m₃ := m₂.setParent b (Path.top k)
  let m₄ := m₃.relink (Path.top k) a (some b)
  let m₅ := m₄.setChild b s (some a)
  let m₆ := m₅.setParent a (some b)
  have ha₂ : m₂.field a = Node.of s t.top u.top (Path.top k) c :=
    (Memory.field_adopt _ _ hau).trans (Memory.field_setChild_other ha _)
  have hb₂ : m₂.field b = Node.of s u.top v.top (some a) d :=
    (Memory.field_adopt _ _ hbu).trans ((Memory.field_setChild_of_ne hba _).trans hb)
  have hkeep₂ : ∀ x, x ≠ a → x ∉ u.toList → m₂.field x = m.field x := fun x hxa hxu =>
    (Memory.field_adopt _ _ hxu).trans (Memory.field_setChild_of_ne hxa _)
  have hkeep₃ : ∀ x, x ≠ b → x ∉ nodes k → m₄.field x = m₂.field x := fun x hxb hxk =>
    (Memory.field_relink _ _ hxk).trans (Memory.field_setParent_of_ne hxb _)
  have hkeep₆ : ∀ x, x ≠ a → x ≠ b → m₆.field x = m₄.field x := fun x hxa hxb =>
    (Memory.field_setParent_of_ne hxa _).trans (Memory.field_setChild_of_ne hxb _)
  have ha₆ : m₆.field a = Node.of s t.top u.top (some b) c :=
    Memory.field_setParent ((Memory.field_setChild_of_ne hab _).trans
      ((hkeep₃ a hab hak).trans ha₂)) _
  have hb₄ : m₄.field b = Node.of s u.top v.top (Path.top k) d :=
    (Memory.field_relink _ _ hbk).trans (Memory.field_setParent hb₂ _)
  have hb₆ : m₆.field b = Node.of s (some a) v.top (Path.top k) d :=
    (Memory.field_setParent_of_ne hba _).trans (Memory.field_setChild hb₄ _)
  have hrun : m.rotate s a = some m₆ := by
    have hup : m₂.field a = _ := ha₂
    simp only [m₂, m₁] at hup
    simp [Memory.rotate, ha, hb, hup, m₆, m₅, m₄, m₃, m₂, m₁]
  have hlist := toList_plug_congr k (RBTree.toList_turn s c d d c t u v a b)
  refine ⟨m₆, hrun, linked_side.mpr ⟨?_, linked_side.mpr ⟨?_, ?_, ?_⟩, ?_⟩, ?_, ?_, fun x hx => ?_⟩
  · simpa using hb₆
  · simpa using ha₆
  · refine hlt.frame fun x hx => ?_
    have hxa : x ≠ a := fun he => hat (he ▸ hx)
    have hxb : x ≠ b := fun he => hbt (he ▸ hx)
    rw [hkeep₆ x hxa hxb, hkeep₃ x hxb (hout x (.inl hx)), hkeep₂ x hxa (htub x hx).1]
  · have hm₁ : Linked m₁ (some b) u := hlu.frame fun x hx =>
      Memory.field_setChild_of_ne (fun (he : x = a) => hau (he ▸ hx)) _
    refine (hm₁.adopt hu (some a)).frame fun x hx => ?_
    have hxb : x ≠ b := fun he => hbu (he ▸ hx)
    rw [hkeep₆ x (fun he => hau (he ▸ hx)) hxb,
      hkeep₃ x hxb (hout x (.inr (.inr (.inl hx))))]
  · refine hlv.frame fun x hx => ?_
    have hxa : x ≠ a := fun he => hav (he ▸ hx)
    have hxb : x ≠ b := fun he => hbv (he ▸ hx)
    have hxu : x ∉ u.toList := fun hu => huv x hu hx
    rw [hkeep₆ x hxa hxb, hkeep₃ x hxb (hout x (.inr (.inr (.inr (.inr hx))))), hkeep₂ x hxa hxu]
  · have hkeep : ∀ x ∈ nodes k, x ≠ a ∧ x ≠ b ∧ x ∉ u.toList := fun x hx =>
      ⟨fun he => hak (he ▸ hx), fun he => hbk (he ▸ hx),
        fun hu => hout x (.inr (.inr (.inl hu))) hx⟩
    have hm₃ : Above m₃ (some a) k := by
      have habove := h.above
      rw [RBTree.top_side] at habove
      refine habove.frame (by simp [m₃, m₂, m₁]) fun x hx => ?_
      obtain ⟨hxa, hxb, hxu⟩ := hkeep x hx
      exact (Memory.field_setParent_of_ne hxb _).trans (hkeep₂ x hxa hxu)
    rw [RBTree.top_side]
    refine (hm₃.relink hk hak (some b)).frame rfl fun x hx => ?_
    exact hkeep₆ x (hkeep x hx).1 (hkeep x hx).2.1
  · rw [← hlist]
    exact h.nodup
  · rw [← hlist, mem_plug, RBTree.mem_side, RBTree.mem_side] at hx
    have hx' := hx
    simp only [not_or] at hx'
    obtain ⟨⟨-, hxa, hxu, hxb, -⟩, hxk⟩ := hx'
    rw [hkeep₆ x hxa hxb, hkeep₃ x hxb hxk, hkeep₂ x hxa hxu]
    exact h.outside x (by rwa [mem_plug, RBTree.mem_side, RBTree.mem_side])

/-- A node that lacks a child is cut out: its other child takes its place. -/
theorem At.unlink (h : At o m (s.node c .nil a u) k) :
    At (Function.update o a (m.field a))
        ((m.adopt u.top (Path.top k)).relink (Path.top k) a u.top) u k ∧
      ((m.adopt u.top (Path.top k)).relink (Path.top k) a u.top).field a = m.field a := by
  obtain ⟨hside, hk, hout⟩ := nodup_plug.mp h.nodup
  obtain ⟨-, hu, -, hau, -⟩ := nodup_side.mp hside
  have hak : a ∉ nodes k := hout a (RBTree.mem_side.mpr (.inr (.inl rfl)))
  have huk : ∀ x ∈ u.toList, x ∉ nodes k := fun x hx =>
    hout x (RBTree.mem_side.mpr (.inr (.inr hx)))
  obtain ⟨-, -, hlu⟩ := linked_side.mp h.linked
  have habove := h.above
  rw [RBTree.top_side] at habove
  have hkeep : ∀ x, x ∉ u.toList → x ∉ nodes k →
      ((m.adopt u.top (Path.top k)).relink (Path.top k) a u.top).field x = m.field x :=
    fun x hxu hxk => (Memory.field_relink _ _ hxk).trans (Memory.field_adopt _ _ hxu)
  refine ⟨⟨?_, ?_, ?_, fun x hx => ?_⟩, hkeep a hau hak⟩
  · exact (hlu.adopt hu _).frame fun x hx => Memory.field_relink _ _ (huk x hx)
  · have hadopt : Above (m.adopt u.top (Path.top k)) (some a) k :=
      habove.frame (by simp) fun x hx => Memory.field_adopt _ _ fun hu => huk x hu hx
    exact hadopt.relink hk hak u.top
  · exact nodup_plug.mpr ⟨hu, hk, huk⟩
  · obtain ⟨hxu, hxk⟩ := not_or.mp (mem_plug.not.mp hx)
    rw [hkeep x hxu hxk]
    by_cases hxa : x = a
    · rw [hxa, Function.update_self]
    · rw [Function.update_of_ne hxa]
      refine h.outside x (mem_plug.not.mpr (not_or.mpr ⟨?_, hxk⟩))
      simpa [RBTree.mem_side, hxa] using hxu

/-- A node `b` that is not in the tree takes over all that `a` has. -/
theorem At.replace (h : At o m (s.node c t a u) k) (hb : b ∉ (plug (s.node c t a u) k).toList) :
    At (Function.update o a (m.field a)) ((((m.update b (m.field a)).relink (Path.top k) a (some b)).adopt t.top (some b)).adopt
      u.top (some b)) (s.node c t b u) k := by
  obtain ⟨hside, hk, hout⟩ := nodup_plug.mp h.nodup
  obtain ⟨ht, hu, hat, hau, htu⟩ := nodup_side.mp hside
  obtain ⟨ha, hlt, hlu⟩ := linked_side.mp h.linked
  simp only [mem_plug, RBTree.mem_side, not_or] at hb
  obtain ⟨⟨hbt, hba, hbu⟩, hbk⟩ := hb
  simp only [RBTree.mem_side] at hout
  let m₁ := m.update b (m.field a)
  let m₂ := m₁.relink (Path.top k) a (some b)
  let m₃ := m₂.adopt t.top (some b)
  have hkeep₂ : ∀ x, x ≠ b → x ∉ nodes k → m₂.field x = m.field x := fun x hxb hxk =>
    (Memory.field_relink _ _ hxk).trans (Memory.field_update_of_ne hxb _)
  have hb₂ : m₂.field b = Node.of s t.top u.top (Path.top k) c := by
    rw [← ha]
    exact (Memory.field_relink _ _ hbk).trans (by simp [m₁, Memory.update])
  have hlt₂ : Linked m₂ (some a) t := hlt.frame fun x hx =>
    hkeep₂ x (fun he => hbt (he ▸ hx)) (hout x (.inl hx))
  have hlu₂ : Linked m₂ (some a) u := hlu.frame fun x hx =>
    hkeep₂ x (fun he => hbu (he ▸ hx)) (hout x (.inr (.inr hx)))
  have hlu₃ : Linked m₃ (some a) u := hlu₂.frame fun x hx =>
    Memory.field_adopt _ _ fun ht => htu x ht hx
  have hkeep : ∀ x, x ∉ t.toList → x ≠ b → x ∉ u.toList → x ∉ nodes k →
      (m₃.adopt u.top (some b)).field x = m.field x := fun x hxt hxb hxu hxk =>
    (Memory.field_adopt _ _ hxu).trans ((Memory.field_adopt _ _ hxt).trans (hkeep₂ x hxb hxk))
  refine ⟨linked_side.mpr ⟨?_, ?_, hlu₃.adopt hu _⟩, ?_, ?_, fun x hx => ?_⟩
  · exact (Memory.field_adopt _ _ hbu).trans ((Memory.field_adopt _ _ hbt).trans hb₂)
  · exact (hlt₂.adopt ht _).frame fun x hx => Memory.field_adopt _ _ (htu x hx)
  · have habove : Above m₁ (some a) k := by
      have habove := h.above
      rw [RBTree.top_side] at habove
      refine habove.frame rfl fun x hx => Memory.field_update_of_ne ?_ _
      exact fun he => hbk (he ▸ hx)
    rw [RBTree.top_side]
    refine (habove.relink hk (hout a (.inr (.inl rfl))) (some b)).frame (by simp [m₁]) fun x hx => ?_
    exact (Memory.field_adopt _ _ fun hu => hout x (.inr (.inr hu)) hx).trans
      (Memory.field_adopt _ _ fun ht => hout x (.inl ht) hx)
  · refine nodup_plug.mpr ⟨nodup_side.mpr ⟨ht, hu, hbt, hbu, htu⟩, hk, fun x hx => ?_⟩
    rcases RBTree.mem_side.mp hx with hx | rfl | hx
    · exact hout x (.inl hx)
    · exact hbk
    · exact hout x (.inr (.inr hx))
  · rw [mem_plug, RBTree.mem_side] at hx
    simp only [not_or] at hx
    obtain ⟨⟨hxt, hxb, hxu⟩, hxk⟩ := hx
    refine (hkeep x hxt hxb hxu hxk).trans ?_
    by_cases hxa : x = a
    · rw [hxa, Function.update_self]
    · rw [Function.update_of_ne hxa]
      exact h.outside x (by simp [mem_plug, RBTree.mem_side, hxt, hxa, hxu, hxk])

/-- A red leaf is hung where a node lacks a child. -/
theorem At.graft (h : At o m (s.node c .nil b u) k) (ha : a ∉ (plug (s.node c .nil b u) k).toList) :
    At o ((m.rbSet a (some b)).setChild b s (some a)) (s.node c (.node .red .nil a .nil) b u) k := by
  obtain ⟨hside, hk, hout⟩ := nodup_plug.mp h.nodup
  obtain ⟨-, hu, -, hbu, -⟩ := nodup_side.mp hside
  obtain ⟨hb, -, hlu⟩ := linked_side.mp h.linked
  simp only [mem_plug, RBTree.mem_side, not_or] at ha
  obtain ⟨⟨-, hab, hau⟩, hak⟩ := ha
  simp only [RBTree.mem_side] at hout
  have hbk : b ∉ nodes k := hout b (.inr (.inl rfl))
  let m₁ := m.rbSet a (some b)
  have hkeep : ∀ x, x ≠ a → x ≠ b → (m₁.setChild b s (some a)).field x = m.field x :=
    fun x hxa hxb => (Memory.field_setChild_of_ne hxb _).trans (Memory.field_update_of_ne hxa _)
  have hb₁ : m₁.field b = Node.of s none u.top (Path.top k) c :=
    (Memory.field_update_of_ne (Ne.symm hab) _).trans hb
  have ha₂ : (m₁.setChild b s (some a)).field a = ⟨none, none, some b, .red⟩ := by
    rw [Memory.field_setChild_of_ne hab]
    simp [m₁, Memory.rbSet, Memory.update]
  refine ⟨linked_side.mpr ⟨Memory.field_setChild hb₁ _, ⟨ha₂, trivial, trivial⟩, ?_⟩, ?_, ?_,
    fun x hx => ?_⟩
  · exact hlu.frame fun x hx => hkeep x (fun he => hau (he ▸ hx)) fun he => hbu (he ▸ hx)
  · have habove := h.above
    rw [RBTree.top_side] at habove ⊢
    exact habove.frame rfl fun x hx => hkeep x (fun he => hak (he ▸ hx)) fun he => hbk (he ▸ hx)
  · refine nodup_plug.mpr ⟨nodup_side.mpr ⟨by simp, hu, by simp [Ne.symm hab], hbu, ?_⟩, hk, ?_⟩
    · simpa using hau
    · intro x hx
      rcases RBTree.mem_side.mp hx with hx | rfl | hx
      · obtain rfl : x = a := by simpa using hx
        exact hak
      · exact hbk
      · exact hout x (.inr (.inr hx))
  · rw [mem_plug, RBTree.mem_side] at hx
    simp only [RBTree.toList_node, RBTree.toList_nil, List.nil_append, List.mem_singleton, not_or] at hx
    obtain ⟨⟨hxa, hxb, hxu⟩, hxk⟩ := hx
    refine (hkeep x hxa hxb).trans (h.outside x ?_)
    simp [mem_plug, RBTree.mem_side, hxb, hxu, hxk]

/-- The first node of a tree. -/
theorem Holds.leaf (h : Holds o m .nil) (a : α) :
    Holds o ((m.rbSet a none).setRoot (some a)) (.node .red .nil a .nil) := by
  refine ⟨⟨by simp [Memory.rbSet, Memory.update, Memory.setRoot], trivial, trivial⟩, rfl, by simp,
    fun b hb => ?_⟩
  have hba : b ≠ a := by simpa using hb
  exact (Memory.field_update_of_ne hba _).trans (h.outside b (by simp))

end UthreadRuntime.Rb
