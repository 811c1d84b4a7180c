import Mathlib.Data.List.Perm.Subperm
import Mathlib.Logic.Function.Basic

/-! Singly linked lists in memory.

Nodes lie at addresses; a list starts at one of an array of head pointers and is followed
through `next`. A cursor is a pointer to a pointer: to a head, or to the `next` of a node.
`sweep` walks a list with one, rewrites the nodes that stay and unlinks the others on its
way. `Holds` says which lists a memory has; it is kept by a push at a head and by a sweep. -/
namespace UthreadRuntime.Chain

variable {β : Type}

structure Node (β : Type) where
  next : Option Nat
  val : β

/-- The heads, and the nodes that are allocated: all below `bound`. -/
structure Memory (β : Type) where
  head : Nat → Option Nat
  node : Nat → Option (Node β)
  bound : Nat
  unused : ∀ a, bound ≤ a → node a = none

inductive Cursor where
  | head (i : Nat)
  | next (a : Nat)
  deriving DecidableEq, Repr

namespace Memory

/-- `*cur`; a node that is not allocated cannot be read. -/
def load (m : Memory β) : Cursor → Option (Option Nat)
  | .head i => some (m.head i)
  | .next a => (m.node a).map Node.next

/-- An allocated node is changed. -/
def modify (m : Memory β) (a : Nat) (g : Node β → Node β) : Memory β where
  head := m.head
  node := Function.update m.node a ((m.node a).map g)
  bound := m.bound
  unused b hb := by
    by_cases hba : b = a
    · subst hba
      rw [Function.update_self, m.unused b hb]
      rfl
    · rw [Function.update_of_ne hba]
      exact m.unused b hb

/-- `*cur = p` -/
def store (m : Memory β) (c : Cursor) (p : Option Nat) : Memory β :=
  match c with
  | .head i => {m with head := Function.update m.head i p}
  | .next a => m.modify a fun n => {n with next := p}

def free (m : Memory β) (a : Nat) : Memory β where
  head := m.head
  node := Function.update m.node a none
  bound := m.bound
  unused b hb := by
    by_cases hba : b = a
    · rw [hba, Function.update_self]
    · rw [Function.update_of_ne hba]
      exact m.unused b hb

/-- A node is allocated at `a` and linked first. -/
def push (m : Memory β) (i a : Nat) (v : β) : Memory β where
  head := Function.update m.head i (some a)
  node := Function.update m.node a (some ⟨m.head i, v⟩)
  bound := max m.bound (a + 1)
  unused b hb := by
    rw [Function.update_of_ne (by omega)]
    exact m.unused b (by omega)

end Memory

/-- The walk of a list: `f` says what becomes of a value, or that its node is to go. The
values of the nodes that went come out in the order of the list. There is no result when a
pointer is followed to a node that is not allocated, or the fuel ends. -/
def sweep (f : β → Option β) : Nat → Cursor → Memory β → Option (Memory β × List β)
  | 0, _, _ => none
  | fuel + 1, cur, m =>
    match m.load cur with
    | none => none
    | some none => some (m, [])
    | some (some a) =>
      match m.node a with
      | none => none
      | some n =>
        match f n.val with
        | some x => sweep f fuel (.next a) (m.modify a fun n => {n with val := x})
        | none =>
          (sweep f fuel cur ((m.store cur n.next).free a)).map fun (m, gone) => (m, n.val :: gone)

/-- The nodes from `p` on, with their addresses. -/
def IsList (m : Memory β) : Option Nat → List (Nat × β) → Prop
  | p, [] => p = none
  | p, (a, v) :: rest => p = some a ∧ ∃ q, m.node a = some ⟨q, v⟩ ∧ IsList m q rest

def kept (f : β → Option β) (l : List (Nat × β)) : List (Nat × β) :=
  l.filterMap fun x => (f x.2).map fun v => (x.1, v)

def gone (f : β → Option β) (l : List (Nat × β)) : List β :=
  (l.filter fun x => (f x.2).isNone).map Prod.snd

variable {m m' : Memory β} {p : Option Nat} {l : List (Nat × β)} {f : β → Option β} {c : Cursor}

theorem IsList.congr (h : IsList m p l) (hm : ∀ a ∈ l.map Prod.fst, m'.node a = m.node a) :
    IsList m' p l := by
  induction l generalizing p with
  | nil => exact h
  | cons x rest ih =>
    obtain ⟨a, v⟩ := x
    obtain ⟨hp, q, hq, hrest⟩ := h
    simp only [List.map_cons, List.forall_mem_cons] at hm
    exact ⟨hp, q, by rw [hm.1, hq], ih hrest hm.2⟩

theorem IsList.allocated (h : IsList m p l) {a : Nat} (ha : a ∈ l.map Prod.fst) : m.node a ≠ none := by
  induction l generalizing p with
  | nil => cases ha
  | cons x rest ih =>
    obtain ⟨b, v⟩ := x
    obtain ⟨-, q, hq, hrest⟩ := h
    simp only [List.map_cons, List.mem_cons] at ha
    rcases ha with rfl | ha
    · rw [hq]
      exact Option.some_ne_none _
    · exact ih hrest ha

theorem kept_sublist (f : β → Option β) (l : List (Nat × β)) :
    ((kept f l).map Prod.fst).Sublist (l.map Prod.fst) := by
  induction l with
  | nil => exact .slnil
  | cons x rest ih =>
    obtain ⟨a, v⟩ := x
    cases hf : f v with
    | none => simpa [kept, hf] using ih.cons a
    | some y => simpa [kept, hf] using ih.cons_cons a

/-- What a sweep from `c` has done: only the pointer it started from and the nodes of the
list have changed. -/
structure Swept (f : β → Option β) (l : List (Nat × β)) (c : Cursor) (m m' : Memory β) : Prop where
  list : ∃ p, m'.load c = some p ∧ IsList m' p (kept f l)
  node : ∀ a ∉ l.map Prod.fst, c ≠ .next a → m'.node a = m.node a
  val : ∀ a, c = .next a → (m'.node a).map Node.val = (m.node a).map Node.val
  head : ∀ i, c ≠ .head i → m'.head i = m.head i

/-! ### The updates -/

theorem modify_node (m : Memory β) (a : Nat) (g : Node β → Node β) :
    (m.modify a g).node a = (m.node a).map g := Function.update_self _ _ _

theorem modify_node_of_ne {a b : Nat} (h : b ≠ a) (m : Memory β) (g : Node β → Node β) :
    (m.modify a g).node b = m.node b := Function.update_of_ne h _ _

theorem free_node_of_ne {a b : Nat} (h : b ≠ a) (m : Memory β) : (m.free a).node b = m.node b :=
  Function.update_of_ne h _ _

theorem push_node (m : Memory β) (i a : Nat) (v : β) : (m.push i a v).node a = some ⟨m.head i, v⟩ :=
  Function.update_self _ _ _

theorem push_node_of_ne {a b : Nat} (h : b ≠ a) (m : Memory β) (i : Nat) (v : β) :
    (m.push i a v).node b = m.node b := Function.update_of_ne h _ _

theorem push_head (m : Memory β) (i a : Nat) (v : β) : (m.push i a v).head i = some a :=
  Function.update_self _ _ _

theorem push_head_of_ne {i j : Nat} (h : j ≠ i) (m : Memory β) (a : Nat) (v : β) :
    (m.push i a v).head j = m.head j := Function.update_of_ne h _ _

theorem store_node {b : Nat} (h : c ≠ .next b) : (m.store c p).node b = m.node b := by
  cases c with
  | head i => rfl
  | next a =>
    have hba : b ≠ a := by
      rintro rfl
      exact h rfl
    exact modify_node_of_ne hba m _

theorem store_val (b : Nat) : ((m.store c p).node b).map Node.val = (m.node b).map Node.val := by
  by_cases h : c = .next b
  · subst h
    show ((m.modify b fun n => {n with next := p}).node b).map Node.val = _
    rw [modify_node, Option.map_map]
    rfl
  · rw [store_node h]

theorem store_head {i : Nat} (h : c ≠ .head i) : (m.store c p).head i = m.head i := by
  cases c with
  | head j =>
    have hij : i ≠ j := by
      rintro rfl
      exact h rfl
    exact Function.update_of_ne hij _ _
  | next a => rfl

theorem store_load {q : Option Nat} (h : m.load c = some q) : (m.store c p).load c = some p := by
  cases c with
  | head i =>
    have hself : Function.update m.head i p i = p := Function.update_self _ _ _
    exact congrArg some hself
  | next a =>
    obtain ⟨n, hn, -⟩ := Option.map_eq_some_iff.mp h
    show ((m.modify a fun n => {n with next := p}).node a).map Node.next = _
    rw [modify_node, hn]
    rfl

theorem load_congr (hhead : ∀ i, c = .head i → m'.head i = m.head i)
    (hnode : ∀ a, c = .next a → m'.node a = m.node a) : m'.load c = m.load c := by
  cases c with
  | head i => exact congrArg some (hhead i rfl)
  | next a => exact congrArg (Option.map Node.next) (hnode a rfl)

/-! ### A sweep -/

/-- The first node stays: the sweep goes on from its `next`. -/
theorem Swept.stays {a : Nat} {v x : β} {q : Option Nat} (hload : m.load c = some (some a))
    (hnode : m.node a = some ⟨q, v⟩) (hf : f v = some x) (hc : ∀ b, c = .next b → b ∉ a :: l.map Prod.fst)
    (h : Swept f l (.next a) (m.modify a fun n => {n with val := x}) m') :
    Swept f ((a, v) :: l) c m m' := by
  have hother : ∀ b, b ∉ a :: l.map Prod.fst → m'.node b = m.node b := by
    intro b hb
    simp only [List.mem_cons, not_or] at hb
    rw [h.node b hb.2 (by rintro ⟨rfl⟩; exact hb.1 rfl), modify_node_of_ne hb.1]
  have hheads : ∀ i, m'.head i = m.head i := fun i => h.head i (by rintro ⟨⟩)
  obtain ⟨q', hq', hlist⟩ := h.list
  obtain ⟨⟨next, val⟩, hn, rfl⟩ := Option.map_eq_some_iff.mp hq'
  have hval := h.val a rfl
  rw [hn, modify_node, hnode] at hval
  have hx : val = x := Option.some.inj hval
  subst hx
  refine ⟨⟨some a, ?_, ?_⟩, fun b hb _ => hother b hb, fun b hb => ?_, fun i _ => hheads i⟩
  · rw [load_congr (fun i _ => hheads i) fun b hb => hother b (hc b hb), hload]
  · rw [show kept f ((a, v) :: l) = (a, val) :: kept f l by simp [kept, hf]]
    exact ⟨rfl, next, hn, hlist⟩
  · rw [hother b (hc b hb)]

/-- The first node goes: the pointer to it is made to point past it. -/
theorem Swept.goes {a : Nat} {v : β} {q : Option Nat} (hf : f v = none)
    (hc : ∀ b, c = .next b → b ∉ a :: l.map Prod.fst)
    (h : Swept f l c ((m.store c q).free a) m') : Swept f ((a, v) :: l) c m m' := by
  refine ⟨?_, fun b hb hcb => ?_, fun b hcb => ?_, fun i hi => (h.head i hi).trans (store_head hi)⟩
  · rw [show kept f ((a, v) :: l) = kept f l by simp [kept, hf]]
    exact h.list
  · simp only [List.map_cons, List.mem_cons, not_or] at hb
    rw [h.node b hb.2 hcb, free_node_of_ne hb.1, store_node hcb]
  · have hba : b ≠ a := fun hba => hc b hcb (by simp [hba])
    rw [h.val b hcb, free_node_of_ne hba, store_val]

/-- **A sweep does its work**: it ends, the nodes that `f` rewrites stay in order, the values
of the others come out in order, and nothing else has changed. -/
theorem sweep_ok (hload : m.load c = some p) (hlist : IsList m p l) (hnodup : (l.map Prod.fst).Nodup)
    (hc : ∀ b, c = .next b → b ∉ l.map Prod.fst) {fuel : Nat} (hfuel : l.length < fuel) :
    ∃ m', sweep f fuel c m = some (m', gone f l) ∧ Swept f l c m m' := by
  induction l generalizing m p c fuel with
  | nil =>
    obtain ⟨k, rfl⟩ := Nat.exists_eq_succ_of_ne_zero (Nat.pos_iff_ne_zero.mp hfuel)
    obtain rfl : p = none := hlist
    refine ⟨m, ?_, ⟨none, hload, rfl⟩, fun _ _ _ => rfl, fun _ _ => rfl, fun _ _ => rfl⟩
    simp [sweep, hload, gone]
  | cons x rest ih =>
    obtain ⟨a, v⟩ := x
    obtain ⟨k, rfl⟩ := Nat.exists_eq_succ_of_ne_zero (Nat.ne_of_gt (Nat.zero_lt_of_lt hfuel))
    obtain ⟨rfl, q, hq, hrest⟩ := hlist
    rw [List.map_cons] at hc hnodup
    obtain ⟨ha, hnodup⟩ := List.nodup_cons.mp hnodup
    have hlen : rest.length < k := Nat.lt_of_succ_lt_succ hfuel
    cases hf : f v with
    | some x =>
      have hmod : ∀ b ∈ rest.map Prod.fst, (m.modify a fun n => {n with val := x}).node b = m.node b := by
        intro b hb
        have hba : b ≠ a := by
          rintro rfl
          exact ha hb
        exact modify_node_of_ne hba m _
      obtain ⟨m', hs, hswept⟩ := ih (m := m.modify a fun n => {n with val := x}) (c := .next a) (p := q)
        (by simp [Memory.load, modify_node, hq]) (hrest.congr hmod) hnodup
        (by rintro b ⟨⟩; exact ha) hlen
      refine ⟨m', ?_, hswept.stays hload hq hf hc⟩
      simp only [sweep, hload, hq, hf, hs, gone, List.filter_cons, Option.isNone_some, Bool.false_eq_true,
        if_false]
    | none =>
      have hkeep : ∀ b ∈ rest.map Prod.fst, ((m.store c q).free a).node b = m.node b := by
        intro b hb
        have hba : b ≠ a := by
          rintro rfl
          exact ha hb
        have hcb : c ≠ .next b := fun hcb => hc b hcb (List.mem_cons_of_mem a hb)
        rw [free_node_of_ne hba, store_node hcb]
      have hload' : ((m.store c q).free a).load c = some q := by
        have hsame : ((m.store c q).free a).load c = (m.store c q).load c :=
          load_congr (fun _ _ => rfl) fun b hb =>
            free_node_of_ne (fun hba => hc b hb (by simp [hba])) _
        rw [hsame, store_load hload]
      obtain ⟨m', hs, hswept⟩ := ih hload' (hrest.congr hkeep) hnodup
        (fun b hb hmem => hc b hb (List.mem_cons_of_mem a hmem)) hlen
      refine ⟨m', ?_, hswept.goes hf hc⟩
      simp [sweep, hload, hq, hf, hs, gone]

/-! ### The lists of a memory -/

/-- The memory has the list `lists i` at its `i`-th head; no node is in two of them. -/
structure Holds (m : Memory β) (lists : Nat → List (Nat × β)) : Prop where
  list : ∀ i, IsList m (m.head i) (lists i)
  nodup : ∀ i, ((lists i).map Prod.fst).Nodup
  apart : ∀ i j a, a ∈ (lists i).map Prod.fst → a ∈ (lists j).map Prod.fst → i = j

variable {lists : Nat → List (Nat × β)}

/-- There are no more nodes in a list than addresses. -/
theorem Holds.length_le (h : Holds m lists) (i : Nat) : (lists i).length ≤ m.bound := by
  have hsub : (lists i).map Prod.fst ⊆ List.range m.bound := by
    intro a ha
    rw [List.mem_range]
    by_contra hle
    exact (h.list i).allocated ha (m.unused a (Nat.not_lt.mp hle))
  simpa using (List.subperm_of_subset (h.nodup i) hsub).length_le

theorem Holds.push (h : Holds m lists) (i : Nat) {a : Nat} (ha : m.node a = none) (v : β) :
    Holds (m.push i a v) (Function.update lists i ((a, v) :: lists i)) := by
  have hfresh : ∀ j, a ∉ (lists j).map Prod.fst := fun j hj => (h.list j).allocated hj ha
  have hsame : ∀ j, ∀ b ∈ (lists j).map Prod.fst, (m.push i a v).node b = m.node b := by
    intro j b hb
    have hba : b ≠ a := by
      rintro rfl
      exact hfresh j hb
    exact push_node_of_ne hba m i v
  have hmem : ∀ j b, b ∈ (Function.update lists i ((a, v) :: lists i) j).map Prod.fst →
      (b = a ∧ j = i) ∨ b ∈ (lists j).map Prod.fst := by
    intro j b hb
    by_cases hj : j = i
    · subst hj
      rw [Function.update_self, List.map_cons, List.mem_cons] at hb
      exact hb.imp (fun hb => ⟨hb, rfl⟩) id
    · rw [Function.update_of_ne hj] at hb
      exact .inr hb
  refine ⟨fun j => ?_, fun j => ?_, fun j k b hj hk => ?_⟩
  · by_cases hj : j = i
    · subst hj
      rw [Function.update_self]
      exact ⟨push_head m j a v, m.head j, push_node m j a v, (h.list j).congr (hsame j)⟩
    · rw [Function.update_of_ne hj, push_head_of_ne hj]
      exact (h.list j).congr (hsame j)
  · by_cases hj : j = i
    · subst hj
      rw [Function.update_self]
      exact List.nodup_cons.mpr ⟨hfresh j, h.nodup j⟩
    · rw [Function.update_of_ne hj]
      exact h.nodup j
  · rcases hmem j b hj with ⟨rfl, rfl⟩ | hj <;> rcases hmem k b hk with ⟨hb, hki⟩ | hk
    · exact hki.symm
    · exact absurd hk (hfresh k)
    · exact absurd (hb ▸ hj) (hfresh j)
    · exact h.apart j k b hj hk

/-- A sweep from a head, with fuel for every address. -/
theorem Holds.sweep (h : Holds m lists) (f : β → Option β) (i : Nat) :
    ∃ m', Chain.sweep f (m.bound + 1) (.head i) m = some (m', gone f (lists i)) ∧
      Holds m' (Function.update lists i (kept f (lists i))) := by
  obtain ⟨m', hs, hswept⟩ := sweep_ok (f := f) (c := .head i) rfl (h.list i) (h.nodup i)
    (by rintro b ⟨⟩) (Nat.lt_succ_of_le (h.length_le i))
  have hmem : ∀ j b, b ∈ (Function.update lists i (kept f (lists i)) j).map Prod.fst →
      b ∈ (lists j).map Prod.fst := by
    intro j b hb
    by_cases hj : j = i
    · subst hj
      rw [Function.update_self] at hb
      exact (kept_sublist f (lists j)).subset hb
    · rw [Function.update_of_ne hj] at hb
      exact hb
  refine ⟨m', hs, fun j => ?_, fun j => ?_, fun j k b hj hk => h.apart j k b (hmem j b hj) (hmem k b hk)⟩
  · by_cases hj : j = i
    · subst hj
      rw [Function.update_self]
      obtain ⟨p, hp, hlist⟩ := hswept.list
      rw [Option.some.inj hp]
      exact hlist
    · rw [Function.update_of_ne hj, hswept.head j (by rintro ⟨⟩; exact hj rfl)]
      refine (h.list j).congr fun b hb => hswept.node b (fun hbi => ?_) (by rintro ⟨⟩)
      exact hj (h.apart j i b hb hbi)
  · by_cases hj : j = i
    · subst hj
      rw [Function.update_self]
      exact (h.nodup j).sublist (kept_sublist f (lists j))
    · rw [Function.update_of_ne hj]
      exact h.nodup j

end UthreadRuntime.Chain
