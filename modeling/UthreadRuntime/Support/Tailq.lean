import Mathlib.Data.List.Nodup
import Mathlib.Logic.Function.Basic

/-! The tail queues of `sys/queue.h`, in memory.

A queue has a head, and every record that can be queued an entry. Both are two words: where the
next record is, and the address of the place where a pointer to a record is kept. The macros write
through these addresses, so an entry that is inserted while it is queued changes what stands before
it. `Represents` says which lists the queues are; it holds after an operation as long as nothing is
inserted that is in a queue already. -/
namespace UthreadRuntime.Tailq

/-- Where a pointer to a record is kept: `tqh_first` of a head, or `tqe_next` of a record. -/
inductive Place (ι α : Type) where
  | head (i : ι)
  | entry (x : α)
  deriving DecidableEq, Repr

/-- `TAILQ_HEAD` and `TAILQ_ENTRY`, which are laid out alike: `tqh_first` and `tqh_last`, or `tqe_next`
and `tqe_prev`. -/
@[ext] structure Cell (ι α : Type) where
  next : Option α
  prev : Option (Place ι α)
  deriving DecidableEq, Repr

/-- The heads, and the field of every record. -/
structure Queues (ι α : Type) where
  cell : Place ι α → Cell ι α

variable {ι α : Type}

namespace Queues

/-- Heads after `TAILQ_INIT`, and records that `calloc` has cleared. -/
def empty : Queues ι α where
  cell
    | .head i => ⟨none, some (.head i)⟩
    | .entry _ => ⟨none, none⟩

/-- `TAILQ_FIRST` -/
def first (m : Queues ι α) (i : ι) : Option α := (m.cell (.head i)).next

/-- `TAILQ_EMPTY` -/
def isEmpty (m : Queues ι α) (i : ι) : Bool := (m.first i).isNone

/-- `TAILQ_LAST`, `*(((struct headname *)((head)->tqh_last))->tqh_last)`: the entry of the last record
is read as if it were a head. It fails where a null pointer is followed. -/
def last (m : Queues ι α) (i : ι) : Option (Option α) := do
  let e ← (m.cell (.head i)).prev
  let d ← (m.cell e).prev
  some (m.cell d).next

section Write
variable [DecidableEq ι] [DecidableEq α]

def setNext (m : Queues ι α) (d : Place ι α) (x : Option α) : Queues ι α :=
  ⟨Function.update m.cell d {m.cell d with next := x}⟩

def setPrev (m : Queues ι α) (d : Place ι α) (e : Option (Place ι α)) : Queues ι α :=
  ⟨Function.update m.cell d {m.cell d with prev := e}⟩

/-- `TAILQ_INSERT_TAIL` -/
def insertTail (m : Queues ι α) (i : ι) (x : α) : Option (Queues ι α) := do
  let m := m.setNext (.entry x) none
  let m := m.setPrev (.entry x) (m.cell (.head i)).prev
  let e ← (m.cell (.head i)).prev
  let m := m.setNext e (some x)
  some (m.setPrev (.head i) (some (.entry x)))

/-- `TAILQ_REMOVE` -/
def remove (m : Queues ι α) (i : ι) (x : α) : Option (Queues ι α) := do
  let m := match (m.cell (.entry x)).next with
    | some y => m.setPrev (.entry y) (m.cell (.entry x)).prev
    | none => m.setPrev (.head i) (m.cell (.entry x)).prev
  let e ← (m.cell (.entry x)).prev
  some (m.setNext e (m.cell (.entry x)).next)

variable (m : Queues ι α) (d e : Place ι α) (x : Option α) (p : Option (Place ι α))

@[simp] theorem setNext_next : ((m.setNext d x).cell e).next = if e = d then x else (m.cell e).next := by
  unfold setNext
  by_cases h : e = d
  · subst h
    simp
  · simp [h]

@[simp] theorem setNext_prev : ((m.setNext d x).cell e).prev = (m.cell e).prev := by
  unfold setNext
  by_cases h : e = d
  · subst h
    simp
  · simp [h]

@[simp] theorem setPrev_next : ((m.setPrev d p).cell e).next = (m.cell e).next := by
  unfold setPrev
  by_cases h : e = d
  · subst h
    simp
  · simp [h]

@[simp] theorem setPrev_prev : ((m.setPrev d p).cell e).prev = if e = d then p else (m.cell e).prev := by
  unfold setPrev
  by_cases h : e = d
  · subst h
    simp
  · simp [h]

end Write

/-! ### What a queue in memory is -/

/-- From the place on, the records are linked one behind the other, each knowing where the
pointer to it is kept. -/
def Linked (m : Queues ι α) : Place ι α → List α → Prop
  | d, [] => (m.cell d).next = none
  | d, x :: l => (m.cell d).next = some x ∧ (m.cell (.entry x)).prev = some d ∧ Linked m (.entry x) l

end Queues

/-- The place behind the last record. -/
def Place.after : Place ι α → List α → Place ι α
  | d, [] => d
  | _, x :: l => Place.after (.entry x) l

theorem Place.after_concat (d : Place ι α) (l : List α) (x : α) : d.after (l ++ [x]) = .entry x := by
  induction l generalizing d with
  | nil => rfl
  | cons y l ih => exact ih (.entry y)

theorem Place.after_eq (d : Place ι α) (l : List α) : d.after l = d ∧ l = [] ∨ ∃ y ∈ l, d.after l = .entry y := by
  rcases List.eq_nil_or_concat l with rfl | ⟨l', x, rfl⟩
  · exact .inl ⟨rfl, rfl⟩
  · rw [List.concat_eq_append]
    exact .inr ⟨x, List.mem_append_right l' (List.mem_singleton_self x), Place.after_concat d l' x⟩

namespace Queues

variable {m m' : Queues ι α} {d : Place ι α} {l : List α} {i : ι} {x : α}

/-- Only the pointer at the place and the entries of the linked records count. -/
theorem Linked.congr (h : m.Linked d l) (hd : (m'.cell d).next = (m.cell d).next)
    (hl : ∀ y ∈ l, m'.cell (.entry y) = m.cell (.entry y)) : m'.Linked d l := by
  induction l generalizing d with
  | nil => exact hd.trans h
  | cons y l ih =>
    obtain ⟨hnext, hprev, htail⟩ := h
    have hy := hl y List.mem_cons_self
    refine ⟨hd.trans hnext, by rw [hy]; exact hprev, ih htail (by rw [hy]) fun z hz => ?_⟩
    exact hl z (List.mem_cons_of_mem y hz)

/-- A record is linked behind the last one. -/
theorem Linked.concat (h : m.Linked d l) (hnd : l.Nodup) (hd : ∀ y ∈ l, d ≠ .entry y)
    (hlast : (m'.cell (d.after l)).next = some x) (hprev : (m'.cell (.entry x)).prev = some (d.after l))
    (hnext : (m'.cell (.entry x)).next = none)
    (hkeep : ∀ e, e = d ∨ (∃ y ∈ l, e = .entry y) → e ≠ d.after l → (m'.cell e).next = (m.cell e).next)
    (hprevs : ∀ y ∈ l, (m'.cell (.entry y)).prev = (m.cell (.entry y)).prev) : m'.Linked d (l ++ [x]) := by
  induction l generalizing d with
  | nil => exact ⟨hlast, hprev, hnext⟩
  | cons y l ih =>
    obtain ⟨hdy, hyd, htail⟩ := h
    have hy : y ∈ y :: l := List.mem_cons_self
    rw [List.nodup_cons] at hnd
    have hdlast : d ≠ d.after (y :: l) := by
      obtain ⟨-, hnil⟩ | ⟨z, hz, he⟩ := Place.after_eq d (y :: l)
      · cases hnil
      · exact fun h => hd z hz (h.trans he)
    refine ⟨(hkeep d (.inl rfl) hdlast).trans hdy, (hprevs y hy).trans hyd, ?_⟩
    refine ih htail hnd.2 (fun z hz he => ?_) hlast hprev (fun e he hne => ?_) fun z hz => ?_
    · exact hnd.1 (by rwa [Place.entry.inj he])
    · refine hkeep e ?_ hne
      rcases he with rfl | ⟨z, hz, rfl⟩
      · exact .inr ⟨y, hy, rfl⟩
      · exact .inr ⟨z, List.mem_cons_of_mem y hz, rfl⟩
    · exact hprevs z (List.mem_cons_of_mem y hz)

/-- The head refers to the list: its records are linked from the head on, and it knows the place
behind the last one. -/
structure Holds (m : Queues ι α) (i : ι) (l : List α) : Prop where
  nodup : l.Nodup
  linked : m.Linked (.head i) l
  last : (m.cell (.head i)).prev = some (Place.after (.head i) l)

/-- Every head refers to its list, and no record is in two of them. -/
structure Represents (m : Queues ι α) (l : ι → List α) : Prop where
  holds : ∀ i, m.Holds i (l i)
  apart : ∀ {i j x}, x ∈ l i → x ∈ l j → i = j

theorem represents_empty : (empty : Queues ι α).Represents fun _ => [] :=
  ⟨fun _ => ⟨List.nodup_nil, rfl, rfl⟩, fun h => absurd h List.not_mem_nil⟩

theorem Holds.first (h : m.Holds i l) : m.first i = l.head? := by
  have hl := h.linked
  cases l with
  | nil => exact hl
  | cons x l => exact hl.1

theorem Holds.isEmpty (h : m.Holds i l) : m.isEmpty i = l.isEmpty := by
  unfold Queues.isEmpty
  rw [h.first]
  cases l <;> rfl

/-- What the last record knows: the place where the pointer to it is kept. -/
theorem Linked.prev_last (h : m.Linked d (l ++ [x])) :
    (m.cell (.entry x)).prev = some (d.after l) ∧ (m.cell (d.after l)).next = some x := by
  induction l generalizing d with
  | nil => exact ⟨h.2.1, h.1⟩
  | cons y l ih => exact ih h.2.2

theorem Holds.getLast? (h : m.Holds i l) : m.last i = some l.getLast? := by
  unfold Queues.last
  rw [h.last]
  rcases List.eq_nil_or_concat l with rfl | ⟨l', x, rfl⟩
  · have hnil : (m.cell (.head i)).next = none := h.linked
    simp only [Place.after, Option.bind_eq_bind, Option.bind_some, h.last, hnil, List.getLast?_nil]
  · rw [List.concat_eq_append] at *
    obtain ⟨hprev, hnext⟩ := h.linked.prev_last
    simp only [Place.after_concat, Option.bind_eq_bind, Option.bind_some, hprev, hnext, List.getLast?_concat]

section Write
variable [DecidableEq ι] [DecidableEq α] {ls : ι → List α}

omit [DecidableEq α] in
/-- The queue of one head is another, and the rest is as it was. -/
theorem Represents.put {l' : List α} (h : m.Represents ls) (hi : m'.Holds i l')
    (hnew : ∀ y ∈ l', y ∈ ls i ∨ ∀ j, y ∉ ls j) (hheads : ∀ j, j ≠ i → m'.cell (.head j) = m.cell (.head j))
    (hentries : ∀ j, j ≠ i → ∀ y ∈ ls j, m'.cell (.entry y) = m.cell (.entry y)) :
    m'.Represents (Function.update ls i l') := by
  have hclash : ∀ {j y}, j ≠ i → y ∈ ls j → y ∉ l' := by
    intro j y hj hy hy'
    rcases hnew y hy' with hy' | hy'
    · exact hj (h.apart hy hy')
    · exact hy' j hy
  refine ⟨fun j => ?_, fun {j k y} hy hy' => ?_⟩
  · by_cases hj : j = i
    · subst hj
      rwa [Function.update_self]
    · rw [Function.update_of_ne hj]
      have hold := h.holds j
      refine ⟨hold.nodup, hold.linked.congr ?_ (hentries j hj), ?_⟩
      · rw [hheads j hj]
      · rw [hheads j hj]
        exact hold.last
  · by_cases hj : j = i <;> by_cases hk : k = i
    · rw [hj, hk]
    · rw [hj, Function.update_self] at hy
      rw [Function.update_of_ne hk] at hy'
      exact absurd hy (hclash hk hy')
    · rw [hk, Function.update_self] at hy'
      rw [Function.update_of_ne hj] at hy
      exact absurd hy' (hclash hj hy)
    · rw [Function.update_of_ne hj] at hy
      rw [Function.update_of_ne hk] at hy'
      exact h.apart hy hy'

/-- What `TAILQ_INSERT_TAIL` leaves at every place, `e` being the one behind the last record. -/
theorem insertTail_eq {e : Place ι α} (he : (m.cell (.head i)).prev = some e) :
    ∃ m', m.insertTail i x = some m' ∧
      (∀ d, (m'.cell d).next = if d = e then some x else if d = .entry x then none else (m.cell d).next) ∧
      ∀ d, (m'.cell d).prev = if d = .head i then some (.entry x) else if d = .entry x then some e else
        (m.cell d).prev := by
  refine ⟨(((m.setNext (.entry x) none).setPrev (.entry x) (some e)).setNext e (some x)).setPrev (.head i)
    (some (.entry x)), ?_, fun d => ?_, fun d => ?_⟩
  · simp [Queues.insertTail, he]
  · simp
  · simp

/-- **A record that is in no queue goes to the tail.** -/
theorem Represents.insertTail (h : m.Represents ls) (hx : ∀ j, x ∉ ls j) :
    ∃ m', m.insertTail i x = some m' ∧ m'.Represents (Function.update ls i (ls i ++ [x])) := by
  have hi := h.holds i
  obtain ⟨m', hrun, hnext, hprev⟩ := insertTail_eq (x := x) hi.last
  have hkeep : ∀ {j y}, y ∈ ls j → Place.entry y ≠ (Place.entry x : Place ι α) :=
    fun hy hyx => hx _ (Place.entry.inj hyx ▸ hy)
  have hend := Place.after_eq (.head i) (ls i)
  have hex : Place.entry x ≠ Place.after (.head i) (ls i) := by
    rcases hend with ⟨ha, -⟩ | ⟨y, hy, ha⟩
    · rw [ha]
      nofun
    · rw [ha]
      exact (hkeep hy).symm
  have hcell : ∀ d, d ≠ Place.after (.head i) (ls i) → d ≠ .head i → d ≠ .entry x → m'.cell d = m.cell d := by
    intro d h₁ h₂ h₃
    exact Cell.ext (by rw [hnext, if_neg h₁, if_neg h₃]) (by rw [hprev, if_neg h₂, if_neg h₃])
  refine ⟨m', hrun, h.put ⟨?_, ?_, ?_⟩ (fun y hy => ?_) (fun j hj => ?_) fun j hj y hy => ?_⟩
  · refine List.nodup_append.mpr ⟨hi.nodup, List.nodup_singleton x, fun y hy z hz hyz => hx i ?_⟩
    rw [← List.mem_singleton.mp hz, ← hyz]
    exact hy
  · refine hi.linked.concat hi.nodup (fun _ _ => nofun) ?_ ?_ ?_ (fun d hd hne => ?_) fun y hy => ?_
    · rw [hnext, if_pos rfl]
    · rw [hprev, if_neg nofun, if_pos rfl]
    · rw [hnext, if_neg hex, if_pos rfl]
    · rw [hnext, if_neg hne, if_neg]
      rcases hd with rfl | ⟨y, hy, rfl⟩
      · nofun
      · exact hkeep hy
    · rw [hprev, if_neg nofun, if_neg (hkeep hy)]
  · rw [hprev, if_pos rfl, Place.after_concat]
  · rcases List.mem_append.mp hy with hy | hy
    · exact .inl hy
    · exact .inr (by rwa [List.mem_singleton.mp hy])
  · have hne : Place.head j ≠ (.head i : Place ι α) := fun he => hj (Place.head.inj he)
    refine hcell _ ?_ hne nofun
    rcases hend with ⟨ha, -⟩ | ⟨y, -, ha⟩
    · rw [ha]
      exact hne
    · rw [ha]
      nofun
  · refine hcell _ ?_ nofun (hkeep hy)
    rcases hend with ⟨ha, -⟩ | ⟨z, hz, ha⟩
    · rw [ha]
      nofun
    · rw [ha]
      exact fun hyz => hj (h.apart hy (Place.entry.inj hyz ▸ hz))

/-- **The first record is taken.** -/
theorem Represents.remove_first {rest : List α} (h : m.Represents ls) (hls : ls i = x :: rest) :
    ∃ m', m.remove i x = some m' ∧ m'.Represents (Function.update ls i rest) := by
  have hi := h.holds i
  rw [hls] at hi
  obtain ⟨hnd, ⟨-, hprev, hrest⟩, hlast⟩ := hi
  rw [List.nodup_cons] at hnd
  have hother : ∀ j, j ≠ i → ∀ y ∈ ls j, y ∉ x :: rest := by
    intro j hj y hy hyi
    rw [← hls] at hyi
    exact hj (h.apart hy hyi)
  cases rest with
  | nil =>
    have hnext : (m.cell (.entry x)).next = none := hrest
    have hrun : m.remove i x = some ((m.setPrev (.head i) (some (.head i))).setNext (.head i) none) := by
      simp [Queues.remove, hnext, hprev]
    refine ⟨_, hrun, h.put ⟨List.nodup_nil, ?_, ?_⟩ nofun (fun j hj => ?_) fun j hj y hy => ?_⟩
    · show ((_ : Queues ι α).cell _).next = none
      rw [setNext_next, if_pos rfl]
    · rw [setNext_prev, setPrev_prev, if_pos rfl]
      rfl
    · have hne : Place.head j ≠ (.head i : Place ι α) := fun he => hj (Place.head.inj he)
      exact Cell.ext (by rw [setNext_next, if_neg hne, setPrev_next])
        (by rw [setNext_prev, setPrev_prev, if_neg hne])
    · exact Cell.ext (by rw [setNext_next, if_neg nofun, setPrev_next])
        (by rw [setNext_prev, setPrev_prev, if_neg nofun])
  | cons y rest =>
    have hnext : (m.cell (.entry x)).next = some y := hrest.1
    have hyx : Place.entry x ≠ (.entry y : Place ι α) := by
      intro he
      exact hnd.1 (Place.entry.inj he ▸ List.mem_cons_self)
    have hrun : m.remove i x = some ((m.setPrev (.entry y) (some (.head i))).setNext (.head i) (some y)) := by
      simp [Queues.remove, hnext, hprev, hyx]
    refine ⟨_, hrun, h.put ⟨hnd.2, ⟨?_, ?_, ?_⟩, ?_⟩ (fun z hz => .inl ?_) (fun j hj => ?_) fun j hj z hz => ?_⟩
    · rw [setNext_next, if_pos rfl]
    · rw [setNext_prev, setPrev_prev, if_pos rfl]
    · refine hrest.2.2.congr ?_ fun z hz => ?_
      · rw [setNext_next, if_neg nofun, setPrev_next]
      · have hzy : Place.entry z ≠ (.entry y : Place ι α) := by
          intro he
          exact (List.nodup_cons.mp hnd.2).1 (Place.entry.inj he ▸ hz)
        exact Cell.ext (by rw [setNext_next, if_neg nofun, setPrev_next])
          (by rw [setNext_prev, setPrev_prev, if_neg hzy])
    · rw [setNext_prev, setPrev_prev, if_neg nofun]
      exact hlast
    · rw [hls]
      exact List.mem_cons_of_mem x hz
    · have hne : Place.head j ≠ (.head i : Place ι α) := fun he => hj (Place.head.inj he)
      exact Cell.ext (by rw [setNext_next, if_neg hne, setPrev_next])
        (by rw [setNext_prev, setPrev_prev, if_neg nofun])
    · have hzy : Place.entry z ≠ (.entry y : Place ι α) := by
        intro he
        exact hother j hj z hz (Place.entry.inj he ▸ List.mem_cons_of_mem x List.mem_cons_self)
      exact Cell.ext (by rw [setNext_next, if_neg nofun, setPrev_next])
        (by rw [setNext_prev, setPrev_prev, if_neg hzy])

end Write

end Queues

end UthreadRuntime.Tailq
