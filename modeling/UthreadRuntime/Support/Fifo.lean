import Mathlib.Data.List.Infix
import Mathlib.Data.List.Nodup

/-! What goes through a queue.

Elements are taken at the head and put at the tail, in any order. A `Flow` keeps both
sequences, and one equation says what it has made of the queue it started from. Whatever was
put meanwhile, the elements come out in the order they were in. -/
namespace UthreadRuntime.Fifo

variable {α : Type}

/-- The elements taken at the head of a queue and those put at its tail. -/
structure Flow (α : Type) where
  taken : List α := []
  put : List α := []

/-- The flow has made `l'` of the queue `l`. -/
def Flow.Carries (g : Flow α) (l l' : List α) : Prop := l ++ g.put = g.taken ++ l'

variable {g : Flow α} {l m m' rest : List α} {u : α}

theorem Flow.Carries.start (l : List α) : Flow.Carries {} l l := List.append_nil l

theorem Flow.Carries.take (h : g.Carries l (u :: rest)) :
    Flow.Carries {g with taken := g.taken ++ [u]} l rest := by
  unfold Flow.Carries at *
  rw [h, List.append_assoc, List.singleton_append]

/-- A queue that grows does so at its tail. -/
theorem Flow.Carries.grow (h : g.Carries l m) (hm : m <+: m') :
    Flow.Carries {g with put := g.put ++ m'.drop m.length} l m' := by
  obtain ⟨t, rfl⟩ := hm
  unfold Flow.Carries at *
  rw [List.drop_left, ← List.append_assoc, h, List.append_assoc]

/-- The first elements that are taken are those that were there, in their order. -/
theorem Flow.Carries.taken_isPrefix (h : g.Carries l m) (hlen : g.taken.length ≤ l.length) :
    g.taken <+: l :=
  List.prefix_of_prefix_length_le ⟨m, h.symm⟩ (List.prefix_append l g.put) hlen

theorem Flow.Carries.taken_all (h : g.Carries l m) (hlen : g.taken.length = l.length) :
    g.taken = l ∧ m = g.put := by
  obtain ⟨h₁, h₂⟩ := List.append_inj h hlen.symm
  exact ⟨h₁.symm, h₂.symm⟩

/-- A queue that has run empty has given all its elements. -/
theorem Flow.Carries.length_le (h : g.Carries l []) : l.length ≤ g.taken.length := by
  unfold Flow.Carries at h
  rw [List.append_nil] at h
  rw [← h, List.length_append]
  exact Nat.le_add_right _ _

/-- The last element of the queue comes out last, so it can be told that all have been taken. -/
theorem Flow.Carries.last_iff (h : g.Carries l m) (hnd : l.Nodup) (hlen : g.taken.length ≤ l.length)
    (hu : g.taken.getLast? = some u) : l.getLast? = some u ↔ g.taken.length = l.length := by
  constructor
  · intro hl
    obtain ⟨t, ht⟩ := h.taken_isPrefix hlen
    rcases List.eq_nil_or_concat t with rfl | ⟨t', v, rfl⟩
    · rw [← ht, List.append_nil]
    · -- the element would be both among those taken and the last of those that are not
      have hv : v = u := by
        rw [← ht, List.concat_eq_append, ← List.append_assoc, List.getLast?_concat] at hl
        exact Option.some.inj hl
      rw [← ht, List.concat_eq_append, hv] at hnd
      have hmem : u ∈ g.taken := List.mem_of_getLast? hu
      exact absurd rfl ((List.nodup_append.mp hnd).2.2 u hmem u (List.mem_append_right t' (List.mem_singleton_self u)))
  · intro hl
    rw [← (h.taken_all hl).1]
    exact hu

end UthreadRuntime.Fifo
