import Mathlib.Data.List.Nodup
import UthreadRuntime.Model.Startup

/-! The stacks of the scheds.

A start-up that fails leaves the runtime's data as it was, but for lists that the next one
empties, and loses the stacks it was granted. The first that is granted all of them brings the
runtime to where the machine starts, and what it was granted is what `free_source` gives back. -/
namespace UthreadRuntime

namespace Startup

/-- The allocator grants all the stacks of a start-up. -/
def Complete (calloc : Nat → Bool) : Prop := ∀ i ∈ List.range maxProcs, calloc i = true

instance (calloc : Nat → Bool) : Decidable (Complete calloc) :=
  inferInstanceAs (Decidable (∀ i ∈ List.range maxProcs, calloc i = true))

/-- The stacks a start-up was granted before one was refused. -/
def granted (calloc : Nat → Bool) : Nat := ((List.range maxProcs).takeWhile calloc).length

/-- The stacks granted to the start-ups that failed before the first complete one. -/
def lost : List (Nat → Bool) → Nat
  | [] => 0
  | calloc :: rest => if Complete calloc then 0 else granted calloc + lost rest

/-- No start-up has come to its end. -/
structure Unstarted (g : Startup) : Prop where
  rt : g.rt = {schedIdle := g.rt.schedIdle}
  key : g.key = none
  wheels : g.wheels = 0
  freed : g.freed = []
  stack : ∀ a, maxProcs ≤ a → g.stack a = none

/-- A start-up has, with the stacks from block `b` on. -/
structure Started (b : Nat) (g : Startup) : Prop where
  rt : g.rt = UthreadRuntime.runtimeInit
  key : g.key = some 0
  wheels : g.wheels = 1
  freed : g.freed = []
  blocks : g.blocks = b + maxProcs
  withStack : g.schedWithStack = List.range maxProcs
  stack : ∀ a, g.stack a = if a < maxProcs then some (b + a) else none

section Loop

variable {g : Startup} {calloc : Nat → Bool}

theorem Unstarted.initial : Unstarted {} := ⟨rfl, rfl, rfl, rfl, fun _ _ => rfl⟩

theorem Unstarted.initGlobal (h : Unstarted g) : Unstarted g.initGlobal := by
  refine ⟨?_, h.key, h.wheels, h.freed, h.stack⟩
  unfold Startup.initGlobal
  rw [h.rt]

theorem Unstarted.initSched (h : Unstarted g) {i : Nat} (hi : i < maxProcs) : Unstarted (g.initSched i) := by
  refine ⟨?_, h.key, h.wheels, h.freed, fun a ha => ?_⟩
  · unfold Startup.initSched
    rw [h.rt]
    simp only [State.mk.injEq, true_and, and_true]
    exact Function.update_eq_self i _
  · have hne : a ≠ i := by
      rintro rfl
      exact absurd hi (Nat.not_lt.mpr ha)
    unfold Startup.initSched
    dsimp only
    rw [Function.update_of_ne hne]
    exact h.stack a ha

/-- A loop that is granted all it asks for. -/
theorem initScheds_complete {l : List Nat} (h : ∀ i ∈ l, calloc i = true) :
    initScheds calloc l g = (l.foldl (fun g i => g.initSched i) g, true) := by
  induction l generalizing g with
  | nil => rfl
  | cons i rest ih =>
    unfold initScheds
    rw [if_pos (h i List.mem_cons_self)]
    exact ih fun j hj => h j (List.mem_cons_of_mem i hj)

/-- A loop that is not has lost the stacks it was granted. -/
theorem Unstarted.initScheds_fails (h : Unstarted g) {l : List Nat} (hl : ∀ i ∈ l, i < maxProcs)
    (hno : ¬∀ i ∈ l, calloc i = true) : (initScheds calloc l g).2 = false ∧
      Unstarted (initScheds calloc l g).1 ∧
      (initScheds calloc l g).1.blocks = g.blocks + (l.takeWhile calloc).length := by
  induction l generalizing g with
  | nil => exact absurd (by simp) hno
  | cons i rest ih =>
    unfold initScheds
    cases hc : calloc i with
    | true =>
      rw [if_pos rfl, List.takeWhile_cons_of_pos hc]
      have hrest : ¬∀ j ∈ rest, calloc j = true := by
        intro hall
        refine hno fun j hj => ?_
        rcases List.mem_cons.mp hj with rfl | hj
        · exact hc
        · exact hall j hj
      obtain ⟨h1, h2, h3⟩ := ih (h.initSched (hl i List.mem_cons_self))
        (fun j hj => hl j (List.mem_cons_of_mem i hj)) hrest
      refine ⟨h1, h2, h3.trans ?_⟩
      show g.blocks + 1 + _ = g.blocks + (_ + 1)
      omega
    | false =>
      rw [if_neg (by simp), List.takeWhile_cons_of_neg (by simp [hc])]
      refine ⟨rfl, ⟨h.rt, h.key, h.wheels, h.freed, fun a ha => ?_⟩, rfl⟩
      show Function.update g.stack i none a = none
      rw [Function.update_apply, h.stack a ha, ite_self]

/-- What the loop has made after `n` turns. -/
structure Made (n : Nat) (g g' : Startup) : Prop where
  unstarted : Unstarted g'
  blocks : g'.blocks = g.blocks + n
  withStack : g'.schedWithStack = g.schedWithStack ++ List.range n
  idle : g'.rt.schedIdle = g.rt.schedIdle ++ List.range n
  pIdle : g'.pIdle = g.pIdle ++ List.range n
  stack : ∀ a, g'.stack a = if a < n then some (g.blocks + a) else g.stack a

theorem Unstarted.made (h : Unstarted g) {n : Nat} (hn : n ≤ maxProcs) :
    Made n g ((List.range n).foldl (fun g i => g.initSched i) g) := by
  induction n with
  | zero => exact ⟨h, rfl, (List.append_nil _).symm, (List.append_nil _).symm, (List.append_nil _).symm, by simp⟩
  | succ n ih =>
    rw [List.range_succ, List.foldl_append, List.foldl_cons, List.foldl_nil]
    generalize (List.range n).foldl (fun g i => g.initSched i) g = g' at ih
    obtain ⟨hun, hblocks, hwith, hidle, hp, hstack⟩ := ih (Nat.le_of_succ_le hn)
    refine ⟨hun.initSched hn, ?_, ?_, ?_, ?_, fun a => ?_⟩
    · show g'.blocks + 1 = _
      rw [hblocks, Nat.add_assoc]
    · show g'.schedWithStack ++ [n] = _
      rw [hwith, List.range_succ, List.append_assoc]
    · show g'.rt.schedIdle ++ [n] = _
      rw [hidle, List.range_succ, List.append_assoc]
    · show g'.pIdle ++ [n] = _
      rw [hp, List.range_succ, List.append_assoc]
    · show Function.update g'.stack n (some g'.blocks) a = _
      rw [Function.update_apply, hstack, hblocks]
      by_cases ha : a = n
      · rw [if_pos ha, ha, if_pos (Nat.lt_succ_self n)]
      · rw [if_neg ha]
        refine if_congr ?_ rfl rfl
        exact ⟨Nat.lt_succ_of_lt, fun hlt => Nat.lt_of_le_of_ne (Nat.le_of_lt_succ hlt) ha⟩

end Loop

/-! ### Start-ups -/

section Tries

variable {g : Startup} {calloc : Nat → Bool}

theorem Unstarted.fails (h : Unstarted g) (hno : ¬Complete calloc) :
    Unstarted (g.firstCreate calloc) ∧ (g.firstCreate calloc).blocks = g.blocks + granted calloc := by
  have hl : ∀ i ∈ List.range maxProcs, i < maxProcs := fun i hi => List.mem_range.mp hi
  obtain ⟨h1, h2, h3⟩ := h.initGlobal.initScheds_fails hl hno
  have heq : g.firstCreate calloc = (initScheds calloc (List.range maxProcs) g.initGlobal).1 := by
    unfold firstCreate Startup.runtimeInit
    rw [h.key]
    dsimp only [Option.isSome]
    rw [if_neg (by simp), h1, if_neg (by simp)]
  rw [heq]
  exact ⟨h2, h3⟩

/-- The start-up that is granted all its stacks brings the runtime to where the machine starts. -/
theorem Unstarted.starts (h : Unstarted g) (hc : Complete calloc) : Started g.blocks (g.firstCreate calloc) := by
  have hmade := h.initGlobal.made (Nat.le_refl maxProcs)
  have heq : g.firstCreate calloc =
      startFirst ((List.range maxProcs).foldl (fun g i => g.initSched i) g.initGlobal) := by
    unfold firstCreate Startup.runtimeInit
    rw [h.key]
    dsimp only [Option.isSome]
    rw [if_neg (by simp), initScheds_complete hc]
    rfl
  rw [heq]
  generalize (List.range maxProcs).foldl (fun g i => g.initSched i) g.initGlobal = g' at hmade
  obtain ⟨hun, hblocks, hwith, hidle, hp, hstack⟩ := hmade
  have hi : g'.rt.schedIdle = 0 :: [1, 2, 3] := hidle
  have hq : g'.pIdle = 0 :: [1, 2, 3] := hp
  have hfirst : startFirst g' = {g' with
      rt := {g'.rt with
        schedIdle := [1, 2, 3]
        sched := Function.update g'.rt.sched 0 {g'.rt.sched 0 with p := some 0, pc := .top}
        p := Function.update g'.rt.p 0 {g'.rt.p 0 with sched := some 0, interest := []}}
      pIdle := [1, 2, 3]
      key := some 0
      wheels := g'.wheels + 1} := by
    unfold startFirst
    rw [hi, hq]
  rw [hfirst]
  refine ⟨?_, rfl, by rw [hun.wheels], hun.freed, hblocks, hwith, fun a => ?_⟩
  · dsimp only
    rw [hun.rt]
    rfl
  · dsimp only
    rw [hstack]
    by_cases ha : a < maxProcs
    · rw [if_pos ha, if_pos ha]
      rfl
    · rw [if_neg ha, if_neg ha]
      exact h.stack a (Nat.le_of_not_lt ha)

theorem Started.stays {b : Nat} (h : Started b g) (l : List (Nat → Bool)) :
    l.foldl (fun g calloc => g.firstCreate calloc) g = g := by
  induction l with
  | nil => rfl
  | cons calloc rest ih =>
    have hsame : g.firstCreate calloc = g := by
      unfold firstCreate
      rw [h.key]
      rfl
    rw [List.foldl_cons, hsame]
    exact ih

/-- After any start-ups: none was complete, or one was. -/
theorem Unstarted.tries (h : Unstarted g) (l : List (Nat → Bool)) :
    ((∀ calloc ∈ l, ¬Complete calloc) ∧ Unstarted (l.foldl (fun g calloc => g.firstCreate calloc) g)) ∨
      ((∃ calloc ∈ l, Complete calloc) ∧
        Started (g.blocks + lost l) (l.foldl (fun g calloc => g.firstCreate calloc) g)) := by
  induction l generalizing g with
  | nil => exact .inl ⟨by simp, h⟩
  | cons calloc rest ih =>
    rw [List.foldl_cons]
    by_cases hc : Complete calloc
    · have hs := h.starts hc
      refine .inr ⟨⟨calloc, List.mem_cons_self, hc⟩, ?_⟩
      rw [hs.stays rest, lost, if_pos hc, Nat.add_zero]
      exact hs
    · obtain ⟨hun, hblocks⟩ := h.fails hc
      rcases ih hun with ⟨hnone, hu⟩ | ⟨⟨c, hmem, hcomplete⟩, hs⟩
      · refine .inl ⟨fun c hm => ?_, hu⟩
        rcases List.mem_cons.mp hm with rfl | hm
        · exact hc
        · exact hnone c hm
      · refine .inr ⟨⟨c, List.mem_cons_of_mem _ hmem, hcomplete⟩, ?_⟩
        rw [lost, if_neg hc, ← Nat.add_assoc, ← hblocks]
        exact hs

end Tries

/-- The runtime is at the start of the machine, and its stacks are given back at the end. -/
structure StartsOnce (l : List (Nat → Bool)) : Prop where
  init : uthreadCreateMain (tries l).rt = init
  timer : (tries l).wheels = 1
  freed : ∀ b, b ∈ (tries l).freeSource.freed ↔ ∃ a, (tries l).stack a = some b
  once : (tries l).freeSource.freed.Nodup
  lost : ∀ b < (tries l).blocks, b ∉ (tries l).freeSource.freed ↔ b < lost l

theorem Started.startsOnce {l : List (Nat → Bool)} (h : Started (Startup.lost l) (Startup.tries l)) : StartsOnce l := by
  have hfreed : (Startup.tries l).freeSource.freed = (List.range maxProcs).map (Startup.lost l + ·) := by
    show (Startup.tries l).freed ++ (Startup.tries l).schedWithStack.filterMap (Startup.tries l).stack = _
    rw [h.freed, h.withStack, List.nil_append, ← List.filterMap_eq_map]
    refine List.filterMap_congr fun a ha => ?_
    rw [h.stack, if_pos (List.mem_range.mp ha)]
    rfl
  have hmem : ∀ b, b ∈ (Startup.tries l).freeSource.freed ↔ ∃ a < maxProcs, Startup.lost l + a = b := by
    intro b
    rw [hfreed]
    simp only [List.mem_map, List.mem_range]
  constructor
  case init =>
    rw [h.rt]
    rfl
  case timer => exact h.wheels
  case freed =>
    intro b
    rw [hmem]
    refine exists_congr fun a => ?_
    rw [h.stack]
    by_cases ha : a < maxProcs
    · simp [ha]
    · simp [ha]
  case once =>
    rw [hfreed]
    exact List.Nodup.map (fun _ _ hac => Nat.add_left_cancel hac) List.nodup_range
  case lost =>
    intro b hb
    rw [h.blocks] at hb
    rw [hmem]
    constructor
    · intro hno
      by_contra hge
      exact hno ⟨b - Startup.lost l, by omega, by omega⟩
    · rintro hlt ⟨a, -, rfl⟩
      omega

/-- **Start-up can fail and be tried again.** It succeeds once the allocator grants one try all its
stacks, which leaves the runtime at the start of the machine. The stacks in use are given back
once each, and what is lost is what the failed tries were granted. -/
theorem startup_retried (l : List (Nat → Bool)) :
    ((tries l).key.isSome = true ↔ ∃ calloc ∈ l, Complete calloc) ∧
      ((tries l).key.isSome = true → StartsOnce l) := by
  rcases Unstarted.initial.tries l with ⟨hnone, hu⟩ | ⟨hsome, hs⟩
  · have hkey : (tries l).key = none := hu.key
    rw [hkey]
    refine ⟨iff_of_false (by simp) ?_, by simp⟩
    rintro ⟨c, hm, hc⟩
    exact hnone c hm hc
  · have hs' : Started (lost l) (tries l) := by
      have hz : ({} : Startup).blocks + lost l = lost l := Nat.zero_add _
      rw [← hz]
      exact hs
    rw [hs'.key]
    exact ⟨iff_of_true rfl hsome, fun _ => hs'.startsOnce⟩

/-- The third stack is refused, and then none. -/
theorem secondTry_starts : StartsOnce [fun i => i != 2, fun _ => true] ∧
    (tries [fun i => i != 2, fun _ => true]).freeSource.freed = [2, 3, 4, 5] :=
  ⟨(startup_retried _).2 (by decide), by decide⟩

end Startup

end UthreadRuntime
