import UthreadRuntime.Safety.Events

/-! The wait for events.

`_uthread_poll` asks how long the thread may be blocked, and calls `epoll_wait` only when
that is not zero and nobody is ready. -/
namespace UthreadRuntime

open State

/-! ### The timeout -/

/-- `w` is the smallest wake-up time in the tree. -/
def Earliest (s : State) (t : List UId) (w : Nat) : Prop :=
  (∃ u ∈ t, (s.ut u).wakeupTimeUsec = w) ∧ ∀ u ∈ t, w ≤ (s.ut u).wakeupTimeUsec

/-- A timeout that does not outlast the first sleeper, as seen at `now`. -/
def InTime (w now timeout : Nat) : Prop := if w ≤ now then timeout = 0 else timeout ≤ w - now

theorem Earliest.min {s : State} {t : List UId} {w : Nat} (h : Earliest s t w) :
    ∃ u, minSleeping s t = some u ∧ (s.ut u).wakeupTimeUsec = w := by
  obtain ⟨⟨v, hv, rfl⟩, hle⟩ := h
  cases hm : minSleeping s t with
  | none =>
    rw [Tree.min_eq_none hm] at hv
    cases hv
  | some u =>
    have hmin := Tree.min_le hm hv
    exact ⟨u, rfl, Nat.le_antisymm hmin (hle u (Tree.min_mem hm))⟩

theorem exists_earliest (s : State) {t : List UId} (h : t ≠ []) : ∃ w, Earliest s t w := by
  cases hm : minSleeping s t with
  | none => exact absurd (Tree.min_eq_none hm) h
  | some u =>
    refine ⟨(s.ut u).wakeupTimeUsec, ⟨u, Tree.min_mem hm, rfl⟩, fun v hv => ?_⟩
    have hle := Tree.min_le hm hv
    exact hle

theorem Earliest.ne_nil {s : State} {t : List UId} {w : Nat} (h : Earliest s t w) : t ≠ [] := by
  rintro rfl
  obtain ⟨⟨u, hu, -⟩, -⟩ := h
  cases hu

theorem Earliest.unique {s : State} {t : List UId} {w w' : Nat} (h : Earliest s t w) (h' : Earliest s t w') :
    w = w' := by
  obtain ⟨⟨u, hu, rfl⟩, hle⟩ := h
  obtain ⟨⟨v, hv, rfl⟩, hle'⟩ := h'
  exact Nat.le_antisymm (hle v hv) (hle' u hu)

/-- The difference in 64 bits is the difference, if that is not negative. -/
theorem sub_mod_of_le {w n : Nat} (hle : n ≤ w) (hw : w < 2 ^ 64) : (w + 2 ^ 64 - n) % 2 ^ 64 = w - n := by
  rw [show w + 2 ^ 64 - n = w - n + 2 ^ 64 by omega, Nat.add_mod_right]
  exact Nat.mod_eq_of_lt (by omega)

theorem uthreadMinTimeout_nil {s : State} {p : P} (h : p.sleeping = []) (n₁ n₂ : Nat) :
    uthreadMinTimeout s p n₁ n₂ = 1000000 := by
  unfold uthreadMinTimeout
  rw [h]
  rfl

theorem uthreadMinTimeout_earliest {s : State} {p : P} {w : Nat} (h : Earliest s p.sleeping w)
    (n₁ n₂ : Nat) :
    uthreadMinTimeout s p n₁ n₂ = if w > n₁ then (w + 2 ^ 64 - n₂) % 2 ^ 64 else 0 := by
  obtain ⟨u, hu, rfl⟩ := h.min
  unfold uthreadMinTimeout
  rw [hu]

/-- **The timeout is in time exactly when the first sleeper does not become due between the
two readings of the clock**; if it does, the difference wraps. -/
theorem minTimeout_inTime_iff (s : State) (p : P) {n₁ n₂ : Nat} (hle : n₁ ≤ n₂) (hn : n₂ < 2 ^ 64) :
    (p.sleeping = [] → uthreadMinTimeout s p n₁ n₂ = 1000000) ∧
    ∀ w < 2 ^ 64, Earliest s p.sleeping w →
      (InTime w n₁ (uthreadMinTimeout s p n₁ n₂) ↔ ¬(n₁ < w ∧ w < n₂)) := by
  refine ⟨fun h => uthreadMinTimeout_nil h n₁ n₂, fun w hw he => ?_⟩
  rw [uthreadMinTimeout_earliest he]
  unfold InTime
  by_cases hdue : w ≤ n₁
  · rw [if_pos hdue, if_neg (by omega)]
    exact iff_of_true rfl fun h => Nat.not_lt.mpr hdue h.1
  · rw [if_neg hdue, if_pos (by omega)]
    by_cases hwrap : w < n₂
    · -- the subtraction borrows from the 64th bit
      rw [Nat.mod_eq_of_lt (by omega)]
      constructor <;> omega
    · rw [sub_mod_of_le (Nat.not_lt.mp hwrap) hw]
      constructor <;> omega

/-- A state whose first uthread sleeps until `w`. -/
def oneSleeper (w : Nat) : State := {ut := fun _ => {wakeupTimeUsec := w}}

theorem oneSleeper_earliest (w : Nat) : Earliest (oneSleeper w) [0] w :=
  ⟨⟨0, List.mem_singleton.mpr rfl, rfl⟩, fun _ _ => Nat.le_refl w⟩

/-- The sleeper is due in five microseconds at the first reading and in three at the second. -/
theorem minTimeout_inTime_five :
    InTime 105 100 (uthreadMinTimeout (oneSleeper 105) {sleeping := [0]} 100 102) :=
  ((minTimeout_inTime_iff (oneSleeper 105) {sleeping := [0]} (by decide) (by decide)).2 105
    (by decide) (oneSleeper_earliest 105)).mpr (by decide)

/-- It becomes due between the readings: the thread would be blocked for 584,000 years. -/
theorem minTimeout_wraps :
    Earliest (oneSleeper 101) [0] 101 ∧
    uthreadMinTimeout (oneSleeper 101) {sleeping := [0]} 100 102 = 2 ^ 64 - 1 ∧
    ¬InTime 101 100 (uthreadMinTimeout (oneSleeper 101) {sleeping := [0]} 100 102) := by
  have hmin := uthreadMinTimeout_earliest (p := {sleeping := [0]}) (oneSleeper_earliest 101) 100 102
  refine ⟨oneSleeper_earliest 101, hmin, ?_⟩
  rw [hmin]
  unfold InTime
  decide

end UthreadRuntime
