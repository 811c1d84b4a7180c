import Mathlib.Data.Nat.Basic

/-! Flag words: one bit a flag, in a machine word of any width.

A flag is named by its bit index. `test`, `set` and `clear` are the C idioms
`w & BIT(i)`, `w |= BIT(i)` and `w &= ~BIT(i)`; the lemmas say what a flag reads
after another one was written, and are all that a proof about a flag word needs. -/
namespace UthreadRuntime.Flags

variable {n : Nat}

/-- The word whose only flag is `i`. -/
def bit (i : Nat) : BitVec n := 1#n <<< i

def test (w : BitVec n) (i : Nat) : Bool := (w &&& bit i) != 0#n

def set (w : BitVec n) (i : Nat) : BitVec n := w ||| bit i

def clear (w : BitVec n) (i : Nat) : BitVec n := w &&& ~~~bit i

theorem getLsbD_bit (i j : Nat) : (bit i : BitVec n).getLsbD j = (decide (j < n) && decide (i = j)) := by
  simp only [bit, BitVec.getLsbD_shiftLeft, BitVec.getLsbD_one]
  by_cases hj : j < n
  · by_cases h : i = j
    · subst h
      simp [hj, show 0 < n by omega]
    · by_cases hlt : j < i
      · simp [hlt, h]
      · simp [h, show j - i ≠ 0 by omega]
  · simp [hj]

/-- A flag inside the word is its bit. -/
theorem test_eq_getLsbD (w : BitVec n) (i : Nat) (hi : i < n) : test w i = w.getLsbD i := by
  unfold test
  cases h : w.getLsbD i
  · have hz : w &&& bit i = 0#n := by
      apply BitVec.eq_of_getLsbD_eq
      intro j hj
      rw [BitVec.getLsbD_and, getLsbD_bit, BitVec.getLsbD_zero]
      by_cases hij : i = j
      · subst hij
        simp [h]
      · simp [hij]
    simp [hz]
  · have hne : w &&& bit i ≠ 0#n := by
      intro hz
      have hb := congrArg (BitVec.getLsbD · i) hz
      simp only [BitVec.getLsbD_and, getLsbD_bit, BitVec.getLsbD_zero, h, hi] at hb
      simp at hb
    simpa using hne

theorem test_zero (i : Nat) : test (0#n) i = false := by
  simp [test]

theorem test_bit (i j : Nat) (hj : j < n) : test (bit i : BitVec n) j = decide (i = j) := by
  rw [test_eq_getLsbD _ _ hj, getLsbD_bit]
  simp [hj]

theorem test_set (w : BitVec n) (i j : Nat) (hj : j < n) :
    test (set w i) j = (decide (i = j) || test w j) := by
  rw [test_eq_getLsbD _ _ hj, test_eq_getLsbD _ _ hj, set, BitVec.getLsbD_or, getLsbD_bit]
  simp [hj, Bool.or_comm]

theorem test_clear (w : BitVec n) (i j : Nat) (hj : j < n) :
    test (clear w i) j = (!decide (i = j) && test w j) := by
  rw [test_eq_getLsbD _ _ hj, test_eq_getLsbD _ _ hj, clear, BitVec.getLsbD_and, BitVec.getLsbD_not,
    getLsbD_bit]
  simp [hj, Bool.and_comm]

end UthreadRuntime.Flags
