import Mathlib.Algebra.Group.Nat.Defs

/-! Byte memory of a 64-bit machine.

An address is a word and addresses wrap; a word is stored in eight bytes, a half word in
four, the low byte first. A region is given by its first address and its length. What a load reads after a
store is decided by whether the two regions meet: `load_store` for the same word,
`SameOn` and `Apart` for the rest. -/
namespace UthreadRuntime.Memory

abbrev Word := BitVec 64

abbrev Mem := Word → BitVec 8

/-- The address is one of the `n` from `a` on. -/
def Within (a : Word) (n : Nat) (x : Word) : Prop := (x - a).toNat < n

instance (a : Word) (n : Nat) (x : Word) : Decidable (Within a n x) :=
  inferInstanceAs (Decidable ((x - a).toNat < n))

/-- The low `n` bytes of `v` are put at `a`. -/
def put {w : Nat} (n : Nat) (m : Mem) (a : Word) (v : BitVec w) : Mem := fun x =>
  if Within a n x then v.extractLsb' (8 * (x - a).toNat) 8 else m x

def store (m : Mem) (a v : Word) : Mem := put 8 m a v

def store32 (m : Mem) (a : Word) (v : BitVec 32) : Mem := put 4 m a v

def load (m : Mem) (a : Word) : Word :=
  m (a + 7) ++ m (a + 6) ++ m (a + 5) ++ m (a + 4) ++ m (a + 3) ++ m (a + 2) ++ m (a + 1) ++ m a

/-- The region holds what it held. -/
def SameOn (a : Word) (n : Nat) (m m' : Mem) : Prop := ∀ x, Within a n x → m' x = m x

/-- The regions have no address in common. -/
def Apart (a : Word) (n : Nat) (b : Word) (k : Nat) : Prop := ∀ x, Within a n x → ¬Within b k x

variable {m m' m'' : Mem} {a b : Word} {n k : Nat}

theorem SameOn.refl (a : Word) (n : Nat) (m : Mem) : SameOn a n m m := fun _ _ => rfl

theorem SameOn.trans (h : SameOn a n m m') (h' : SameOn a n m' m'') : SameOn a n m m'' :=
  fun x hx => (h' x hx).trans (h x hx)

/-- The `i`-th address of a region. -/
theorem within_add {i : Nat} (hi : i < n) (hn : n ≤ 2 ^ 64) : Within a n (a + BitVec.ofNat 64 i) := by
  unfold Within
  rw [BitVec.add_comm, BitVec.add_sub_cancel, BitVec.toNat_ofNat, Nat.mod_eq_of_lt (by omega)]
  exact hi

/-- A word of the region lies in it. -/
theorem within_of_field {i : Nat} {x : Word} (hi : i + k ≤ n)
    (hx : Within (a + BitVec.ofNat 64 i) k x) : Within a n x := by
  unfold Within at hx ⊢
  have hsplit : x - a = (x - (a + BitVec.ofNat 64 i)) + BitVec.ofNat 64 i := by
    rw [← BitVec.sub_sub, BitVec.sub_add_cancel]
  rw [hsplit, BitVec.toNat_add, BitVec.toNat_ofNat]
  omega

theorem SameOn.field {i : Nat} (h : SameOn a n m m') (hi : i + k ≤ n) :
    SameOn (a + BitVec.ofNat 64 i) k m m' := fun x hx => h x (within_of_field hi hx)

theorem store_within {v x : Word} (h : Within a 8 x) :
    store m a v x = v.extractLsb' (8 * (x - a).toNat) 8 := if_pos h

/-- A store leaves alone what it does not meet. -/
theorem SameOn.put {w : Nat} (h : Apart a n b k) (v : BitVec w) : SameOn a n m (put k m b v) :=
  fun x hx => if_neg (h x hx)

theorem SameOn.store (h : Apart a n b 8) (v : Word) : SameOn a n m (store m b v) := SameOn.put h v

/-- What a load reads depends on the word alone. -/
theorem load_congr (h : SameOn a 8 m m') : load m' a = load m a := by
  have hbyte : ∀ i < 8, m' (a + BitVec.ofNat 64 i) = m (a + BitVec.ofNat 64 i) :=
    fun i hi => h _ (within_add hi (by decide))
  have hzero : m' a = m a := by simpa using hbyte 0 (by decide)
  unfold load
  rw [hzero, show m' (a + 1) = m (a + 1) from hbyte 1 (by decide),
    show m' (a + 2) = m (a + 2) from hbyte 2 (by decide),
    show m' (a + 3) = m (a + 3) from hbyte 3 (by decide),
    show m' (a + 4) = m (a + 4) from hbyte 4 (by decide),
    show m' (a + 5) = m (a + 5) from hbyte 5 (by decide),
    show m' (a + 6) = m (a + 6) from hbyte 6 (by decide),
    show m' (a + 7) = m (a + 7) from hbyte 7 (by decide)]

/-- A word is made of its bytes. -/
theorem bytes_append (v : Word) :
    (v.extractLsb' 56 8 ++ v.extractLsb' 48 8 ++ v.extractLsb' 40 8 ++ v.extractLsb' 32 8 ++
      v.extractLsb' 24 8 ++ v.extractLsb' 16 8 ++ v.extractLsb' 8 8 ++ v.extractLsb' 0 8 : BitVec 64) = v := by
  have hcat : ∀ i n, v.extractLsb' (i + 8) n ++ v.extractLsb' i 8 = v.extractLsb' i (n + 8) :=
    fun i n => BitVec.extractLsb'_append_extractLsb'_eq_extractLsb' rfl
  rw [hcat 48, hcat 40, hcat 32, hcat 24, hcat 16, hcat 8, hcat 0]
  exact BitVec.extractLsb'_eq_self

/-- A load reads the word that was stored. -/
@[simp] theorem load_store (m : Mem) (a v : Word) : load (store m a v) a = v := by
  have hbyte : ∀ i < 8, store m a v (a + BitVec.ofNat 64 i) = v.extractLsb' (8 * i) 8 := by
    intro i hi
    rw [store_within (within_add hi (by decide)), BitVec.add_comm, BitVec.add_sub_cancel,
      BitVec.toNat_ofNat, Nat.mod_eq_of_lt (by omega)]
  have hzero : store m a v a = v.extractLsb' 0 8 := by simpa using hbyte 0 (by decide)
  unfold load
  rw [hzero, show store m a v (a + 1) = v.extractLsb' 8 8 from hbyte 1 (by decide),
    show store m a v (a + 2) = v.extractLsb' 16 8 from hbyte 2 (by decide),
    show store m a v (a + 3) = v.extractLsb' 24 8 from hbyte 3 (by decide),
    show store m a v (a + 4) = v.extractLsb' 32 8 from hbyte 4 (by decide),
    show store m a v (a + 5) = v.extractLsb' 40 8 from hbyte 5 (by decide),
    show store m a v (a + 6) = v.extractLsb' 48 8 from hbyte 6 (by decide),
    show store m a v (a + 7) = v.extractLsb' 56 8 from hbyte 7 (by decide)]
  exact bytes_append v

/-- Regions that begin far enough from each other do not meet. -/
theorem Apart.of_le (h : n ≤ (b - a).toNat) (h' : k ≤ (a - b).toNat) : Apart a n b k := by
  intro x hx hx'
  unfold Within at hx hx'
  have hba : b - a = (x - a) - (x - b) := by bv_omega
  have hab : a - b = (x - b) - (x - a) := by bv_omega
  rw [hba, BitVec.toNat_sub] at h
  rw [hab, BitVec.toNat_sub] at h'
  have h1 := (x - a).isLt
  have h2 := (x - b).isLt
  omega

/-- Two fields of one record do not meet. -/
theorem Apart.fields {i j : Nat} (a : Word) (h : i + n ≤ j ∨ j + k ≤ i) (hi : i + n ≤ 2 ^ 64)
    (hj : j + k ≤ 2 ^ 64) : Apart (a + BitVec.ofNat 64 i) n (a + BitVec.ofNat 64 j) k := by
  intro x hx hx'
  unfold Within at hx hx'
  have hsplit : ∀ d, x - (a + BitVec.ofNat 64 d) = (x - a) - BitVec.ofNat 64 d := fun d => (BitVec.sub_sub _ _ _).symm
  rw [hsplit, BitVec.toNat_sub, BitVec.toNat_ofNat] at hx hx'
  have hlt := (x - a).isLt
  omega

theorem load_store_field (m : Mem) (a v : Word) {i j : Nat} (h : i + 8 ≤ j ∨ j + 8 ≤ i)
    (hi : i + 8 ≤ 2 ^ 64) (hj : j + 8 ≤ 2 ^ 64) :
    load (store m (a + BitVec.ofNat 64 j) v) (a + BitVec.ofNat 64 i) = load m (a + BitVec.ofNat 64 i) :=
  load_congr (SameOn.store (Apart.fields a h hi hj) v)

end UthreadRuntime.Memory
