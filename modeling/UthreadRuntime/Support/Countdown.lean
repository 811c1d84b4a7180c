import Mathlib.Data.Multiset.Filter

/-! Items that are counted down.

Each item has a number of ticks left; a tick takes out the items that have none and takes
one from the others. Nothing links an item to another, so what comes out with an item added
is what comes out without it, and the item (`outs_add`). -/
namespace UthreadRuntime.Countdown

variable {α : Type}

inductive Op (α : Type) where
  | add (len : Nat) (x : α)
  | tick
  deriving DecidableEq, Repr

/-- What the next tick takes out. -/
def due (m : Multiset (Nat × α)) : Multiset α := (m.filter fun x => x.1 = 0).map Prod.snd

/-- What it leaves. -/
def turned (m : Multiset (Nat × α)) : Multiset (Nat × α) :=
  (m.filter fun x => x.1 ≠ 0).map fun x => (x.1 - 1, x.2)

def after (m : Multiset (Nat × α)) : List (Op α) → Multiset (Nat × α)
  | [] => m
  | .add len x :: ops => after ((len, x) ::ₘ m) ops
  | .tick :: ops => after (turned m) ops

/-- What each tick takes out, in turn. -/
def outs (m : Multiset (Nat × α)) : List (Op α) → List (Multiset α)
  | [] => []
  | .add len x :: ops => outs ((len, x) ::ₘ m) ops
  | .tick :: ops => due m :: outs (turned m) ops

def ticks : List (Op α) → Nat
  | [] => 0
  | .add _ _ :: ops => ticks ops
  | .tick :: ops => ticks ops + 1

@[simp] theorem due_zero : due (0 : Multiset (Nat × α)) = 0 := rfl

@[simp] theorem turned_zero : turned (0 : Multiset (Nat × α)) = 0 := rfl

theorem due_add (m n : Multiset (Nat × α)) : due (m + n) = due m + due n := by
  simp [due]

theorem turned_add (m n : Multiset (Nat × α)) : turned (m + n) = turned m + turned n := by
  simp [turned]

@[simp] theorem due_cons_zero (x : α) (m : Multiset (Nat × α)) : due ((0, x) ::ₘ m) = x ::ₘ due m := by
  simp [due]

@[simp] theorem due_cons_succ (n : Nat) (x : α) (m : Multiset (Nat × α)) :
    due ((n + 1, x) ::ₘ m) = due m := by
  simp [due]

@[simp] theorem turned_cons_zero (x : α) (m : Multiset (Nat × α)) :
    turned ((0, x) ::ₘ m) = turned m := by
  simp [turned]

@[simp] theorem turned_cons_succ (n : Nat) (x : α) (m : Multiset (Nat × α)) :
    turned ((n + 1, x) ::ₘ m) = (n, x) ::ₘ turned m := by
  simp [turned]

/-- An item comes out with the tick that its number says, and nothing else comes out otherwise. -/
theorem outs_cons (n : Nat) (x : α) (m : Multiset (Nat × α)) (ops : List (Op α)) :
    outs ((n, x) ::ₘ m) ops = (outs m ops).modify n (x ::ₘ ·) := by
  induction ops generalizing n m with
  | nil => simp [outs]
  | cons op ops ih =>
    cases op with
    | add len y =>
      simp only [outs]
      rw [Multiset.cons_swap, ih]
    | tick =>
      cases n with
      | zero => simp [outs]
      | succ n => simp [outs, ih]

/-- **An item that is added comes out exactly once, with the tick number `len + 1` from then,
whatever else is there.** -/
theorem outs_add (m : Multiset (Nat × α)) (pre : List (Op α)) (len : Nat) (x : α) (post : List (Op α)) :
    outs m (pre ++ .add len x :: post) =
      (outs m (pre ++ post)).modify (ticks pre + len) (x ::ₘ ·) := by
  induction pre generalizing m with
  | nil => simp [outs, ticks, outs_cons]
  | cons op pre ih =>
    cases op with
    | add n y => simp [outs, ticks, ih]
    | tick =>
      rw [show ticks (.tick :: pre) + len = ticks pre + len + 1 by simp [ticks]; omega]
      simp [outs, ih]

theorem outs_length (m : Multiset (Nat × α)) (ops : List (Op α)) : (outs m ops).length = ticks ops := by
  induction ops generalizing m with
  | nil => rfl
  | cons op ops ih => cases op <;> simp [outs, ticks, ih]

end UthreadRuntime.Countdown
