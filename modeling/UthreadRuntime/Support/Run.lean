import Mathlib.Logic.Function.Basic

/-! Runs of a machine whose step may stop.

A machine is a step function: from a state and an action to the next state, or to
the reason why there is none. `run` is its execution on a list of actions,
`Reaches C` the states it can get to when every action it takes meets the
condition `C` in the state it is taken in. An invariant is proved once per step
and holds of every state reached (`Reaches.invariant`). -/
namespace UthreadRuntime.Run

variable {σ α ε : Type}

/-- The state after the actions, or the reason why one of them could not be taken. -/
def run (step : σ → α → Except ε σ) (s : σ) : List α → Except ε σ
  | [] => .ok s
  | a :: rest =>
    match step s a with
    | .ok s' => run step s' rest
    | .error e => .error e

/-- The states a machine gets to from `s₀` by steps that all meet `C`. -/
inductive Reaches (step : σ → α → Except ε σ) (C : σ → α → Prop) (s₀ : σ) : σ → Prop where
  | start : Reaches step C s₀ s₀
  | next {s s' : σ} {a : α} : Reaches step C s₀ s → C s a → step s a = .ok s' →
      Reaches step C s₀ s'

variable {step : σ → α → Except ε σ} {C D : σ → α → Prop} {s₀ s s' : σ}

theorem run_cons {a : α} {rest : List α} (h : step s a = .ok s') :
    run step s (a :: rest) = run step s' rest := by
  rw [run, h]

theorem run_cons_error {a : α} {rest : List α} {e : ε} (h : step s a = .error e) :
    run step s (a :: rest) = .error e := by
  rw [run, h]

/-- A run goes through the state after its first action. -/
theorem run_cons_ok {a : α} {rest : List α} (h : run step s (a :: rest) = .ok s') :
    ∃ s₁, step s a = .ok s₁ ∧ run step s₁ rest = .ok s' := by
  rw [run] at h
  split at h
  · rename_i s₁ hs₁
    exact ⟨s₁, hs₁, h⟩
  · cases h

theorem run_append {l l' : List α} (h : run step s l = .ok s') :
    run step s (l ++ l') = run step s' l' := by
  induction l generalizing s with
  | nil =>
    cases h
    rfl
  | cons a rest ih =>
    rw [run] at h
    split at h
    · rename_i t ht
      rw [List.cons_append, run_cons ht]
      exact ih h
    · cases h

/-- The same actions once more. -/
theorem run_replicate_succ {l : List α} {n : Nat} {s₁ : σ}
    (h : run step s (List.replicate n l).flatten = .ok s₁) (h' : run step s₁ l = .ok s') :
    run step s (List.replicate (n + 1) l).flatten = .ok s' := by
  rw [List.replicate_succ', List.flatten_append, run_append h, List.flatten_singleton]
  exact h'

/-- What holds at the start and survives every step holds wherever the machine gets. -/
theorem Reaches.invariant {I : σ → Prop} (h : Reaches step C s₀ s) (hstart : I s₀)
    (hstep : ∀ s a s', I s → C s a → step s a = .ok s' → I s') : I s := by
  induction h with
  | start => exact hstart
  | next _ hc hs ih => exact hstep _ _ _ ih hc hs

/-- A weaker condition lets the machine get to the same states; the proof may use
an invariant of the stronger runs. -/
theorem Reaches.weaken {I : σ → Prop} (h : Reaches step C s₀ s) (hstart : I s₀)
    (hstep : ∀ s a s', I s → C s a → step s a = .ok s' → I s')
    (hweak : ∀ s a, I s → C s a → D s a) : Reaches step D s₀ s := by
  suffices Reaches step D s₀ s ∧ I s from this.1
  induction h with
  | start => exact ⟨.start, hstart⟩
  | next _ hc hs ih => exact ⟨.next ih.1 (hweak _ _ ih.2 hc) hs, hstep _ _ _ ih.2 hc hs⟩

theorem Reaches.mono (h : Reaches step C s₀ s) (hweak : ∀ s a, C s a → D s a) : Reaches step D s₀ s :=
  h.weaken (I := fun _ => True) trivial (fun _ _ _ _ _ _ => trivial) fun s a _ => hweak s a

theorem Reaches.trans {s₁ : σ} (h : Reaches step C s₀ s₁) (h' : Reaches step C s₁ s) :
    Reaches step C s₀ s := by
  induction h' with
  | start => exact h
  | next _ hc hs ih => exact .next ih hc hs

/-- The actions of an execution meet the condition that asks nothing. -/
theorem reaches_of_run {actions : List α} (h : run step s actions = .ok s') :
    Reaches step (fun _ _ => True) s s' := by
  induction actions generalizing s with
  | nil =>
    cases h
    exact .start
  | cons a rest ih =>
    unfold run at h
    split at h
    · rename_i t ht
      exact Reaches.trans (.next .start trivial ht) (ih h)
    · cases h

/-- The state after the actions, if each passes the check `c` and none stops. -/
def checked (step : σ → α → Except ε σ) (c : σ → α → Bool) (s : σ) : List α → Option σ
  | [] => some s
  | a :: rest =>
    if c s a then
      match step s a with
      | .ok s' => checked step c s' rest
      | .error _ => none
    else none

/-- A checked run reaches its last state; the check may rely on an invariant. -/
theorem reaches_of_checked {c : σ → α → Bool} {I : σ → Prop} {actions : List α}
    (h : checked step c s actions = some s') (hI : I s)
    (hstep : ∀ s a s', I s → C s a → step s a = .ok s' → I s')
    (hc : ∀ s a, I s → c s a = true → C s a) : Reaches step C s s' := by
  induction actions generalizing s with
  | nil =>
    cases h
    exact .start
  | cons a rest ih =>
    unfold checked at h
    split at h
    · rename_i hca
      cases hs : step s a with
      | error e => rw [hs] at h; cases h
      | ok t =>
        rw [hs] at h
        have hCa := hc s a hI hca
        exact Reaches.trans (.next .start hCa hs) (ih h (hstep s a t hI hCa hs))
    · cases h

theorem run_of_checked {c : σ → α → Bool} {actions : List α} (h : checked step c s actions = some s') :
    run step s actions = .ok s' := by
  induction actions generalizing s with
  | nil =>
    cases h
    rfl
  | cons a rest ih =>
    unfold checked at h
    split at h
    · cases hs : step s a with
      | error e => rw [hs] at h; cases h
      | ok t =>
        rw [hs] at h
        rw [run_cons hs]
        exact ih h
    · cases h

/-- Every step of the run has the property. -/
def each (step : σ → α → Except ε σ) (P : σ → α → σ → Prop) (s : σ) : List α → Prop
  | [] => True
  | a :: rest =>
    match step s a with
    | .ok s' => P s a s' ∧ each step P s' rest
    | .error _ => True

/-- Two properties of the steps of a run that agree on every step go together, as far as the
invariant that one of them keeps. -/
theorem each_iff {I : σ → Prop} {L P Q : σ → α → σ → Prop} {actions : List α} (hI : I s)
    (hL : each step L s actions)
    (hiff : ∀ s a s', I s → L s a s' → step s a = .ok s' → (P s a s' ↔ Q s a s'))
    (hkeep : ∀ s a s', I s → L s a s' → step s a = .ok s' → Q s a s' → I s') :
    each step P s actions ↔ each step Q s actions := by
  induction actions generalizing s with
  | nil => exact Iff.rfl
  | cons a rest ih =>
    unfold each at hL ⊢
    cases hs : step s a with
    | error e => exact Iff.rfl
    | ok s' =>
      simp only [hs] at hL ⊢
      have hstep := hiff s a s' hI hL.1 hs
      constructor
      · intro h
        exact ⟨hstep.mp h.1, (ih (hkeep s a s' hI hL.1 hs (hstep.mp h.1)) hL.2).mp h.2⟩
      · intro h
        exact ⟨hstep.mpr h.1, (ih (hkeep s a s' hI hL.1 hs h.1) hL.2).mpr h.2⟩

theorem each_of_forall {P : σ → α → σ → Prop} (h : ∀ s a s', P s a s') (s : σ) (actions : List α) :
    each step P s actions := by
  induction actions generalizing s with
  | nil => trivial
  | cons a rest ih =>
    unfold each
    split
    · exact ⟨h _ _ _, ih _⟩
    · trivial

/-- What follows of every step from an invariant holds of every step of the run. -/
theorem each_of_invariant {I : σ → Prop} {L P : σ → α → σ → Prop} {actions : List α} (hI : I s)
    (hL : each step L s actions)
    (hstep : ∀ s a s', I s → L s a s' → step s a = .ok s' → I s' ∧ P s a s') : each step P s actions := by
  have hiff : each step P s actions ↔ each step (fun _ _ _ => True) s actions :=
    each_iff hI hL (fun s a s' h hl hs => iff_of_true (hstep s a s' h hl hs).2 trivial)
      fun s a s' h hl hs _ => (hstep s a s' h hl hs).1
  exact hiff.mpr (each_of_forall (fun _ _ _ => trivial) s actions)

/-- What survives every step that meets the condition holds after a run of such steps. -/
theorem run_invariant {L : σ → α → σ → Prop} {I : σ → Prop} {actions : List α}
    (h : run step s actions = .ok s') (hL : each step L s actions) (hI : I s)
    (hstep : ∀ s a s', I s → L s a s' → step s a = .ok s' → I s') : I s' := by
  induction actions generalizing s with
  | nil =>
    cases h
    exact hI
  | cons a rest ih =>
    obtain ⟨s₁, hs, hrest⟩ := run_cons_ok h
    unfold each at hL
    simp only [hs] at hL
    exact ih hrest hL.2 (hstep s a s₁ hI hL.1 hs)

instance decidableEach (P : σ → α → σ → Prop) [∀ s a s', Decidable (P s a s')] :
    (s : σ) → (actions : List α) → Decidable (each step P s actions)
  | _, [] => isTrue trivial
  | s, a :: rest =>
    match h : step s a with
    | .ok s' =>
      have := decidableEach P s' rest
      decidable_of_iff (P s a s' ∧ each step P s' rest) (by simp [each, h])
    | .error _ => isTrue (by simp [each, h])

/-! ### Histories -/

/-- A history kept beside a run: what `note` makes of each of its steps. -/
def tally {γ : Type} (step : σ → α → Except ε σ) (note : σ → α → σ → γ → γ) (s : σ) (g : γ) : List α → γ
  | [] => g
  | a :: rest =>
    match step s a with
    | .ok s' => tally step note s' (note s a s' g) rest
    | .error _ => g

/-- A relation between the state and the history holds after the run, if every step that meets
the condition keeps it. -/
theorem tally_run {γ : Type} {note : σ → α → σ → γ → γ} {L : σ → α → σ → Prop} {J : σ → γ → Prop} {g : γ}
    {actions : List α} (h : run step s actions = .ok s') (hL : each step L s actions) (hJ : J s g)
    (hstep : ∀ s a s' g, J s g → L s a s' → step s a = .ok s' → J s' (note s a s' g)) :
    J s' (tally step note s g actions) := by
  induction actions generalizing s g with
  | nil =>
    cases h
    exact hJ
  | cons a rest ih =>
    obtain ⟨s₁, hs, hrest⟩ := run_cons_ok h
    unfold each at hL
    unfold tally
    simp only [hs] at hL ⊢
    exact ih hrest hL.2 (hstep s a s₁ g hJ hL.1 hs)

theorem tally_invariant {γ : Type} {note : σ → α → σ → γ → γ} {J : σ → γ → Prop} {g : γ}
    {actions : List α} (h : run step s actions = .ok s') (hJ : J s g)
    (hstep : ∀ s a s' g, J s g → step s a = .ok s' → J s' (note s a s' g)) :
    J s' (tally step note s g actions) :=
  tally_run h (each_of_forall (P := fun _ _ _ => True) (fun _ _ _ => trivial) s actions) hJ
    fun s a s' g hJ _ hs => hstep s a s' g hJ hs

/-- A property of the history that one step adds to by `P` says that `P` holds of every step. -/
theorem tally_each {γ : Type} {note : σ → α → σ → γ → γ} {Q : γ → Prop} {P : σ → α → σ → Prop}
    (hnote : ∀ s a s' g, Q (note s a s' g) ↔ Q g ∧ P s a s') (s : σ) (g : γ) (actions : List α) :
    Q (tally step note s g actions) ↔ Q g ∧ each step P s actions := by
  induction actions generalizing s g with
  | nil => exact (and_iff_left trivial).symm
  | cons a rest ih =>
    unfold tally each
    cases hs : step s a with
    | error e => exact (and_iff_left trivial).symm
    | ok s' =>
      dsimp only
      rw [ih, hnote, and_assoc]

/-- The same for a run whose steps all meet a condition, with the number of its actions of a kind. -/
theorem tally_counted {γ : Type} {f : σ → α → σ → γ → γ} {L : σ → α → σ → Prop} {kind : α → Bool}
    {J : σ → γ → Nat → Prop} {g : γ} {n : Nat} {actions : List α} (h : run step s actions = .ok s')
    (hL : each step L s actions) (hJ : J s g n)
    (hstep : ∀ s a s' g n, J s g n → L s a s' → step s a = .ok s' →
      J s' (f s a s' g) (n + if kind a then 1 else 0)) :
    J s' (tally step f s g actions) (n + actions.countP kind) := by
  induction actions generalizing s g n with
  | nil =>
    cases h
    exact hJ
  | cons a rest ih =>
    obtain ⟨s₁, hs, hrest⟩ := run_cons_ok h
    unfold each at hL
    unfold tally
    simp only [hs] at hL ⊢
    have hnext := ih hrest hL.2 (hstep s a s₁ g n hJ hL.1 hs)
    rw [List.countP_cons, Nat.add_comm (rest.countP kind), ← Nat.add_assoc]
    exact hnext

/-- The machine with its history. -/
def noted {γ : Type} (step : σ → α → Except ε σ) (note : σ → α → σ → γ → γ) (x : σ × γ) (a : α) :
    Except ε (σ × γ) :=
  match step x.1 a with
  | .ok s' => .ok (s', note x.1 a s' x.2)
  | .error e => .error e

theorem noted_ok {γ : Type} {note : σ → α → σ → γ → γ} {g g' : γ} {a : α}
    (h : noted step note (s, g) a = .ok (s', g')) : step s a = .ok s' ∧ g' = note s a s' g := by
  unfold noted at h
  dsimp only at h
  split at h
  · rename_i t ht
    cases h
    exact ⟨ht, rfl⟩
  · cases h

theorem noted_error {γ : Type} {note : σ → α → σ → γ → γ} {g : γ} {a : α} {e : ε}
    (h : noted step note (s, g) a = .error e) : step s a = .error e := by
  unfold noted at h
  dsimp only at h
  split at h
  · cases h
  · rename_i e' he
    cases h
    exact he

end UthreadRuntime.Run
