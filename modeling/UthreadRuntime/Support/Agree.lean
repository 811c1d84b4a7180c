import UthreadRuntime.Support.Run

/-! Two machines in step.

`Agrees E R` relates two computations: both end, in values that `R` relates, or both stop, for
reasons that `E` relates. It goes through a sequence of computations (`Agrees.bind`), and what
holds of one step of two machines holds of their runs (`agrees_run`). -/
namespace UthreadRuntime.Run

variable {α β γ δ ε ζ σ τ ι : Type}

/-- Both end as `R` says, or both stop as `E` says. -/
def Agrees (E : ε → ζ → Prop) (R : α → β → Prop) : Except ε α → Except ζ β → Prop
  | .ok a, .ok b => R a b
  | .error e, .error z => E e z
  | _, _ => False

section Agrees
variable {E : ε → ζ → Prop} {R : α → β → Prop} {S : γ → δ → Prop} {x : Except ε α} {y : Except ζ β}

@[simp] theorem agrees_ok {a : α} {b : β} : Agrees E R (.ok a) (.ok b) ↔ R a b := Iff.rfl

@[simp] theorem agrees_error {e : ε} {z : ζ} :
    Agrees E R (.error e : Except ε α) (.error z : Except ζ β) ↔ E e z := Iff.rfl

/-- The first computations agree, and so do the second from what the first ended in. -/
theorem Agrees.bind {f : α → Except ε γ} {g : β → Except ζ δ} (h : Agrees E R x y)
    (hfg : ∀ a b, x = .ok a → y = .ok b → R a b → Agrees E S (f a) (g b)) :
    Agrees E S (x >>= f) (y >>= g) := by
  cases x with
  | error e => cases y with
    | error z => exact h
    | ok b => exact h.elim
  | ok a => cases y with
    | error z => exact h.elim
    | ok b => exact hfg a b rfl rfl h

/-- Both take the same branch. -/
theorem agrees_ite {c d : Prop} [Decidable c] [Decidable d] (hcd : c ↔ d) {x' : Except ε α}
    {y' : Except ζ β} (ht : d → Agrees E R x y) (hf : ¬ d → Agrees E R x' y') :
    Agrees E R (if c then x else x') (if d then y else y') := by
  by_cases h : d
  · rw [if_pos h, if_pos (hcd.mpr h)]
    exact ht h
  · rw [if_neg h, if_neg fun hc => h (hcd.mp hc)]
    exact hf h

theorem Agrees.map {f : α → γ} {g : β → δ} (h : Agrees E R x y)
    (hfg : ∀ a b, x = .ok a → y = .ok b → R a b → S (f a) (g b)) : Agrees E S (x.map f) (y.map g) := by
  cases x with
  | error e => cases y with
    | error z => exact h
    | ok b => exact h.elim
  | ok a => cases y with
    | error z => exact h.elim
    | ok b => exact hfg a b rfl rfl h

theorem Agrees.of_ok {b : β} (h : Agrees E R x (.ok b)) : ∃ a, x = .ok a ∧ R a b := by
  cases x with
  | error e => exact h.elim
  | ok a => exact ⟨a, rfl, h⟩

theorem Agrees.to_ok {a : α} (h : Agrees E R (.ok a) y) : ∃ b, y = .ok b ∧ R a b := by
  cases y with
  | error e => exact h.elim
  | ok b => exact ⟨b, rfl, h⟩

theorem Agrees.to_error {e : ε} (h : Agrees E R (.error e) y) : ∃ z, y = .error z ∧ E e z := by
  cases y with
  | error z => exact ⟨z, rfl, h⟩
  | ok b => exact h.elim

end Agrees

/-- Every action of the list meets the condition in the state it is taken in, the one that
cannot be taken included. -/
def meets (step : σ → ι → Except ε σ) (C : σ → ι → Prop) (s : σ) : List ι → Prop
  | [] => True
  | a :: rest =>
    C s a ∧ match step s a with
      | .ok s' => meets step C s' rest
      | .error _ => True

/-- A checked list of actions meets the condition; the check may rely on an invariant. -/
theorem meets_of_checked {step : σ → ι → Except ε σ} {C : σ → ι → Prop} {c : σ → ι → Bool} {I : σ → Prop}
    {s s' : σ} {acts : List ι} (h : checked step c s acts = some s') (hI : I s)
    (hstep : ∀ s a s', I s → C s a → step s a = .ok s' → I s')
    (hc : ∀ s a, I s → c s a = true → C s a) : meets step C s acts := by
  induction acts generalizing s with
  | nil => trivial
  | cons a rest ih =>
    unfold checked at h
    split at h
    · rename_i hca
      have hC := hc s a hI hca
      cases hs : step s a with
      | error e => rw [hs] at h; cases h
      | ok t =>
        rw [hs] at h
        simp only [meets, hs]
        exact ⟨hC, ih h (hstep s a t hI hC hs)⟩
    · cases h

theorem each_of_meets {step : σ → ι → Except ε σ} {C : σ → ι → Prop} {s : σ} {acts : List ι}
    (h : meets step C s acts) : each step (fun s a _ => C s a) s acts := by
  induction acts generalizing s with
  | nil => trivial
  | cons a rest ih =>
    obtain ⟨hC, hrest⟩ := h
    unfold each
    cases hs : step s a with
    | error e => trivial
    | ok t =>
      rw [hs] at hrest
      exact ⟨hC, ih hrest⟩

section Machines
variable {step : σ → ι → Except ε σ} {step' : τ → ι → Except ζ τ} {C : σ → ι → Prop} {D : τ → ι → Prop}
  {E : ε → ζ → Prop} {R : σ → τ → Prop} {s₀ s : σ} {t₀ t : τ}
  (hstep : ∀ s t a, R s t → Reaches step' D t₀ t → D t a → Agrees E R (step s a) (step' t a))
include hstep

/-- Machines whose steps agree, from wherever the second may get to by steps that meet `D`,
agree on every list of such actions. -/
theorem agrees_run (h : R s t) (hreach : Reaches step' D t₀ t) {acts : List ι}
    (hD : meets step' D t acts) : Agrees E R (run step s acts) (run step' t acts) := by
  induction acts generalizing s t with
  | nil => exact h
  | cons a rest ih =>
    have hagree := hstep s t a h hreach hD.1
    cases hs : step' t a with
    | error z =>
      rw [run_cons_error hs]
      rw [hs] at hagree
      cases hs' : step s a with
      | error e =>
        rw [run_cons_error hs']
        rw [hs'] at hagree
        exact hagree
      | ok s' =>
        rw [hs'] at hagree
        exact hagree.elim
    | ok t' =>
      rw [hs] at hagree
      obtain ⟨s', hs', h'⟩ := hagree.of_ok
      rw [run_cons hs, run_cons hs']
      simp only [meets, hs] at hD
      exact ih h' (.next hreach hD.1 hs) hD.2

/-- What the first machine reaches is related to something that the second reaches. -/
theorem Reaches.follow (h₀ : R s₀ t₀) (hCD : ∀ s t a, R s t → C s a → D t a)
    (h : Reaches step C s₀ s) : ∃ t, Reaches step' D t₀ t ∧ R s t := by
  induction h with
  | start => exact ⟨t₀, .start, h₀⟩
  | @next s s' a _ hC hs ih =>
    obtain ⟨t, ht, hR⟩ := ih
    have hD := hCD s t a hR hC
    have hagree := hstep s t a hR ht hD
    rw [hs] at hagree
    obtain ⟨t', ht', hR'⟩ := hagree.to_ok
    exact ⟨t', .next ht hD ht', hR'⟩

/-- Nor does the first machine leave its condition on a list of actions on which the second one
meets its own. -/
theorem reaches_of_agrees (hDC : ∀ s t a, R s t → D t a → C s a) (h : R s t) (hreach : Reaches step' D t₀ t)
    (hs₀ : Reaches step C s₀ s) {acts : List ι} (hD : meets step' D t acts) {s' : σ}
    (hrun : run step s acts = .ok s') : Reaches step C s₀ s' := by
  induction acts generalizing s t with
  | nil =>
    cases hrun
    exact hs₀
  | cons a rest ih =>
    obtain ⟨s₁, hs₁, hrest⟩ := run_cons_ok hrun
    have hagree := hstep s t a h hreach hD.1
    rw [hs₁] at hagree
    obtain ⟨t₁, ht₁, h₁⟩ := hagree.to_ok
    have hC := hDC s t a h hD.1
    simp only [meets, ht₁] at hD
    exact ih h₁ (.next hreach hD.1 ht₁) (.next hs₀ hC hs₁) hD.2 hrest

end Machines

end UthreadRuntime.Run
