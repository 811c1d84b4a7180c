import UthreadRuntime.Ledger.Books
import UthreadRuntime.Placement.Partition

/-! The id slot of a uthread that is joined.

A uthread that has exited keeps its slot of `bitmap_ut` until it is joined. `uthread_join`
has two ways to return 0: it finds the uthread exited, or it sleeps until it exits. The
first is to free the slot and sets it; the second frees it by the id in a record that has been
released. -/
namespace UthreadRuntime

open State Placement

/-! ### The join that waits -/

/-- Where `uthread_join(t, v)` stands when it has found `t` not exited. -/
def Ctx.JoinWaits (t : UId) (v : Option Addr) : Ctx → Prop
  | .join t' v' pc => t' = t ∧ v' = v ∧ pc ≠ .self ∧ pc ≠ .detached ∧ pc ≠ .taken ∧ pc ≠ .exited
  | .sleep (.join t' v') _ => t' = t ∧ v' = v
  | _ => False

theorem Own.joinWaits {now : Nat} {k k' : Ctx} {f : Uthread → Uthread} {t : UId} {v : Option Addr}
    (h : Own now k f k') (hk : k.JoinWaits t v) : k'.JoinWaits t v := by
  cases h with
  | wake w =>
    cases w with
    | join t' v' => exact ⟨hk.1, hk.2, by simp, by simp, by simp, by simp⟩
    | event c => exact hk.elim
  | clock w | mark w | flag w | sleepYield w => cases w <;> exact hk
  | _ => exact hk.elim

theorem Moves.joinWaits {a : SId} {u : UId} {r : Reply} {s : State} {k k' : Ctx} {t : UId}
    {v : Option Addr} (h : Moves a u r s k k') (hk : k.JoinWaits t v) : k'.JoinWaits t v := by
  cases h with
  | expired _ => exact ⟨hk.1, hk.2.1, by simp, by simp, by simp, by simp⟩
  | woken _ => exact ⟨hk.1, hk.2.1, by simp, by simp, by simp, by simp⟩
  | notSelf _ => exact absurd rfl hk.2.2.1
  | notDetached _ => exact absurd rfl hk.2.2.2.1
  | notTaken _ => exact absurd rfl hk.2.2.2.2.1
  | notExited _ => exact absurd rfl hk.2.2.2.2.2
  | _ => exact hk.elim

theorem Switches.joinWaits {k k' : Ctx} {t : UId} {v : Option Addr} (h : Switches k k')
    (hk : k.JoinWaits t v) : k'.JoinWaits t v := by
  cases h with
  | sleep w => cases w <;> exact hk
  | yield => exact hk.elim
  | exit _ => exact hk.elim

/-- The uthread that is waited for has been created. -/
theorem Sound.joinWaits_lt {s : State} (h : Sound s) {j t : UId} {v : Option Addr} (hj : j < s.heap)
    (hk : (s.ut j).ctx.JoinWaits t v) : t < s.heap := by
  have hok := (h.ut j hj).ctx
  cases hctx : (s.ut j).ctx with
  | join t' v' pc =>
    rw [hctx] at hk
    rw [← hk.1]
    exact h.joinee_lt hj hctx
  | sleep w pc =>
    rw [hctx] at hk hok
    cases w with
    | join t' v' =>
      rw [← hk.1]
      exact hok.1
    | event c => exact hk.elim
  | _ =>
    rw [hctx] at hk
    exact hk.elim

section Join

variable {s s' : State} {a : SId} {j t : UId} {v : Option Addr}

/-- A statement of a join that waits: it waits on, or it returns, and 0 only when it has
freed the slot. -/
theorem Stmt.joinWaits {r : Reply} (hs : Stmt a j r s s') (hk : (s.ut j).ctx.JoinWaits t v) :
    (s'.ut j).ctx.JoinWaits t v ∨
    ((s'.ut j).ctx = .user ∧ ∃ x e, (s'.ut j).hist.result = some (x, e) ∧
      (x = 0 → s'.bitmapUt (s.ut t).id = false)) := by
  have hgoto : ∀ {k' : Ctx} {s₀ : State}, k'.JoinWaits t v → ((goto j k' s₀).ut j).ctx.JoinWaits t v := by
    intro k' s₀ hk'
    rw [goto_ctx]
    exact hk'
  have hret : ∀ {x : Int} {s₀ : State}, (x = 0 → s₀.bitmapUt (s.ut t).id = false) →
      ((returns a j x s₀).ut j).ctx = .user ∧
        ∃ y e, ((returns a j x s₀).ut j).hist.result = some (y, e) ∧
          (y = 0 → (returns a j x s₀).bitmapUt (s.ut t).id = false) := by
    intro x s₀ hx
    exact ⟨returns_ctx _, x, (s₀.sched a).errno, by simp [returns], hx⟩
  cases hs with
  | own hctx hown =>
    rw [hctx] at hk
    exact .inl (hgoto (hown.joinWaits hk))
  | moves hm => exact .inl (hgoto (hm.joinWaits hk))
  | @linkSleeping w _ _ hctx _ _ =>
    rw [hctx] at hk
    refine .inl (hgoto ?_)
    cases w <;> exact hk
  | joinFails _ => exact .inr (hret fun h => by cases h)
  | joinExited hctx _ =>
    rw [hctx] at hk
    exact absurd rfl hk.2.2.2.2.2
  | publish hctx =>
    rw [hctx] at hk
    exact .inl (hgoto ⟨hk.1, hk.2.1, by simp, by simp, by simp, by simp⟩)
  | setRetval hctx =>
    rw [hctx] at hk
    exact .inl (hgoto ⟨hk.1, hk.2.1⟩)
  | unpublish hctx =>
    rw [hctx] at hk
    exact .inl (hgoto ⟨hk.1, hk.2.1, by simp, by simp, by simp, by simp⟩)
  | resetRetval _ => exact .inr (hret fun h => by cases h)
  | joinFree hctx =>
    rw [hctx] at hk
    obtain ⟨rfl, -⟩ := hk
    exact .inr (hret fun _ => Function.update_self _ _ _)
  | switch hctx hsw hs =>
    rw [hctx] at hk
    rw [(AllSeen.switched hs j).ctx]
    exact .inl (hgoto (hsw.joinWaits hk))
  | allocFails hctx _ =>
    rcases hctx with ⟨c, hctx⟩ | ⟨c, id, hctx⟩ <;> (rw [hctx] at hk; exact hk.elim)
  | io hctx _ _ | ioReturns hctx _ | watch hctx _ _ | linkWaiting hctx _ | store hctx | lock hctx _
  | count hctx | unlock hctx | created hctx _ | diskFlag hctx _ | handOff hctx _ _ _ | diskCall hctx _ =>
    rw [hctx] at hk
    exact hk.elim

/-- The call of `j` returns 0 in this step. -/
def ReturnsZero (j : UId) (s s' : State) : Prop :=
  (s.ut j).ctx ≠ .user ∧ (s'.ut j).ctx = .user ∧ ∃ e, (s'.ut j).hist.result = some (0, e)

theorem JoinWaits.step {act : Act} (h : (s.ut j).ctx.JoinWaits t v ∨ (s.ut j).ctx = .user) (hsnd : Sound s)
    (hj : j < s.heap) (hno : NoCallOf j s act) (hs : step s act = .ok s') :
    ((s'.ut j).ctx.JoinWaits t v ∨ (s'.ut j).ctx = .user) ∧
      (ReturnsZero j s s' → s'.bitmapUt (s'.ut t).id = false) := by
  rcases step_call hsnd hs hj hno with hsame | ⟨a, r, rfl, -, hstmt⟩
  · rw [← hsame.ctx] at h
    exact ⟨h, fun hz => absurd (hsame.ctx.symm.trans hz.2.1) hz.1⟩
  · rcases h with hk | hctx
    · rcases hstmt.joinWaits hk with hk' | ⟨hctx, x, e, hres, hslot⟩
      · refine ⟨.inl hk', fun hz => ?_⟩
        rw [hz.2.1] at hk'
        exact hk'.elim
      · refine ⟨.inr hctx, fun hz => ?_⟩
        obtain ⟨-, -, e', hres'⟩ := hz
        rw [hres] at hres'
        cases hres'
        rw [step_id hsnd hs (hsnd.joinWaits_lt hj hk)]
        exact hslot rfl
    · exact absurd hctx hstmt.not_user

end Join

/-! ### The slot -/

/-- The join of `t` by `j` whose check for an exited uthread leads from `s` to `s'` leaves the slot
of `t` free when it returns 0, at once or later. -/
structure FreesSlot (s s' : State) (j t : UId) : Prop where
  now : ReturnsZero j s s' → s'.bitmapUt (s'.ut t).id = false
  later : ∀ s₁ act s₂, Run.Reaches step (NoCallOf j) s' s₁ → NoCallOf j s₁ act → step s₁ act = .ok s₂ →
    ReturnsZero j s₁ s₂ → s₂.bitmapUt (s₂.ut t).id = false

/-- The slot is freed exactly when the join comes first, in every run. The id is the one that the
record holds as long as its memory is not handed out again. -/
theorem frees_slot_iff {C : State → Act → Prop} {s s' : State} {a : SId} {r : Reply} {j t : UId}
    {v : Option Addr} (hreach : Reaches C s) (hc : (s.sched a).curUthread = some j)
    (hctx : (s.ut j).ctx = .join t v .exited) (hstep : step s (.stmt a r) = .ok s') :
    FreesSlot s s' j t ↔ (s.ut t).status.has .exited = false := by
  have hsnd := Sound.of_reaches hreach
  have hj := (hsnd.cur hc).1
  have ht : t < s.heap := hsnd.joinee_lt hj hctx
  have hcheck : s' = joinStmt a j t v .exited s := by
    have h := hstep
    rw [step_stmt (not_halted_of_step hstep) hc] at h
    simp only [uthreadStmt, hctx] at h
    exact (Except.ok.inj h).symm
  cases hexit : (s.ut t).status.has .exited with
  | true =>
    simp only [joinStmt, hexit, if_true] at hcheck
    refine ⟨fun h => ?_, fun h => by cases h⟩
    have hz : ReturnsZero j s s' := by
      refine ⟨by rw [hctx]; simp, by rw [hcheck, returns_ctx], (s.sched a).errno, ?_⟩
      rw [hcheck]
      simp [returns]
    have hslot := h.now hz
    rw [step_id hsnd hstep ht, hcheck] at hslot
    simp [returns, setUt] at hslot
  | false =>
    simp only [joinStmt, hexit, Bool.false_eq_true, if_false] at hcheck
    have hctx' : (s'.ut j).ctx = .join t v .publish := by rw [hcheck, goto_ctx]
    refine ⟨fun _ => rfl, fun _ => ⟨fun hz => ?_, fun s₁ act s₂ hr hno hs₂ hz => ?_⟩⟩
    · have huser := hz.2.1
      rw [hctx'] at huser
      cases huser
    · have hinv : Sound s₁ ∧ j < s₁.heap ∧ ((s₁.ut j).ctx.JoinWaits t v ∨ (s₁.ut j).ctx = .user) := by
        refine (hsnd.step hstep).invariant
          (I := fun s => j < s.heap ∧ ((s.ut j).ctx.JoinWaits t v ∨ (s.ut j).ctx = .user)) hr
          ⟨Nat.lt_of_lt_of_le hj (step_heap_le hsnd hstep), .inl ?_⟩ ?_
        · rw [hctx']
          exact ⟨rfl, rfl, by simp, by simp, by simp, by simp⟩
        · rintro s act s' hS ⟨hlt, hw⟩ hno hs'
          exact ⟨Nat.lt_of_lt_of_le hlt (step_heap_le hS hs'), (JoinWaits.step hw hS hlt hno hs').1⟩
      exact (JoinWaits.step hinv.2.2 hinv.1 hinv.2.1 hno hs₂).2 hz

/-! ### Both orders -/

section Orders

variable {C : State → Act → Prop} {s s' : State} {a : SId} {r : Reply} {j t : UId} {v : Option Addr} {pc : JoinAt}

/-- A joiner that is back from its wait has seen the end of the other. -/
theorem freed_of_joined (hi : Inv s.board) (hj : (s.ut j).life = .live)
    (hmode : (s.ut j).ctx.mode = .joined t) : (s.ut t).life = .freed := by
  have htarget := hi.target (j := j) hj
  have hm : (s.board.task j).mode = .joined t := hmode
  unfold Board.TargetOk at htarget
  rw [hm] at htarget
  exact htarget

end Orders

end UthreadRuntime
