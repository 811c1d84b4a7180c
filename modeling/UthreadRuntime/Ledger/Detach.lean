import UthreadRuntime.Ledger.Books

/-! Detaching a uthread.

`uthread_detach` marks the record, and the mark is looked at by `uthread_join` and when the
uthread has exited. The first resume of a uthread assigns its status: a mark set before is
lost. Set later, it stays. -/
namespace UthreadRuntime

open State

/-- A uthread that has run is marked as detached. -/
structure DetachMarked (s : State) (t : UId) : Prop where
  lt : t < s.heap
  mark : (s.ut t).status.has .detached = true
  run : (s.ut t).status.has .new = false

theorem DetachMarked.step {s s' : State} {act : Act} {t : UId} (h : DetachMarked s t) (hsnd : Sound s)
    (hs : step s act = .ok s') : DetachMarked s' t := by
  have hm : ∀ {m}, MarkStep s s' t act m → m.detached = true ∧ m.new = false := by
    intro m hm
    cases hm with
    | detached => exact ⟨rfl, h.run⟩
    | resumed _ _ _ =>
      rw [Marks.resumed_of_run (m := (s.ut t).marks) h.run]
      exact ⟨h.mark, h.run⟩
    | _ => exact ⟨h.mark, h.run⟩
  obtain ⟨h1, h2⟩ := hm (step_marks hsnd hs h.lt)
  exact ⟨Nat.lt_of_lt_of_le h.lt (step_heap_le hsnd hs), h1, h2⟩

/-- The record of a uthread whose `uthread_join(t, v)` has been refused, or is about to be. -/
def Refused (t : UId) (v : Option Addr) (r : Uthread) : Prop :=
  r.hist.call = some (.join t v) ∧
  ((r.hist.result = none ∧ (r.ctx = .join t v .self ∨ r.ctx = .join t v .detached)) ∨
    (r.hist.result = some (-1, .einval) ∧ r.ctx = .user))

theorem Refused.sameCall {t : UId} {v : Option Addr} {r r' : Uthread} (h : Refused t v r)
    (hs : SameCall r r') : Refused t v r' := by
  unfold Refused
  rw [hs.ctx, hs.call, hs.result]
  exact h

section Join

variable {s s' : State} {b : SId} {j t : UId} {v : Option Addr}

/-- The first check of the join is passed. -/
theorem step_join_self (hhalt : s.halted = false) (hc : (s.sched b).curUthread = some j)
    (hctx : (s.ut j).ctx = .join t v .self) (hne : t ≠ j) (r : Reply) :
    step s (.stmt b r) = .ok (goto j (.join t v .detached) s) := by
  rw [step_stmt hhalt hc]
  simp only [uthreadStmt, hctx, joinStmt, hne, if_false]

/-- The second is not, for a detached uthread. -/
theorem step_join_detached (hhalt : s.halted = false) (hc : (s.sched b).curUthread = some j)
    (hctx : (s.ut j).ctx = .join t v .detached) (hd : (s.ut t).status.has .detached = true) (r : Reply) :
    step s (.stmt b r) = .ok (returns b j (-1) (setErrno b .einval s)) := by
  rw [step_stmt hhalt hc]
  simp only [uthreadStmt, hctx, joinStmt, hd, if_true]

theorem Refused.step {act : Act} (h : Refused t v (s.ut j)) (hsnd : Sound s) (hd : DetachMarked s t)
    (hne : t ≠ j) (hj : j < s.heap) (hno : NoCallOf j s act) (hs : step s act = .ok s') :
    Refused t v (s'.ut j) := by
  rcases step_call hsnd hs hj hno with hsame | ⟨a, r, rfl, hc, hstmt⟩
  · exact h.sameCall hsame
  · have hhalt := not_halted_of_step hs
    obtain ⟨hcall, ⟨hres, hctx | hctx⟩ | ⟨-, hctx⟩⟩ := h
    · rw [step_join_self (b := a) hhalt hc hctx hne r] at hs
      cases hs
      refine ⟨?_, .inl ⟨?_, .inr (goto_ctx _)⟩⟩
      · simpa [goto] using hcall
      · simpa [goto] using hres
    · rw [step_join_detached (b := a) hhalt hc hctx hd.mark r] at hs
      cases hs
      refine ⟨?_, .inr ⟨?_, returns_ctx _⟩⟩
      · simpa [returns, setErrno] using hcall
      · simp [returns, setErrno]
    · exact absurd hctx hstmt.not_user

end Join

end UthreadRuntime
