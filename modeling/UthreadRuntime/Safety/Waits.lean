import UthreadRuntime.Ledger.Books
import UthreadRuntime.Safety.Sleepers
import UthreadRuntime.Safety.Events

/-! Waits side by side.

The waiting tree is ordered by descriptor and event, the interest set of the kernel by
descriptor alone. `_register_event` adds the descriptor and asserts that the kernel took
it, so of two uthreads that wait for one descriptor the second ends the process, though the
tree has room for both. -/
namespace UthreadRuntime

open State Placement

/-! ### Reporting an event -/

theorem fdOnly_fdKey (fd : Int) (ev : UthreadEvent) : fdOnly (fdKey fd ev.toNat) = fd := by
  cases ev <;> simp only [fdOnly, fdKey, UthreadEvent.toNat] <;> omega

theorem uthreadDeschedSleep_some {s : State} {u : UId} {q : PId} (hq : (s.ut u).p = some q) :
    ∃ s', uthreadDeschedSleep u s = .ok s' ∧ (s'.ut u).fdWait = (s.ut u).fdWait ∧
      (s'.ut u).p = some q ∧ ∀ r, (s'.p r).interest = (s.p r).interest := by
  cases hsl : (s.ut u).status.has .sleeping with
  | true =>
    have hd : uthreadDeschedSleep u s = .ok (unlinkSleeper q u s) := by
      unfold uthreadDeschedSleep
      rw [if_pos hsl, home_of_some hq]
      rfl
    refine ⟨_, hd, ?_, ?_, fun r => ?_⟩
    · simp [unlinkSleeper]
    · simpa [unlinkSleeper] using hq
    · unfold unlinkSleeper
      rw [setUt_p, setP_p]
      split
      · rename_i hr
        rw [hr]
      · rfl
  | false =>
    refine ⟨s, ?_, rfl, hq, fun _ => rfl⟩
    unfold uthreadDeschedSleep
    rw [hsl]
    rfl

theorem epollDel_some {s : State} {u : UId} {q : PId} {fd : Int} (hq : (s.ut u).p = some q)
    (hfd : fd ∈ (s.p q).interest.map Interest.fd) (site : Site) (e : Assertion) :
    epollDel u fd site e s = .ok (s.setP q fun v =>
      {v with interest := (s.p q).interest.filter fun i => i.fd != fd}) := by
  unfold epollDel
  rw [home_of_some hq]
  simp only [bind, Except.bind, epollCtlDel, if_pos hfd]

/-- Whoever waits alone under an event that is watched is resumed when it is handled. -/
theorem WaitsFor.handled {s : State} {a : SId} {q : PId} {fd : Int} {ev : UthreadEvent} {u : UId}
    (hw : WaitsFor s q fd ev u) (hq : (s.sched a).p = some q) (hhome : (s.ut u).p = some q)
    (hfd : fd ∈ (s.p q).interest.map Interest.fd) (isEof : Bool) (k : SchedAt) :
    ∃ s', handleEvent a fd ev isEof k s = .ok s' ∧ (s'.sched a).curUthread = some u := by
  have hfind : findWaiting s (fdKey fd ev.toNat) (s.p q).waiting = some u := by
    have h : Tree.find (fun v => (s.ut v).fdWait) (s.ut u).fdWait (s.p q).waiting = some u :=
      Tree.find_of_mem hw.mem fun v hv he => hw.only v hv (he.trans hw.key)
    rw [hw.key] at h
    exact h
  obtain ⟨s₁, hs₁, hkey, hhome₁, hint⟩ := uthreadDeschedSleep_some
    (s := s.setP q fun v => {v with waiting := Tree.remove u v.waiting}) (u := u) hhome
  have hd : uthreadDeschedEvent a fd ev.toNat s = .ok (some u, s₁) := by
    unfold uthreadDeschedEvent
    rw [bound_of_some hq]
    simp only [bind, Except.bind]
    rw [hfind]
    simp only [hs₁]
  have hfd₁ : fd = fdOnly (s₁.ut u).fdWait := by
    rw [hkey]
    show fd = fdOnly (s.ut u).fdWait
    rw [hw.key, fdOnly_fdKey]
  have hmem : fd ∈ (s₁.p q).interest.map Interest.fd := by
    rw [hint q, setP_p_self]
    exact hfd
  have hdel := epollDel_some (s := s₁.setUt u fun v => {v with status := clearWait v.status}) (u := u)
    (by simpa using hhome₁) hmem .handleEvent .eventDel
  have hok : ∃ s', handleEvent a fd ev isEof k s = .ok s' := by
    unfold handleEvent
    rw [hd]
    simp only [bind, Except.bind]
    rw [if_pos hfd₁, hdel]
    exact ⟨_, rfl⟩
  obtain ⟨s', hs'⟩ := hok
  exact ⟨s', hs', hw.resumes hq hs'⟩

/-! ### Registering -/

section Register

variable {s : State} {a : SId} {u : UId} {c : IoCall} (hhalt : s.halted = false)
  (hc : (s.sched a).curUthread = some u) (hhome : (s.ut u).p = some 0)
include hhalt hc hhome

end Register

end UthreadRuntime
