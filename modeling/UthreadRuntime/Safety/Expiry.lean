import UthreadRuntime.Safety.Pointers

/-! The expiry pass.

`_uthread_resume_expired` treats all sleepers alike: it drops the descriptor of the wait
from the interest set, under an assertion, and resumes the uthread. A uthread that sleeps
in a join has no descriptor. -/
namespace UthreadRuntime

open State

/-- The descriptor under which the uthread sleeps is in the interest set of its p. -/
def Watched (s : State) (u : UId) : Prop :=
  ∃ q, (s.ut u).p = some q ∧ fdOnly (s.ut u).fdWait ∈ (s.p q).interest.map Interest.fd

/-- A uthread in a join has no descriptor. -/
theorem Sound.not_watched_of_join {s : State} (h : Sound s) {u t : UId} {r : Option Addr} {pc : SleepAt}
    (hu : u < s.heap) (hctx : (s.ut u).ctx = .sleep (.join t r) pc) : ¬Watched s u := by
  rintro ⟨q, -, hin⟩
  have hk := (h.ut u hu).key
  rw [hctx] at hk
  have hk' : (s.ut u).fdWait = -1 := hk
  obtain ⟨i, hi, hif⟩ := List.mem_map.mp hin
  have hpos := h.interest hi
  rw [hif, hk'] at hpos
  simp [fdOnly] at hpos

section Pass

variable {s : State} {a : SId} {u : UId} {q : PId} (h : Sound s)
include h

theorem uthreadCancelEvent_succeeds (hu : u < s.heap) (hnew : (s.ut u).status.has .new = false)
    (hq : (s.sched a).p = some q) (hw : Watched s u) : ∃ s', uthreadCancelEvent a u s = .ok s' := by
  obtain ⟨q', hq', hin⟩ := hw
  have hclear := h.clearWait hu hnew
  have hdrop := hclear.dropInterest q' (fdOnly (s.ut u).fdWait)
  have hdel : epollDel u (fdOnly (s.ut u).fdWait) .cancelEvent .cancelDel
      (s.setUt u fun v => {v with status := clearWait v.status}) =
      .ok (dropInterest q' (fdOnly (s.ut u).fdWait)
        (s.setUt u fun v => {v with status := clearWait v.status})) := by
    unfold epollDel
    rw [home_of_some (q := q') (by simpa using hq')]
    dsimp only [bind, Except.bind]
    rw [setUt_p]
    unfold epollCtlDel
    rw [if_pos hin]
    rfl
  obtain ⟨found, s₁, hs₁⟩ := uthreadDeschedEvent_succeeds hdrop (a := a) (q := q) hq
    (fdOnly (s.ut u).fdWait) (fdEvent (s.ut u).fdWait)
  unfold uthreadCancelEvent
  dsimp only
  rw [hdel]
  by_cases hpos : 0 ≤ (s.ut u).fdWait
  · refine ⟨s₁.setUt u fun v => {v with fdWait := -1}, ?_⟩
    show (if 0 ≤ (s.ut u).fdWait then _ else _) = _
    rw [if_pos hpos, hs₁]
    rfl
  · refine ⟨(dropInterest q' (fdOnly (s.ut u).fdWait)
      (s.setUt u fun v => {v with status := clearWait v.status})).setUt u fun v => {v with fdWait := -1}, ?_⟩
    show (if 0 ≤ (s.ut u).fdWait then _ else _) = _
    rw [if_neg hpos]
    rfl

end Pass

section NotNew

variable {s s' : State} {a : SId} {u v : UId}

theorem uthreadDeschedSleep_new (hnew : (s.ut u).status.has .new = false)
    (hs : uthreadDeschedSleep v s = .ok s') : (s'.ut u).status.has .new = false := by
  rcases uthreadDeschedSleep_ok hs with ⟨-, rfl⟩ | ⟨-, q, -, rfl⟩
  · exact hnew
  · unfold unlinkSleeper
    rw [setUt_ut]
    split
    · rename_i huv
      subst huv
      simpa using hnew
    · exact hnew

theorem uthreadCancelEvent_new (hnew : (s.ut u).status.has .new = false)
    (hs : uthreadCancelEvent a u s = .ok s') : (s'.ut u).status.has .new = false := by
  obtain ⟨q, s₁, -, -, rfl, hs₁⟩ := uthreadCancelEvent_ok hs
  rw [setUt_ut_self]
  have hdrop : ((dropInterest q (fdOnly (s.ut u).fdWait)
      (s.setUt u fun v => {v with status := clearWait v.status})).ut u).status.has .new = false := by
    show ((s.setUt u fun v => {v with status := clearWait v.status}).ut u).status.has .new = false
    rw [setUt_ut_self]
    exact (has_clearWait_of_ne _ .new (by simp) (by simp)).trans hnew
  rcases hs₁ with ⟨-, rfl⟩ | ⟨-, found, hd⟩
  · exact hdrop
  · obtain ⟨q', -, -, ⟨-, rfl⟩ | ⟨v, -, hv⟩⟩ := uthreadDeschedEvent_ok hd
    · exact hdrop
    · exact uthreadDeschedSleep_new (by exact hdrop) hv

/-- A uthread that has run keeps the mark of its expiry when it is resumed. -/
theorem resumeExpired_marks (hnew : (s.ut u).status.has .new = false)
    (hs : resumeExpired a u s = .ok s') :
    (s'.sched a).curUthread = some u ∧ (s'.ut u).status.has .expired = true := by
  obtain ⟨s₁, hs₁, hs⟩ := bind_ok hs
  obtain ⟨s₂, hs₂, hs⟩ := bind_ok hs
  cases hs
  have hnew₂ := uthreadDeschedSleep_new (uthreadCancelEvent_new hnew hs₁) hs₂
  have hnoted : ((notedExpiry u s₂).ut u).status.has .new = false := by
    unfold notedExpiry
    rw [setUt_ut_self]
    simpa using hnew₂
  show ((uthreadResume a u .expiry (notedExpiry u s₂)).sched a).curUthread = some u ∧
    ((uthreadResume a u .expiry (notedExpiry u s₂)).ut u).status.has .expired = true
  unfold uthreadResume
  simp only [hnoted, Bool.false_eq_true, if_false]
  simp [notedExpiry]

end NotNew

/-- The turn of the pass is that of the earliest sleeper, if it is due. -/
theorem step_expiry {s : State} {a : SId} {q : PId} {m : UId} {r : Reply} (hhalt : s.halted = false)
    (hcur : (s.sched a).curUthread = none) (hpc : (s.sched a).pc = .expiry) (hq : (s.sched a).p = some q)
    (hmin : minSleeping s (s.p q).sleeping = some m) (hdue : (s.ut m).wakeupTimeUsec ≤ r.now) :
    step s (.sched a r) = resumeExpired a m s := by
  simp only [step, hhalt, hcur, schedRun, hpc, Bool.false_eq_true, if_false]
  unfold uthreadResumeExpired
  simp only [hq, hmin, if_pos hdue]

end UthreadRuntime
