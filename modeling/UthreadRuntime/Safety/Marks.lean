import UthreadRuntime.Model.Statements
import UthreadRuntime.Safety.SoundRuns
import UthreadRuntime.Safety.Frame

/-! The marks of a uthread.

`status` is one word for two things: where the uthread is (`READY`, `SLEEPING`, `WAIT_RD`,
`WAIT_WR`), which every transfer rewrites, and what has happened to it (`EXITED`,
`DETACHED`, `EXPIRED`, `FDEOF`). The latter, with the id and the life of the record, change
in few steps only, and `step_marks` says which. -/
namespace UthreadRuntime

open State

structure Marks where
  id : Nat
  life : Life
  new : Bool
  exited : Bool
  detached : Bool
  expired : Bool
  fdeof : Bool

def Uthread.marks (r : Uthread) : Marks where
  id := r.id
  life := r.life
  new := r.status.has .new
  exited := r.status.has .exited
  detached := r.status.has .detached
  expired := r.status.has .expired
  fdeof := r.status.has .fdeof

/-- The marks of a uthread that was just created. -/
def Marks.created (id : Nat) : Marks where
  id := id
  life := .live
  new := true
  exited := false
  detached := false
  expired := false
  fdeof := false

/-- The first resume assigns the status: whatever was marked before is gone. -/
def Marks.resumed (m : Marks) : Marks :=
  if m.new then {m with new := false, exited := false, detached := false, expired := false, fdeof := false}
  else m

theorem Marks.resumed_of_run {m : Marks} (h : m.new = false) : m.resumed = m := by
  unfold Marks.resumed
  rw [h]
  rfl

/-- No record has changed its marks. -/
def SameMarks (s s' : State) : Prop := ∀ v, (s'.ut v).marks = (s.ut v).marks

namespace SameMarks

variable {s s' s'' : State} {a : SId} {u : UId}

theorem refl (s : State) : SameMarks s s := fun _ => rfl

theorem trans (h : SameMarks s s') (h' : SameMarks s' s'') : SameMarks s s'' :=
  fun v => (h' v).trans (h v)

theorem of_eq (h : s'.ut = s.ut) : SameMarks s s' := by
  intro v
  rw [h]

theorem setUt {f : Uthread → Uthread} (h : (f (s.ut u)).marks = (s.ut u).marks) :
    SameMarks s (s.setUt u f) :=
  setUt_keeps Uthread.marks h

theorem goto (u : UId) (k : Ctx) (s : State) : SameMarks s (goto u k s) := setUt rfl

theorem returns (a : SId) (u : UId) (v : Int) (s : State) : SameMarks s (returns a u v s) := setUt rfl

theorem deschedSleep (h : uthreadDeschedSleep u s = .ok s') : SameMarks s s' := by
  rcases uthreadDeschedSleep_ok h with ⟨-, rfl⟩ | ⟨-, q, -, rfl⟩
  · exact refl s'
  · have h₁ : SameMarks s (s.setP q fun v => {v with sleeping := Tree.remove u v.sleeping}) := of_eq rfl
    refine h₁.trans (setUt ?_)
    simp [Uthread.marks]

theorem deschedEvent {fd e : Int} {found : Option UId}
    (h : uthreadDeschedEvent a fd e s = .ok (found, s')) : SameMarks s s' := by
  obtain ⟨q, -, -, ⟨-, rfl⟩ | ⟨v, -, hv⟩⟩ := uthreadDeschedEvent_ok h
  · exact refl s'
  · have h₁ : SameMarks s (s.setP q fun w => {w with waiting := Tree.remove v w.waiting}) := of_eq rfl
    exact h₁.trans (deschedSleep hv)

theorem clearsWait (u : UId) (s : State) :
    SameMarks s (s.setUt u fun v => {v with status := clearWait v.status}) := by
  refine setUt ?_
  have hkeep : ∀ b : UthreadSt, b ≠ .waitRd → b ≠ .ready →
      (clearWait (s.ut u).status).has b = (s.ut u).status.has b := has_clearWait_of_ne _
  simp [Uthread.marks, hkeep]

theorem cancelEvent (h : uthreadCancelEvent a u s = .ok s') : SameMarks s s' := by
  obtain ⟨q, s₁, -, -, rfl, hs₁⟩ := uthreadCancelEvent_ok h
  have hfd : SameMarks s₁ (s₁.setUt u fun v => {v with fdWait := -1}) := setUt rfl
  have hdrop : ∀ fd t, SameMarks t (dropInterest q fd t) := fun _ _ => of_eq rfl
  rcases hs₁ with ⟨-, rfl⟩ | ⟨-, found, hd⟩
  · exact ((clearsWait u s).trans (hdrop _ _)).trans hfd
  · exact ((clearsWait u s).trans (hdrop _ _)).trans ((deschedEvent hd).trans hfd)

theorem wakeJoined (h : wakeJoined u s = .ok s') : SameMarks s s' := by
  rcases wakeJoined_ok h with ⟨-, rfl⟩ | ⟨j, q, s₁, -, hd, -, rfl⟩
  · exact refl s'
  · have hnote : SameMarks s₁ (s₁.setUt j fun v =>
        {v with hist := {v.hist with waits := .joined :: v.hist.waits}}) := setUt rfl
    exact (deschedSleep hd).trans (hnote.trans (of_eq rfl))

end SameMarks

/-- A switch frees a uthread that has exited, and marks nobody. -/
theorem uthreadSwitched_marks {a : SId} {u : UId} {s s' : State} (h : uthreadSwitched a u s = .ok s')
    (v : UId) : (s'.ut v).marks = (s.ut v).marks ∨
      (v = u ∧ (s.ut u).marks.exited = true ∧ (s'.ut u).marks = {(s.ut u).marks with life := .freed}) := by
  have hi : SameMarks s (idleCpu a s) := SameMarks.of_eq rfl
  rcases uthreadSwitched_ok h with ⟨he, s₁, hw, -, rfl⟩ | ⟨-, -, rfl⟩ | ⟨-, -, q, -, rfl⟩
  · have h₁ := hi.trans (SameMarks.wakeJoined hw)
    by_cases hv : v = u
    · refine .inr ⟨hv, he, ?_⟩
      rw [← h₁ u]
      unfold freed
      rw [setUt_ut_self]
      rfl
    · refine .inl (Eq.trans ?_ (h₁ v))
      unfold freed
      rw [setUt_ut, if_neg hv]
  · exact .inl rfl
  · exact .inl rfl

theorem uthreadResume_marks (a : SId) (u : UId) (k : SchedAt) (s : State) (v : UId) :
    ((uthreadResume a u k s).ut v).marks =
      if v = u then (s.ut u).marks.resumed else (s.ut v).marks := by
  unfold uthreadResume
  by_cases hv : v = u
  · subst hv
    by_cases hnew : (s.ut v).status.has .new = true
    · simp [hnew, uthreadInit, Uthread.marks, Marks.resumed]
    · simp [hnew, Uthread.marks, Marks.resumed]
  · rw [if_neg hv]
    dsimp only
    rw [setUt_ut, if_neg hv, setSched_ut]
    split
    · unfold uthreadInit
      rw [setUt_ut, if_neg hv]
    · rfl

/-- The event the loop of `a` has in hand: a descriptor and whether it was hung up. -/
def State.inHand (s : State) (a : SId) : Option (Int × Bool) :=
  match (s.sched a).pc, (s.sched a).p with
  | .handleWr fd eof, _ => some (fd, eof)
  | .events, some q =>
    if (s.p q).numNewEvents = 0 then none
    else (s.p q).eventlist[(s.p q).numNewEvents - 1]?.map fun e => (e.fd, e.hup)
  | _, _ => none

/-- What an action may do to the marks of `v`. -/
inductive MarkStep (s : State) (s' : State) (v : UId) : Act → Marks → Prop where
  | same {act : Act} : MarkStep s s' v act (s.ut v).marks
  | exits {a : SId} {r : Reply} {x : Option Val} : (s.sched a).curUthread = some v →
      (s.ut v).ctx = .exit x .mark → MarkStep s s' v (.stmt a r) {(s.ut v).marks with exited := true}
  | detached {a : SId} : MarkStep s s' v (.call a (.detach v)) {(s.ut v).marks with detached := true}
  | freed {act : Act} : (s.sched act.thread).curUthread = some v → (∀ a r, act ≠ .sched a r) →
      (s.ut v).marks.exited = true → MarkStep s s' v act {(s.ut v).marks with life := .freed}
  | resumed {a : SId} {r : Reply} {q : PId} : (s.sched a).p = some q → v ∈ (s.p q).ready →
      (s'.sched a).curUthread = some v → MarkStep s s' v (.sched a r) (s.ut v).marks.resumed
  | expired {a : SId} {r : Reply} : (s'.sched a).curUthread = some v → (s.ut v).marks.new = false →
      MarkStep s s' v (.sched a r) {(s.ut v).marks with expired := true}
  | event {a : SId} {r : Reply} {fd : Int} {eof : Bool} : s.inHand a = some (fd, eof) →
      (s'.sched a).curUthread = some v → (s.ut v).marks.new = false →
      MarkStep s s' v (.sched a r) {(s.ut v).marks with fdeof := eof || (s.ut v).marks.fdeof}

section Step

variable {s s' : State} {a : SId} {u : UId}

/-- A uthread that waits under a key of the interest set has run. -/
theorem Sound.not_new_of_key (h : Sound s) (hu : u < s.heap) (hkey : (s.ut u).fdWait ≠ -1) :
    (s.ut u).status.has .new = false := by
  rw [Bool.eq_false_iff]
  intro hnew
  have hk := (h.ut u hu).key
  rw [((h.ut u hu).new hnew).1] at hk
  exact hkey hk

theorem handleEvent_marks (h : Sound s) {fd : Int} {ev : UthreadEvent} {isEof : Bool} {k : SchedAt}
    (hs : handleEvent a fd ev isEof k s = .ok s') :
    (SameMarks s s' ∧ (s'.sched a).curUthread = (s.sched a).curUthread) ∨
    ∃ u, (s'.sched a).curUthread = some u ∧ (s.ut u).marks.new = false ∧
      ∀ v, (s'.ut v).marks = if v = u then
        {(s.ut u).marks with fdeof := isEof || (s.ut u).marks.fdeof} else (s.ut v).marks := by
  rcases handleEvent_ok hs with ⟨s₁, hd, rfl⟩ | ⟨u, s₁, s₂, hd, hfd, hdel, rfl⟩
  · refine .inl ⟨(SameMarks.deschedEvent hd).trans (SameMarks.of_eq rfl), ?_⟩
    unfold setPc
    rw [setSched_sched_self, (Aside.deschedEvent hd).sched]
  · obtain ⟨hn, hu₂, -⟩ := h.handled hd hfd hdel isEof
    have hnew : (s.ut u).marks.new = false := by
      obtain ⟨q, -, hfound, -⟩ := uthreadDeschedEvent_ok hd
      obtain ⟨hmem, hkey⟩ := Tree.find_eq_some hfound
      obtain ⟨q', -, hin, -⟩ := epollDel_ok hdel
      obtain ⟨i, hi, hif⟩ := List.mem_map.mp hin
      have hpos : 0 ≤ i.fd := (h.uthreadDeschedEvent hd).interest (q := q') hi
      refine h.not_new_of_key (h.waiting hmem) ?_
      rw [hkey]
      cases ev <;> simp only [fdKey, UthreadEvent.toNat] <;> omega
    obtain ⟨q, -, -, rfl⟩ := epollDel_ok hdel
    have hbefore : SameMarks s (dropInterest q fd
        (s₁.setUt u fun v => {v with status := clearWait v.status})) :=
      ((SameMarks.deschedEvent hd).trans (SameMarks.clearsWait u s₁)).trans (SameMarks.of_eq rfl)
    refine .inr ⟨u, uthreadResume_cur a u k _, hnew, fun v => ?_⟩
    rw [uthreadResume_marks]
    by_cases hv : v = u
    · subst hv
      rw [if_pos rfl, if_pos rfl, ← hbefore v]
      have hnew' := hnew
      rw [← hbefore v] at hnew'
      unfold notedEvent
      rw [setUt_ut_self]
      cases isEof
      · simp only [Uthread.marks, Marks.resumed, Bool.false_or] at hnew' ⊢
        simp [hnew']
      · simp only [Uthread.marks, Marks.resumed, Bool.true_or] at hnew' ⊢
        simp [hnew']
    · rw [if_neg hv, if_neg hv, ← hbefore v]
      unfold notedEvent
      rw [setUt_ut, if_neg hv]

/-- A turn with an event in hand passes it to `handle_event`, to read or to write. -/
theorem SchedStep.of_inHand {r : Reply} {fd : Int} {eof : Bool} (hs : SchedStep a r s s')
    (hin : s.inHand a = some (fd, eof)) :
    (∃ q e, (s.sched a).pc = .events ∧ (s.sched a).p = some q ∧ (s.p q).numNewEvents ≠ 0 ∧
      (s.p q).eventlist[(s.p q).numNewEvents - 1]? = some e ∧ e.fd = fd ∧ e.hup = eof ∧
      handleEvent a fd .rd eof (.handleWr fd eof) (tookEvent a q e s) = .ok s') ∨
    ((s.sched a).pc = .handleWr fd eof ∧ handleEvent a fd .wr eof .events s = .ok s') := by
  cases hs with
  | goes hgo =>
    unfold inHand at hin
    generalize (s.sched a).pc = k at hgo hin
    cases hgo with
    | gone hp => simp [hp] at hin
    | handled hq hz => simp [hq, hz] at hin
    | _ => cases hin
  | another hpc _ | expired hpc _ _ _ _ _ | ready hpc _ _ | noPoll hpc _ | polled hpc _ _ | halted hpc =>
    simp only [inHand, hpc] at hin
    cases hin
  | @took q e _ hpc hq hn he hhandle =>
    simp only [inHand, hpc, hq, hn, he, if_false, Option.map_some, Option.some.injEq, Prod.mk.injEq] at hin
    obtain ⟨rfl, rfl⟩ := hin
    exact .inl ⟨q, e, hpc, hq, hn, he, rfl, rfl, hhandle⟩
  | handled hpc hhandle =>
    simp only [inHand, hpc, Option.some.injEq, Prod.mk.injEq] at hin
    obtain ⟨rfl, rfl⟩ := hin
    exact .inr ⟨hpc, hhandle⟩

/-- The uthread resumed with an event in hand is the one the event is for. -/
theorem SchedStep.event_marks (h : Sound s) {r : Reply} (hs : SchedStep a r s s')
    (hc : (s.sched a).curUthread = none) {fd : Int} {eof : Bool} (hin : s.inHand a = some (fd, eof))
    (hcur : (s'.sched a).curUthread = some u) :
    (s.ut u).marks.new = false ∧ (s'.ut u).marks.fdeof = (eof || (s.ut u).marks.fdeof) := by
  have hevent : ∀ {t : State} {ev : UthreadEvent} {k : SchedAt}, Sound t → t.ut = s.ut →
      (t.sched a).curUthread = none → handleEvent a fd ev eof k t = .ok s' →
      (s.ut u).marks.new = false ∧ (s'.ut u).marks.fdeof = (eof || (s.ut u).marks.fdeof) := by
    intro t ev k ht hut hct hhandle
    rcases handleEvent_marks ht hhandle with ⟨-, hsame⟩ | ⟨w, hw, hnew, hm⟩
    · rw [hsame, hct] at hcur
      cases hcur
    · obtain rfl : w = u := Option.some.inj (hw.symm.trans hcur)
      have hmw := hm w
      rw [if_pos rfl, hut] at hmw
      rw [hut] at hnew
      exact ⟨hnew, congrArg Marks.fdeof hmw⟩
  rcases hs.of_inHand hin with ⟨q, e, -, hq, -, -, rfl, rfl, hhandle⟩ | ⟨-, hhandle⟩
  · exact hevent (h.tookEvent (h.busy_of_p hq) q e).1 (tookEvent_ut a q e s)
      ((tookEvent_cur a q e s a).trans hc) hhandle
  · exact hevent h rfl hc hhandle

theorem SchedStep.marks (h : Sound s) {r : Reply} (hs : SchedStep a r s s') (v : UId) :
    MarkStep s s' v (.sched a r) (s'.ut v).marks := by
  have hsame : SameMarks s s' → MarkStep s s' v (.sched a r) (s'.ut v).marks := by
    intro hm
    rw [hm v]
    exact .same
  have hevent : ∀ {t : State} {fd : Int} {ev : UthreadEvent} {eof : Bool} {k : SchedAt}, Sound t →
      t.ut = s.ut → s.inHand a = some (fd, eof) → handleEvent a fd ev eof k t = .ok s' →
      MarkStep s s' v (.sched a r) (s'.ut v).marks := by
    intro t fd ev eof k ht hut hrep hhandle
    rcases handleEvent_marks ht hhandle with ⟨hm, -⟩ | ⟨u, hcur, hnew, hm⟩
    · exact hsame ((SameMarks.of_eq hut).trans hm)
    · have hmv := hm v
      rw [hut] at hmv hnew
      rw [hmv]
      split
      · rename_i hv
        subst hv
        exact .event hrep hcur hnew
      · exact .same
  cases hs with
  | goes _ => exact hsame (SameMarks.of_eq rfl)
  | another _ _ => exact hsame (SameMarks.of_eq rfl)
  | @expired q u s₁ s₂ _ _ hmin _ hcancel hsl =>
    have hnew : (s.ut u).marks.new = false := (h.sleeping (Tree.min_mem hmin)).2
    have hbefore := (SameMarks.cancelEvent hcancel).trans (SameMarks.deschedSleep hsl)
    have hnoted : ((notedExpiry u s₂).ut u).marks = {(s.ut u).marks with expired := true} := by
      unfold notedExpiry
      rw [setUt_ut_self, ← hbefore u]
      simp [Uthread.marks]
    rw [uthreadResume_marks]
    split
    · rename_i hv
      subst hv
      rw [hnoted, Marks.resumed_of_run (m := {(s.ut v).marks with expired := true}) hnew]
      exact .expired (uthreadResume_cur a v .expiry _) hnew
    · rename_i hv
      have hother : ((notedExpiry u s₂).ut v).marks = (s.ut v).marks := by
        rw [← hbefore v]
        unfold notedExpiry
        rw [setUt_ut, if_neg hv]
      rw [hother]
      exact .same
  | @ready q u rest last _ hq hr =>
    rw [uthreadResume_marks]
    split
    · rename_i hv
      subst hv
      refine .resumed hq ?_ (uthreadResume_cur a v _ _)
      rw [hr]
      exact List.mem_cons_self
    · exact .same
  | noPoll _ _ => exact hsame (SameMarks.of_eq rfl)
  | polled _ _ _ => exact hsame (SameMarks.of_eq rfl)
  | @took q e _ hpc hq hn he hhandle =>
    refine hevent (h.tookEvent (h.busy_of_p hq) q e).1 (tookEvent_ut a q e s) ?_ hhandle
    simp only [inHand, hpc, hq, hn, he, if_false, Option.map_some]
  | handled hpc hhandle =>
    refine hevent h rfl ?_ hhandle
    simp only [inHand, hpc]
  | halted _ => exact hsame (SameMarks.of_eq rfl)

theorem Stmt.marks {r : Reply} (hc : (s.sched a).curUthread = some u) (hs : Stmt a u r s s') {v : UId}
    (hv : v < s.heap) : MarkStep s s' v (.stmt a r) (s'.ut v).marks := by
  have hsame : SameMarks s s' → MarkStep s s' v (.stmt a r) (s'.ut v).marks := by
    intro hm
    rw [hm v]
    exact .same
  have herr : ∀ {s₀ : State}, (s₀ = s ∨ ∃ e, s₀ = setErrno a e s) → SameMarks s s₀ := by
    rintro s₀ (rfl | ⟨e, rfl⟩) <;> exact SameMarks.of_eq rfl
  cases hs with
  | @own k k' f hctx hown =>
    have hgoto := SameMarks.goto u k' (s.setUt u f)
    cases hown with
    | exitMark x =>
      by_cases hvu : v = u
      · subst hvu
        rw [hgoto v, setUt_ut_self]
        have hm : ({s.ut v with status := (s.ut v).status.add .exited} : Uthread).marks =
            {(s.ut v).marks with exited := true} := by
          simp [Uthread.marks]
        rw [hm]
        exact .exits hc hctx
      · rw [hgoto v, setUt_ut, if_neg hvu]
        exact .same
    | status c =>
      refine hsame (SameMarks.trans (SameMarks.setUt ?_) hgoto)
      cases c.event <;> simp [Uthread.marks, UthreadEvent.waitSt]
    | unstatus c =>
      refine hsame (SameMarks.trans (SameMarks.setUt ?_) hgoto)
      cases c.event <;> simp [Uthread.marks, UthreadEvent.waitSt]
    | mark w => exact hsame (SameMarks.trans (SameMarks.setUt (by simp [Uthread.marks])) hgoto)
    | wake w => exact hsame (SameMarks.trans (SameMarks.setUt (by simp [Uthread.marks])) hgoto)
    | _ => exact hsame (SameMarks.trans (SameMarks.setUt rfl) hgoto)
  | moves _ => exact hsame (SameMarks.goto u _ s)
  | io _ h₀ _ => exact hsame ((herr h₀).trans (SameMarks.goto u _ _))
  | ioReturns _ h₀ => exact hsame ((herr h₀).trans (SameMarks.returns a u _ _))
  | linkSleeping _ _ _ => exact hsame ((SameMarks.of_eq rfl).trans (SameMarks.goto u _ _))
  | watch _ _ _ =>
    refine hsame (SameMarks.trans ?_ (SameMarks.goto u _ _))
    exact SameMarks.of_eq rfl
  | linkWaiting _ _ => exact hsame ((SameMarks.of_eq rfl).trans (SameMarks.goto u _ _))
  | joinFails _ => exact hsame ((herr (.inr ⟨_, rfl⟩)).trans (SameMarks.returns a u _ _))
  | joinExited _ _ => exact hsame (SameMarks.trans (SameMarks.of_eq rfl) (SameMarks.returns a u _ _))
  | publish _ => exact hsame ((SameMarks.setUt rfl).trans (SameMarks.goto u _ _))
  | setRetval _ => exact hsame ((SameMarks.setUt rfl).trans (SameMarks.goto u _ _))
  | unpublish _ => exact hsame ((SameMarks.setUt rfl).trans (SameMarks.goto u _ _))
  | resetRetval _ => exact hsame ((SameMarks.setUt rfl).trans (SameMarks.returns a u _ _))
  | joinFree _ => exact hsame (SameMarks.trans (SameMarks.of_eq rfl) (SameMarks.returns a u _ _))
  | store _ =>
    exact hsame (SameMarks.trans (SameMarks.of_eq (storeRetval_ut u _ s)) (SameMarks.goto u _ _))
  | @switch k k' s' _ _ hsw =>
    have hgoto := SameMarks.goto u k' s
    rcases uthreadSwitched_marks hsw v with hm | ⟨rfl, he, hm⟩
    · rw [hm, hgoto v]
      exact .same
    · rw [hgoto v] at he hm
      rw [hm]
      exact .freed hc (by simp) he
  | allocFails _ _ => exact hsame (SameMarks.returns a u _ s)
  | lock _ _ => exact hsame (SameMarks.trans (SameMarks.of_eq rfl) (SameMarks.goto u _ _))
  | count _ => exact hsame (SameMarks.trans (SameMarks.of_eq rfl) (SameMarks.goto u _ _))
  | unlock _ => exact hsame (SameMarks.trans (SameMarks.of_eq rfl) (SameMarks.goto u _ _))
  | created _ _ =>
    rw [SameMarks.returns a u 0 _ v, created_ut_of_lt hv]
    exact .same
  | diskFlag _ _ => exact hsame ((SameMarks.setUt rfl).trans (SameMarks.goto u _ _))
  | handOff _ _ _ _ =>
    refine hsame (SameMarks.trans ?_ (SameMarks.goto u _ _))
    exact SameMarks.of_eq rfl
  | diskCall _ h₀ => exact hsame ((herr h₀).trans (SameMarks.returns a u _ _))

theorem Entered.marks {c : Call} (hs : Entered a u s c s') (v : UId) :
    MarkStep s s' v (.call a c) (s'.ut v).marks := by
  have hhist : ∀ c, SameMarks s (entered u c s) := fun c => SameMarks.setUt rfl
  cases hs with
  | goes _ _ _ =>
    rw [((hhist c).trans (SameMarks.goto u _ _)) v]
    exact .same
  | @detach t _ =>
    rw [SameMarks.returns a u 0 _ v, setUt_ut]
    split
    · rename_i hv
      subst hv
      have hm : ({(entered u (.detach v) s).ut v with
          status := ((entered u (.detach v) s).ut v).status.add .detached} : Uthread).marks =
          {((entered u (.detach v) s).ut v).marks with detached := true} := by
        simp [Uthread.marks]
      rw [hm, hhist _ v]
      exact .detached
    · rw [hhist _ v]
      exact .same
  | close =>
    rw [SameMarks.returns a u 0 _ v, closeFd_ut, hhist _ v]
    exact .same

/-- **The marks of a uthread change in these steps only.** -/
theorem step_marks {act : Act} (h : Sound s) (hs : step s act = .ok s') {v : UId} (hv : v < s.heap) :
    MarkStep s s' v act (s'.ut v).marks := by
  cases step_ok hs with
  | call _ _ hent => exact hent.marks v
  | stmt hc hstmt => exact hstmt.marks hc hv
  | @preempt a u s' hc _ hsw =>
    have hflag : SameMarks s (s.setUt u fun v => {v with isWatingYieldSignal := false}) := SameMarks.setUt rfl
    rcases uthreadSwitched_marks hsw v with hm | ⟨rfl, he, hm⟩
    · rw [hm, hflag v]
      exact .same
    · rw [hflag v] at he hm
      rw [hm]
      exact .freed hc (by simp) he
  | sched _ hsched => exact hsched.marks h v

end Step

end UthreadRuntime
