import UthreadRuntime.Model.Inversion

/-! What a transfer of control does not touch.

Taking a uthread out of the trees, waking a joiner and handling an event write the p's and a
few fields of records; putting a uthread on a thread also writes its flag, the sched and the
timer. A relation between states that the first kind of writes keep (`Untimed`) is kept by all
that the scheduler does up to a resume; one that the second kind keep too (`Transparent`), by
all that it does. -/
namespace UthreadRuntime

open State

/-- An update of a record that leaves alone all but its status, its key, its context, its
preemption flag and its history. -/
structure Routine (f : Uthread → Uthread) : Prop where
  id : ∀ r, (f r).id = r.id
  isMain : ∀ r, (f r).isMain = r.isMain
  wakeupTimeUsec : ∀ r, (f r).wakeupTimeUsec = r.wakeupTimeUsec
  utJoined : ∀ r, (f r).utJoined = r.utJoined
  p : ∀ r, (f r).p = r.p
  retval : ∀ r, (f r).retval = r.retval
  life : ∀ r, (f r).life = r.life

/-- A routine update that also leaves the context and the preemption flag alone. -/
structure Plain (f : Uthread → Uthread) : Prop extends Routine f where
  ctx : ∀ r, (f r).ctx = r.ctx
  isWatingYieldSignal : ∀ r, (f r).isWatingYieldSignal = r.isWatingYieldSignal

/-- The relation is kept by all that wakes a uthread and by all that a scheduler does between
two uthreads. -/
structure Untimed (R : State → State → Prop) : Prop where
  refl : ∀ s, R s s
  trans : ∀ {s s' s''}, R s s' → R s' s'' → R s s''
  setUt : ∀ u f s, Plain f → R s (s.setUt u f)
  setP : ∀ q g s, (∀ v, (g v).tid = v.tid) → R s (s.setP q g)
  setSched : ∀ a g s, (∀ v, (g v).p = v.p ∧ (g v).curUthread = v.curUthread) → R s (s.setSched a g)
  consumed : ∀ c s, R s {s with consumed := c}
  halted : ∀ b s, R s {s with halted := b}

/-- The relation is also kept when a uthread is put on a thread or taken off it. -/
structure Transparent (R : State → State → Prop) : Prop where
  refl : ∀ s, R s s
  trans : ∀ {s s' s''}, R s s' → R s' s'' → R s s''
  setUt : ∀ u f s, Routine f → R s (s.setUt u f)
  setP : ∀ q g s, R s (s.setP q g)
  setSched : ∀ a g s, R s (s.setSched a g)
  timer : ∀ t s, R s {s with timer := t}
  consumed : ∀ c s, R s {s with consumed := c}
  halted : ∀ b s, R s {s with halted := b}

theorem Transparent.untimed {R : State → State → Prop} (h : Transparent R) : Untimed R where
  refl := h.refl
  trans := h.trans
  setUt u f s hf := h.setUt u f s hf.toRoutine
  setP q g s _ := h.setP q g s
  setSched a g s _ := h.setSched a g s
  consumed := h.consumed
  halted := h.halted

namespace Untimed

variable {R : State → State → Prop} (h : Untimed R) {s s' : State} {a : SId} {u : UId}
include h

/-- An update of the record that is seen at once to be a plain one. -/
theorem setUt_of (f : Uthread → Uthread) (hf : ∀ r, f r = {r with
      status := (f r).status, fdWait := (f r).fdWait, hist := (f r).hist}) : R s (s.setUt u f) := by
  refine h.setUt u f s ⟨⟨fun r => ?_, fun r => ?_, fun r => ?_, fun r => ?_, fun r => ?_, fun r => ?_,
    fun r => ?_⟩, fun r => ?_, fun r => ?_⟩
  all_goals rw [hf r]

theorem setPc (a : SId) (k : SchedAt) (s : State) : R s (setPc a k s) :=
  h.setSched a _ s (by intro v; exact ⟨rfl, rfl⟩)

theorem deschedSleep (hs : uthreadDeschedSleep u s = .ok s') : R s s' := by
  rcases uthreadDeschedSleep_ok hs with ⟨-, rfl⟩ | ⟨-, q, -, rfl⟩
  · exact h.refl s'
  · exact h.trans (h.setP q _ s (by intro v; rfl)) (h.setUt_of _ (by intro v; rfl))

theorem deschedEvent {fd e : Int} {found : Option UId}
    (hs : uthreadDeschedEvent a fd e s = .ok (found, s')) : R s s' := by
  obtain ⟨q, -, -, ⟨-, rfl⟩ | ⟨v, -, hv⟩⟩ := uthreadDeschedEvent_ok hs
  · exact h.refl s'
  · exact h.trans (h.setP q _ s (by intro v; rfl)) (h.deschedSleep hv)

theorem dropInterest (q : PId) (fd : Int) (s : State) : R s (dropInterest q fd s) :=
  h.setP q _ s (by intro v; rfl)

theorem cancelEvent (hs : uthreadCancelEvent a u s = .ok s') : R s s' := by
  obtain ⟨q, s₁, -, -, rfl, hs₁⟩ := uthreadCancelEvent_ok hs
  have hdrop : R s (UthreadRuntime.dropInterest q (fdOnly (s.ut u).fdWait)
      (s.setUt u fun v => {v with status := clearWait v.status})) :=
    h.trans (h.setUt_of _ (by intro v; rfl)) (h.dropInterest q _ _)
  have hkey : R s₁ (s₁.setUt u fun v => {v with fdWait := -1}) := h.setUt_of _ (by intro v; rfl)
  rcases hs₁ with ⟨-, rfl⟩ | ⟨-, found, hd⟩
  · exact h.trans hdrop hkey
  · exact h.trans hdrop (h.trans (h.deschedEvent hd) hkey)

theorem wakeJoined (hs : wakeJoined u s = .ok s') : R s s' := by
  rcases wakeJoined_ok hs with ⟨-, rfl⟩ | ⟨j, q, s₁, -, hd, -, rfl⟩
  · exact h.refl s'
  · have hnote : R s₁ (s₁.setUt j fun v =>
        {v with hist := {v.hist with waits := .joined :: v.hist.waits}}) := h.setUt_of _ (by intro v; rfl)
    have hready : ∀ t, R t (insertReady q j t) := fun t => h.setP q _ t (by intro v; rfl)
    exact h.trans (h.deschedSleep hd) (h.trans hnote (hready _))

/-- An event handled: the uthread found for it is resumed. -/
theorem handleEvent {fd : Int} {ev : UthreadEvent} {isEof : Bool} {k : SchedAt}
    (hs : handleEvent a fd ev isEof k s = .ok s') :
    R s s' ∨ ∃ u s₁, R s s₁ ∧ s' = uthreadResume a u k s₁ := by
  rcases handleEvent_ok hs with ⟨s₁, hd, rfl⟩ | ⟨u, s₁, s₂, hd, -, hdel, rfl⟩
  · exact .inl (h.trans (h.deschedEvent hd) (h.setPc a k s₁))
  · obtain ⟨q, -, -, rfl⟩ := epollDel_ok hdel
    have hclear : R s₁ (s₁.setUt u fun v => {v with status := clearWait v.status}) :=
      h.setUt_of _ (by intro v; rfl)
    have hnote : ∀ t, R t (notedEvent u isEof t) := fun t => h.setUt_of _ (by intro v; rfl)
    refine .inr ⟨u, _, ?_, rfl⟩
    exact h.trans (h.deschedEvent hd) (h.trans hclear (h.trans (h.dropInterest q fd _) (hnote _)))

theorem tookEvent (a : SId) (q : PId) (e : EpollEvent) (s : State) : R s (tookEvent a q e s) := by
  unfold UthreadRuntime.tookEvent
  dsimp only
  split
  · exact h.trans (h.setP q _ s (by intro v; rfl))
      (h.trans (h.setSched a _ _ (by intro v; exact ⟨rfl, rfl⟩)) (h.consumed _ _))
  · exact h.trans (h.setP q _ s (by intro v; rfl)) (h.consumed _ _)

/-- **All that the scheduler does is routine**, up to the resume that may end it and but for
the start of a thread. -/
theorem schedStep {r : Reply} (hs : SchedStep a r s s') :
    R s s' ∨ (∃ u k s₁, R s s₁ ∧ s' = uthreadResume a u k s₁) ∨
    ∃ q, (s.sched a).pc = .another ∧ (s.sched a).p = some q ∧
      s' = UthreadRuntime.setPc a .top (s.setP q fun v => {v with tid := a}) := by
  cases hs with
  | goes _ => exact .inl (h.setPc a _ s)
  | another hpc hq => exact .inr (.inr ⟨_, hpc, hq, rfl⟩)
  | expired _ _ _ _ hcancel hsl =>
    refine .inr (.inl ⟨_, _, _, ?_, rfl⟩)
    exact h.trans (h.cancelEvent hcancel) (h.trans (h.deschedSleep hsl) (h.setUt_of _ (by intro v; rfl)))
  | ready _ _ _ => exact .inr (.inl ⟨_, _, _, h.setP _ _ s (by intro v; rfl), rfl⟩)
  | noPoll _ _ => exact .inl (h.trans (h.setP _ _ s (by intro v; rfl)) (h.setPc a _ _))
  | polled _ _ _ =>
    exact .inl (h.trans (h.setP _ _ s (by intro v; rfl))
      (h.trans (h.setP _ _ _ (by intro v; rfl)) (h.setPc a _ _)))
  | took _ _ _ _ he =>
    rcases h.handleEvent he with hR | ⟨u, s₁, hR, hs'⟩
    · exact .inl (h.trans (h.tookEvent a _ _ s) hR)
    · exact .inr (.inl ⟨u, _, s₁, h.trans (h.tookEvent a _ _ s) hR, hs'⟩)
  | handled _ he =>
    rcases h.handleEvent he with hR | ⟨u, s₁, hR, hs'⟩
    · exact .inl hR
    · exact .inr (.inl ⟨u, _, s₁, hR, hs'⟩)
  | halted _ => exact .inl (h.halted true s)

/-- A switch, from the moment the thread has no uthread: what is left is the release of one
that has exited. -/
theorem switched (hs : uthreadSwitched a u s = .ok s') :
    R (idleCpu a s) s' ∨ ((s.ut u).status.has .exited = true ∧ ∃ s₁, R (idleCpu a s) s₁ ∧ s' = freed u s₁) := by
  rcases uthreadSwitched_ok hs with ⟨he, s₁, hw, -, rfl⟩ | ⟨-, -, rfl⟩ | ⟨-, -, q, -, rfl⟩
  · exact .inr ⟨he, s₁, h.wakeJoined hw, rfl⟩
  · exact .inl (h.refl _)
  · exact .inl (h.setP q _ _ (by intro v; rfl))

end Untimed

namespace Transparent

variable {R : State → State → Prop} (h : Transparent R) {s s' : State} {a : SId} {u : UId}
include h

theorem wakeJoined (hs : wakeJoined u s = .ok s') : R s s' := h.untimed.wakeJoined hs

theorem resume (a : SId) (u : UId) (k : SchedAt) (s : State) : R s (uthreadResume a u k s) := by
  unfold uthreadResume
  dsimp only
  have hinit : R s (if (s.ut u).status.has .new then uthreadInit u s else s) := by
    split
    · exact h.setUt u _ s ⟨fun _ => rfl, fun _ => rfl, fun _ => rfl, fun _ => rfl, fun _ => rfl,
        fun _ => rfl, fun _ => rfl⟩
    · exact h.refl s
  have hflag : ∀ t, R t (t.setUt u fun v => {v with isWatingYieldSignal := true}) := fun t =>
    h.setUt u _ t ⟨fun _ => rfl, fun _ => rfl, fun _ => rfl, fun _ => rfl, fun _ => rfl, fun _ => rfl,
      fun _ => rfl⟩
  exact h.trans hinit (h.trans (h.setSched a _ _) (h.trans (hflag _) (h.timer _ _)))

/-- The resume is routine too. -/
theorem schedStep {r : Reply} (hs : SchedStep a r s s') : R s s' := by
  rcases h.untimed.schedStep hs with hR | ⟨u, k, s₁, hR, rfl⟩ | ⟨q, -, -, rfl⟩
  · exact hR
  · exact h.trans hR (h.resume a u k s₁)
  · exact h.trans (h.setP q _ s) (h.setSched a _ _)

/-- A switch is routine, but for the release of a uthread that has exited. -/
theorem switched (hs : uthreadSwitched a u s = .ok s') :
    R s s' ∨ ((s.ut u).status.has .exited = true ∧ ∃ s₁, R s s₁ ∧ s' = freed u s₁) := by
  have hidle : R s (idleCpu a s) := h.setSched a _ s
  rcases h.untimed.switched hs with hR | ⟨he, s₁, hR, hs'⟩
  · exact .inl (h.trans hidle hR)
  · exact .inr ⟨he, s₁, h.trans hidle hR, hs'⟩

end Transparent

end UthreadRuntime
