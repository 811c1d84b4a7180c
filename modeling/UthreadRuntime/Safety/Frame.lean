import UthreadRuntime.Model.Statements

/-! What a step leaves alone.

Library code and the timer do not touch the event lists, and they bind, unbind or
start a sched in one statement only, the hand-off of a disk call. A step of a
scheduler binds nothing and touches no other sched. -/
namespace UthreadRuntime

open State

/-- The scheds stand where they stood, bound as they were, the event lists are untouched and
no event was taken; the sched of `a` may have lost its uthread, and its thread has its `errno`. -/
structure Still (a : SId) (s s' : State) : Prop where
  idle : s'.schedIdle = s.schedIdle
  bound : ∀ c, (s'.sched c).p = (s.sched c).p
  pc : ∀ c, (s'.sched c).pc = (s.sched c).pc
  cur : ∀ c, c ≠ a → (s'.sched c).curUthread = (s.sched c).curUthread
  errno : ∀ c, c ≠ a → (s'.sched c).errno = (s.sched c).errno
  self : (s'.sched a).curUthread = (s.sched a).curUthread ∨ (s'.sched a).curUthread = none
  events : ∀ q, (s'.p q).eventlist = (s.p q).eventlist ∧
    (s'.p q).numNewEvents = (s.p q).numNewEvents ∧ (s'.p q).posted = (s.p q).posted ∧
    (s'.p q).taken = (s.p q).taken
  consumed : ∀ v, s'.consumed v = true → s.consumed v = true

/-- The hand-off of a disk call. -/
def HandsOver (u : UId) (s s' : State) : Prop :=
  ∃ c q n rest, (s.ut u).ctx = .diskHandOff c ∧ (s.sched c).p = some q ∧ (s.p q).ready ≠ [] ∧
    s.schedIdle = n :: rest ∧ s' = goto u .diskCall (handedOff c n q rest s)

/-- The other scheds stand where they stood and run what they ran, and all are bound as
they were. -/
structure Local (a : SId) (s s' : State) : Prop where
  idle : s'.schedIdle = s.schedIdle
  bound : ∀ c, (s'.sched c).p = (s.sched c).p
  pc : ∀ c, c ≠ a → (s'.sched c).pc = (s.sched c).pc
  cur : ∀ c, c ≠ a → (s'.sched c).curUthread = (s.sched c).curUthread
  errno : ∀ c, c ≠ a → (s'.sched c).errno = (s.sched c).errno

namespace Still

variable {a : SId} {s s' s'' : State}

theorem refl (a : SId) (s : State) : Still a s s :=
  ⟨rfl, fun _ => rfl, fun _ => rfl, fun _ _ => rfl, fun _ _ => rfl, .inl rfl,
    fun _ => ⟨rfl, rfl, rfl, rfl⟩, fun _ hv => hv⟩

theorem trans (h : Still a s s') (h' : Still a s' s'') : Still a s s'' := by
  refine ⟨h'.idle.trans h.idle, fun c => (h'.bound c).trans (h.bound c), fun c => (h'.pc c).trans (h.pc c),
    fun c hc => (h'.cur c hc).trans (h.cur c hc), fun c hc => (h'.errno c hc).trans (h.errno c hc), ?_,
    fun q => ?_, fun v hv => h.consumed v (h'.consumed v hv)⟩
  · rcases h'.self with h2 | h2
    · rw [h2]
      exact h.self
    · exact .inr h2
  · obtain ⟨h1, h2, h3, h4⟩ := h.events q
    obtain ⟨h5, h6, h7, h8⟩ := h'.events q
    exact ⟨h5.trans h1, h6.trans h2, h7.trans h3, h8.trans h4⟩

/-- Only records of uthreads and other globals differ. -/
theorem of_eq (hi : s'.schedIdle = s.schedIdle) (hs : s'.sched = s.sched) (hp : s'.p = s.p)
    (hn : s'.consumed = s.consumed) : Still a s s' := by
  refine ⟨hi, fun _ => by rw [hs], fun _ => by rw [hs], fun _ _ => by rw [hs], fun _ _ => by rw [hs],
    .inl (by rw [hs]), fun q => ?_, fun v hv => by rwa [hn] at hv⟩
  rw [hp]
  exact ⟨rfl, rfl, rfl, rfl⟩

theorem setUt (a : SId) (u : UId) (f : Uthread → Uthread) (s : State) : Still a s (s.setUt u f) :=
  of_eq rfl rfl rfl rfl

theorem goto (a : SId) (u : UId) (c : Ctx) (s : State) : Still a s (goto u c s) := of_eq rfl rfl rfl rfl

theorem setP {q : PId} {g : P → P} (h : ∀ v, (g v).eventlist = v.eventlist ∧
    (g v).numNewEvents = v.numNewEvents ∧ (g v).posted = v.posted ∧ (g v).taken = v.taken) :
    Still a s (s.setP q g) := by
  refine ⟨rfl, fun _ => rfl, fun _ => rfl, fun _ _ => rfl, fun _ _ => rfl, .inl rfl, fun r => ?_,
    fun _ hv => hv⟩
  rw [setP_p]
  split
  · rename_i hr
    rw [hr]
    exact h _
  · exact ⟨rfl, rfl, rfl, rfl⟩

theorem setSched {f : Sched → Sched} (hp : (f (s.sched a)).p = (s.sched a).p)
    (hpc : (f (s.sched a)).pc = (s.sched a).pc)
    (hcur : (f (s.sched a)).curUthread = (s.sched a).curUthread ∨ (f (s.sched a)).curUthread = none) :
    Still a s (s.setSched a f) := by
  refine ⟨rfl, setSched_keeps Sched.p hp, setSched_keeps Sched.pc hpc, fun c hc => ?_, fun c hc => ?_, ?_,
    fun _ => ⟨rfl, rfl, rfl, rfl⟩, fun _ hv => hv⟩
  · rw [setSched_sched, if_neg hc]
  · rw [setSched_sched, if_neg hc]
  · rw [setSched_sched_self]
    exact hcur

theorem setErrno (a : SId) (e : Errno) (s : State) : Still a s (setErrno a e s) :=
  setSched rfl rfl (.inl rfl)

theorem insertReady (a : SId) (q : PId) (u : UId) (s : State) : Still a s (insertReady q u s) :=
  setP fun _ => ⟨rfl, rfl, rfl, rfl⟩

theorem deschedSleep (a : SId) {u : UId} (h : uthreadDeschedSleep u s = .ok s') : Still a s s' := by
  rcases uthreadDeschedSleep_ok h with ⟨-, rfl⟩ | ⟨-, q, -, rfl⟩
  · exact refl a s'
  · have hp : Still a s (s.setP q fun v => {v with sleeping := Tree.remove u v.sleeping}) :=
      setP fun _ => ⟨rfl, rfl, rfl, rfl⟩
    exact hp.trans (setUt a u _ _)

theorem switched {u : UId} (h : uthreadSwitched a u s = .ok s') : Still a s s' := by
  have hi : Still a s (idleCpu a s) := setSched rfl rfl (.inr rfl)
  rcases uthreadSwitched_ok h with ⟨-, s₁, hw, -, rfl⟩ | ⟨-, -, rfl⟩ | ⟨-, -, q, -, rfl⟩
  · have h₁ : Still a s s₁ := by
      rcases wakeJoined_ok hw with ⟨-, rfl⟩ | ⟨j, q, s₂, -, hd, -, rfl⟩
      · exact hi
      · exact hi.trans ((deschedSleep a hd).trans ((setUt a j _ s₂).trans (insertReady a q j _)))
    exact h₁.trans (of_eq rfl rfl rfl rfl)
  · exact hi
  · exact hi.trans (insertReady a q u _)

end Still

/-- **Library code moves no sched, but for the hand-off.** -/
theorem Stmt.frame {a : SId} {u : UId} {r : Reply} {s s' : State} (h : Stmt a u r s s') :
    Still a s s' ∨ HandsOver u s s' := by
  have herr : ∀ {s₀ : State}, (s₀ = s ∨ ∃ e, s₀ = setErrno a e s) → Still a s s₀ := by
    rintro s₀ (rfl | ⟨e, rfl⟩)
    · exact Still.refl a s₀
    · exact Still.setErrno a e s
  have hgoto : ∀ {k : Ctx} {s₀ : State}, Still a s s₀ → Still a s (goto u k s₀) :=
    fun h₀ => h₀.trans (Still.goto a u _ _)
  have hret : ∀ {x : Int} {s₀ : State}, Still a s s₀ → Still a s (returns a u x s₀) :=
    fun h₀ => h₀.trans (.of_eq rfl rfl rfl rfl)
  cases h with
  | io _ h₀ _ => exact .inl (hgoto (herr h₀))
  | ioReturns _ h₀ | diskCall _ h₀ => exact .inl (hret (herr h₀))
  | joinFails _ => exact .inl (hret (Still.setErrno a _ s))
  | linkSleeping _ _ _ | linkWaiting _ _ => exact .inl (hgoto (Still.setP fun _ => ⟨rfl, rfl, rfl, rfl⟩))
  | watch _ _ _ =>
    have hn : Still a s {s with consumed := Function.update s.consumed u false} := by
      refine ⟨rfl, fun _ => rfl, fun _ => rfl, fun _ _ => rfl, fun _ _ => rfl, .inl rfl,
        fun _ => ⟨rfl, rfl, rfl, rfl⟩, fun v hv => ?_⟩
      have hv' : Function.update s.consumed u false v = true := hv
      rw [Function.update_apply] at hv'
      split at hv'
      · cases hv'
      · exact hv'
    exact .inl (hgoto (hn.trans (Still.setP fun _ => ⟨rfl, rfl, rfl, rfl⟩)))
  | store _ =>
    rw [storeRetval_eq]
    exact .inl (hgoto (.of_eq rfl rfl rfl rfl))
  | switch _ _ hsw => exact .inl ((Still.goto a u _ s).trans (Still.switched hsw))
  | @created _ id p q _ _ =>
    have h₁ : Still a s {s with
        ut := Function.update s.ut s.heap
          {id := id, status := .only .new, p := p, fdWait := -1, isWatingYieldSignal := true, life := .live}
        heap := s.heap + 1} := .of_eq rfl rfl rfl rfl
    exact .inl (hret (h₁.trans (Still.insertReady a q s.heap _)))
  | handOff hctx hq hr hidle => exact .inr ⟨_, _, _, _, hctx, hq, hr, hidle, rfl⟩
  | _ => exact .inl (.of_eq rfl rfl rfl rfl)

theorem Entered.still {a : SId} {u : UId} {c : Call} {s s' : State} (h : Entered a u s c s') :
    Still a s s' := by
  cases h with
  | goes _ _ _ | detach _ => exact .of_eq rfl rfl rfl rfl
  | close =>
    exact ⟨rfl, fun _ => rfl, fun _ => rfl, fun _ _ => rfl, fun _ _ => rfl, .inl rfl,
      fun _ => ⟨rfl, rfl, rfl, rfl⟩, fun _ hv => hv⟩

theorem handedOff_cur {s : State} {c n : SId} {q : PId} {rest : List SId} (d : SId) :
    ((handedOff c n q rest s).sched d).curUthread = (s.sched d).curUthread := by
  unfold handedOff
  dsimp only
  rw [setSched_keeps Sched.curUthread rfl, setP_sched, setSched_keeps Sched.curUthread rfl]

/-- A step is a scheduler's, or it moves no sched, or it is a hand-off. -/
theorem step_frame {s s' : State} {act : Act} (h : step s act = .ok s') :
    (∃ a r, act = .sched a r ∧ (s.sched a).curUthread = none ∧ schedRun a r s = .ok s') ∨
    ((∀ a r, act ≠ .sched a r) ∧ Still act.thread s s') ∨
    ∃ a r u, act = .stmt a r ∧ (s.sched a).curUthread = some u ∧ HandsOver u s s' := by
  cases step_ok h with
  | call _ _ hent => exact .inr (.inl ⟨by simp, hent.still⟩)
  | stmt hc hst =>
    rcases hst.frame with hstill | hover
    · exact .inr (.inl ⟨by simp, hstill⟩)
    · exact .inr (.inr ⟨_, _, _, rfl, hc, hover⟩)
  | @preempt a u _ _ _ hsw => exact .inr (.inl ⟨by simp, (Still.setUt a u _ s).trans (Still.switched hsw)⟩)
  | @sched a r _ hc _ =>
    refine .inl ⟨a, r, rfl, hc, ?_⟩
    rw [← h]
    simp only [step, not_halted_of_step h, hc, Bool.false_eq_true, if_false]

/-! ### A scheduler's step -/

namespace Local

variable {a : SId} {s s' s'' : State}

theorem refl (a : SId) (s : State) : Local a s s :=
  ⟨rfl, fun _ => rfl, fun _ _ => rfl, fun _ _ => rfl, fun _ _ => rfl⟩

theorem trans (h : Local a s s') (h' : Local a s' s'') : Local a s s'' :=
  ⟨h'.idle.trans h.idle, fun c => (h'.bound c).trans (h.bound c),
    fun c hc => (h'.pc c hc).trans (h.pc c hc), fun c hc => (h'.cur c hc).trans (h.cur c hc),
    fun c hc => (h'.errno c hc).trans (h.errno c hc)⟩

theorem of_eq (hi : s'.schedIdle = s.schedIdle) (hs : s'.sched = s.sched) : Local a s s' :=
  ⟨hi, fun _ => by rw [hs], fun _ _ => by rw [hs], fun _ _ => by rw [hs], fun _ _ => by rw [hs]⟩

theorem setSched {f : Sched → Sched} (hp : (f (s.sched a)).p = (s.sched a).p) :
    Local a s (s.setSched a f) := by
  refine ⟨rfl, fun c => ?_, fun c hc => ?_, fun c hc => ?_, fun c hc => ?_⟩
  · exact setSched_keeps Sched.p hp c
  · rw [setSched_sched, if_neg hc]
  · rw [setSched_sched, if_neg hc]
  · rw [setSched_sched, if_neg hc]

theorem setPc (a : SId) (k : SchedAt) (s : State) : Local a s (setPc a k s) := setSched rfl

theorem uthreadResume (a : SId) (u : UId) (k : SchedAt) (s : State) :
    Local a s (uthreadResume a u k s) := by
  have h₀ : Local a s (if (s.ut u).status.has .new then uthreadInit u s else s) := by
    split
    · exact of_eq rfl rfl
    · exact refl a s
  unfold UthreadRuntime.uthreadResume
  generalize (if (s.ut u).status.has .new then uthreadInit u s else s) = s₀ at h₀ ⊢
  have h₁ : Local a s₀ (s₀.setSched a fun v => {v with curUthread := some u, pc := k}) := setSched rfl
  exact h₀.trans (h₁.trans (of_eq rfl rfl))

end Local

/-- Event lists and scheds are as they were. -/
structure Aside (s s' : State) : Prop where
  halted : s'.halted = s.halted
  sched : s'.sched = s.sched
  idle : s'.schedIdle = s.schedIdle
  consumed : s'.consumed = s.consumed
  events : ∀ q, (s'.p q).eventlist = (s.p q).eventlist ∧
    (s'.p q).numNewEvents = (s.p q).numNewEvents ∧ (s'.p q).posted = (s.p q).posted ∧
    (s'.p q).taken = (s.p q).taken

namespace Aside

variable {s s' s'' : State}

theorem refl (s : State) : Aside s s := ⟨rfl, rfl, rfl, rfl, fun _ => ⟨rfl, rfl, rfl, rfl⟩⟩

theorem trans (h : Aside s s') (h' : Aside s' s'') : Aside s s'' := by
  refine ⟨h'.halted.trans h.halted, h'.sched.trans h.sched, h'.idle.trans h.idle,
    h'.consumed.trans h.consumed, fun q => ?_⟩
  obtain ⟨h1, h2, h3, h4⟩ := h.events q
  obtain ⟨h5, h6, h7, h8⟩ := h'.events q
  exact ⟨h5.trans h1, h6.trans h2, h7.trans h3, h8.trans h4⟩

theorem setUt (u : UId) (f : Uthread → Uthread) (s : State) : Aside s (s.setUt u f) :=
  ⟨rfl, rfl, rfl, rfl, fun _ => ⟨rfl, rfl, rfl, rfl⟩⟩

theorem setP {q : PId} {g : P → P} (h : ∀ v, (g v).eventlist = v.eventlist ∧
    (g v).numNewEvents = v.numNewEvents ∧ (g v).posted = v.posted ∧ (g v).taken = v.taken) :
    Aside s (s.setP q g) := by
  refine ⟨rfl, rfl, rfl, rfl, fun r => ?_⟩
  rw [setP_p]
  split
  · rename_i hr
    rw [hr]
    exact h _
  · exact ⟨rfl, rfl, rfl, rfl⟩

theorem deschedSleep {u : UId} (h : uthreadDeschedSleep u s = .ok s') : Aside s s' := by
  rcases uthreadDeschedSleep_ok h with ⟨-, rfl⟩ | ⟨-, q, -, rfl⟩
  · exact refl s'
  · have hp : Aside s (s.setP q fun v => {v with sleeping := Tree.remove u v.sleeping}) :=
      setP fun _ => ⟨rfl, rfl, rfl, rfl⟩
    exact hp.trans (setUt u _ _)

theorem deschedEvent {a : SId} {fd e : Int} {found : Option UId}
    (h : uthreadDeschedEvent a fd e s = .ok (found, s')) : Aside s s' := by
  obtain ⟨q, -, -, ⟨-, rfl⟩ | ⟨v, -, hv⟩⟩ := uthreadDeschedEvent_ok h
  · exact refl s'
  · have hp : Aside s (s.setP q fun w => {w with waiting := Tree.remove v w.waiting}) :=
      setP fun _ => ⟨rfl, rfl, rfl, rfl⟩
    exact hp.trans (deschedSleep hv)

theorem dropInterest (q : PId) (fd : Int) (s : State) : Aside s (dropInterest q fd s) :=
  setP fun _ => ⟨rfl, rfl, rfl, rfl⟩

theorem cancelEvent {a : SId} {u : UId} (h : uthreadCancelEvent a u s = .ok s') : Aside s s' := by
  obtain ⟨q, s₁, -, -, rfl, ⟨-, rfl⟩ | ⟨-, found, hd⟩⟩ := uthreadCancelEvent_ok h
  · exact (setUt u _ s).trans ((dropInterest q _ _).trans (setUt u _ _))
  · exact (setUt u _ s).trans ((dropInterest q _ _).trans ((deschedEvent hd).trans (setUt u _ _)))

theorem expired {a : SId} {u : UId} {s₁ s₂ : State} (hc : uthreadCancelEvent a u s = .ok s₁)
    (hs : uthreadDeschedSleep u s₁ = .ok s₂) : Aside s (notedExpiry u s₂) :=
  (cancelEvent hc).trans ((deschedSleep hs).trans (setUt u _ s₂))

theorem handled {a : SId} {u : UId} {fd : Int} {ev : UthreadEvent} {isEof : Bool} {s₁ s₂ : State}
    (hd : uthreadDeschedEvent a fd ev.toNat s = .ok (some u, s₁))
    (hdel : epollDel u fd .handleEvent .eventDel
      (s₁.setUt u fun v => {v with status := clearWait v.status}) = .ok s₂) :
    Aside s (notedEvent u isEof s₂) := by
  obtain ⟨q, -, -, rfl⟩ := epollDel_ok hdel
  exact (deschedEvent hd).trans ((setUt u _ s₁).trans ((dropInterest q fd _).trans (setUt u _ _)))

theorem toLocal (h : Aside s s') (a : SId) : Local a s s' := Local.of_eq h.idle h.sched

end Aside

/-- Resuming a uthread touches its sched and its record. -/
theorem uthreadResume_p (a : SId) (u : UId) (k : SchedAt) (s : State) :
    (uthreadResume a u k s).p = s.p ∧ (uthreadResume a u k s).consumed = s.consumed := by
  unfold uthreadResume
  dsimp only
  split <;> exact ⟨rfl, rfl⟩

theorem uthreadResume_halted (a : SId) (u : UId) (k : SchedAt) (s : State) :
    (uthreadResume a u k s).halted = s.halted := by
  unfold uthreadResume
  dsimp only
  split <;> rfl

theorem uthreadResume_cur (a : SId) (u : UId) (k : SchedAt) (s : State) :
    ((uthreadResume a u k s).sched a).curUthread = some u := by
  unfold uthreadResume
  simp

theorem uthreadResume_pc (a : SId) (u : UId) (k : SchedAt) (s : State) :
    ((uthreadResume a u k s).sched a).pc = k := by
  unfold uthreadResume
  simp

theorem handleEvent_local {a : SId} {fd : Int} {ev : UthreadEvent} {isEof : Bool} {k : SchedAt}
    {s s' : State} (h : handleEvent a fd ev isEof k s = .ok s') : Local a s s' := by
  rcases handleEvent_ok h with ⟨s₁, hd, rfl⟩ | ⟨u, s₁, s₂, hd, -, hdel, rfl⟩
  · exact ((Aside.deschedEvent hd).toLocal a).trans (Local.setPc a k s₁)
  · exact ((Aside.handled hd hdel).toLocal a).trans (Local.uthreadResume a u k _)

theorem setPc_pc (a : SId) (k : SchedAt) (s : State) : ((setPc a k s).sched a).pc = k := by
  unfold setPc
  rw [setSched_sched_self]

theorem setPc_cur (a : SId) (k : SchedAt) (s : State) (c : SId) :
    ((setPc a k s).sched c).curUthread = (s.sched c).curUthread := setSched_keeps Sched.curUthread rfl c

theorem setPc_bound (a : SId) (k : SchedAt) (s : State) (c : SId) :
    ((setPc a k s).sched c).p = (s.sched c).p := setSched_keeps Sched.p rfl c

theorem handleEvent_pc {a : SId} {fd : Int} {ev : UthreadEvent} {isEof : Bool} {k : SchedAt}
    {s s' : State} (h : handleEvent a fd ev isEof k s = .ok s') : (s'.sched a).pc = k := by
  rcases handleEvent_ok h with ⟨s₁, -, rfl⟩ | ⟨u, s₁, s₂, -, -, -, rfl⟩
  · exact setPc_pc a k s₁
  · exact uthreadResume_pc a u k _

/-- The event lists are left to the loop. -/
theorem handleEvent_events {a : SId} {fd : Int} {ev : UthreadEvent} {isEof : Bool} {k : SchedAt}
    {s s' : State} (h : handleEvent a fd ev isEof k s = .ok s') :
    s'.consumed = s.consumed ∧ ∀ q, (s'.p q).eventlist = (s.p q).eventlist ∧
      (s'.p q).numNewEvents = (s.p q).numNewEvents ∧ (s'.p q).posted = (s.p q).posted ∧
      (s'.p q).taken = (s.p q).taken := by
  rcases handleEvent_ok h with ⟨s₁, hd, rfl⟩ | ⟨u, s₁, s₂, hd, -, hdel, rfl⟩
  · have ha := Aside.deschedEvent hd
    exact ⟨ha.consumed, ha.events⟩
  · have ha : Aside s (notedEvent u isEof s₂) := Aside.handled hd hdel
    obtain ⟨h1, h2⟩ := uthreadResume_p a u k (notedEvent u isEof s₂)
    rw [h1, h2]
    exact ⟨ha.consumed, ha.events⟩

theorem tookEvent_ut (a : SId) (q : PId) (e : EpollEvent) (s : State) : (tookEvent a q e s).ut = s.ut := by
  unfold tookEvent
  dsimp only
  split <;> rfl

theorem tookEvent_cur (a : SId) (q : PId) (e : EpollEvent) (s : State) (c : SId) :
    ((tookEvent a q e s).sched c).curUthread = (s.sched c).curUthread := by
  unfold tookEvent
  dsimp only
  split
  · unfold markConsumed
    dsimp only
    rw [setSched_keeps Sched.curUthread rfl c]
    rfl
  · rfl

theorem tookEvent_local (a : SId) (q : PId) (e : EpollEvent) (s : State) :
    Local a s (tookEvent a q e s) := by
  have h₁ : Local a s (s.setP q fun v =>
      {v with numNewEvents := v.numNewEvents - 1, taken := v.taken ++ [e]}) := Local.of_eq rfl rfl
  unfold tookEvent
  dsimp only
  split
  · have h₂ := Local.setSched (a := a) (f := fun v => {v with errno := .econnreset}) (s := s.setP q fun v =>
      {v with numNewEvents := v.numNewEvents - 1, taken := v.taken ++ [e]}) rfl
    exact (h₁.trans h₂).trans (Local.of_eq rfl rfl)
  · exact h₁.trans (Local.of_eq rfl rfl)

/-- **A scheduler moves no sched but its own, and binds none.** -/
theorem SchedStep.toLocal {a : SId} {r : Reply} {s s' : State} (h : SchedStep a r s s') : Local a s s' := by
  have hp : ∀ (q : PId) (g : P → P), Local a s (s.setP q g) := fun _ _ => Local.of_eq rfl rfl
  cases h with
  | goes _ => exact Local.setPc a _ s
  | another _ _ => exact (hp _ _).trans (Local.setPc a _ _)
  | expired _ _ _ _ hcancel hsl =>
    exact ((Aside.expired hcancel hsl).toLocal a).trans (Local.uthreadResume a _ _ _)
  | ready _ _ _ => exact (hp _ _).trans (Local.uthreadResume a _ _ _)
  | noPoll _ _ => exact (hp _ _).trans (Local.setPc a _ _)
  | polled _ _ _ =>
    refine Local.trans ?_ (Local.setPc a _ _)
    exact Local.of_eq rfl rfl
  | took _ _ _ _ he => exact (tookEvent_local a _ _ s).trans (handleEvent_local he)
  | handled _ he => exact handleEvent_local he
  | halted _ => exact Local.of_eq rfl rfl

/-- A loop whose sched has no p only goes round. -/
theorem SchedStep.unbound {s s' : State} {a : SId} {r : Reply} (h : SchedStep a r s s')
    (hp : (s.sched a).p = none) : s'.ut = s.ut ∧ s'.p = s.p ∧ s'.heap = s.heap ∧
      (s'.sched a).curUthread = (s.sched a).curUthread := by
  have hno : ∀ {q}, (s.sched a).p ≠ some q := by
    intro q hq
    rw [hp] at hq
    cases hq
  have hevent : ∀ {fd ev eof k t}, (t.sched a).p = none → handleEvent a fd ev eof k t ≠ .ok s' := by
    intro fd ev eof k t ht hh
    rcases handleEvent_ok hh with ⟨s₁, hd, -⟩ | ⟨u, s₁, s₂, hd, -⟩
    · obtain ⟨q, hq, -⟩ := uthreadDeschedEvent_ok hd
      rw [ht] at hq
      cases hq
    · obtain ⟨q, hq, -⟩ := uthreadDeschedEvent_ok hd
      rw [ht] at hq
      cases hq
  cases h with
  | goes _ =>
    refine ⟨rfl, rfl, rfl, ?_⟩
    unfold setPc
    rw [setSched_sched_self]
  | halted _ => exact ⟨rfl, rfl, rfl, rfl⟩
  | another _ hq => exact absurd hq hno
  | expired _ hq _ _ _ _ => exact absurd hq hno
  | ready _ hq _ => exact absurd hq hno
  | noPoll _ hq => exact absurd hq hno
  | polled _ hq _ => exact absurd hq hno
  | took _ hq _ _ _ => exact absurd hq hno
  | handled _ hh => exact absurd hh (hevent hp)

theorem schedRun_local {a : SId} {r : Reply} {s s' : State} (h : schedRun a r s = .ok s') :
    Local a s s' := (schedRun_ok h).toLocal

/-- Only the take of an event meets uthreads between registering and yielding. -/
theorem schedRun_consumed {a : SId} {r : Reply} {s s' : State} (h : schedRun a r s = .ok s') :
    s'.consumed = s.consumed ∨
    ∃ q e, (s.sched a).pc = .events ∧ (s.sched a).p = some q ∧
      handleEvent a e.fd .rd e.hup (.handleWr e.fd e.hup) (tookEvent a q e s) = .ok s' ∧
      s'.consumed = fun v =>
        (decide ((s.ut v).p = some q) && (s.ut v).ctx.registering e.fd) || s.consumed v := by
  cases schedRun_ok h with
  | goes _ => exact .inl rfl
  | another _ _ => exact .inl rfl
  | expired _ _ _ _ hcancel hsl =>
    left
    rw [(uthreadResume_p a _ _ _).2]
    exact (Aside.expired hcancel hsl).consumed
  | ready _ _ _ => exact .inl (uthreadResume_p a _ _ _).2
  | noPoll _ _ => exact .inl rfl
  | polled _ _ _ => exact .inl rfl
  | @took q e _ hpc hq _ _ he =>
    refine .inr ⟨q, e, hpc, hq, he, ?_⟩
    rw [(handleEvent_events he).1]
    unfold tookEvent
    dsimp only
    split <;> rfl
  | handled _ he => exact .inl (handleEvent_events he).1
  | halted _ => exact .inl rfl

/-- A thread puts no uthread on another thread and takes none off it. -/
theorem step_cur {s s' : State} {act : Act} (h : step s act = .ok s') {c : SId} (hc : c ≠ act.thread) :
    (s'.sched c).curUthread = (s.sched c).curUthread := by
  rcases step_frame h with ⟨a, r, rfl, -, hrun⟩ | ⟨-, hstill⟩ | ⟨a, r, u, rfl, -, _, _, _, _, -, -, -, -, rfl⟩
  · exact (schedRun_local hrun).cur c hc
  · exact hstill.cur c hc
  · exact handedOff_cur c

theorem handedOff_errno {s : State} {c n : SId} {q : PId} {rest : List SId} (d : SId) :
    ((handedOff c n q rest s).sched d).errno = (s.sched d).errno := by
  unfold handedOff
  dsimp only
  rw [setSched_keeps Sched.errno rfl, setP_sched, setSched_keeps Sched.errno rfl]

theorem step_errno {s s' : State} {act : Act} (h : step s act = .ok s') {c : SId} (hc : c ≠ act.thread) :
    (s'.sched c).errno = (s.sched c).errno := by
  rcases step_frame h with ⟨a, r, rfl, -, hrun⟩ | ⟨-, hstill⟩ | ⟨a, r, u, rfl, -, _, _, _, _, -, -, -, -, rfl⟩
  · exact (schedRun_local hrun).errno c hc
  · exact hstill.errno c hc
  · exact handedOff_errno c

end UthreadRuntime
