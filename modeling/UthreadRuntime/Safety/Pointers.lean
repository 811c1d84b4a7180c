import UthreadRuntime.Safety.SoundRuns

/-! Where a NULL p is followed.

A uthread has a p from its creation on, so only the pointer of a sched can be NULL. Each
lemma says of one function exactly when it follows that pointer while it is. -/
namespace UthreadRuntime

open State

/-- The statement has followed a NULL pointer to a p. -/
def NullP {α : Type} (x : Except Stop α) : Prop := ∃ site, x = .error (.fault (.nullP site))

section NullP

variable {α β : Type}

@[simp] theorem not_nullP_ok (x : α) : ¬NullP (.ok x : Except Stop α) := by
  rintro ⟨site, h⟩
  cases h

@[simp] theorem not_nullP_disabled : ¬NullP (.error .disabled : Except Stop α) := by
  rintro ⟨site, h⟩
  cases h

@[simp] theorem not_nullP_assertion (e : Assertion) :
    ¬NullP (.error (.fault (.assertion e)) : Except Stop α) := by
  rintro ⟨site, h⟩
  cases h

@[simp] theorem not_nullP_nullSched : ¬NullP (.error (.fault .nullSched) : Except Stop α) := by
  rintro ⟨site, h⟩
  cases h

@[simp] theorem not_nullP_nullCur : ¬NullP (.error (.fault .nullCur) : Except Stop α) := by
  rintro ⟨site, h⟩
  cases h

@[simp] theorem not_nullP_freedStack : ¬NullP (.error (.fault .freedStack) : Except Stop α) := by
  rintro ⟨site, h⟩
  cases h

@[simp] theorem not_nullP_stepHalted {act : Act} : ¬NullP (stepHalted act) := by
  unfold stepHalted
  split <;> simp

theorem nullP_bind {x : Except Stop α} {f : α → Except Stop β} :
    NullP (x >>= f) ↔ NullP x ∨ ∃ a, x = .ok a ∧ NullP (f a) := by
  cases x with
  | error e =>
    constructor
    · rintro ⟨site, h⟩
      cases h
      exact .inl ⟨site, rfl⟩
    · rintro (⟨site, h⟩ | ⟨a, h, -⟩)
      · cases h
        exact ⟨site, rfl⟩
      · cases h
  | ok a =>
    constructor
    · exact fun h => .inr ⟨a, rfl, h⟩
    · rintro (⟨site, h⟩ | ⟨b, h, hf⟩)
      · cases h
      · cases h
        exact hf

theorem nullP_home {s : State} {u : UId} {site : Site} : NullP (s.home u site) ↔ (s.ut u).p = none := by
  unfold State.home
  cases (s.ut u).p with
  | none => exact ⟨fun _ => rfl, fun _ => ⟨site, rfl⟩⟩
  | some q => simp

theorem nullP_bound {s : State} {a : SId} {site : Site} : NullP (s.bound a site) ↔ (s.sched a).p = none := by
  unfold State.bound
  cases (s.sched a).p with
  | none => exact ⟨fun _ => rfl, fun _ => ⟨site, rfl⟩⟩
  | some q => simp

end NullP

/-! ### Taking uthreads out of the trees -/

section Desched

variable {s s' : State} {a : SId} {u v : UId} {q : PId}

theorem uthreadDeschedSleep_succeeds (hp : (s.ut u).p = some q) : ∃ s', uthreadDeschedSleep u s = .ok s' := by
  unfold uthreadDeschedSleep
  rw [home_of_some hp]
  split <;> exact ⟨_, rfl⟩

theorem uthreadDeschedSleep_p (h : uthreadDeschedSleep u s = .ok s') : (s'.ut v).p = (s.ut v).p := by
  rcases uthreadDeschedSleep_ok h with ⟨-, rfl⟩ | ⟨-, q, -, rfl⟩
  · rfl
  · unfold unlinkSleeper
    exact setUt_keeps Uthread.p rfl v

theorem uthreadDeschedEvent_succeeds (h : Sound s) (hq : (s.sched a).p = some q) (fd e : Int) :
    ∃ found s', uthreadDeschedEvent a fd e s = .ok (found, s') := by
  unfold uthreadDeschedEvent
  rw [bound_of_some hq]
  cases hf : findWaiting s (fdKey fd e) (s.p q).waiting with
  | none =>
    refine ⟨none, s, ?_⟩
    dsimp only [bind, Except.bind]
    rw [hf]
  | some v =>
    have hv := (h.ut v (h.waiting (Tree.find_eq_some hf).1)).home
    obtain ⟨s', hs'⟩ := uthreadDeschedSleep_succeeds
      (s := s.setP q fun w => {w with waiting := Tree.remove v w.waiting}) hv
    refine ⟨some v, s', ?_⟩
    dsimp only [bind, Except.bind]
    rw [hf]
    dsimp only
    rw [hs']

theorem epollDel_not_nullP {fd : Int} {site : Site} {e : Assertion} (hp : (s.ut u).p = some q) :
    ¬NullP (epollDel u fd site e s) := by
  unfold epollDel
  rw [home_of_some hp]
  dsimp only [bind, Except.bind]
  split <;> simp

theorem uthreadCancelEvent_not_nullP (h : Sound s) (hu : u < s.heap)
    (hnew : (s.ut u).status.has .new = false) (hq : (s.sched a).p = some q) :
    ¬NullP (uthreadCancelEvent a u s) := by
  unfold uthreadCancelEvent
  dsimp only
  rw [nullP_bind]
  rintro (hdel | ⟨s₁, hs₁, hrest⟩)
  · refine epollDel_not_nullP (q := 0) ?_ hdel
    rw [setUt_ut_self]
    exact (h.ut u hu).home
  · obtain ⟨q', -, -, rfl⟩ := epollDel_ok hs₁
    have hdrop := (h.clearWait hu hnew).dropInterest q' (fdOnly (s.ut u).fdWait)
    obtain ⟨found, s₂, hs₂⟩ := uthreadDeschedEvent_succeeds hdrop (a := a) (q := q) hq
      (fdOnly (s.ut u).fdWait) (fdEvent (s.ut u).fdWait)
    split at hrest
    · rw [hs₂] at hrest
      exact not_nullP_ok _ hrest
    · exact not_nullP_ok _ hrest

end Desched

/-! ### Passing control -/

section Switch

variable {s : State} {a : SId} {u : UId}

theorem wakeJoined_not_nullP (hj : ∀ j, (s.ut u).utJoined = some j → (s.ut j).p = some 0) :
    ¬NullP (wakeJoined u s) := by
  unfold wakeJoined
  split
  · simp
  · rename_i j hjoined
    have hp := hj j hjoined
    obtain ⟨s₁, hs₁⟩ := uthreadDeschedSleep_succeeds hp
    rw [nullP_bind]
    rintro (hn | ⟨s₂, hs₂, hn⟩)
    · rw [hs₁] at hn
      exact not_nullP_ok _ hn
    · rw [nullP_bind] at hn
      rcases hn with hn | ⟨q, -, hn⟩
      · rw [nullP_home, uthreadDeschedSleep_p hs₂, hp] at hn
        cases hn
      · exact not_nullP_ok _ hn

theorem uthreadFree_not_nullP : ¬NullP (uthreadFree u s) := by
  unfold uthreadFree
  split <;> simp

/-- The uthread has neither exited nor gone to sleep. -/
def Uthread.Plain (r : Uthread) : Prop := r.status.has .exited = false ∧ r.status.has .sleeping = false

instance (r : Uthread) : Decidable r.Plain :=
  inferInstanceAs (Decidable (r.status.has .exited = false ∧ r.status.has .sleeping = false))

/-- **A switch follows NULL exactly when the uthread is to be queued on a sched without a p.** -/
theorem uthreadSwitched_nullP (hj : ∀ j, (s.ut u).utJoined = some j → (s.ut j).p = some 0) :
    NullP (uthreadSwitched a u s) ↔ (s.sched a).p = none ∧ (s.ut u).Plain := by
  have hbound : ((idleCpu a s).sched a).p = (s.sched a).p := by simp [idleCpu]
  unfold Uthread.Plain uthreadSwitched
  show NullP (if (s.ut u).status.has .exited then wakeJoined u (idleCpu a s) >>= fun s => uthreadFree u s
    else if (s.ut u).status.has .sleeping then .ok (idleCpu a s)
    else (idleCpu a s).bound a .resumeReady >>= fun q => .ok (insertReady q u (idleCpu a s))) ↔ _
  split
  · rename_i he
    rw [nullP_bind]
    constructor
    · rintro (hn | ⟨s₁, -, hn⟩)
      · exact absurd hn (wakeJoined_not_nullP (s := idleCpu a s) hj)
      · exact absurd hn uthreadFree_not_nullP
    · rintro ⟨-, hne, -⟩
      rw [he] at hne
      cases hne
  · rename_i he
    split
    · rename_i hsl
      simp [hsl]
    · rename_i hsl
      rw [nullP_bind, nullP_bound, hbound]
      constructor
      · rintro (hn | ⟨q, -, hn⟩)
        · exact ⟨hn, by simpa using he, by simpa using hsl⟩
        · exact absurd hn (not_nullP_ok _)
      · exact fun hn => .inl hn.1

/-- The same, after a change that no test of the switch looks at. -/
theorem uthreadSwitched_setUt_nullP (h : Sound s) (hu : u < s.heap) {f : Uthread → Uthread}
    (hstatus : (f (s.ut u)).status = (s.ut u).status) (hjoined : (f (s.ut u)).utJoined = (s.ut u).utJoined)
    (hp : (f (s.ut u)).p = (s.ut u).p) :
    NullP (uthreadSwitched a u (s.setUt u f)) ↔ (s.sched a).p = none ∧ (s.ut u).Plain := by
  have hj : ∀ j, ((s.setUt u f).ut u).utJoined = some j → ((s.setUt u f).ut j).p = some 0 := by
    intro j hj
    rw [setUt_ut_self, hjoined] at hj
    rw [setUt_ut]
    split
    · rw [hp]
      exact (h.ut u hu).home
    · exact (h.ut j ((h.ut u hu).joined j hj)).home
  rw [uthreadSwitched_nullP hj]
  unfold Uthread.Plain
  rw [setUt_ut_self, hstatus]
  rfl

end Switch

/-! ### Library code -/

/-- The next statement would follow a NULL p: the uthread registers a descriptor on a sched
that has none, enqueues a uthread on the sched it fetched when that has none, or gives the
CPU back to a sched that has none and must queue it. -/
def FollowsNull (s : State) (a : SId) (u : UId) : Ctx → Prop
  | .register _ .ctl => (s.sched a).p = none
  | .create c (.insert _ _) => (s.sched c).p = none
  | .yieldSwitch | .sleep _ .switch | .exit _ .switch => (s.sched a).p = none ∧ (s.ut u).Plain
  | _ => False

theorem uthreadStmt_nullP {s : State} {a : SId} {u : UId} {r : Reply} (h : Sound s) (hu : u < s.heap) :
    NullP (uthreadStmt a u r s) ↔ FollowsNull s a u (s.ut u).ctx := by
  have hok : ∀ s' : State, NullP (.ok s' : Except Stop State) ↔ False :=
    fun s' => iff_false_intro (not_nullP_ok s')
  have hswitch : ∀ k, NullP (uthreadSwitched a u (goto u k s)) ↔ (s.sched a).p = none ∧ (s.ut u).Plain :=
    fun k => uthreadSwitched_setUt_nullP h hu rfl rfl rfl
  have hhome := (h.ut u hu).home
  unfold uthreadStmt
  cases hctx : (s.ut u).ctx with
  | user => simp [FollowsNull]
  | yieldFlag => exact hok _
  | yieldSwitch => exact hswitch _
  | sleep w pc =>
    cases pc with
    | insert =>
      show NullP (schedSleepStmt a u w .insert r s) ↔ False
      unfold schedSleepStmt
      dsimp only
      rw [home_of_some hhome]
      dsimp only [bind, Except.bind]
      split <;> simp
    | switch => exact hswitch _
    | _ => exact hok _
  | register c pc =>
    cases pc with
    | ctl =>
      show NullP (registerStmt a u c .ctl s) ↔ (s.sched a).p = none
      unfold registerStmt
      dsimp only
      rw [nullP_bind, nullP_bound]
      constructor
      · rintro (hn | ⟨q, -, hn⟩)
        · exact hn
        · split at hn <;> simp at hn
      · exact .inl
    | insert =>
      show NullP (registerStmt a u c .insert s) ↔ False
      unfold registerStmt
      dsimp only
      rw [home_of_some hhome]
      exact hok _
    | _ => exact hok _
  | io c pc =>
    cases pc with
    | fcntl =>
      show NullP (ioStmt a u c .fcntl r s) ↔ False
      unfold ioStmt
      dsimp only
      split <;> simp
    | _ => exact hok _
  | join t v pc => exact hok _
  | exit v pc =>
    cases pc with
    | switch => exact hswitch _
    | _ => exact hok _
  | createGet => exact hok _
  | createAlloc c =>
    dsimp only
    split <;> exact hok _
  | create c pc =>
    cases pc with
    | lock =>
      show NullP (createStmt a u c .lock r s) ↔ False
      unfold createStmt
      dsimp only
      split <;> simp
    | stack id =>
      show NullP (createStmt a u c (.stack id) r s) ↔ False
      unfold createStmt
      dsimp only
      split <;> simp
    | insert id p =>
      show NullP (createStmt a u c (.insert id p) r s) ↔ (s.sched c).p = none
      unfold createStmt
      dsimp only
      rw [nullP_bind, nullP_bound]
      constructor
      · rintro (hn | ⟨q, -, hn⟩)
        · exact hn
        · exact absurd hn (not_nullP_ok _)
      · exact .inl
    | _ => exact hok _
  | diskGet => exact hok _
  | diskFlag c =>
    show NullP (diskFlagStmt u c s) ↔ False
    unfold diskFlagStmt
    split <;> simp
  | diskHandOff c =>
    show NullP (diskHandOffStmt u c r s) ↔ False
    unfold diskHandOffStmt
    split
    · simp
    · split
      · simp
      · split
        · simp
        · split <;> simp
  | diskCall => exact hok _

theorem enter_not_nullP {s : State} {a : SId} {u : UId} {k : Call} : ¬NullP (enter a u k s) := by
  unfold enter
  cases k with
  | join t r => dsimp only; split <;> simp
  | finish => dsimp only; split <;> simp
  | detach t => dsimp only; split <;> simp
  | io c => dsimp only; split <;> simp
  | _ => simp

/-! ### The scheduler loop -/

/-- The loop's next statement follows the p of its sched without a test. -/
def SchedAt.usesP : SchedAt → Bool
  | .another | .lastReady | .ready _ | .poll | .handleWr _ _ => true
  | _ => false

theorem uthreadDeschedEvent_nullP {s : State} {a : SId} {fd e : Int} (h : Sound s) :
    NullP (uthreadDeschedEvent a fd e s) ↔ (s.sched a).p = none := by
  cases hq : (s.sched a).p with
  | none =>
    refine iff_of_true ?_ rfl
    unfold uthreadDeschedEvent
    rw [nullP_bind]
    exact .inl (nullP_bound.mpr hq)
  | some q =>
    obtain ⟨found, s', hs'⟩ := uthreadDeschedEvent_succeeds h hq fd e
    rw [hs']
    simp

/-- The uthread an event has found is one that has a p. -/
theorem deschedEvent_found_p {s s' : State} {a : SId} {fd e : Int} {u : UId} (h : Sound s)
    (hd : uthreadDeschedEvent a fd e s = .ok (some u, s')) : (s'.ut u).p = some 0 := by
  obtain ⟨q, -, hf, ⟨hn, -⟩ | ⟨v, hv, hsl⟩⟩ := uthreadDeschedEvent_ok hd
  · cases hn
  · cases hv
    rw [uthreadDeschedSleep_p hsl]
    exact (h.ut u (h.waiting (Tree.find_eq_some hf).1)).home

theorem handleEvent_nullP {s : State} {a : SId} {fd : Int} {ev : UthreadEvent} {isEof : Bool} {k : SchedAt}
    (h : Sound s) : NullP (handleEvent a fd ev isEof k s) ↔ (s.sched a).p = none := by
  unfold handleEvent
  rw [nullP_bind, uthreadDeschedEvent_nullP h]
  constructor
  · rintro (hn | ⟨⟨found, s₁⟩, hd, hn⟩)
    · exact hn
    · cases found with
      | none => exact absurd hn (not_nullP_ok _)
      | some u =>
        dsimp only at hn
        split at hn
        · rw [nullP_bind] at hn
          rcases hn with hn | ⟨s₂, -, hn⟩
          · refine absurd hn (epollDel_not_nullP (q := 0) ?_)
            rw [setUt_ut_self]
            exact deschedEvent_found_p h hd
          · exact absurd hn (not_nullP_ok _)
        · exact absurd hn (not_nullP_assertion _)
  · exact .inl

theorem uthreadResumeExpired_not_nullP {s : State} {a : SId} {r : Reply} (h : Sound s) :
    ¬NullP (uthreadResumeExpired a r s) := by
  unfold uthreadResumeExpired
  split
  · simp
  · rename_i q hq
    split
    · simp
    · rename_i u hmin
      obtain ⟨hu, hnew⟩ := h.sleeping (Tree.min_mem hmin)
      split
      · unfold resumeExpired
        rw [nullP_bind]
        rintro (hn | ⟨s₁, hs₁, hn⟩)
        · exact uthreadCancelEvent_not_nullP h hu hnew hq hn
        · obtain ⟨h₁, hheap, -⟩ := h.uthreadCancelEvent hu hnew hs₁
          obtain ⟨s₂, hs₂⟩ := uthreadDeschedSleep_succeeds (h₁.ut u (by rw [hheap]; exact hu)).home
          rw [hs₂] at hn
          exact not_nullP_ok _ hn
      · simp

theorem uthreadPoll_nullP {s : State} {a : SId} {r : Reply} :
    NullP (uthreadPoll a r s) ↔ (s.sched a).p = none := by
  unfold uthreadPoll
  rw [nullP_bind, nullP_bound]
  constructor
  · rintro (hn | ⟨q, -, hn⟩)
    · exact hn
    · dsimp only at hn
      split at hn
      · split at hn
        · split at hn <;> simp at hn
        · simp at hn
      · simp at hn
  · exact .inl

theorem takeEvent_not_nullP {s : State} {a : SId} {q : PId} (h : Sound s) (hq : (s.sched a).p = some q) :
    ¬NullP (takeEvent a q s) := by
  unfold takeEvent
  dsimp only
  split
  · simp
  · rename_i e _
    show ¬NullP (handleEvent a e.fd .rd e.hup (.handleWr e.fd e.hup) (tookEvent a q e s))
    have ht := (h.tookEvent (h.busy_of_p hq) q e).1
    rw [handleEvent_nullP ht]
    intro hn
    have hp : ((tookEvent a q e s).sched a).p = (s.sched a).p := by
      unfold tookEvent
      dsimp only
      split <;> simp [markConsumed]
    rw [hp, hq] at hn
    cases hn

/-- **The loop follows NULL exactly where it does not test the p it has lost.** -/
theorem schedRun_nullP {s : State} {a : SId} {r : Reply} (h : Sound s) :
    NullP (schedRun a r s) ↔ (s.sched a).p = none ∧ (s.sched a).pc.usesP = true := by
  have hbound : ∀ {site : Site} {f : PId → Except Stop State} {k : SchedAt}, k.usesP = true →
      (∀ q, ¬NullP (f q)) → (NullP (s.bound a site >>= f) ↔ (s.sched a).p = none ∧ k.usesP = true) := by
    intro site f k hk hf
    rw [nullP_bind, nullP_bound]
    constructor
    · rintro (hn | ⟨q, -, hn⟩)
      · exact ⟨hn, hk⟩
      · exact absurd hn (hf q)
    · exact fun hn => .inl hn.1
  have hno : ∀ {x : Except Stop State} {k : SchedAt}, ¬NullP x → k.usesP = false →
      (NullP x ↔ (s.sched a).p = none ∧ k.usesP = true) := by
    intro x k hx hk
    rw [hk]
    simp [hx]
  unfold schedRun
  cases hpc : (s.sched a).pc with
  | off => exact hno (by simp) rfl
  | another => exact hbound rfl fun q => not_nullP_ok _
  | top =>
    refine hno ?_ rfl
    dsimp only
    split <;> simp
  | expiry => exact hno (uthreadResumeExpired_not_nullP h) rfl
  | lastReady => exact hbound rfl fun q => not_nullP_ok _
  | ready last =>
    refine hbound rfl fun q => ?_
    split <;> simp
  | readyAfter last u =>
    refine hno ?_ rfl
    dsimp only
    split <;> simp
  | pollCheck =>
    refine hno ?_ rfl
    dsimp only
    split <;> simp
  | poll =>
    dsimp only
    rw [uthreadPoll_nullP]
    simp [SchedAt.usesP]
  | events =>
    refine hno ?_ rfl
    dsimp only
    split
    · simp
    · rename_i q hq
      split
      · simp
      · exact takeEvent_not_nullP h hq
  | handleWr fd eof =>
    dsimp only
    rw [handleEvent_nullP h]
    simp [SchedAt.usesP]
  | done =>
    refine hno ?_ rfl
    dsimp only
    split
    · split <;> simp
    · simp

/-! ### One action -/

/-- The action would follow a NULL p. -/
def ActFollowsNull (s : State) : Act → Prop
  | .call _ _ => False
  | .stmt a _ => ∃ u, (s.sched a).curUthread = some u ∧ FollowsNull s a u (s.ut u).ctx
  | .preempt a => ∃ u, (s.sched a).curUthread = some u ∧ (s.ut u).isWatingYieldSignal = true ∧
      (s.sched a).p = none ∧ (s.ut u).Plain
  | .sched a _ => (s.sched a).curUthread = none ∧ (s.sched a).p = none ∧ (s.sched a).pc.usesP = true

theorem step_nullP {s : State} {act : Act} (h : Sound s) (hhalt : s.halted = false) :
    NullP (step s act) ↔ ActFollowsNull s act := by
  unfold step
  simp only [hhalt, Bool.false_eq_true, if_false]
  cases act with
  | call a c =>
    refine iff_of_false ?_ id
    dsimp only
    split
    · simp
    · split
      · exact enter_not_nullP
      · simp
  | stmt a r =>
    unfold ActFollowsNull
    dsimp only
    cases hc : (s.sched a).curUthread with
    | none => simp
    | some u =>
      dsimp only
      rw [uthreadStmt_nullP h (h.cur hc).1]
      simp
  | preempt a =>
    unfold ActFollowsNull
    dsimp only
    cases hc : (s.sched a).curUthread with
    | none => simp
    | some u =>
      dsimp only
      cases hflag : (s.ut u).isWatingYieldSignal with
      | false => simp [hflag]
      | true =>
        rw [if_pos rfl]
        unfold handler
        rw [uthreadSwitched_setUt_nullP h (h.cur hc).1 rfl rfl rfl]
        simp [hflag]
  | sched a r =>
    unfold ActFollowsNull
    dsimp only
    cases hc : (s.sched a).curUthread with
    | none =>
      dsimp only
      rw [schedRun_nullP h]
      simp
    | some u => simp

end UthreadRuntime
