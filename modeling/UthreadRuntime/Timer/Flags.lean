import UthreadRuntime.Timer.Runs

/-! Whom a signal would hit.

`tick` sends a signal for a uthread whose `is_wating_yield_signal` is 1, to the thread that
`tid` of its p names. The flag is set by `_uthread_resume` and cleared before every `_switch`
of the uthread, and before the hand-off of its p; `tid` is set by a new thread. What is
collected here is what a step does to the two, and to who runs where. -/
namespace UthreadRuntime

open State Placement

/-- The thread whose uthread loses its flag when the statement is executed on the thread of `a`. -/
def Ctx.clears (a : SId) : Ctx → Option SId
  | .yieldFlag | .sleep _ .flag | .sleep _ .yieldFlag | .exit _ .yieldFlag => some a
  | .diskFlag c => some c
  | _ => none

structure SameSignals (s s' : State) : Prop where
  heap : s'.heap = s.heap
  ctx : ∀ v, (s'.ut v).ctx = (s.ut v).ctx
  flag : ∀ v, (s'.ut v).isWatingYieldSignal = (s.ut v).isWatingYieldSignal
  cur : ∀ a, (s'.sched a).curUthread = (s.sched a).curUthread
  bound : ∀ a, (s'.sched a).p = (s.sched a).p
  idle : s'.schedIdle = s.schedIdle
  tid : ∀ q, (s'.p q).tid = (s.p q).tid
  timer : s'.timer = s.timer

theorem SameSignals.untimed : Untimed SameSignals where
  refl _ := ⟨rfl, fun _ => rfl, fun _ => rfl, fun _ => rfl, fun _ => rfl, rfl, fun _ => rfl, rfl⟩
  trans h h' := ⟨h'.heap.trans h.heap, fun v => (h'.ctx v).trans (h.ctx v),
    fun v => (h'.flag v).trans (h.flag v), fun a => (h'.cur a).trans (h.cur a),
    fun a => (h'.bound a).trans (h.bound a), h'.idle.trans h.idle, fun q => (h'.tid q).trans (h.tid q),
    h'.timer.trans h.timer⟩
  setUt _ _ _ hf := ⟨rfl, setUt_keeps Uthread.ctx (hf.ctx _),
    setUt_keeps Uthread.isWatingYieldSignal (hf.isWatingYieldSignal _), fun _ => rfl, fun _ => rfl, rfl,
    fun _ => rfl, rfl⟩
  setP _ _ _ hg := ⟨rfl, fun _ => rfl, fun _ => rfl, fun _ => rfl, fun _ => rfl, rfl,
    setP_keeps P.tid (hg _), rfl⟩
  setSched _ _ _ hg := ⟨rfl, fun _ => rfl, fun _ => rfl, setSched_keeps Sched.curUthread (hg _).2,
    setSched_keeps Sched.p (hg _).1, rfl, fun _ => rfl, rfl⟩
  consumed _ _ := ⟨rfl, fun _ => rfl, fun _ => rfl, fun _ => rfl, fun _ => rfl, rfl, fun _ => rfl, rfl⟩
  halted _ _ := ⟨rfl, fun _ => rfl, fun _ => rfl, fun _ => rfl, fun _ => rfl, rfl, fun _ => rfl, rfl⟩

section Step

variable {s s' : State} {a : SId} {u : UId}

/-- A thread that has lost its uthread signals nobody and is signalled by nobody else. -/
theorem switched_signals (hs : uthreadSwitched a u s = .ok s') : SameSignals (idleCpu a s) s' := by
  rcases SameSignals.untimed.switched hs with h | ⟨-, s₁, h, rfl⟩
  · exact h
  · refine SameSignals.untimed.trans h ?_
    exact ⟨rfl, setUt_keeps Uthread.ctx rfl, setUt_keeps Uthread.isWatingYieldSignal rfl, fun _ => rfl,
      fun _ => rfl, rfl, fun _ => rfl, rfl⟩

theorem idleCpu_cur (d : SId) :
    ((idleCpu a s).sched d).curUthread = if d = a then none else (s.sched d).curUthread := by
  unfold idleCpu
  rw [setSched_sched]
  split <;> rfl

theorem uthreadResume_flag (a : SId) (u : UId) (k : SchedAt) (s : State) (v : UId) :
    ((uthreadResume a u k s).ut v).isWatingYieldSignal =
      if v = u then true else (s.ut v).isWatingYieldSignal := by
  unfold uthreadResume
  dsimp only
  rw [setUt_ut]
  split
  · rfl
  · rw [setSched_ut]
    split
    · exact setUt_keeps Uthread.isWatingYieldSignal rfl v
    · rfl

/-- What a statement that is no switch does. -/
structure StmtSignals (a : SId) (u : UId) (s s' : State) : Prop where
  heap : s.heap ≤ s'.heap
  cur : ∀ d, (s'.sched d).curUthread = (s.sched d).curUthread
  tid : ∀ q, (s'.p q).tid = (s.p q).tid
  flag : ∀ v < s.heap, (s'.ut v).isWatingYieldSignal = (s.ut v).isWatingYieldSignal ∨
    ((s'.ut v).isWatingYieldSignal = false ∧
      ∃ b, (s.ut u).ctx.clears a = some b ∧ (s.sched b).curUthread = some v)

theorem goto_flag (k : Ctx) (s : State) (v : UId) :
    ((goto u k s).ut v).isWatingYieldSignal = (s.ut v).isWatingYieldSignal :=
  setUt_keeps Uthread.isWatingYieldSignal rfl v

theorem returns_flag (x : Int) (s : State) (v : UId) :
    ((returns a u x s).ut v).isWatingYieldSignal = (s.ut v).isWatingYieldSignal :=
  setUt_keeps Uthread.isWatingYieldSignal rfl v

theorem setErrno_cur (e : Errno) (d : SId) :
    ((setErrno a e s).sched d).curUthread = (s.sched d).curUthread := by
  unfold setErrno
  exact setSched_keeps Sched.curUthread rfl d

/-- A statement that writes its uthread's own record. -/
theorem Own.signals {now : Nat} {k k' : Ctx} {f : Uthread → Uthread} (h : Own now k f k')
    (hctx : (s.ut u).ctx = k) (hc : (s.sched a).curUthread = some u) :
    StmtSignals a u s (goto u k' (s.setUt u f)) := by
  refine ⟨Nat.le_refl _, fun _ => rfl, fun _ => rfl, fun v hv => ?_⟩
  rw [goto_flag]
  by_cases hcl : k.clears a = some a
  · by_cases hvu : v = u
    · right
      subst hvu
      refine ⟨?_, a, by rw [hctx]; exact hcl, hc⟩
      rw [setUt_ut_self]
      cases h <;> first | rfl | cases hcl
    · left
      rw [setUt_ut, if_neg hvu]
  · left
    refine setUt_keeps Uthread.isWatingYieldSignal ?_ v
    cases h <;> first | rfl | exact absurd rfl hcl

theorem Stmt.signals {r : Reply} (hs : Stmt a u r s s') (hc : (s.sched a).curUthread = some u)
    (hsw : (s.ut u).ctx.switching = false) : StmtSignals a u s s' := by
  have hgoto : ∀ {k : Ctx} {s₀ : State}, s₀.heap = s.heap → s₀.ut = s.ut →
      (∀ d, (s₀.sched d).curUthread = (s.sched d).curUthread) → (∀ q, (s₀.p q).tid = (s.p q).tid) →
      StmtSignals a u s (goto u k s₀) := by
    intro k s₀ hheap hut hcur htid
    refine ⟨Nat.le_of_eq hheap.symm, hcur, htid, fun v _ => .inl ?_⟩
    rw [goto_flag, hut]
  have hret : ∀ {x : Int} {s₀ : State}, s.heap ≤ s₀.heap →
      (∀ v < s.heap, (s₀.ut v).isWatingYieldSignal = (s.ut v).isWatingYieldSignal) →
      (∀ d, (s₀.sched d).curUthread = (s.sched d).curUthread) → (∀ q, (s₀.p q).tid = (s.p q).tid) →
      StmtSignals a u s (returns a u x s₀) := by
    intro x s₀ hheap hflag hcur htid
    refine ⟨hheap, hcur, htid, fun v hv => .inl ?_⟩
    rw [returns_flag, hflag v hv]
  cases hs with
  | own hctx hown => exact hown.signals hctx hc
  | moves _ | lock _ _ | count _ | unlock _ => exact hgoto rfl rfl (fun _ => rfl) fun _ => rfl
  | io _ h₀ _ =>
    rcases h₀ with rfl | ⟨e, rfl⟩
    · exact hgoto rfl rfl (fun _ => rfl) fun _ => rfl
    · exact hgoto rfl rfl (setErrno_cur e) fun _ => rfl
  | ioReturns _ h₀ | diskCall _ h₀ =>
    rcases h₀ with rfl | ⟨e, rfl⟩
    · exact hret (Nat.le_refl _) (fun _ _ => rfl) (fun _ => rfl) fun _ => rfl
    · exact hret (Nat.le_refl _) (fun _ _ => rfl) (setErrno_cur e) fun _ => rfl
  | linkSleeping _ _ _ | linkWaiting _ _ => exact hgoto rfl rfl (fun _ => rfl) (setP_keeps P.tid rfl)
  | watch _ _ _ => exact hgoto rfl rfl (fun _ => rfl) (setP_keeps P.tid rfl)
  | joinFails _ => exact hret (Nat.le_refl _) (fun _ _ => rfl) (setErrno_cur _) fun _ => rfl
  | joinExited _ _ | joinFree _ | allocFails _ _ =>
    exact hret (Nat.le_refl _) (fun _ _ => rfl) (fun _ => rfl) fun _ => rfl
  | publish _ | setRetval _ | unpublish _ =>
    refine ⟨Nat.le_refl _, fun _ => rfl, fun _ => rfl, fun v _ => .inl ?_⟩
    rw [goto_flag, setUt_keeps Uthread.isWatingYieldSignal rfl]
  | resetRetval _ =>
    exact hret (Nat.le_refl _) (fun v _ => setUt_keeps Uthread.isWatingYieldSignal rfl v) (fun _ => rfl)
      fun _ => rfl
  | store _ =>
    rw [storeRetval_eq]
    exact hgoto rfl rfl (fun _ => rfl) fun _ => rfl
  | switch hctx hk _ =>
    rw [hctx] at hsw
    cases hk <;> cases hsw
  | created _ _ =>
    refine hret (Nat.le_succ _) (fun v hv => ?_) (fun _ => rfl) fun q => ?_
    · rw [created_ut_of_lt hv]
    · rw [created_p]
      split
      · rename_i hq
        rw [hq]
      · rfl
  | @diskFlag c v hctx hcur =>
    refine ⟨Nat.le_refl _, fun _ => rfl, fun _ => rfl, fun w _ => ?_⟩
    rw [goto_flag, setUt_ut]
    split
    · rename_i hw
      subst hw
      exact .inr ⟨rfl, c, by rw [hctx]; rfl, hcur⟩
    · exact .inl rfl
  | handOff _ _ _ _ =>
    refine hgoto rfl rfl handedOff_cur fun q => ?_
    rw [handedOff_p]
    split
    · rename_i hq
      rw [hq]
    · rfl

/-- A thread that takes a uthread has a p, and has been started. -/
theorem SchedStep.takes {r : Reply} (hs : SchedStep a r s s') (hc : (s.sched a).curUthread = none)
    (hcur : (s'.sched a).curUthread = some u) : (∃ q, (s.sched a).p = some q) ∧ (s.sched a).pc ≠ .another := by
  have hidle : ∀ {k : SchedAt} {s₀ : State}, s₀.sched = s.sched →
      ((setPc a k s₀).sched a).curUthread ≠ some u := by
    intro k s₀ hs₀ he
    unfold setPc at he
    rw [setSched_sched_self, hs₀, hc] at he
    cases he
  cases hs with
  | goes _ => exact absurd hcur (hidle rfl)
  | another _ _ => exact absurd hcur (hidle rfl)
  | expired hpc hq _ _ _ _ => exact ⟨⟨_, hq⟩, by rw [hpc]; simp⟩
  | ready hpc hq _ => exact ⟨⟨_, hq⟩, by rw [hpc]; simp⟩
  | noPoll _ _ => exact absurd hcur (hidle rfl)
  | polled _ _ _ => exact absurd hcur (hidle rfl)
  | took hpc hq _ _ _ => exact ⟨⟨_, hq⟩, by rw [hpc]; simp⟩
  | handled hpc he =>
    refine ⟨?_, by rw [hpc]; simp⟩
    rcases handleEvent_ok he with ⟨s₁, hd, -⟩ | ⟨_, s₁, _, hd, -, -, -⟩
    · obtain ⟨q, hq, -⟩ := uthreadDeschedEvent_ok hd
      exact ⟨q, hq⟩
    · obtain ⟨q, hq, -⟩ := uthreadDeschedEvent_ok hd
      exact ⟨q, hq⟩
  | halted _ =>
    rw [show ({s with halted := true} : State).sched = s.sched from rfl, hc] at hcur
    cases hcur

/-- A uthread that stands before a switch switches. -/
theorem uthreadStmt_switching {r : Reply} (hs : uthreadStmt a u r s = .ok s')
    (hsw : (s.ut u).ctx.switching = true) :
    ∃ k, Switches (s.ut u).ctx k ∧ uthreadSwitched a u (goto u k s) = .ok s' := by
  unfold uthreadStmt at hs
  cases hctx : (s.ut u).ctx with
  | yieldSwitch =>
    rw [hctx] at hs
    exact ⟨.user, .yield, hs⟩
  | sleep w pc =>
    rw [hctx] at hs hsw
    cases pc with
    | switch => exact ⟨.sleep w .wake, .sleep w, hs⟩
    | _ => cases hsw
  | exit v pc =>
    rw [hctx] at hs hsw
    cases pc with
    | switch => exact ⟨.user, .exit v, hs⟩
    | _ => cases hsw
  | _ =>
    rw [hctx] at hsw
    cases hsw

/-- Before every switch of a uthread its flag is cleared. -/
theorem Stmt.switching {r : Reply} (hs : Stmt a u r s s') (hsw : (s.ut u).ctx.switching = false)
    (hsw' : (s'.ut u).ctx.switching = true) : (s'.ut u).isWatingYieldSignal = false := by
  have hgoto : ∀ {k : Ctx} {s₀ : State}, ((goto u k s₀).ut u).ctx.switching = true → k.switching = true := by
    intro k s₀ h
    rw [goto_ctx] at h
    exact h
  have hret : ∀ {x : Int} {s₀ : State}, ((returns a u x s₀).ut u).ctx.switching = true → False := by
    intro x s₀ h
    rw [returns_ctx] at h
    cases h
  cases hs with
  | own _ hown =>
    rw [goto_flag, setUt_ut_self]
    have hk := hgoto hsw'
    cases hown with
    | wake w => cases w <;> cases hk
    | exitMark v => cases v <;> cases hk
    | yieldFlag | sleepYield w | exitYield v => rfl
    | _ => cases hk
  | moves hm =>
    have hk := hgoto hsw'
    generalize (s.ut u).ctx = k at hm
    cases hm <;> cases hk
  | io _ _ hk =>
    rcases hk with ⟨c, pc, rfl⟩ | ⟨c, rfl⟩ <;> cases hgoto hsw'
  | switch hctx hk _ =>
    rw [hctx] at hsw
    cases hk <;> cases hsw
  | ioReturns _ _ | joinFails _ | joinExited _ _ | resetRetval _ | joinFree _ | allocFails _ _
  | created _ _ | diskCall _ _ => exact (hret hsw').elim
  | _ => cases hgoto hsw'

end Step

end UthreadRuntime
