import UthreadRuntime.Ledger.Slots

/-! The value a uthread exits with.

`uthread_join` leaves an address in the record of the uthread it joins, and `uthread_exit`
stores its value there: after the mark that says it has exited, only for a value that is not
`NULL`, and only in `uthread_exit`. A uthread preempted between the mark and the store is
freed, and one whose function returns stores nothing. -/
namespace UthreadRuntime

open State Placement

/-! ### Who writes the memory of a joiner -/

structure SameValues (s s' : State) : Prop where
  mem : s'.mem = s.mem
  retval : ∀ v, (s'.ut v).retval = (s.ut v).retval

theorem SameValues.transparent : Transparent SameValues where
  refl _ := ⟨rfl, fun _ => rfl⟩
  trans h h' := ⟨h'.mem.trans h.mem, fun v => (h'.retval v).trans (h.retval v)⟩
  setUt _ _ _ hf := ⟨rfl, setUt_keeps Uthread.retval (hf.retval _)⟩
  setP _ _ _ := ⟨rfl, fun _ => rfl⟩
  setSched _ _ _ := ⟨rfl, fun _ => rfl⟩
  timer _ _ := ⟨rfl, fun _ => rfl⟩
  consumed _ _ := ⟨rfl, fun _ => rfl⟩
  halted _ _ := ⟨rfl, fun _ => rfl⟩

/-- What an action does to the values that joins wait for. -/
inductive ValueStep (s s' : State) : Act → Prop where
  | same {act : Act} : s'.mem = s.mem → (∀ v < s.heap, (s'.ut v).retval = (s.ut v).retval) →
      ValueStep s s' act
  | stored {a : SId} {r : Reply} {u : UId} {x : Option Val} : (s.sched a).curUthread = some u →
      (s.ut u).ctx = .exit x .store → s'.mem = (storeRetval u (x.getD 0) s).mem →
      (∀ v < s.heap, (s'.ut v).retval = (s.ut v).retval) → ValueStep s s' (.stmt a r)
  | handed {a : SId} {r : Reply} {u t : UId} {v : Option Addr} : (s.sched a).curUthread = some u →
      (s.ut u).ctx = .join t v .setRetval ∨ (s.ut u).ctx = .join t v .resetRetval → s'.mem = s.mem →
      (s'.ut t).retval = v → (∀ w < s.heap, w ≠ t → (s'.ut w).retval = (s.ut w).retval) →
      ValueStep s s' (.stmt a r)

section Values

variable {s s' : State} {a : SId} {u : UId}

theorem switched_values (hs : uthreadSwitched a u s = .ok s') : SameValues s s' := by
  rcases SameValues.transparent.switched hs with h | ⟨-, s₁, h, rfl⟩
  · exact h
  · exact ⟨h.mem, fun v => (setUt_keeps Uthread.retval rfl v).trans (h.retval v)⟩

theorem Stmt.values {r : Reply} (hc : (s.sched a).curUthread = some u) (hs : Stmt a u r s s') :
    ValueStep s s' (.stmt a r) := by
  have hgoto : ∀ (k : Ctx) (s₀ : State) (v : UId), ((goto u k s₀).ut v).retval = (s₀.ut v).retval :=
    fun k s₀ v => setUt_keeps Uthread.retval rfl v
  have hret : ∀ (x : Int) (s₀ : State) (v : UId), ((returns a u x s₀).ut v).retval = (s₀.ut v).retval :=
    fun x s₀ v => setUt_keeps Uthread.retval rfl v
  have herr : ∀ {s₀ : State}, (s₀ = s ∨ ∃ e, s₀ = setErrno a e s) → s₀.mem = s.mem ∧ s₀.ut = s.ut := by
    rintro s₀ (rfl | ⟨e, rfl⟩) <;> exact ⟨rfl, rfl⟩
  cases hs with
  | own _ hown =>
    refine .same rfl fun v _ => (hgoto _ _ v).trans (setUt_keeps Uthread.retval ?_ v)
    cases hown <;> rfl
  | io _ h₀ _ => exact .same (herr h₀).1 fun v _ => (hgoto _ _ v).trans (by rw [(herr h₀).2])
  | ioReturns _ h₀ => exact .same (herr h₀).1 fun v _ => (hret _ _ v).trans (by rw [(herr h₀).2])
  | diskCall _ h₀ => exact .same (herr h₀).1 fun v _ => (hret _ _ v).trans (by rw [(herr h₀).2])
  | publish _ | unpublish _ | diskFlag _ _ =>
    exact .same rfl fun v _ => (hgoto _ _ v).trans (setUt_keeps Uthread.retval rfl v)
  | @setRetval t v hctx =>
    refine .handed hc (.inl hctx) rfl ?_ fun w _ hw => ?_
    · rw [hgoto, setUt_ut_self]
    · rw [hgoto, setUt_ut, if_neg hw]
  | @resetRetval t v hctx =>
    refine .handed hc (.inr hctx) rfl ?_ fun w _ hw => ?_
    · rw [hret, setUt_ut_self]
    · rw [hret, setUt_ut, if_neg hw]
  | @store x hctx =>
    refine .stored hc hctx rfl fun v _ => (hgoto _ _ v).trans ?_
    rw [storeRetval_ut]
  | switch _ _ hsw =>
    have h := switched_values hsw
    exact .same h.mem fun v _ => (h.retval v).trans (hgoto _ _ v)
  | created _ _ =>
    refine .same rfl fun v hv => (hret _ _ v).trans ?_
    rw [created_ut_of_lt hv]
  | joinFails _ | joinExited _ _ | joinFree _ | allocFails _ _ => exact .same rfl fun v _ => hret _ _ v
  | moves _ | linkSleeping _ _ _ | watch _ _ _ | linkWaiting _ _ | lock _ _ | count _ | unlock _
  | handOff _ _ _ _ => exact .same rfl fun v _ => hgoto _ _ v

/-- **The memory of a joiner is written by `uthread_exit`, the address by the joiner.** -/
theorem step_values {act : Act} (hs : step s act = .ok s') : ValueStep s s' act := by
  cases step_ok hs with
  | @call a c u s' _ _ hent =>
    have hent' : ∀ (c : Call) (v : UId), ((entered u c s).ut v).retval = (s.ut v).retval :=
      fun c v => setUt_keeps Uthread.retval rfl v
    cases hent with
    | goes _ _ _ =>
      exact .same rfl fun v _ => Eq.trans (setUt_keeps Uthread.retval rfl v) (hent' _ v)
    | detach _ =>
      exact .same rfl fun v _ => Eq.trans (setUt_keeps Uthread.retval rfl v)
        (Eq.trans (setUt_keeps Uthread.retval rfl v) (hent' _ v))
    | close =>
      refine .same rfl fun v _ => Eq.trans (setUt_keeps Uthread.retval rfl v) ?_
      rw [closeFd_ut]
      exact hent' _ v
  | stmt hc hstmt => exact hstmt.values hc
  | preempt _ _ hsw =>
    have h := switched_values hsw
    exact .same h.mem fun v _ => (h.retval v).trans (setUt_keeps Uthread.retval rfl v)
  | sched _ hsched =>
    have h := SameValues.transparent.schedStep hsched
    exact .same h.mem fun v _ => h.retval v

end Values

/-! ### Where an exit comes from -/

/-- The statements of an exit follow each other. -/
inductive ExitNext (x : Option Val) : ExitAt → ExitAt → Prop where
  | mark : ExitNext x .mark (if x.isSome then .store else .yieldFlag)
  | store : ExitNext x .store .yieldFlag
  | yieldFlag : ExitNext x .yieldFlag .switch

theorem Flow.exit {k : Ctx} {x : Option Val} {pc : ExitAt} (h : Flow k (.exit x pc)) :
    ∃ pc₀, k = .exit x pc₀ ∧ ExitNext x pc₀ pc := by
  generalize hk : Ctx.exit x pc = k' at h
  cases h with
  | own hown =>
    cases hown with
    | wake w => cases w <;> cases hk
    | exitMark v =>
      cases hk
      exact ⟨.mark, rfl, .mark⟩
    | exitYield v =>
      cases hk
      exact ⟨.yieldFlag, rfl, .yieldFlag⟩
    | _ => cases hk
  | moves hm => cases hm <;> cases hk
  | io hio =>
    subst hk
    rcases hio with ⟨c, pc', hc⟩ | ⟨c, hc⟩ <;> cases hc
  | store =>
    cases hk
    exact ⟨.store, rfl, .store⟩
  | switch hsw => cases hsw <;> cases hk
  | _ => cases hk

/-- A uthread inside `uthread_exit(v)` has called it. -/
def ExitCalls (s : State) : Prop :=
  ∀ u < s.heap, ∀ v pc, (s.ut u).ctx = .exit (some v) pc → (s.ut u).hist.call = some (.exit v)

theorem ExitCalls.step {s s' : State} {act : Act} (h : ExitCalls s) (hsnd : Sound s)
    (hs : step s act = .ok s') : ExitCalls s' := by
  intro u hu v pc hctx
  by_cases hold : u < s.heap
  · have hsame : SameCall (s.ut u) (s'.ut u) → (s'.ut u).hist.call = some (.exit v) := by
      intro hsame
      rw [hsame.call]
      exact h u hold v pc (hsame.ctx.symm.trans hctx)
    by_cases hno : NoCallOf u s act
    · rcases step_call hsnd hs hold hno with hs' | ⟨a, r, -, -, hstmt⟩
      · exact hsame hs'
      · have hflow := hstmt.flow
        rw [hctx] at hflow
        obtain ⟨pc₀, hctx₀, -⟩ := hflow.exit
        rw [hstmt.call hold]
        exact h u hold v pc₀ hctx₀
    · cases step_ok hs with
      | @call a c w _ hc _ hent =>
        by_cases hwu : u = w
        · subst hwu
          cases hent with
          | goes _ _ _ =>
            rw [goto_ctx] at hctx
            have hcall : ((goto u c.head (entered u c s)).ut u).hist.call = some c := by
              simp [goto, entered]
            rw [hcall]
            cases c <;> cases hctx
            rfl
          | detach _ =>
            rw [returns_ctx] at hctx
            cases hctx
          | close =>
            rw [returns_ctx] at hctx
            cases hctx
        · exact hsame (hent.others hwu)
      | stmt _ _ => exact absurd (fun _ _ he => by cases he) hno
      | preempt _ _ _ => exact absurd (fun _ _ he => by cases he) hno
      | sched _ _ => exact absurd (fun _ _ he => by cases he) hno
  · obtain ⟨-, id, hmarks⟩ := step_new hsnd hs hu hold
    have hnew : (s'.ut u).status.has .new = true := congrArg Marks.new hmarks
    rw [(((hsnd.step hs).ut u hu).new hnew).1] at hctx
    cases hctx

theorem ExitCalls.of_reaches {C : State → Act → Prop} {s : State} (h : Reaches C s) : ExitCalls s := by
  refine (Sound.initial.invariant h ?_ fun _ _ _ hsnd hc _ hs => hc.step hsnd hs).2
  intro u hu v pc hctx
  obtain rfl : u = 0 := Nat.lt_one_iff.mp hu
  cases hctx

/-! ### What the board says of an exit and of a join -/

section Board

variable {s : State} {t j : UId} {v : Option Addr}

theorem Ctx.mode_exiting {c : Ctx} : c.mode = .exiting ↔ ∃ x pc, c = .exit x pc ∧ pc ≠ .mark := by
  constructor
  · intro h
    cases c with
    | exit x pc =>
      refine ⟨x, pc, rfl, ?_⟩
      rintro rfl
      cases h
    | join t r pc => cases pc <;> cases h
    | register c pc => cases pc <;> cases h
    | sleep w pc => cases pc <;> cases h
    | _ => cases h
  · rintro ⟨x, pc, rfl, hpc⟩
    cases pc with
    | mark => exact absurd rfl hpc
    | _ => rfl

/-- A uthread that is marked as exited and not freed is inside its exit. -/
theorem exited_iff (hi : Inv s.board) (ht : (s.ut t).life = .live) :
    (s.ut t).status.has .exited = true ↔ ∃ x pc, (s.ut t).ctx = .exit x pc ∧ pc ≠ .mark := by
  have hwf := hi.wf (u := t) ht
  constructor
  · intro he
    exact Ctx.mode_exiting.mp (hwf.of_exited he).1
  · intro hctx
    have hm : (s.board.task t).mode = .exiting := Ctx.mode_exiting.mpr hctx
    simp only [Task.Wf, hm] at hwf
    exact hwf.2.1

/-- The uthread that a sleeping joiner waits for knows its joiner. -/
theorem utJoined_of_sleep (hi : Inv s.board) (ht : (s.ut t).life = .live) (hj : (s.ut j).life = .live)
    {pc : SleepAt} (hctx : (s.ut j).ctx = .sleep (.join t v) pc) : (s.ut t).utJoined = some j := by
  have hdead : ¬(s.board.task t).life = .freed := by
    intro hf
    have hf' : (s.ut t).life = .freed := hf
    rw [ht] at hf'
    cases hf'
  have htarget := hi.target (j := j) hj
  have hmode : (s.board.task j).mode = (Ctx.sleep (.join t v) pc).mode := congrArg Ctx.mode hctx
  refine (hi.joined_iff (t := t) ht).mpr ⟨hj, ?_⟩
  unfold Board.TargetOk at htarget
  rw [hmode] at htarget
  unfold Task.WaitsFor
  rw [hmode]
  cases pc with
  | clock => exact .inl rfl
  | insert => exact .inl rfl
  | mark => exact .inr (.inl rfl)
  | flag => exact .inr (.inr ⟨htarget.resolve_right hdead, .inl rfl⟩)
  | yieldFlag => exact .inr (.inr ⟨htarget.resolve_right hdead, .inl rfl⟩)
  | switch => exact .inr (.inr ⟨htarget.resolve_right hdead, .inl rfl⟩)
  | wake => exact .inr (.inr ⟨htarget.resolve_right hdead, .inr rfl⟩)

end Board

/-! ### The value on its way -/

/-- The next statement of `u` is `k`, and the action executes it. -/
def State.Executes (s : State) (act : Act) (u : UId) (k : Ctx) : Prop :=
  ∃ a r, act = .stmt a r ∧ (s.sched a).curUthread = some u ∧ (s.ut u).ctx = k

/-- What the value of `t` needs on its way to the address `r` of its joiner `j`. -/
structure Delivers (t j : UId) (r : Addr) (s : State) (act : Act) : Prop where
  calm : Calm s act
  same : NoCallOf j s act
  /-- `t` ends in `uthread_exit`, with a value that is not `NULL`. -/
  value : ∀ x, s.Executes act t (.exit x .mark) → ∃ v, x = some v ∧ v ≠ 0
  /-- `t` is not preempted between the mark and the store. -/
  whole : ∀ a x, act = .preempt a → (s.sched a).curUthread = some t → (s.ut t).ctx ≠ .exit x .store
  /-- `t` has not exited when the join looks at it. -/
  early : s.Executes act j (.join t (some r) .exited) → (s.ut t).status.has .exited = false
  /-- Nobody else stores at the address. -/
  own : ∀ u x, u ≠ t → s.Executes act u (.exit x .store) → (s.ut u).retval ≠ some r

/-- The address is in the record of `t`, and a value that `t` exits with gets there. -/
structure Promised (t : UId) (r : Addr) (s : State) : Prop where
  retval : (s.ut t).retval = some r
  exit : ∀ x pc, (s.ut t).ctx = .exit x pc → pc ≠ .mark →
    ∃ v, x = some v ∧ v ≠ 0 ∧ (pc ≠ .store → s.mem r = v)

/-- The value `t` has exited with is at the address. -/
def Delivered (t : UId) (r : Addr) (s : State) : Prop :=
  ∃ v, (s.ut t).hist.call = some (.exit v) ∧ s.mem r = v

section Delivery

variable {s s' : State} {act : Act} {t j : UId} {r : Addr}

theorem storeRetval_mem_of_ne {u : UId} {x : Val} (h : (s.ut u).retval ≠ some r) :
    (storeRetval u x s).mem r = s.mem r := by
  unfold storeRetval
  split
  · split
    · rename_i r' hr'
      have hne : r ≠ r' := by
        rintro rfl
        exact h hr'
      exact Function.update_of_ne hne _ _
    · rfl
  · rfl

theorem step_store {a : SId} {rp : Reply} {x : Option Val} (hs : step s (.stmt a rp) = .ok s')
    (hc : (s.sched a).curUthread = some t) (hctx : (s.ut t).ctx = .exit x .store) :
    s' = goto t (.exit x .yieldFlag) (storeRetval t (x.getD 0) s) := by
  rw [step_stmt (not_halted_of_step hs) hc] at hs
  simp only [uthreadStmt, hctx, exitStmt] at hs
  exact (Except.ok.inj hs).symm

theorem step_join {a : SId} {rp : Reply} {v : Option Addr} {pc : JoinAt} (hs : step s (.stmt a rp) = .ok s')
    (hc : (s.sched a).curUthread = some j) (hctx : (s.ut j).ctx = .join t v pc) :
    s' = joinStmt a j t v pc s := by
  rw [step_stmt (not_halted_of_step hs) hc] at hs
  simp only [uthreadStmt, hctx] at hs
  exact (Except.ok.inj hs).symm

/-- Only the store of `t` writes the address. -/
theorem Delivers.mem (hd : Delivers t j r s act) (hs : step s act = .ok s')
    (hno : ∀ x, ¬s.Executes act t (.exit x .store)) : s'.mem r = s.mem r := by
  cases step_values hs with
  | same hmem _ => rw [hmem]
  | handed _ _ hmem _ _ => rw [hmem]
  | @stored a rp u x hc hctx hmem _ =>
    have hu : u ≠ t := by
      rintro rfl
      exact hno x ⟨a, rp, rfl, hc, hctx⟩
    rw [hmem]
    exact storeRetval_mem_of_ne (hd.own u x hu ⟨a, rp, rfl, hc, hctx⟩)

/-- Once it is there, it stays. -/
theorem Delivered.step (h : Delivered t r s) (hd : Delivers t j r s act) (hsnd : Sound s)
    (hi : Inv s.board) (ht : t < s.heap) (hf : (s.ut t).life = .freed) (hs : step s act = .ok s') :
    Delivered t r s' := by
  have hoff : ∀ a, (s.sched a).curUthread ≠ some t := by
    intro a hc
    have hl : (s.ut t).life = .live := hi.cur_live (a := a) hc
    rw [hf] at hl
    cases hl
  obtain ⟨v, hcall, hmem⟩ := h
  refine ⟨v, ?_, ?_⟩
  · rw [(step_others hsnd hs ht fun _ => hoff _).call]
    exact hcall
  · rw [hd.mem hs]
    · exact hmem
    · rintro x ⟨a, rp, -, hc, -⟩
      exact hoff a hc

/-- No other joiner replaces the address. -/
theorem Promised.retval_step (h : Promised t r s) (hi : Inv s.board) (ht : t < s.heap)
    (hl : (s.ut t).life = .live) (hj : (s.ut j).life = .live) {pc : SleepAt}
    (hctx : (s.ut j).ctx = .sleep (.join t (some r)) pc) (hs : step s act = .ok s') :
    (s'.ut t).retval = some r := by
  cases step_values hs with
  | same _ hret => rw [hret t ht]; exact h.retval
  | stored _ _ _ hret => rw [hret t ht]; exact h.retval
  | @handed a rp u t' v hc hu _ _ hrest =>
    have hne : t ≠ t' := by
      rintro rfl
      have hlu : (s.ut u).life = .live := hi.cur_live (a := a) hc
      rcases hu with hu | hu
      · have hm : (s.board.task u).mode = .arming (.join t) := congrArg Ctx.mode hu
        have hju : (s.ut t).utJoined = some u := (hi.joined_iff (t := t) hl).mpr ⟨hlu, .inl hm⟩
        obtain rfl : u = j :=
          Option.some.inj (hju.symm.trans (utJoined_of_sleep hi hl hj hctx))
        rw [hctx] at hu
        cases hu
      · have hfreed := freed_of_joined hi hlu (t := t) (congrArg Ctx.mode hu)
        rw [hl] at hfreed
        cases hfreed
    rw [hrest t ht hne]
    exact h.retval

theorem Promised.exit_step (h : Promised t r s) (hd : Delivers t j r s act) (hsnd : Sound s)
    (hjoined : (s.ut t).utJoined.isSome = true) (ht : t < s.heap) (hs : step s act = .ok s')
    {x : Option Val} {pc : ExitAt} (hctx' : (s'.ut t).ctx = .exit x pc) (hpc : pc ≠ .mark) :
    ∃ v, x = some v ∧ v ≠ 0 ∧ (pc ≠ .store → s'.mem r = v) := by
  have hnot : ∀ {pc₀}, (s.ut t).ctx = .exit x pc₀ → pc₀ ≠ .store →
      ∀ y, ¬s.Executes act t (.exit y .store) := by
    rintro pc₀ hctx hne y ⟨a, rp, -, -, hy⟩
    rw [hctx] at hy
    cases hy
    exact hne rfl
  by_cases hno : NoCallOf t s act
  · rcases step_call hsnd hs ht hno with hsame | ⟨a, rp, rfl, hc, hstmt⟩
    · have hctx := hsame.ctx.symm.trans hctx'
      obtain ⟨v, hx, hv, hmem⟩ := h.exit x pc hctx hpc
      refine ⟨v, hx, hv, fun hst => ?_⟩
      rw [hd.mem hs (hnot hctx hst)]
      exact hmem hst
    · have hflow := hstmt.flow
      rw [hctx'] at hflow
      obtain ⟨pc₀, hctx, hnext⟩ := hflow.exit
      cases hnext with
      | mark =>
        obtain ⟨v, rfl, hv⟩ := hd.value x ⟨a, rp, rfl, hc, hctx⟩
        exact ⟨v, rfl, hv, fun hst => absurd rfl hst⟩
      | store =>
        obtain ⟨v, rfl, hv, -⟩ := h.exit x .store hctx (by simp)
        refine ⟨v, rfl, hv, fun _ => ?_⟩
        rw [step_store hs hc hctx]
        show (storeRetval t v s).mem r = v
        simp only [storeRetval, h.retval]
        rw [if_pos ⟨hv, hjoined⟩]
        exact Function.update_self _ _ _
      | yieldFlag =>
        obtain ⟨v, hx, hv, hmem⟩ := h.exit x .yieldFlag hctx (by simp)
        refine ⟨v, hx, hv, fun _ => ?_⟩
        rw [hd.mem hs (hnot hctx (by simp))]
        exact hmem (by simp)
  · -- a call of `t` is at its first statement
    cases step_ok hs with
    | @call a c w _ hc _ hent =>
      by_cases hwt : t = w
      · subst hwt
        cases hent with
        | goes _ _ _ =>
          rw [goto_ctx] at hctx'
          cases c <;> cases hctx' <;> exact absurd rfl hpc
        | detach _ => rw [returns_ctx] at hctx'; cases hctx'
        | close => rw [returns_ctx] at hctx'; cases hctx'
      · refine absurd (fun b k he hb => ?_) hno
        cases he
        exact hwt (Option.some.inj (hb.symm.trans hc))
    | stmt _ _ => exact absurd (fun _ _ he => by cases he) hno
    | preempt _ _ _ => exact absurd (fun _ _ he => by cases he) hno
    | sched _ _ => exact absurd (fun _ _ he => by cases he) hno

/-- A uthread that is freed has stored its value. -/
theorem Promised.freed (h : Promised t r s) (hd : Delivers t j r s act) (hcalls : ExitCalls s)
    (hsnd : Sound s) (hi : Inv s.board) (ht : t < s.heap) (hl : (s.ut t).life = .live)
    (he : (s.ut t).status.has .exited = true) (hc : (s.sched act.thread).curUthread = some t)
    (hns : ∀ a rp, act ≠ .sched a rp) (hs : step s act = .ok s') (hf : (s'.ut t).life = .freed) :
    Delivered t r s' := by
  obtain ⟨x, pc, hctx, hpc⟩ := (exited_iff hi hl).mp he
  obtain ⟨v, rfl, hv, hmem⟩ := h.exit x pc hctx hpc
  have hcall := hcalls t ht v pc hctx
  have hst : pc ≠ .store := by
    rintro rfl
    have hact := hs
    cases step_ok hs with
    | call hc' hu _ =>
      rw [Option.some.inj (hc'.symm.trans hc), hctx] at hu
      cases hu
    | @stmt a rp u _ hc' _ =>
      rw [step_store hact hc hctx, goto_life, storeRetval_ut, hl] at hf
      cases hf
    | preempt hc' _ _ => exact hd.whole _ _ rfl hc hctx
    | sched _ _ => exact absurd rfl (hns _ _)
  refine ⟨v, ?_, ?_⟩
  · have hno : NoCallOf t s act := by
      rintro b c rfl hb
      cases step_ok hs with
      | call hc' hu _ =>
        rw [Option.some.inj (hc'.symm.trans hb), hctx] at hu
        cases hu
    rcases step_call hsnd hs ht hno with hsame | ⟨a, rp, -, -, hstmt⟩
    · rw [hsame.call]
      exact hcall
    · rw [hstmt.call ht]
      exact hcall
  · rw [hd.mem hs]
    · exact hmem hst
    · rintro y ⟨a, rp, -, -, hy⟩
      rw [hctx] at hy
      cases hy
      exact hst rfl

end Delivery

/-! ### The join -/

/-- What `uthread_join(t, r)` can rely on, by where it stands. -/
inductive Awaiting (t : UId) (r : Addr) (s : State) : Ctx → Prop where
  | ended : Awaiting t r s .user
  | looks {pc : JoinAt} : pc = .self ∨ pc = .detached ∨ pc = .taken ∨ pc = .exited →
      Awaiting t r s (.join t (some r) pc)
  | decided {pc : JoinAt} : pc = .publish ∨ pc = .setRetval → (s.ut t).status.has .exited = false →
      Awaiting t r s (.join t (some r) pc)
  | asleep {pc : SleepAt} : (s.ut t).life = .live → Promised t r s →
      Awaiting t r s (.sleep (.join t (some r)) pc)
  | released {pc : SleepAt} : (s.ut t).life = .freed → Delivered t r s →
      Awaiting t r s (.sleep (.join t (some r)) pc)
  | woken {pc : JoinAt} : pc = .expired ∨ pc = .unpublish ∨ pc = .resetRetval ∨ pc = .free →
      (s.ut t).life = .freed → Delivered t r s → Awaiting t r s (.join t (some r) pc)

/-- Where a statement of `_uthread_sched_sleep` leads. -/
theorem Stmt.sleep {a : SId} {u : UId} {rp : Reply} {s s' : State} (h : Stmt a u rp s s') {w : Wait}
    {pc : SleepAt} (hctx : (s.ut u).ctx = .sleep w pc) :
    (∃ pc', (s'.ut u).ctx = .sleep w pc') ∨ (s'.ut u).ctx = w.return := by
  have hgoto : ∀ {pc' : SleepAt} {s₀ : State}, ∃ pc'', ((goto u (.sleep w pc') s₀).ut u).ctx = .sleep w pc'' :=
    fun {pc' _} => ⟨pc', goto_ctx _⟩
  cases h with
  | own hk hown =>
    rw [hctx] at hk
    subst hk
    cases hown with
    | wake w => exact .inr (goto_ctx _)
    | _ => exact .inl hgoto
  | moves hm =>
    rw [hctx] at hm
    cases hm
  | linkSleeping hk _ _ =>
    rw [hctx] at hk
    cases hk
    exact .inl hgoto
  | switch hk hsw hs =>
    rw [hctx] at hk
    subst hk
    rw [(AllSeen.switched hs u).ctx]
    cases hsw
    exact .inl hgoto
  | allocFails hk _ =>
    rw [hctx] at hk
    rcases hk with ⟨c, hk⟩ | ⟨c, id, hk⟩ <;> cases hk
  | io hk _ _ | ioReturns hk _ | watch hk _ _ | linkWaiting hk _ | joinFails hk | joinExited hk _
  | publish hk | setRetval hk | unpublish hk | resetRetval hk | joinFree hk | store hk | lock hk _
  | count hk | unlock hk | created hk _ | diskFlag hk _ | handOff hk _ _ _ | diskCall hk _ =>
    rw [hctx] at hk
    cases hk

section Join

variable {s s' : State} {act : Act} {t j : UId} {r : Addr}

/-- The invariant of a join from its call to its return. -/
structure Joining (t j : UId) (r : Addr) (s : State) : Prop where
  sound : Sound s
  inv : Inv s.board
  calls : ExitCalls s
  joinee : t < s.heap
  joiner : j < s.heap
  alive : (s.ut j).ctx ≠ .user → (s.ut j).life = .live
  awaiting : Awaiting t r s (s.ut j).ctx

/-- A joiner asleep: its target lives and the value is promised, or it is there. -/
theorem Joining.asleep_step (h : Joining t j r s) (hd : Delivers t j r s act) (hs : step s act = .ok s')
    (hl : (s.ut t).life = .live) (hp : Promised t r s) {pc : SleepAt}
    (hctx : (s.ut j).ctx = .sleep (.join t (some r)) pc) :
    ((s'.ut t).life = .live ∧ Promised t r s') ∨ ((s'.ut t).life = .freed ∧ Delivered t r s') := by
  have hj : (s.ut j).life = .live := h.alive (by rw [hctx]; simp)
  have hjoined : (s.ut t).utJoined.isSome = true := by
    rw [utJoined_of_sleep h.inv hl hj hctx]
    rfl
  rcases step_life h.sound hs h.joinee with hlife | ⟨hf, he, hns, hc⟩
  · refine .inl ⟨hlife.trans hl, ?_, fun x pc' hctx' hpc' => ?_⟩
    · exact hp.retval_step h.inv h.joinee hl hj hctx hs
    · exact hp.exit_step hd h.sound hjoined h.joinee hs hctx' hpc'
  · exact .inr ⟨hf, hp.freed hd h.calls h.sound h.inv h.joinee hl he hc hns hs hf⟩

theorem Joining.freed_step (h : Joining t j r s) (hs : step s act = .ok s') (hf : (s.ut t).life = .freed) :
    (s'.ut t).life = .freed := by
  rcases step_life h.sound hs h.joinee with hlife | ⟨hf', -⟩
  · exact hlife.trans hf
  · exact hf'

/-- The joiner does not move. -/
theorem Joining.stays (h : Joining t j r s) (hd : Delivers t j r s act) (hs : step s act = .ok s')
    (hsame : (s'.ut j).ctx = (s.ut j).ctx) (hother : ∀ a rp, act = .stmt a rp →
      (s.sched a).curUthread ≠ some j) : Awaiting t r s' (s'.ut j).ctx := by
  have haw := h.awaiting
  rw [hsame]
  generalize hctx : (s.ut j).ctx = k at haw
  cases haw with
  | ended => exact .ended
  | looks hpc => exact .looks hpc
  | @decided pc hpc hex =>
    -- a joiner that has decided is on its sched, and in a calm run it moves
    exfalso
    have hj : (s.ut j).life = .live := h.alive (by rw [hctx]; simp)
    have hpub : (s.ut j).ctx.publishing = true := by
      rw [hctx]
      rcases hpc with rfl | rfl <;> rfl
    obtain ⟨a, hc⟩ := (h.inv.wf (u := j) hj).onCpu_of_publishing ((Ctx.publishing_mode _).trans hpub)
    obtain ⟨rp, hact⟩ := (hd.calm a j hc).1 hpub
    exact hother a rp hact hc
  | @asleep pc hl hp =>
    rcases h.asleep_step hd hs hl hp hctx with ⟨hl', hp'⟩ | ⟨hf, hdel⟩
    · exact .asleep hl' hp'
    · exact .released hf hdel
  | released hf hdel =>
    exact .released (h.freed_step hs hf) (hdel.step hd h.sound h.inv h.joinee hf hs)
  | woken hpc hf hdel =>
    exact .woken hpc (h.freed_step hs hf) (hdel.step hd h.sound h.inv h.joinee hf hs)

/-- A call that has returned another value. -/
theorem not_returnsZero {a : SId} {x : Int} {s₀ : State} (hx : x ≠ 0) : ¬ReturnsZero j s (returns a j x s₀) := by
  rintro ⟨-, -, e, he⟩
  simp only [returns, setUt_ut_self, Option.some.injEq, Prod.mk.injEq] at he
  exact hx he.1

theorem not_returnsZero_goto {k : Ctx} {s₀ : State} (hk : k ≠ .user) : ¬ReturnsZero j s (goto j k s₀) := by
  rintro ⟨-, hu, -⟩
  rw [goto_ctx] at hu
  exact hk hu

/-- The look at the target. -/
theorem Delivers.looks_step {a : SId} {rp : Reply} (hd : Delivers t j r s (.stmt a rp))
    (hs : step s (.stmt a rp) = .ok s') (hc : (s.sched a).curUthread = some j) {pc : JoinAt}
    (hctx : (s.ut j).ctx = .join t (some r) pc)
    (hpc : pc = .self ∨ pc = .detached ∨ pc = .taken ∨ pc = .exited) :
    Awaiting t r s' (s'.ut j).ctx ∧ ¬ReturnsZero j s s' := by
  have hfails : ∀ e, Awaiting t r (returns a j (-1) (setErrno a e s))
        ((returns a j (-1) (setErrno a e s)).ut j).ctx ∧
      ¬ReturnsZero j s (returns a j (-1) (setErrno a e s)) := by
    intro e
    rw [returns_ctx]
    exact ⟨.ended, not_returnsZero (by decide)⟩
  have hgoes : ∀ pc', (pc' = .self ∨ pc' = .detached ∨ pc' = .taken ∨ pc' = .exited) →
      Awaiting t r (goto j (.join t (some r) pc') s) ((goto j (.join t (some r) pc') s).ut j).ctx ∧
      ¬ReturnsZero j s (goto j (.join t (some r) pc') s) := by
    intro pc' hpc'
    rw [goto_ctx]
    exact ⟨.looks hpc', not_returnsZero_goto (by simp)⟩
  rw [step_join hs hc hctx]
  rcases hpc with rfl | rfl | rfl | rfl
  · unfold joinStmt
    dsimp only
    split
    · exact hfails .edeadlk
    · exact hgoes .detached (by simp)
  · unfold joinStmt
    dsimp only
    split
    · exact hfails .einval
    · exact hgoes .taken (by simp)
  · unfold joinStmt
    dsimp only
    split
    · exact hfails .einval
    · exact hgoes .exited (by simp)
  · have hex := hd.early ⟨a, rp, rfl, hc, hctx⟩
    simp only [joinStmt, hex, Bool.false_eq_true, if_false]
    rw [goto_ctx]
    refine ⟨.decided (.inl rfl) ?_, not_returnsZero_goto (by simp)⟩
    exact (congrArg Marks.exited (SameMarks.goto j _ s t)).trans hex

/-- The address is handed over. -/
theorem Joining.decided_step (h : Joining t j r s) {a : SId} {rp : Reply} (hi' : Inv s'.board)
    (hs : step s (.stmt a rp) = .ok s') (hc : (s.sched a).curUthread = some j) {pc : JoinAt}
    (hctx : (s.ut j).ctx = .join t (some r) pc) (hpc : pc = .publish ∨ pc = .setRetval)
    (hex : (s.ut t).status.has .exited = false) :
    Awaiting t r s' (s'.ut j).ctx ∧ ¬ReturnsZero j s s' := by
  have hs' := step_join hs hc hctx
  rcases hpc with rfl | rfl
  · have hm : SameMarks s s' := by
      rw [hs']
      exact (SameMarks.setUt rfl).trans (SameMarks.goto j _ _)
    rw [hs'] at hm ⊢
    unfold joinStmt at hm ⊢
    rw [goto_ctx]
    refine ⟨.decided (.inr rfl) ?_, not_returnsZero_goto (by simp)⟩
    exact (congrArg Marks.exited (hm t)).trans hex
  · have hm : SameMarks s s' := by
      rw [hs']
      exact (SameMarks.setUt rfl).trans (SameMarks.goto j _ _)
    have hl : (s.ut t).life = .live := by
      cases hl : (s.ut t).life with
      | live => rfl
      | fresh => exact absurd hl (h.sound.ut t h.joinee).life
      | freed =>
        have he : (s.ut t).status.has .exited = true := h.inv.freed_exited (u := t) hl
        rw [hex] at he
        cases he
    have hl' : (s'.ut t).life = .live := (congrArg Marks.life (hm t)).trans hl
    have hctx' : (s'.ut j).ctx = .sleep (.join t (some r)) .clock := by
      rw [hs']
      exact goto_ctx _
    rw [hctx']
    refine ⟨.asleep hl' ⟨?_, fun x pc hx hpc => ?_⟩, ?_⟩
    · rw [hs']
      unfold joinStmt goto
      rw [setUt_keeps Uthread.retval rfl, setUt_ut_self]
    · have he := (exited_iff hi' hl').mpr ⟨x, pc, hx, hpc⟩
      rw [show (s'.ut t).status.has .exited = (s.ut t).status.has .exited from
        congrArg Marks.exited (hm t), hex] at he
      cases he
    · rintro ⟨-, hu, -⟩
      rw [hctx'] at hu
      cases hu

/-- Back from the sleep. -/
theorem Joining.woken_step (h : Joining t j r s) {a : SId} {rp : Reply}
    (hd : Delivers t j r s (.stmt a rp)) (hs : step s (.stmt a rp) = .ok s')
    (hc : (s.sched a).curUthread = some j) {pc : JoinAt} (hctx : (s.ut j).ctx = .join t (some r) pc)
    (hpc : pc = .expired ∨ pc = .unpublish ∨ pc = .resetRetval ∨ pc = .free)
    (hf : (s.ut t).life = .freed) (hdel : Delivered t r s) :
    Awaiting t r s' (s'.ut j).ctx ∧ Delivered t r s' := by
  have hf' := h.freed_step hs hf
  have hdel' := hdel.step hd h.sound h.inv h.joinee hf hs
  have hs' := step_join hs hc hctx
  refine ⟨?_, hdel'⟩
  have hgoes : ∀ pc', (pc' = .expired ∨ pc' = .unpublish ∨ pc' = .resetRetval ∨ pc' = .free) →
      (s'.ut j).ctx = .join t (some r) pc' → Awaiting t r s' (s'.ut j).ctx := by
    intro pc' hpc' he
    rw [he]
    exact .woken hpc' hf' hdel'
  have hover : (s'.ut j).ctx = .user → Awaiting t r s' (s'.ut j).ctx := by
    intro he
    rw [he]
    exact .ended
  rcases hpc with rfl | rfl | rfl | rfl
  · simp only [joinStmt] at hs'
    split at hs'
    · exact hgoes .unpublish (by simp) (by rw [hs', goto_ctx])
    · exact hgoes .free (by simp) (by rw [hs', goto_ctx])
  · exact hgoes .resetRetval (by simp) (by rw [hs']; exact goto_ctx _)
  · exact hover (by rw [hs']; exact returns_ctx _)
  · exact hover (by rw [hs']; exact returns_ctx _)

/-- The joiner executes a statement. -/
theorem Joining.goes (h : Joining t j r s) {a : SId} {rp : Reply} (hd : Delivers t j r s (.stmt a rp))
    (hi' : Inv s'.board) (hs : step s (.stmt a rp) = .ok s') (hc : (s.sched a).curUthread = some j)
    (hstmt : Stmt a j rp s s') (hj' : (s'.ut j).life = .live) :
    Awaiting t r s' (s'.ut j).ctx ∧ (ReturnsZero j s s' → Delivered t r s') := by
  -- a sleep is left only when the value is there
  have hsleep : ∀ {pc}, (s.ut j).ctx = .sleep (.join t (some r)) pc →
      ((s'.ut t).life = .live ∧ Promised t r s') ∨ ((s'.ut t).life = .freed ∧ Delivered t r s') →
      Awaiting t r s' (s'.ut j).ctx ∧ (ReturnsZero j s s' → Delivered t r s') := by
    intro pc hctx hnow
    rcases hstmt.sleep hctx with ⟨pc', hk⟩ | hk
    · refine ⟨?_, fun hz => absurd (hk.symm.trans hz.2.1) (by simp)⟩
      rw [hk]
      rcases hnow with ⟨hl, hp⟩ | ⟨hf, hdel⟩
      · exact .asleep hl hp
      · exact .released hf hdel
    · have hf : (s'.ut t).life = .freed := freed_of_joined hi' hj' (congrArg Ctx.mode hk)
      have hdel : Delivered t r s' := by
        rcases hnow with ⟨hl, -⟩ | ⟨-, hdel⟩
        · rw [hf] at hl
          cases hl
        · exact hdel
      refine ⟨?_, fun _ => hdel⟩
      rw [hk]
      exact .woken (.inl rfl) hf hdel
  have haw := h.awaiting
  generalize hctx : (s.ut j).ctx = k at haw
  cases haw with
  | ended => exact absurd hctx hstmt.not_user
  | looks hpc =>
    obtain ⟨haw', hno⟩ := hd.looks_step hs hc hctx hpc
    exact ⟨haw', fun hz => absurd hz hno⟩
  | decided hpc hex =>
    obtain ⟨haw', hno⟩ := h.decided_step hi' hs hc hctx hpc hex
    exact ⟨haw', fun hz => absurd hz hno⟩
  | asleep hl hp => exact hsleep hctx (h.asleep_step hd hs hl hp hctx)
  | released hf hdel =>
    exact hsleep hctx (.inr ⟨h.freed_step hs hf, hdel.step hd h.sound h.inv h.joinee hf hs⟩)
  | woken hpc hf hdel =>
    obtain ⟨haw', hdel'⟩ := h.woken_step hd hs hc hctx hpc hf hdel
    exact ⟨haw', fun _ => hdel'⟩

/-- A joiner does not end before its join does. -/
theorem Joining.life_step (h : Joining t j r s) (hs : step s act = .ok s')
    (hlive : (s.ut j).life = .live) : (s'.ut j).life = .live := by
  rcases step_life h.sound hs h.joiner with hlife | ⟨-, he, -⟩
  · exact hlife.trans hlive
  · exfalso
    obtain ⟨x, pc, hx, -⟩ := (exited_iff h.inv hlive).mp he
    have haw := h.awaiting
    rw [hx] at haw
    cases haw

theorem Joining.step (h : Joining t j r s) (hd : Delivers t j r s act) (hs : step s act = .ok s') :
    Joining t j r s' ∧ (ReturnsZero j s s' → Delivered t r s') := by
  have hi' := inv_step h.sound h.inv hd.calm hs
  have hheap := step_heap_le h.sound hs
  have hmain : Awaiting t r s' (s'.ut j).ctx ∧ (ReturnsZero j s s' → Delivered t r s') := by
    by_cases hown : ∃ a rp, act = .stmt a rp ∧ (s.sched a).curUthread = some j
    · obtain ⟨a, rp, rfl, hc⟩ := hown
      have hstmt : Stmt a j rp s s' := by
        cases step_ok hs with
        | stmt hc' hstmt =>
          obtain rfl := Option.some.inj (hc'.symm.trans hc)
          exact hstmt
      have hlive : (s.ut j).life = .live := h.inv.cur_live (a := a) hc
      exact h.goes hd hi' hs hc hstmt (h.life_step hs hlive)
    · have hother : ∀ a rp, act = .stmt a rp → (s.sched a).curUthread ≠ some j :=
        fun a rp hact hc => hown ⟨a, rp, hact, hc⟩
      have hsame : (s'.ut j).ctx = (s.ut j).ctx := by
        rcases step_call h.sound hs h.joiner hd.same with hsame | ⟨a, rp, hact, hc, -⟩
        · exact hsame.ctx
        · exact absurd hc (hother a rp hact)
      exact ⟨h.stays hd hs hsame hother, fun hz => absurd (hsame.symm.trans hz.2.1) hz.1⟩
  refine ⟨⟨h.sound.step hs, hi', h.calls.step h.sound hs, Nat.lt_of_lt_of_le h.joinee hheap,
    Nat.lt_of_lt_of_le h.joiner hheap, fun hne => ?_, hmain.1⟩, hmain.2⟩
  have hctx : (s.ut j).ctx ≠ .user := by
    intro hu
    rcases step_call h.sound hs h.joiner hd.same with hsame | ⟨a, rp, -, -, hstmt⟩
    · exact hne (hsame.ctx.trans hu)
    · exact hstmt.not_user hu
  exact h.life_step hs (h.alive hctx)

end Join

end UthreadRuntime
