import UthreadRuntime.Timer.Flags

/-! Where the runtime keeps the flags and the threads in step.

A uthread about to switch has its flag cleared. A disk call that is about to hand its p off
runs on the thread it took the sched from, with its flag cleared, or it finds no p to hand
off. So a uthread whose flag is set runs on a thread that has a p, and `tid` of that p names
the thread. -/
namespace UthreadRuntime

open State Placement

/-- What the context of `u` says of its flag and of where it runs. -/
structure CtxWired (s : State) (u : UId) : Prop where
  switching : (s.ut u).ctx.switching = true →
    (s.ut u).isWatingYieldSignal = false ∧ ∃ a, (s.sched a).curUthread = some u
  diskFlag : ∀ c, (s.ut u).ctx = .diskFlag c → c ∉ s.schedIdle ∧
    ∀ a, (s.sched a).curUthread = some u → a = c ∨ (s.sched c).p = none
  diskHandOff : ∀ c, (s.ut u).ctx = .diskHandOff c → c ∉ s.schedIdle ∧
    ((s.sched c).p = none ∨ ((s.sched c).curUthread = some u ∧ (s.ut u).isWatingYieldSignal = false))

structure Wired (s : State) : Prop where
  ctx : ∀ u < s.heap, CtxWired s u
  bound : ∀ a u, (s.sched a).curUthread = some u → (s.ut u).isWatingYieldSignal = true → (s.sched a).p ≠ none
  tid : ∀ a q, (s.sched a).p = some q → (s.p q).tid = a ∨
    ((s.sched a).pc = .another ∧ (s.sched a).curUthread = none)

/-- A context that says nothing. -/
structure Ctx.Unwired (k : Ctx) : Prop where
  switching : k.switching = false
  diskFlag : ∀ c, k ≠ .diskFlag c
  diskHandOff : ∀ c, k ≠ .diskHandOff c

theorem CtxWired.of_unwired {s : State} {u : UId} (h : (s.ut u).ctx.Unwired) : CtxWired s u := by
  refine ⟨fun hsw => ?_, fun c hc => absurd hc (h.diskFlag c), fun c hc => absurd hc (h.diskHandOff c)⟩
  rw [h.switching] at hsw
  cases hsw

theorem Call.head_unwired (c : Call) : c.head.Unwired := by
  cases c <;> exact ⟨rfl, by simp [Call.head], by simp [Call.head]⟩

/-- No sched that was in use has been bound anew. -/
structure Binds (s s' : State) : Prop where
  idle : ∀ c, c ∉ s.schedIdle → c ∉ s'.schedIdle
  bound : ∀ c, c ∉ s.schedIdle → (s.sched c).p = none → (s'.sched c).p = none

/-- The uthread stands where it stood, where it was. -/
theorem CtxWired.keep {s s' : State} {u : UId} (h : CtxWired s u) (hctx : (s'.ut u).ctx = (s.ut u).ctx)
    (hflag : (s.ut u).isWatingYieldSignal = false → (s'.ut u).isWatingYieldSignal = false)
    (hcur : ∀ a, (s'.sched a).curUthread = some u ↔ (s.sched a).curUthread = some u) (hb : Binds s s') :
    CtxWired s' u := by
  constructor
  · intro hsw
    rw [hctx] at hsw
    obtain ⟨hf, a, hc⟩ := h.switching hsw
    exact ⟨hflag hf, a, (hcur a).mpr hc⟩
  · intro c hc
    rw [hctx] at hc
    obtain ⟨hidle, hon⟩ := h.diskFlag c hc
    exact ⟨hb.idle c hidle, fun a ha => (hon a ((hcur a).mp ha)).imp_right (hb.bound c hidle)⟩
  · intro c hc
    rw [hctx] at hc
    obtain ⟨hidle, hon⟩ := h.diskHandOff c hc
    exact ⟨hb.idle c hidle, hon.imp (hb.bound c hidle) fun ho => ⟨(hcur c).mpr ho.1, hflag ho.2⟩⟩

theorem Binds.of_eq {s s' : State} (hidle : s'.schedIdle = s.schedIdle)
    (hp : ∀ c, (s'.sched c).p = (s.sched c).p) : Binds s s' :=
  ⟨fun c hc => by rw [hidle]; exact hc, fun c _ hn => by rw [hp]; exact hn⟩

section Step

variable {s s' : State} {a : SId} {u : UId}

/-- A uthread switches away. -/
theorem Wired.leave (h : Wired s) (hc : (s.sched a).curUthread = some u)
    (hone : ∀ d, (s.sched d).curUthread = some u → d = a)
    (hsw : (s.ut u).ctx.switching = false) (hoff : ∀ c, (s.ut u).ctx = .diskHandOff c → (s.sched c).p = none)
    (hs : uthreadSwitched a u s = .ok s') : Wired s' := by
  have hsig := switched_signals hs
  have hstill : Still a s s' := Still.switched hs
  have hcur : ∀ d, (s'.sched d).curUthread = if d = a then none else (s.sched d).curUthread :=
    fun d => (hsig.cur d).trans (idleCpu_cur d)
  have hb : Binds s s' := Binds.of_eq hstill.idle hstill.bound
  have hctx : ∀ v, (s'.ut v).ctx = (s.ut v).ctx := hsig.ctx
  have hflag : ∀ v, (s'.ut v).isWatingYieldSignal = (s.ut v).isWatingYieldSignal := hsig.flag
  have hheap : s'.heap = s.heap := hsig.heap
  constructor
  · intro v hv
    rw [hheap] at hv
    by_cases hvu : v = u
    · subst hvu
      have hon : ∀ d, (s'.sched d).curUthread ≠ some v := by
        intro d hd
        rw [hcur] at hd
        split at hd
        · cases hd
        · rename_i hda
          exact hda (hone d hd)
      constructor
      · intro hsw'
        rw [hctx, hsw] at hsw'
        cases hsw'
      · intro c hk
        rw [hctx] at hk
        exact ⟨hb.idle c ((h.ctx v hv).diskFlag c hk).1, fun d hd => absurd hd (hon d)⟩
      · intro c hk
        rw [hctx] at hk
        have hidle := ((h.ctx v hv).diskHandOff c hk).1
        exact ⟨hb.idle c hidle, .inl (hb.bound c hidle (hoff c hk))⟩
    · refine (h.ctx v hv).keep (hctx v) (fun hf => (hflag v).trans hf) (fun d => ?_) hb
      rw [hcur]
      split
      · rename_i hda
        rw [hda, hc]
        simp [Ne.symm hvu]
      · rfl
  · intro d v hd hf
    rw [hcur] at hd
    split at hd
    · cases hd
    · rw [hstill.bound]
      rw [hflag] at hf
      exact h.bound d v hd hf
  · intro d q hq
    rw [hstill.bound] at hq
    rw [hsig.tid, hstill.pc, hcur]
    rcases h.tid d q hq with ht | ⟨hpc, hn⟩
    · exact .inl ht
    · refine .inr ⟨hpc, ?_⟩
      split
      · rfl
      · exact hn

/-- The scheds and the threads are as they were. -/
structure SameThreads (s s' : State) : Prop where
  cur : ∀ d, (s'.sched d).curUthread = (s.sched d).curUthread
  bound : ∀ d, (s'.sched d).p = (s.sched d).p
  pc : ∀ d, (s'.sched d).pc = (s.sched d).pc
  idle : s'.schedIdle = s.schedIdle
  tid : ∀ q, (s'.p q).tid = (s.p q).tid

/-- Contexts change and flags are cleared. -/
theorem Wired.same (h : Wired s) (hth : SameThreads s s') (hsnd : Sound s)
    (hctx : ∀ v < s'.heap, (v < s.heap ∧ (s'.ut v).ctx = (s.ut v).ctx) ∨ CtxWired s' v)
    (hflag : ∀ v < s.heap, (s.ut v).isWatingYieldSignal = false → (s'.ut v).isWatingYieldSignal = false) :
    Wired s' := by
  constructor
  · intro v hv
    rcases hctx v hv with ⟨hlt, hsame⟩ | hok
    · refine (h.ctx v hlt).keep hsame (hflag v hlt) (fun d => ?_) (Binds.of_eq hth.idle hth.bound)
      rw [hth.cur]
    · exact hok
  · intro d v hd hf
    rw [hth.cur] at hd
    rw [hth.bound]
    refine h.bound d v hd ?_
    by_contra hn
    rw [hflag v (hsnd.cur hd).1 (by simpa using hn)] at hf
    cases hf
  · intro d q hq
    rw [hth.bound] at hq
    rw [hth.tid, hth.pc, hth.cur]
    exact h.tid d q hq

theorem Entered.threads {c : Call} (hs : Entered a u s c s') : SameThreads s s' := by
  cases hs with
  | goes _ _ _ => exact ⟨fun _ => rfl, fun _ => rfl, fun _ => rfl, rfl, fun _ => rfl⟩
  | detach _ => exact ⟨fun _ => rfl, fun _ => rfl, fun _ => rfl, rfl, fun _ => rfl⟩
  | close => exact ⟨fun _ => rfl, fun _ => rfl, fun _ => rfl, rfl, fun _ => rfl⟩

theorem Entered.flag {c : Call} (hs : Entered a u s c s') (v : UId) :
    (s'.ut v).isWatingYieldSignal = (s.ut v).isWatingYieldSignal := by
  have hent : ∀ c, ((entered u c s).ut v).isWatingYieldSignal = (s.ut v).isWatingYieldSignal :=
    fun c => setUt_keeps Uthread.isWatingYieldSignal rfl v
  cases hs with
  | goes _ _ _ => rw [goto_flag, hent]
  | detach _ => rw [returns_flag, setUt_keeps Uthread.isWatingYieldSignal rfl, hent]
  | close => rw [returns_flag, closeFd_ut, hent]

theorem Entered.heap {c : Call} (hs : Entered a u s c s') : s'.heap = s.heap := by
  cases hs <;> rfl

theorem Wired.enter (h : Wired s) (hsnd : Sound s) {c : Call} (hs : Entered a u s c s') : Wired s' := by
  refine h.same hs.threads hsnd (fun v hv => ?_) fun v _ hf => (hs.flag v).trans hf
  by_cases hvu : v = u
  · refine .inr (CtxWired.of_unwired ?_)
    rw [hvu, hs.ctx]
    exact c.head_unwired
  · exact .inl ⟨hs.heap ▸ hv, (hs.others hvu).ctx⟩

/-- Where a statement that is no switch leads. -/
theorem Stmt.wiring {r : Reply} (hs : Stmt a u r s s') (hsw : (s.ut u).ctx.switching = false) :
    (s'.ut u).ctx.Unwired ∨ (s'.ut u).ctx.switching = true ∨ s' = goto u (.diskFlag a) s ∨
    ∃ c v, (s.ut u).ctx = .diskFlag c ∧ (s.sched c).curUthread = some v ∧
      s' = goto u (.diskHandOff c) (s.setUt v fun x => {x with isWatingYieldSignal := false}) := by
  have hgoto : ∀ {k : Ctx} {s₀ : State}, k.Unwired → ((goto u k s₀).ut u).ctx.Unwired := by
    intro k s₀ hk
    rw [goto_ctx]
    exact hk
  have hret : ∀ {x : Int} {s₀ : State}, ((returns a u x s₀).ut u).ctx.Unwired := by
    intro x s₀
    rw [returns_ctx]
    exact ⟨rfl, by simp, by simp⟩
  cases hs with
  | own _ hown =>
    cases hown with
    | yieldFlag | sleepYield w | exitYield v => exact .inr (.inl (by rw [goto_ctx]; rfl))
    | wake w => cases w <;> exact .inl (hgoto ⟨rfl, by simp [Wait.return], by simp [Wait.return]⟩)
    | exitMark v => cases v <;> exact .inl (hgoto ⟨rfl, by simp, by simp⟩)
    | _ => exact .inl (hgoto ⟨rfl, by simp, by simp⟩)
  | @moves k' hm =>
    generalize (s.ut u).ctx = k at hm
    cases hm with
    | diskGet => exact .inr (.inr (.inl rfl))
    | _ => exact .inl (hgoto ⟨rfl, by simp, by simp⟩)
  | io _ _ hk => rcases hk with ⟨c, pc, rfl⟩ | ⟨c, rfl⟩ <;> exact .inl (hgoto ⟨rfl, by simp, by simp⟩)
  | diskFlag hctx hcur => exact .inr (.inr (.inr ⟨_, _, hctx, hcur, rfl⟩))
  | switch hctx hk _ =>
    rw [hctx] at hsw
    cases hk <;> cases hsw
  | ioReturns _ _ | joinFails _ | joinExited _ _ | resetRetval _ | joinFree _ | allocFails _ _
  | created _ _ | diskCall _ _ => exact .inl hret
  | _ => exact .inl (hgoto ⟨rfl, by simp, by simp⟩)

theorem Stmt.wires {r : Reply} (hs : Stmt a u r s s') (h : CtxWired s u) (hsolid : Solid s)
    (hc : (s.sched a).curUthread = some u) (hsw : (s.ut u).ctx.switching = false) : CtxWired s' u := by
  have hsig := hs.signals hc hsw
  rcases hs.wiring hsw with hun | hsw' | rfl | ⟨c, v, hctx, hcur, rfl⟩
  · exact CtxWired.of_unwired hun
  · constructor
    · intro _
      exact ⟨hs.switching hsw hsw', a, (hsig.cur a).trans hc⟩
    · intro c hk
      rw [hk] at hsw'
      cases hsw'
    · intro c hk
      rw [hk] at hsw'
      cases hsw'
  · -- the sched is the one of the thread
    constructor
    · intro hsw'
      rw [goto_ctx] at hsw'
      cases hsw'
    · intro c hk
      rw [goto_ctx] at hk
      cases hk
      exact ⟨hsolid.sound.busy_of_cur hc, fun d hd => .inl (hsolid.inv.cur_inj (b := s.board) hd hc)⟩
    · intro c hk
      rw [goto_ctx] at hk
      cases hk
  · constructor
    · intro hsw'
      rw [goto_ctx] at hsw'
      cases hsw'
    · intro d hk
      rw [goto_ctx] at hk
      cases hk
    · intro d hk
      rw [goto_ctx] at hk
      cases hk
      obtain ⟨hidle, hon⟩ := h.diskFlag c hctx
      refine ⟨hidle, ?_⟩
      rcases hon a hc with rfl | hnone
      · obtain rfl : v = u := Option.some.inj (hcur.symm.trans hc)
        refine .inr ⟨hc, ?_⟩
        rw [goto_flag, setUt_ut_self]
      · exact .inl hnone

/-- The hand-off: the p goes to a thread that is still to start. -/
theorem Wired.handOff (h : Wired s) (hsnd : Sound s) {c n : SId} {q : PId} {rest : List SId}
    (hu : u < s.heap) (hctx : (s.ut u).ctx = .diskHandOff c) (hq : (s.sched c).p = some q)
    (hidle : s.schedIdle = n :: rest) : Wired (goto u .diskCall (handedOff c n q rest s)) := by
  obtain ⟨hn, hnc, hsub⟩ := hsnd.idle_ne hq hidle
  have hsched : ∀ d, ((goto u .diskCall (handedOff c n q rest s)).sched d) =
      if d = c then {s.sched c with p := none}
      else if d = n then {s.sched n with p := some q, pc := .another} else s.sched d :=
    handedOff_sched hnc
  have hcur : ∀ d, ((goto u .diskCall (handedOff c n q rest s)).sched d).curUthread =
      (s.sched d).curUthread := handedOff_cur
  have hb : Binds s (goto u .diskCall (handedOff c n q rest s)) := by
    refine ⟨fun d hd hd' => hd (hsub d hd').1, fun d hd hnone => ?_⟩
    rw [hsched]
    split
    · rfl
    · split
      · rename_i hdn
        exact absurd (hdn ▸ hn) hd
      · exact hnone
  -- the uthread on the sched is the one that hands off
  obtain ⟨hcu, hfu⟩ : (s.sched c).curUthread = some u ∧ (s.ut u).isWatingYieldSignal = false := by
    refine ((h.ctx u hu).diskHandOff c hctx).2.resolve_left ?_
    rw [hq]
    simp
  constructor
  · intro v hv
    by_cases hvu : v = u
    · refine CtxWired.of_unwired ?_
      rw [hvu, goto_ctx]
      exact ⟨rfl, by simp, by simp⟩
    · refine (h.ctx v hv).keep ?_ (fun hf => ?_) (fun d => by rw [hcur]) hb
      · rw [goto_ut_of_ne hvu]
        rfl
      · rw [goto_flag]
        exact hf
  · intro d v hd hf
    rw [hcur] at hd
    rw [goto_flag] at hf
    have hf' : (s.ut v).isWatingYieldSignal = true := hf
    have hdc : d ≠ c := by
      rintro rfl
      rw [Option.some.inj (hd.symm.trans hcu), hfu] at hf'
      cases hf'
    rw [hsched, if_neg hdc]
    split
    · simp
    · exact h.bound d v hd hf'
  · intro d q' hd
    rw [hsched] at hd
    rw [hcur, hsched]
    split at hd
    · cases hd
    · rename_i hdc
      rw [if_neg hdc]
      split at hd
      · rename_i hdn
        rw [if_pos hdn]
        refine .inr ⟨rfl, ?_⟩
        rw [hdn]
        exact (hsnd.idle n hn).2.1
      · refine absurd (hsnd.bound_inj hd ?_) hdc
        rw [hsnd.one hd, hq, hsnd.one hq]

theorem Wired.stmt (h : Wired s) (hsolid : Solid s) {r : Reply} (hc : (s.sched a).curUthread = some u)
    (hsw : (s.ut u).ctx.switching = false) (hs : step s (.stmt a r) = .ok s') : Wired s' := by
  have hstmt : uthreadStmt a u r s = .ok s' := by
    rw [← step_stmt (not_halted_of_step hs) hc]
    exact hs
  have hst := uthreadStmt_ok hstmt
  have hsig := hst.signals hc hsw
  have hu := (hsolid.sound.cur hc).1
  rcases hst.frame with hstill | ⟨c, q, n, rest, hctx, hq, -, hidle, rfl⟩
  · refine h.same ⟨hsig.cur, hstill.bound, hstill.pc, hstill.idle, hsig.tid⟩ hsolid.sound
      (fun v hv => ?_) fun v hv hf => ?_
    · by_cases hold : v < s.heap
      · by_cases hvu : v = u
        · subst hvu
          exact .inr (hst.wires (h.ctx v hold) hsolid hc hsw)
        · exact .inl ⟨hold, (hst.others hvu hold).ctx⟩
      · -- a new uthread is in its function
        obtain ⟨-, id, hmarks⟩ := step_new hsolid.sound hs hv hold
        have hnew : (s'.ut v).status.has .new = true := congrArg Marks.new hmarks
        refine .inr (CtxWired.of_unwired ?_)
        rw [(((hsolid.sound.step hs).ut v hv).new hnew).1]
        exact ⟨rfl, by simp, by simp⟩
    · rcases hsig.flag v hv with hsame | ⟨hfalse, -⟩
      · exact hsame.trans hf
      · exact hfalse
  · exact h.handOff hsolid.sound hu hctx hq hidle

theorem Switches.unwired {k k' : Ctx} (h : Switches k k') : k'.Unwired := by
  cases h <;> exact ⟨rfl, by simp, by simp⟩

/-- The uthread's own switch. -/
theorem Wired.ownSwitch (h : Wired s) (hsolid : Solid s) {r : Reply} (hc : (s.sched a).curUthread = some u)
    (hsw : (s.ut u).ctx.switching = true) (hs : step s (.stmt a r) = .ok s') :
    Wired s' ∧ ∃ k, k.Unwired ∧ uthreadSwitched a u (goto u k s) = .ok s' := by
  have hstmt : uthreadStmt a u r s = .ok s' := by
    rw [← step_stmt (not_halted_of_step hs) hc]
    exact hs
  obtain ⟨k, hk, hswitched⟩ := uthreadStmt_switching hstmt hsw
  replace hk := hk.unwired
  have hgoto : Wired (goto u k s) := by
    refine h.same ⟨fun _ => rfl, fun _ => rfl, fun _ => rfl, rfl, fun _ => rfl⟩ hsolid.sound
      (fun v hv => ?_) fun v _ hf => (goto_flag k s v).trans hf
    by_cases hvu : v = u
    · refine .inr (CtxWired.of_unwired ?_)
      rw [hvu, goto_ctx]
      exact hk
    · refine .inl ⟨hv, ?_⟩
      rw [goto_ut_of_ne hvu]
  refine ⟨hgoto.leave hc (fun d hd => hsolid.inv.cur_inj (b := s.board) hd hc) ?_ (fun c hctx => ?_) hswitched,
    k, hk, hswitched⟩
  · rw [goto_ctx]
    exact hk.switching
  · rw [goto_ctx] at hctx
    exact absurd hctx (hk.diskHandOff c)

/-- The first step of a thread. -/
theorem SchedStep.starts {r : Reply} (hs : SchedStep a r s s') (hpc : (s.sched a).pc = .another) :
    ∃ q, (s.sched a).p = some q ∧ s' = setPc a .top (s.setP q fun v => {v with tid := a}) := by
  cases hs with
  | goes hg =>
    rw [hpc] at hg
    cases hg
  | another _ hq => exact ⟨_, hq, rfl⟩
  | expired hpc' _ _ _ _ _ | ready hpc' _ _ | noPoll hpc' _ | polled hpc' _ _ | took hpc' _ _ _ _
  | handled hpc' _ | halted hpc' =>
    rw [hpc] at hpc'
    cases hpc'

/-- A scheduler thread that has a p and is not about to start is the one that `tid` names. -/
theorem Wired.tid_of_started (h : Wired s) {q : PId} (hq : (s.sched a).p = some q)
    (hpc : (s.sched a).pc ≠ .another) : (s.p q).tid = a :=
  (h.tid a q hq).resolve_right fun hn => hpc hn.1

/-- The scheduler goes on without taking a uthread. -/
theorem Wired.turn (h : Wired s) (hl : Local a s s') (hsig : SameSignals s s')
    (hpc : (s.sched a).pc ≠ .another) : Wired s' := by
  constructor
  · intro v hv
    rw [hsig.heap] at hv
    exact (h.ctx v hv).keep (hsig.ctx v) (fun hf => (hsig.flag v).trans hf) (fun d => by rw [hsig.cur])
      (Binds.of_eq hl.idle hl.bound)
  · intro d v hd hf
    rw [hsig.cur] at hd
    rw [hsig.flag] at hf
    rw [hsig.bound]
    exact h.bound d v hd hf
  · intro d q hq
    rw [hsig.bound] at hq
    rw [hsig.tid, hsig.cur]
    rcases h.tid d q hq with ht | ⟨hpcd, hn⟩
    · exact .inl ht
    · refine .inr ⟨(hl.pc d ?_).trans hpcd, hn⟩
      rintro rfl
      exact hpc hpcd

/-- A thread starts and tells its p. -/
theorem Wired.start (h : Wired s) (hsnd : Sound s) {q : PId} (hq : (s.sched a).p = some q) :
    Wired (setPc a .top (s.setP q fun v => {v with tid := a})) := by
  have hl : Local a s (setPc a .top (s.setP q fun v => {v with tid := a})) :=
    (Local.of_eq rfl rfl : Local a s (s.setP q fun v => {v with tid := a})).trans (Local.setPc a _ _)
  have hcur : ∀ d, ((setPc a .top (s.setP q fun v => {v with tid := a})).sched d).curUthread =
      (s.sched d).curUthread := by
    intro d
    by_cases hd : d = a
    · rw [hd]
      simp [setPc]
    · exact hl.cur d hd
  constructor
  · intro v hv
    exact (h.ctx v hv).keep rfl id (fun d => by rw [hcur]) (Binds.of_eq hl.idle hl.bound)
  · intro d v hd hf
    rw [hcur] at hd
    rw [hl.bound]
    exact h.bound d v hd hf
  · intro d q' hd
    rw [hl.bound] at hd
    left
    obtain rfl : q' = q := (hsnd.one hd).trans (hsnd.one hq).symm
    obtain rfl := hsnd.bound_inj hd hq
    unfold setPc
    rw [setSched_p, setP_p_self]

/-- A uthread is taken: its flag is set, and the thread is the one that `tid` names. -/
theorem Wired.resume (h : Wired s) {s₁ : State} {k : SchedAt} {q : PId} (hsnd : Sound s)
    (hinv' : Inv (uthreadResume a u k s₁).board) (hsig : SameSignals s s₁)
    (hl : Local a s (uthreadResume a u k s₁)) (hc : (s.sched a).curUthread = none)
    (hctx : ∀ v < s.heap, ((uthreadResume a u k s₁).ut v).ctx = (s.ut v).ctx)
    (hq : (s.sched a).p = some q) (hpc : (s.sched a).pc ≠ .another) : Wired (uthreadResume a u k s₁) := by
  have hself : ((uthreadResume a u k s₁).sched a).curUthread = some u := uthreadResume_cur a u k s₁
  have hb : Binds s (uthreadResume a u k s₁) := Binds.of_eq hl.idle hl.bound
  -- it was on no thread
  have hoff : ∀ d, (s.sched d).curUthread ≠ some u := by
    intro d hd
    have hda : d ≠ a := by
      rintro rfl
      rw [hc] at hd
      cases hd
    rw [← hl.cur d hda] at hd
    exact hda (hinv'.cur_inj hd hself)
  have hflag : ∀ v, v ≠ u → ((uthreadResume a u k s₁).ut v).isWatingYieldSignal =
      (s.ut v).isWatingYieldSignal := by
    intro v hv
    rw [uthreadResume_flag, if_neg hv, hsig.flag]
  have hcur : ∀ v, v ≠ u → ∀ d, ((uthreadResume a u k s₁).sched d).curUthread = some v ↔
      (s.sched d).curUthread = some v := by
    intro v hv d
    by_cases hd : d = a
    · rw [hd, hself, hc]
      simp [Ne.symm hv]
    · rw [hl.cur d hd]
  have hheap : (uthreadResume a u k s₁).heap = s.heap := by
    refine Eq.trans ?_ hsig.heap
    unfold uthreadResume
    dsimp only
    split <;> rfl
  constructor
  · intro v hv
    rw [hheap] at hv
    have hok := h.ctx v hv
    by_cases hvu : v = u
    · subst hvu
      constructor
      · intro hsw
        rw [hctx v hv] at hsw
        obtain ⟨-, d, hd⟩ := hok.switching hsw
        exact absurd hd (hoff d)
      · intro c hk
        rw [hctx v hv] at hk
        have hidle := (hok.diskFlag c hk).1
        refine ⟨hb.idle c hidle, fun d hd => ?_⟩
        obtain rfl : d = a := hinv'.cur_inj hd hself
        rw [hl.bound]
        cases hp : (s.sched c).p with
        | none => exact .inr rfl
        | some q' =>
          refine .inl (hsnd.bound_inj hq ?_)
          rw [hp, hsnd.one hp, hsnd.one hq]
      · intro c hk
        rw [hctx v hv] at hk
        obtain ⟨hidle, hon⟩ := hok.diskHandOff c hk
        refine ⟨hb.idle c hidle, .inl (hb.bound c hidle (hon.resolve_right fun ho => hoff c ho.1))⟩
    · exact hok.keep (hctx v hv) (fun hf => (hflag v hvu).trans hf) (hcur v hvu) hb
  · intro d v hd hf
    rw [hl.bound]
    by_cases hvu : v = u
    · rw [hvu] at hd
      rw [hinv'.cur_inj (b := (uthreadResume a u k s₁).board) hd hself, hq]
      simp
    · rw [hcur v hvu] at hd
      rw [hflag v hvu] at hf
      exact h.bound d v hd hf
  · intro d q' hd
    rw [hl.bound] at hd
    left
    obtain rfl : q' = q := (hsnd.one hd).trans (hsnd.one hq).symm
    obtain rfl := hsnd.bound_inj hd hq
    rw [(uthreadResume_p d u k s₁).1, hsig.tid]
    exact h.tid_of_started hq hpc

/-- **Every step of a scheduler keeps flags and threads in step.** -/
theorem Wired.sched (h : Wired s) (hsolid : Solid s) {r : Reply} (hcalm : Calm s (.sched a r))
    (hs : step s (.sched a r) = .ok s') : Wired s' := by
  have hinv' := (hsolid.base_step hcalm hs).inv
  have hctx : ∀ v < s.heap, (s'.ut v).ctx = (s.ut v).ctx := fun v hv =>
    (step_others hsolid.sound hs hv fun hns => absurd rfl (hns a r)).ctx
  cases step_ok hs with
  | sched hc hsched =>
    have hl := hsched.toLocal
    by_cases hpc : (s.sched a).pc = .another
    · obtain ⟨q, hq, rfl⟩ := hsched.starts hpc
      exact h.start hsolid.sound hq
    · rcases SameSignals.untimed.schedStep hsched with hsig | ⟨u, k, s₁, hsig, rfl⟩ | ⟨q, hpc', -⟩
      · exact h.turn hl hsig hpc
      · obtain ⟨⟨q, hq⟩, -⟩ := hsched.takes hc (uthreadResume_cur a u k s₁)
        exact h.resume hsolid.sound hinv' hsig hl hc hctx hq hpc
      · exact absurd hpc' hpc

theorem Wired.initial : Wired init := by
  constructor
  · intro u hu
    obtain rfl : u = 0 := Nat.lt_one_iff.mp hu
    refine CtxWired.of_unwired ?_
    show (Ctx.createAlloc 0).Unwired
    exact ⟨rfl, by simp, by simp⟩
  · intro a u hc
    rw [init_cur] at hc
    cases hc
  · intro a q hq
    left
    by_cases ha : a = 0
    · subst ha
      cases hq
      rfl
    · rw [init_sched ha] at hq
      cases hq

end Step

end UthreadRuntime
