import UthreadRuntime.Model.Threads
import UthreadRuntime.Timer.Links

/-! Whom a signal is sent to.

`tick` reads `tid` of the p of a uthread that is due, and sends the signal there if the flag of the
uthread is set. A uthread that is queued while it still runs may run on several threads at once
(`Model.Threads`). Those without a p clear its flag when they switch away, and never set it.

The uthread is the one whose record is at the address in the node. When a uthread ends its node stays,
and `calloc` may put a new record at that address: the flag of a new record is set before anybody runs
it. -/
namespace UthreadRuntime

open State

/-- The uthread on the thread of `a` has acted, and its saved context is as it was. -/
def Threads.acted (a : SId) (u : UId) (s : Threads) (t : Ticking) : Threads where
  tk := t.setCtx u (s.tk.rt.ut u).ctx
  regs := Function.update s.regs a (t.rt.ut u).ctx

/-- What an action of the threads does. -/
inductive ThreadStep (s : Threads) : TickAct → Threads → Prop where
  | sched {a : SId} {r : Reply} {t : Ticking} : TickStep s.tk (.run (.sched a r)) t →
      ThreadStep s (.run (.sched a r)) {s with tk := t}
  | call {a : SId} {c : Call} {u : UId} {t : Ticking} : (s.tk.rt.sched a).curUthread = some u →
      TickStep (s.tk.setCtx u (s.regs a)) (.run (.call a c)) t → ThreadStep s (.run (.call a c)) (s.acted a u t)
  | stmt {a : SId} {r : Reply} {u : UId} {t : Ticking} : (s.tk.rt.sched a).curUthread = some u →
      TickStep (s.tk.setCtx u (s.regs a)) (.run (.stmt a r)) t → ThreadStep s (.run (.stmt a r)) (s.acted a u t)
  | back {a : SId} {u : UId} {t : Ticking} : (s.tk.rt.sched a).curUthread = some u →
      TickStep (s.tk.setCtx u (s.regs a)) (.back a) t → ThreadStep s (.back a) (s.acted a u t)
  | enter {a : SId} {u : UId} : (s.tk.rt.sched a).curUthread = some u →
      ThreadStep s (.switch a)
        {tk := s.tk.setStage a .uthread, regs := Function.update s.regs a (s.tk.rt.ut u).ctx}
  | leave {a : SId} {u : UId} : (s.tk.rt.sched a).curUthread = some u → s.tk.stage a = .uthread →
      (s.regs a).switching = true → ThreadStep s (.switch a)
        {s with tk := (s.tk.setStage a (.leaving true)).setCtx u (s.regs a).afterSwitch}
  | deliver {a : SId} {u : UId} {t : Ticking} : (s.tk.rt.sched a).curUthread = some u →
      TickStep s.tk (.deliver a) t → ThreadStep s (.deliver a) {s with tk := t.setCtx u (s.regs a)}
  | tick {t : Ticking} : TickStep s.tk .tick t → ThreadStep s .tick {s with tk := t}

theorem Threads.onRegs_ok {s s' : Threads} {a : SId} {act : TickAct} (h : s.onRegs a act = .ok s') :
    ∃ u t, (s.tk.rt.sched a).curUthread = some u ∧ TickStep (s.tk.setCtx u (s.regs a)) act t ∧
      s' = s.acted a u t := by
  unfold Threads.onRegs at h
  split at h
  · cases h
  · rename_i u hc
    obtain ⟨t, ht, h⟩ := bind_ok h
    cases h
    exact ⟨u, t, hc, tickStep_ok ht, rfl⟩

theorem Threads.switch_ok {s s' : Threads} {a : SId} (h : s.switch a = .ok s') :
    ThreadStep s (.switch a) s' := by
  unfold Threads.switch at h
  split at h
  · cases h
  · rename_i u hc
    split at h
    · rename_i hstage
      obtain ⟨t, ht, h⟩ := bind_ok h
      cases h
      cases tickStep_ok ht with
      | enter _ _ => exact .enter hc
      | leave hst _ _ =>
        rw [hstage] at hst
        cases hst
    · rename_i hstage
      obtain ⟨t, ht, h⟩ := bind_ok h
      cases h
      cases tickStep_ok ht with
      | enter hst _ => exact absurd hst hstage
      | leave hst hc' hsw =>
        cases hc.symm.trans hc'
        have hk : (s.regs a).switching = true := by
          simpa [Ticking.setCtx] using hsw
        have hset : ((s.tk.setCtx u (s.regs a)).setStage a (.leaving true)).setCtx u (s.regs a).afterSwitch =
            (s.tk.setStage a (.leaving true)).setCtx u (s.regs a).afterSwitch := by
          simp [Ticking.setCtx, Ticking.setStage, setUt_setUt]
        rw [hset]
        exact .leave hc hst hk

theorem threadStep_ok {s s' : Threads} {act : TickAct} (h : s.act act = .ok s') : ThreadStep s act s' := by
  unfold Threads.act at h
  split at h
  · obtain ⟨t, ht, h⟩ := bind_ok h
    cases h
    exact .sched (tickStep_ok ht)
  · obtain ⟨t, ht, h⟩ := bind_ok h
    cases h
    exact .tick (tickStep_ok ht)
  · rename_i b hb
    obtain ⟨u, t, hc, hstep, rfl⟩ := Threads.onRegs_ok h
    cases b with
    | call a c => exact .call hc hstep
    | stmt a r => exact .stmt hc hstep
    | preempt a => cases hstep
    | sched a r => exact absurd rfl (hb a r)
  · exact Threads.switch_ok h
  · obtain ⟨u, t, hc, hstep, rfl⟩ := Threads.onRegs_ok h
    exact .back hc hstep
  · unfold Threads.deliver at h
    split at h
    · cases h
    · rename_i u hc
      obtain ⟨t, ht, h⟩ := bind_ok h
      cases h
      exact .deliver hc (tickStep_ok ht)

/-- The invariant of the threads. -/
structure AddressOk (b : SId) (s : Threads) : Prop where
  linked : Linked b s.tk.rt
  saved : ∀ u < s.tk.rt.heap, (s.tk.rt.ut u).ctx.Resting s.tk.rt
  regs : ∀ a u, (s.tk.rt.sched a).curUthread = some u → s.tk.stage a ≠ .entering →
    CodeOk b s.tk.rt a u (s.regs a)
  left : ∀ a u own, (s.tk.rt.sched a).curUthread = some u → s.tk.stage a = .leaving own →
    (own = true → (s.regs a).switching = true) ∧ (a = b → (s.tk.rt.ut u).isWatingYieldSignal = false)

section Threads

variable {b b' : SId} {s s' : Threads} {a : SId} {u : UId}

/-- The thread of `a` acts. Flags are set only by the thread that has the p. -/
theorem AddressOk.beside (h : AddressOk b s) (hp : Passes b b' s.tk.rt s'.tk.rt)
    (hsaved : ∀ v < s'.tk.rt.heap, (v < s.tk.rt.heap ∧ (s'.tk.rt.ut v).ctx = (s.tk.rt.ut v).ctx) ∨
      (s'.tk.rt.ut v).ctx.Resting s'.tk.rt)
    (hcur : ∀ d, d ≠ a → (s'.tk.rt.sched d).curUthread = (s.tk.rt.sched d).curUthread)
    (hstage : ∀ d, d ≠ a → s'.tk.stage d = s.tk.stage d) (hregs : ∀ d, d ≠ a → s'.regs d = s.regs d)
    (hflag : ∀ v < s.tk.rt.heap, (s.tk.rt.ut v).isWatingYieldSignal = false →
      (s'.tk.rt.ut v).isWatingYieldSignal = false ∨ a = b)
    (hown : ∀ v, (s'.tk.rt.sched a).curUthread = some v → s'.tk.stage a ≠ .entering →
      CodeOk b' s'.tk.rt a v (s'.regs a))
    (hleft : ∀ v own, (s'.tk.rt.sched a).curUthread = some v → s'.tk.stage a = .leaving own →
      (own = true → (s'.regs a).switching = true) ∧ (a = b' → (s'.tk.rt.ut v).isWatingYieldSignal = false)) :
    AddressOk b' s' := by
  -- on another thread that has the p no flag is set
  have hother : ∀ d v, d ≠ a → (s.tk.rt.sched d).curUthread = some v → d = b →
      (s.tk.rt.ut v).isWatingYieldSignal = false → (s'.tk.rt.ut v).isWatingYieldSignal = false := by
    intro d v hd hc hdb hf
    refine (hflag v (h.linked.lt_of_cur hc) hf).resolve_right fun hab => hd ?_
    rw [hdb, hab]
  constructor
  · exact hp.linked
  · intro v hv
    rcases hsaved v hv with ⟨hlt, hsame⟩ | hrest
    · rw [hsame]
      exact (h.saved v hlt).keep hp.idle
    · exact hrest
  · intro d v hc hst
    by_cases hd : d = a
    · rw [hd] at hc hst ⊢
      exact hown v hc hst
    · rw [hcur d hd] at hc
      rw [hstage d hd] at hst
      rw [hregs d hd]
      exact (h.regs d v hc hst).keep hp.idle hp.holder (h.linked.busy hc) (hother d v hd hc)
  · intro d v own hc hst
    by_cases hd : d = a
    · rw [hd] at hc hst ⊢
      exact hleft v own hc hst
    · rw [hcur d hd] at hc
      rw [hstage d hd] at hst
      rw [hregs d hd]
      obtain ⟨hsw, hf⟩ := h.left d v own hc hst
      refine ⟨hsw, fun hdb => ?_⟩
      have hdb' : d = b := by
        rw [hdb]
        exact hp.holder.resolve_right fun hn => h.linked.busy hc (hdb ▸ hn)
      exact hother d v hd hc hdb' (hf hdb')

/-- The uthread on the thread of `a` acts. -/
theorem AddressOk.acted (h : AddressOk b s) {t : Ticking} (hp : Passes b b' (goto u (s.regs a) s.tk.rt) t.rt)
    (hu : u < s.tk.rt.heap) (hctx : ∀ v < t.rt.heap, v ≠ u →
      (v < s.tk.rt.heap ∧ (t.rt.ut v).ctx = (s.tk.rt.ut v).ctx) ∨ (t.rt.ut v).ctx.Resting t.rt)
    (hcur : ∀ d, d ≠ a → (t.rt.sched d).curUthread = (s.tk.rt.sched d).curUthread)
    (hstage : ∀ d, d ≠ a → t.stage d = s.tk.stage d)
    (hflag : ∀ v < s.tk.rt.heap, (s.tk.rt.ut v).isWatingYieldSignal = false →
      (t.rt.ut v).isWatingYieldSignal = false)
    (hown : ∀ v, (t.rt.sched a).curUthread = some v → t.stage a = .uthread ∧ CodeOk b' t.rt a v (t.rt.ut u).ctx) :
    AddressOk b' (s.acted a u t) := by
  refine h.beside (a := a) ⟨hp.linked.goto u _, hp.holder, hp.idle⟩ (fun v hv => ?_) hcur hstage
    (fun d hd => Function.update_of_ne hd _ _) (fun v hv hf => .inl ?_) (fun v hc _ => ?_) fun v own hc hst => ?_
  · by_cases hvu : v = u
    · left
      rw [hvu]
      exact ⟨hu, goto_ctx _⟩
    · have hsame : ((s.acted a u t).tk.rt.ut v).ctx = (t.rt.ut v).ctx := congrArg Uthread.ctx (goto_ut_of_ne hvu)
      rw [hsame]
      exact (hctx v hv hvu).imp_right fun hr => hr.keep fun _ hc => hc
  · exact (goto_flag _ t.rt v).trans (hflag v hv hf)
  · have hregs : (s.acted a u t).regs a = (t.rt.ut u).ctx := Function.update_self _ _ _
    rw [hregs]
    exact (hown v hc).2.goto (hp.linked.busy hc) u _
  · have hst' : t.stage a = .leaving own := hst
    rw [(hown v hc).1] at hst'
    cases hst'

theorem Ctx.afterSwitch_resting {s : State} (k : Ctx) : k.afterSwitch.Resting s := by
  cases k with
  | sleep w pc =>
    cases pc with
    | switch => exact .of_plain ⟨rfl, by simp [Ctx.afterSwitch], by simp [Ctx.afterSwitch]⟩ rfl
    | _ => exact Ctx.user_resting
  | _ => exact Ctx.user_resting

/-- User code makes a call. -/
theorem AddressOk.call (h : AddressOk b s) {c : Call} {t : Ticking} (hc : (s.tk.rt.sched a).curUthread = some u)
    (hs : TickStep (s.tk.setCtx u (s.regs a)) (.run (.call a c)) t) : AddressOk b (s.acted a u t) := by
  cases hs with
  | @call _ _ rt hstage hs =>
    cases step_ok hs with
    | call hc' _ hent =>
      cases hc.symm.trans hc'
      have hent' : Entered a u (goto u (s.regs a) s.tk.rt) c rt := hent
      refine h.acted ⟨(h.linked.goto u _).enter hent', .inl rfl, fun d hd => hent'.threads.idle ▸ hd⟩
        (h.linked.lt_of_cur hc) (fun v hv hvu => .inl ⟨hent'.heap ▸ hv, ?_⟩) (fun d _ => hent'.threads.cur d)
        (fun _ _ => rfl) (fun v _ hf => ?_) fun v hv => ⟨hstage, ?_⟩
      · rw [(hent'.others hvu).ctx]
        exact congrArg Uthread.ctx (goto_ut_of_ne hvu)
      · exact (hent'.flag v).trans ((goto_flag _ _ v).trans hf)
      · show CodeOk b rt a v (rt.ut u).ctx
        rw [hent'.ctx]
        exact c.head_resting.codeOk

/-- The uthread executes a statement. -/
theorem AddressOk.stmt (h : AddressOk b s) {r : Reply} {t : Ticking} (hc : (s.tk.rt.sched a).curUthread = some u)
    (hs : TickStep (s.tk.setCtx u (s.regs a)) (.run (.stmt a r)) t) : ∃ b', AddressOk b' (s.acted a u t) := by
  cases hs with
  | @stmt _ _ _ rt hstage hc' hsw hs =>
    cases hc.symm.trans hc'
    cases step_ok hs with
    | stmt hc' hst =>
      cases hc.symm.trans hc'
      have hst' : Stmt a u r (goto u (s.regs a) s.tk.rt) rt := hst
      have hsw' : ((goto u (s.regs a) s.tk.rt).ut u).ctx.switching = false := hsw
      have hu := h.linked.lt_of_cur hc
      have hok : CodeOk b (goto u (s.regs a) s.tk.rt) a u ((goto u (s.regs a) s.tk.rt).ut u).ctx := by
        rw [goto_ctx]
        have hstage' : s.tk.stage a = .uthread := hstage
        exact (h.regs a u hc (by rw [hstage']; simp)).goto (h.linked.busy hc) u _
      have hsig := hst'.signals hc hsw'
      obtain ⟨b', hp, hok'⟩ := (h.linked.goto u _).stmt hok hc hsw' hst'
      refine ⟨b', h.acted hp hu (fun v hv hvu => ?_) (fun d _ => hsig.cur d) (fun _ _ => rfl)
        (fun v hv hf => ?_) fun v hv => ⟨hstage, ?_⟩⟩
      · rcases hst'.born hu hv with hlt | ⟨huser, -⟩
        · exact .inl ⟨hlt, (hst'.others hvu hlt).ctx.trans (congrArg Uthread.ctx (goto_ut_of_ne hvu))⟩
        · right
          have huser' : (rt.ut v).ctx = .user := huser
          show (rt.ut v).ctx.Resting rt
          rw [huser']
          exact Ctx.user_resting
      · rcases hsig.flag v hv with hsame | ⟨hfalse, -⟩
        · exact hsame.trans ((goto_flag _ _ v).trans hf)
        · exact hfalse
      · have hv' : (rt.sched a).curUthread = some v := hv
        rw [hsig.cur] at hv'
        cases hc.symm.trans hv'
        exact hok'

/-- The uthread has left. -/
theorem AddressOk.off (h : AddressOk b s) {rt : State} {k : Ctx} {own : Bool}
    (hc : (s.tk.rt.sched a).curUthread = some u) (hstage : s.tk.stage a = .leaving own)
    (hs : uthreadSwitched a u (goto u k s.tk.rt) = .ok rt) :
    AddressOk b (s.acted a u ({s.tk.setCtx u (s.regs a) with rt := rt}.setStage a .sched)) := by
  have hsig := switched_signals hs
  have hstill : Still a (goto u k s.tk.rt) rt := Still.switched hs
  have hcur : ∀ d, (rt.sched d).curUthread = if d = a then none else (s.tk.rt.sched d).curUthread :=
    fun d => (hsig.cur d).trans (idleCpu_cur d)
  have hflag : ∀ v, (rt.ut v).isWatingYieldSignal = (s.tk.rt.ut v).isWatingYieldSignal :=
    fun v => (hsig.flag v).trans (goto_flag k s.tk.rt v)
  have hl : Linked b rt := by
    refine (h.linked.goto u k).leave hc (fun hab => ?_) hs
    rw [goto_flag]
    exact (h.left a u own hc hstage).2 hab
  refine h.acted ⟨hl, .inl rfl, fun d hd => ?_⟩ (h.linked.lt_of_cur hc) (fun v hv hvu => .inl ⟨?_, ?_⟩)
    (fun d hd => (hcur d).trans (if_neg hd)) (fun d hd => Function.update_of_ne hd _ _)
    (fun v _ hf => (hflag v).trans hf) fun v hv => ?_
  · have hidle : rt.schedIdle = s.tk.rt.schedIdle := hstill.idle
    show d ∈ s.tk.rt.schedIdle
    rw [← hidle]
    exact hd
  · have hheap : rt.heap = s.tk.rt.heap := hsig.heap
    rw [← hheap]
    exact hv
  · exact (hsig.ctx v).trans (congrArg Uthread.ctx (goto_ut_of_ne hvu))
  · have hv' : (rt.sched a).curUthread = some v := hv
    rw [hcur, if_pos rfl] at hv'
    cases hv'

theorem AddressOk.back (h : AddressOk b s) {t : Ticking} (hc : (s.tk.rt.sched a).curUthread = some u)
    (hs : TickStep (s.tk.setCtx u (s.regs a)) (.back a) t) : AddressOk b (s.acted a u t) := by
  cases hs with
  | @back _ rt hstage hs =>
    have hstage' : s.tk.stage a = .leaving true := hstage
    have hs' : step (goto u (s.regs a) s.tk.rt) (.stmt a {}) = .ok rt := hs
    have hstmt : uthreadStmt a u {} (goto u (s.regs a) s.tk.rt) = .ok rt := by
      rw [← step_stmt (not_halted_of_step hs') hc]
      exact hs'
    have hsw := (h.left a u true hc hstage').1 rfl
    obtain ⟨k, -, hswitched⟩ := uthreadStmt_switching hstmt (by rw [goto_ctx]; exact hsw)
    have hgoto : goto u k (goto u (s.regs a) s.tk.rt) = goto u k s.tk.rt := setUt_setUt _ _ _ _
    rw [hgoto] at hswitched
    exact h.off hc hstage' hswitched
  | interrupted hstage hc' hs =>
    cases hc.symm.trans hc'
    exact h.off hc hstage hs

theorem AddressOk.sched (h : AddressOk b s) {r : Reply} {t : Ticking} (hs : TickStep s.tk (.run (.sched a r)) t) :
    AddressOk b {s with tk := t} := by
  have hbase : ∃ rt, step s.tk.rt (.sched a r) = .ok rt ∧ t.rt = rt ∧ (∀ d, d ≠ a → t.stage d = s.tk.stage d) ∧
      ∀ v, (rt.sched a).curUthread = some v → t.stage a = .entering := by
    cases hs with
    | sched _ hb hnone => exact ⟨_, hb, rfl, fun _ _ => rfl, fun v hv => by rw [hnone] at hv; cases hv⟩
    | resume _ hb _ =>
      exact ⟨_, hb, rfl, fun d hd => Function.update_of_ne hd _ _, fun _ _ => Function.update_self _ _ _⟩
  obtain ⟨rt, hb, hrt, hstage, hentering⟩ := hbase
  cases step_ok hb with
  | sched hc hsched =>
    obtain ⟨hlocal, hheap, -⟩ := sched_signals hsched
    have hl := h.linked.schedStep hc hsched
    rw [← hrt] at hlocal hheap hl hsched hentering
    refine h.beside (a := a) ⟨hl, .inl rfl, fun d hd => hlocal.idle ▸ hd⟩ (fun v hv => ?_) hlocal.cur hstage
      (fun _ _ => rfl) (fun v _ hf => h.linked.sched_flag hc hsched hf)
      (fun v hv hst => absurd (hentering v hv) hst) fun v own hv hst => ?_
    · rcases hsched.saved v with hsame | huser
      · exact .inl ⟨hheap ▸ hv, hsame⟩
      · right
        show (t.rt.ut v).ctx.Resting t.rt
        rw [huser]
        exact Ctx.user_resting
    · have hst' : t.stage a = .leaving own := hst
      rw [hentering v hv] at hst'
      cases hst'

/-- The saved context is loaded. -/
theorem AddressOk.enter (h : AddressOk b s) (hc : (s.tk.rt.sched a).curUthread = some u) :
    AddressOk b {tk := s.tk.setStage a .uthread, regs := Function.update s.regs a (s.tk.rt.ut u).ctx} := by
  refine h.beside (a := a) ⟨h.linked, .inl rfl, fun _ hd => hd⟩ (fun v hv => .inl ⟨hv, rfl⟩) (fun _ _ => rfl)
    (fun d hd => Function.update_of_ne hd _ _) (fun d hd => Function.update_of_ne hd _ _) (fun _ _ hf => .inl hf)
    (fun v hv _ => ?_) fun v own hv hst => ?_
  · have hregs : Function.update s.regs a (s.tk.rt.ut u).ctx a = (s.tk.rt.ut u).ctx := Function.update_self _ _ _
    dsimp only
    rw [hregs]
    exact (h.saved u (h.linked.lt_of_cur hc)).codeOk
  · have hst' : Function.update s.tk.stage a .uthread a = .leaving own := hst
    rw [Function.update_self] at hst'
    cases hst'

/-- The uthread switches away by itself. -/
theorem AddressOk.leave (h : AddressOk b s) (hc : (s.tk.rt.sched a).curUthread = some u)
    (hstage : s.tk.stage a = .uthread) (hsw : (s.regs a).switching = true) :
    AddressOk b {s with tk := (s.tk.setStage a (.leaving true)).setCtx u (s.regs a).afterSwitch} := by
  have hok := h.regs a u hc (by rw [hstage]; simp)
  have hflag : ∀ v, ((goto u (s.regs a).afterSwitch s.tk.rt).ut v).isWatingYieldSignal =
      (s.tk.rt.ut v).isWatingYieldSignal := goto_flag _ s.tk.rt
  refine h.beside (a := a) ⟨h.linked.goto u _, .inl rfl, fun _ hd => hd⟩ (fun v hv => ?_) (fun _ _ => rfl)
    (fun d hd => Function.update_of_ne hd _ _) (fun _ _ => rfl) (fun v _ hf => .inl ((hflag v).trans hf))
    (fun v hv _ => ?_) fun v own hv _ => ⟨fun _ => hsw, fun hab => ?_⟩
  · by_cases hvu : v = u
    · right
      have hctx : ((goto u (s.regs a).afterSwitch s.tk.rt).ut v).ctx = (s.regs a).afterSwitch := by
        rw [hvu]
        exact goto_ctx _
      show ((goto u (s.regs a).afterSwitch s.tk.rt).ut v).ctx.Resting _
      rw [hctx]
      exact (s.regs a).afterSwitch_resting
    · exact .inl ⟨hv, congrArg Uthread.ctx (goto_ut_of_ne hvu)⟩
  · cases hc.symm.trans hv
    exact hok.goto (h.linked.busy hc) u _
  · cases hc.symm.trans hv
    exact (hflag u).trans (hok.switching hsw hab)

/-- The uthread is preempted in its own function. -/
theorem AddressOk.deliver (h : AddressOk b s) {t : Ticking} (hc : (s.tk.rt.sched a).curUthread = some u)
    (hbody : s.regs a = .user) (hs : TickStep s.tk (.deliver a) t) :
    AddressOk b {s with tk := t.setCtx u (s.regs a)} := by
  have huser : ∀ s₀ : State, (s.regs a).Resting s₀ := by
    intro s₀
    rw [hbody]
    exact Ctx.user_resting
  cases hs with
  | deliver _ _ hc' =>
    cases hc.symm.trans hc'
    have hself : ((s.tk.rt.setUt u fun v => {v with isWatingYieldSignal := false}).ut u).isWatingYieldSignal =
        false := by rw [setUt_ut_self]
    have hfade : ∀ v, (s.tk.rt.ut v).isWatingYieldSignal = false →
        ((s.tk.rt.setUt u fun v => {v with isWatingYieldSignal := false}).ut v).isWatingYieldSignal = false := by
      intro v hf
      rw [setUt_ut]
      split
      · rfl
      · exact hf
    have hl : Linked b (s.tk.rt.setUt u fun v => {v with isWatingYieldSignal := false}) := by
      refine h.linked.quiet ((Kept.refl s.tk.rt).setUt_same rfl rfl)
        ⟨fun _ => rfl, fun _ => rfl, fun _ => rfl, rfl, fun _ => rfl⟩ (fun v _ hf => ?_) fun pos n hn => ⟨n, hn, rfl⟩
      by_contra hn
      rw [hfade v (by simpa using hn)] at hf
      cases hf
    refine h.beside (a := a) ⟨hl.goto u _, .inl rfl, fun _ hd => hd⟩ (fun v hv => ?_) (fun _ _ => rfl)
      (fun d hd => Function.update_of_ne hd _ _) (fun _ _ => rfl)
      (fun v _ hf => .inl ((goto_flag _ _ v).trans (hfade v hf))) (fun v hv _ => (huser _).codeOk)
      fun v own hv hst => ⟨fun hown => ?_, fun _ => ?_⟩
    · by_cases hvu : v = u
      · right
        subst hvu
        show ((goto v (s.regs a) _).ut v).ctx.Resting _
        rw [goto_ctx]
        exact huser _
      · refine .inl ⟨hv, ?_⟩
        have hkeep : ((s.tk.rt.setUt u fun v => {v with isWatingYieldSignal := false}).ut v).ctx =
            (s.tk.rt.ut v).ctx := setUt_keeps Uthread.ctx rfl v
        exact (congrArg Uthread.ctx (goto_ut_of_ne hvu)).trans hkeep
    · have hst' : Function.update s.tk.stage a (.leaving false) a = .leaving own := hst
      rw [Function.update_self, hown] at hst'
      cases hst'
    · cases hc.symm.trans hv
      exact (goto_flag _ _ u).trans hself

theorem AddressOk.tick (h : AddressOk b s) {t : Ticking} (hs : TickStep s.tk .tick t) :
    AddressOk b {s with tk := t} := by
  cases hs with
  | tick _ =>
    have hl : Linked b {s.tk.rt with timer := s.tk.rt.timer.turned} :=
      h.linked.quiet (.of_eq rfl rfl rfl rfl) ⟨fun _ => rfl, fun _ => rfl, fun _ => rfl, rfl, fun _ => rfl⟩
        (fun _ _ hf => hf) fun _ _ hn => mem_of_turned hn
    exact ⟨hl, fun v hv => (h.saved v hv).keep fun _ hd => hd, fun d v hc hst =>
      (h.regs d v hc hst).keep (fun _ hd => hd) (.inl rfl) (h.linked.busy hc) fun _ hf => hf, h.left⟩

/-- **Every action of the threads leaves one sched with the p.** -/
theorem AddressOk.act (h : AddressOk b s) {act : TickAct} (hbody : InBody s act) (hs : ThreadStep s act s') :
    ∃ b', AddressOk b' s' := by
  cases hs with
  | sched ht => exact ⟨b, h.sched ht⟩
  | call hc ht => exact ⟨b, h.call hc ht⟩
  | stmt hc ht => exact h.stmt hc ht
  | back hc ht => exact ⟨b, h.back hc ht⟩
  | enter hc => exact ⟨b, h.enter hc⟩
  | leave hc hstage hsw => exact ⟨b, h.leave hc hstage hsw⟩
  | deliver hc ht => exact ⟨b, h.deliver hc (hbody _ rfl) ht⟩
  | tick ht => exact ⟨b, h.tick ht⟩

theorem AddressOk.initial : AddressOk 0 {} := by
  refine ⟨Linked.initial, fun u hu => ?_, fun a u hc => ?_, fun a u own hc => ?_⟩
  · obtain rfl : u = 0 := Nat.lt_one_iff.mp hu
    show (Ctx.createAlloc 0).Resting init
    refine ⟨⟨rfl, by simp, by simp⟩, fun c hc => ?_, by simp⟩
    cases hc
    decide
  · have hc' : (init.sched a).curUthread = some u := hc
    rw [init_cur] at hc'
    cases hc'
  · have hc' : (init.sched a).curUthread = some u := hc
    rw [init_cur] at hc'
    cases hc'

end Threads

/-! ### The record of a new uthread -/

/-- Where a record is put there is no node of the wheel left. -/
def NodesGone (addr : UId → Addr) (s : Threads) (act : TickAct) : Prop :=
  s.creates act = true → ∀ pos, ∀ n ∈ s.tk.rt.timer.slot pos, addr n.ut ≠ addr s.tk.rt.heap

/-- Nor is it put where that of a running uthread is. -/
def OffThreads (addr : UId → Addr) (s : Threads) (act : TickAct) : Prop :=
  s.creates act = true → ∀ a u, (s.tk.rt.sched a).curUthread = some u → addr u ≠ addr s.tk.rt.heap

section Readdress

variable {b : SId} {f : UId → UId} {s : State} {a : SId} {u : UId}

theorem newRecord_of_ne {addr : UId → Addr} {n : UId} (hu : addr u ≠ addr n) : newRecord addr n u = u :=
  if_neg hu

theorem newRecord_le {addr : UId → Addr} {n : UId} (hu : u ≤ n) : newRecord addr n u ≤ n := by
  unfold newRecord
  split
  · exact Nat.le_refl n
  · exact hu

@[simp] theorem Ctx.createsOn_readdress (k : Ctx) : (k.readdress f).createsOn = k.createsOn := by
  cases k with
  | sleep w pc => cases w <;> rfl
  | _ => rfl

@[simp] theorem Ctx.switching_readdress (k : Ctx) : (k.readdress f).switching = k.switching := by
  cases k with
  | sleep w pc => cases w <;> cases pc <;> rfl
  | _ => rfl

/-- A context without a pointer is the one it is taken for. -/
theorem Ctx.readdress_eq {k k' : Ctx} (hjoin : ∀ t v pc, k' ≠ .join t v pc)
    (hsleep : ∀ t v pc, k' ≠ .sleep (.join t v) pc) : k.readdress f = k' ↔ k = k' := by
  unfold Ctx.readdress
  split
  · exact iff_of_false (hjoin _ _ _).symm fun h => hjoin _ _ _ h.symm
  · exact iff_of_false (hsleep _ _ _).symm fun h => hsleep _ _ _ h.symm
  · exact Iff.rfl

@[simp] theorem Ctx.readdress_eq_create {k : Ctx} {c : SId} {pc : CreateAt} :
    k.readdress f = .create c pc ↔ k = .create c pc := readdress_eq nofun nofun

@[simp] theorem Ctx.readdress_eq_diskFlag {k : Ctx} {c : SId} : k.readdress f = .diskFlag c ↔ k = .diskFlag c :=
  readdress_eq nofun nofun

@[simp] theorem Ctx.readdress_eq_diskHandOff {k : Ctx} {c : SId} :
    k.readdress f = .diskHandOff c ↔ k = .diskHandOff c := readdress_eq nofun nofun

theorem State.readdress_points (h : (s.readdress f).Points u) : ∃ v, s.Points v ∧ f v = u := by
  rcases h with ⟨a, hc⟩ | ⟨q, hq⟩ | ⟨t, ht⟩
  · obtain ⟨v, hv, hu⟩ := Option.map_eq_some_iff.mp hc
    exact ⟨v, .inl ⟨a, hv⟩, hu⟩
  · have hmem : ∃ v, (v ∈ (s.p q).ready ∨ v ∈ (s.p q).sleeping ∨ v ∈ (s.p q).waiting) ∧ f v = u := by
      rcases hq with hr | hr | hr
      · obtain ⟨v, hv, hu⟩ := List.mem_map.mp hr
        exact ⟨v, .inl hv, hu⟩
      · obtain ⟨v, hv, hu⟩ := List.mem_map.mp hr
        exact ⟨v, .inr (.inl hv), hu⟩
      · obtain ⟨v, hv, hu⟩ := List.mem_map.mp hr
        exact ⟨v, .inr (.inr hv), hu⟩
    obtain ⟨v, hv, hu⟩ := hmem
    exact ⟨v, .inr (.inl ⟨q, hv⟩), hu⟩
  · obtain ⟨v, hv, hu⟩ := Option.map_eq_some_iff.mp ht
    exact ⟨v, .inr (.inr ⟨t, hv⟩), hu⟩

theorem State.mem_readdress {pos : Nat} {m : TimerNode} (hm : m ∈ (s.readdress f).timer.slot pos) :
    ∃ n ∈ s.timer.slot pos, m = {n with ut := f n.ut} := by
  obtain ⟨n, hn, rfl⟩ := List.mem_map.mp hm
  exact ⟨n, hn, rfl⟩

/-- Neither the wheel nor a sched refers to a record that is taken over. -/
theorem Linked.readdress (h : Linked b s) (hlt : ∀ v < s.heap, f v < s.heap)
    (hcur : ∀ a, (s.sched a).curUthread.map f = (s.sched a).curUthread)
    (hnode : ∀ pos, ∀ n ∈ s.timer.slot pos, f n.ut = n.ut) : Linked b (s.readdress f) := by
  constructor
  · intro u hu
    obtain ⟨v, hv, rfl⟩ := State.readdress_points hu
    exact hlt v (h.points v hv)
  · exact h.home
  · intro c hc
    obtain ⟨hne, hnone⟩ := h.idle c hc
    refine ⟨hne, ?_⟩
    show (s.sched c).curUthread.map f = none
    rw [hnone]
    rfl
  · exact h.nodup
  · exact h.bound
  · exact h.sched
  · refine h.tid.imp_right fun ⟨hpc, hnone⟩ => ⟨?_, ?_⟩
    · show (s.sched b).pc.readdress f = .another
      rw [hpc]
      rfl
    · show (s.sched b).curUthread.map f = none
      rw [hnone]
      rfl
  · intro pos m hm
    obtain ⟨n, hn, rfl⟩ := State.mem_readdress hm
    exact hlt n.ut (h.node_lt pos n hn)
  · intro pos m hm hf
    obtain ⟨n, hn, rfl⟩ := State.mem_readdress hm
    dsimp only at hf ⊢
    rw [hnode pos n hn] at hf ⊢
    exact (hcur b).trans (h.node pos n hn hf)

theorem Ctx.Resting.readdress {k : Ctx} (h : k.Resting s) : (k.readdress f).Resting (s.readdress f) := by
  refine ⟨⟨k.switching_readdress.trans h.unwired.switching, fun c hk => ?_, fun c hk => ?_⟩, fun c hc => ?_,
    fun c id p hk => ?_⟩
  · exact h.unwired.diskFlag c (Ctx.readdress_eq_diskFlag.mp hk)
  · exact h.unwired.diskHandOff c (Ctx.readdress_eq_diskHandOff.mp hk)
  · exact h.creates c (k.createsOn_readdress.symm.trans hc)
  · exact h.inserts c id p (Ctx.readdress_eq_create.mp hk)

theorem CodeOk.readdress {k : Ctx} (h : CodeOk b s a u k) : CodeOk b (s.readdress f) a u (k.readdress f) := by
  constructor
  · exact fun c hc => h.creates c (k.createsOn_readdress.symm.trans hc)
  · exact fun c id p hk => h.inserts c id p (Ctx.readdress_eq_create.mp hk)
  · exact fun c hk => h.diskFlag c (Ctx.readdress_eq_diskFlag.mp hk)
  · exact fun c hk => h.diskHandOff c (Ctx.readdress_eq_diskHandOff.mp hk)
  · exact fun hk => h.switching (k.switching_readdress.symm.trans hk)

theorem AddressOk.readdress {s : Threads} (h : AddressOk b s) (hlt : ∀ v < s.tk.rt.heap, f v < s.tk.rt.heap)
    (hcur : ∀ a, (s.tk.rt.sched a).curUthread.map f = (s.tk.rt.sched a).curUthread)
    (hnode : ∀ pos, ∀ n ∈ s.tk.rt.timer.slot pos, f n.ut = n.ut) : AddressOk b (s.readdress f) := by
  refine ⟨h.linked.readdress hlt hcur hnode, fun u hu => (h.saved u hu).readdress, fun a u hc hstage => ?_,
    fun a u own hc hstage => ?_⟩
  · exact (h.regs a u ((hcur a).symm.trans hc) hstage).readdress
  · obtain ⟨hsw, hflag⟩ := h.left a u own ((hcur a).symm.trans hc) hstage
    exact ⟨fun hown => (s.regs a).switching_readdress.trans (hsw hown), hflag⟩

end Readdress

/-- What the last statement of `uthread_create` does. -/
structure Creates (s s' : State) : Prop where
  heap : s'.heap = s.heap + 1
  timer : s'.timer = s.timer
  cur : ∀ a, (s'.sched a).curUthread = (s.sched a).curUthread
  live : (s'.ut s.heap).life = .live
  flag : (s'.ut s.heap).isWatingYieldSignal = true

section Threads

variable {b : SId} {addr : UId → Addr} {s s' : Threads} {act : TickAct}

theorem creates_created {a : SId} {u : UId} {q : PId} {id : Nat} {p : Option PId} (s : State) :
    Creates s (returns a u 0 (created q id p s)) := by
  have hlife : ((returns a u 0 (created q id p s)).ut s.heap).life = ((created q id p s).ut s.heap).life :=
    setUt_keeps Uthread.life rfl s.heap
  have hnew : (created q id p s).ut s.heap =
      {id := id, status := .only .new, p := p, fdWait := -1, isWatingYieldSignal := true, life := .live} :=
    Function.update_self _ _ _
  refine ⟨rfl, rfl, fun _ => rfl, ?_, ?_⟩
  · rw [hlife, hnew]
  · rw [returns_flag, hnew]

theorem ThreadStep.creates (h : AddressOk b s) (hs : ThreadStep s act s') (hc : s.creates act = true) :
    Creates s.tk.rt s'.tk.rt := by
  cases hs with
  | @stmt a r u t hcur ht =>
    cases ht with
    | @stmt _ _ _ rt _ hcur' _ hb =>
      cases hcur.symm.trans hcur'
      obtain ⟨c, id, p, hregs⟩ : ∃ c id p, s.regs a = .create c (.insert id p) := by
        simp only [Threads.creates, hcur] at hc
        split at hc
        · rename_i hk
          exact ⟨_, _, _, hk⟩
        · cases hc
      have hb' : step (goto u (s.regs a) s.tk.rt) (.stmt a r) = .ok rt := hb
      have hstmt : createStmt a u c (.insert id p) r (goto u (s.regs a) s.tk.rt) = .ok rt := by
        rw [step_stmt (not_halted_of_step hb') hcur] at hb'
        unfold uthreadStmt at hb'
        rw [goto_ctx, hregs] at hb'
        rw [hregs]
        exact hb'
      have hne : s.tk.rt.heap ≠ u := Nat.ne_of_gt (h.linked.lt_of_cur hcur)
      obtain ⟨q, -, hcreated⟩ := bind_ok hstmt
      cases hcreated
      have hrt : Creates (goto u (s.regs a) s.tk.rt) (returns a u 0 (created q id p (goto u (s.regs a) s.tk.rt))) :=
        creates_created _
      refine ⟨hrt.heap, hrt.timer, hrt.cur, ?_, ?_⟩
      · exact (congrArg Uthread.life (goto_ut_of_ne hne)).trans hrt.live
      · exact (congrArg Uthread.isWatingYieldSignal (goto_ut_of_ne hne)).trans hrt.flag
  | _ => cases hc

/-- **Every action leaves one sched with the p**, also one that puts a record where another was. -/
theorem AddressOk.step (h : AddressOk b s) (hbody : InBody s act) (hoff : OffThreads addr s act)
    (hgone : NodesGone addr s act) (hs : s.step addr act = .ok s') : ∃ b', AddressOk b' s' := by
  unfold Threads.step at hs
  obtain ⟨s₁, hact, hs⟩ := bind_ok hs
  cases hs
  have hstep := threadStep_ok hact
  obtain ⟨b', hok⟩ := h.act hbody hstep
  split
  · rename_i hcreates
    have hnew := hstep.creates h hcreates
    refine ⟨b', hok.readdress (fun v hv => ?_) (fun a => ?_) fun pos n hn => ?_⟩
    · rw [hnew.heap] at hv ⊢
      exact Nat.lt_succ_of_le (newRecord_le (Nat.lt_succ_iff.mp hv))
    · rw [hnew.cur]
      cases hc : (s.tk.rt.sched a).curUthread with
      | none => rfl
      | some u => exact congrArg some (newRecord_of_ne (hoff hcreates a u hc))
    · rw [hnew.timer] at hn
      exact newRecord_of_ne (hgone hcreates pos n hn)
  · exact ⟨b', hok⟩

theorem AddressOk.of_reaches
    (h : Threads.Reaches addr (fun s act => InBody s act ∧ OffThreads addr s act ∧ NodesGone addr s act) s) :
    ∃ b, AddressOk b s := by
  refine Run.Reaches.invariant (I := fun s => ∃ b, AddressOk b s) h ⟨0, AddressOk.initial⟩ ?_
  rintro s act s' ⟨b, hok⟩ ⟨hbody, hoff, hgone⟩ hs
  exact hok.step hbody hoff hgone hs

end Threads

/-! ### What the timer reads -/

/-- `p_idle`, from `_runtime_init` on: no p is taken out of it or put back. -/
def pIdle : List PId := (List.range maxProcs).tail

/-- Scheds and p's refer to each other, and a live uthread that has a node and whose flag is set runs
on the sched of its p, on the thread that `tid` of its p names: there `tick` sends the signal. -/
structure Addressed (s : Threads) : Prop where
  mirror : ∀ a q, (s.tk.rt.sched a).p = some q ↔ (s.tk.rt.p q).sched = some a
  bound : ∀ q < maxProcs, q ∉ pIdle → ∃! a, (s.tk.rt.sched a).p = some q
  node : ∀ pos n, n ∈ s.tk.rt.timer.slot pos → (s.tk.rt.ut n.ut).life = .live →
    (s.tk.rt.ut n.ut).isWatingYieldSignal = true →
    ∃ q a, (s.tk.rt.ut n.ut).p = some q ∧ (s.tk.rt.p q).sched = some a ∧
      (s.tk.rt.sched a).curUthread = some n.ut ∧ (s.tk.rt.p q).tid = a
  sends : ∀ s', s.act .tick = .ok s' → ∀ a, ∃ sent, s'.tk.pending a = s.tk.pending a ++ sent ∧
    ∀ u ∈ sent, (s.tk.rt.ut u).life = .live → (s.tk.rt.sched a).curUthread = some u

section Addressed

variable {b : SId} {s : State}

theorem Linked.mirror (h : Linked b s) (a : SId) (q : PId) :
    (s.sched a).p = some q ↔ (s.p q).sched = some a := by
  rw [h.bound, h.sched]
  constructor
  · intro hq
    split at hq
    · rename_i hab
      cases hq
      rw [if_pos rfl, hab]
    · cases hq
  · intro ha
    split at ha
    · rename_i hq
      cases ha
      rw [if_pos rfl, hq]
    · cases ha

/-- The p that has been taken out of `p_idle`. -/
theorem eq_zero_of_not_idle {q : PId} (hq : q < maxProcs) (hidle : q ∉ pIdle) : q = 0 := by
  have hall : ∀ q < maxProcs, q ∉ pIdle → q = 0 := by decide
  exact hall q hq hidle

theorem Linked.existsUnique_bound (h : Linked b s) : ∃! a, (s.sched a).p = some 0 := by
  refine ⟨b, ?_, fun a ha => (h.has_p ha).1⟩
  show (s.sched b).p = some 0
  rw [h.bound, if_pos rfl]

/-- A uthread that has a node and whose flag is set runs on the thread that `tid` names. -/
theorem Linked.aimed (h : Linked b s) {pos : Nat} {n : TimerNode} (hn : n ∈ s.timer.slot pos)
    (hf : (s.ut n.ut).isWatingYieldSignal = true) :
    (s.ut n.ut).p = some 0 ∧ (s.p 0).sched = some b ∧ (s.sched b).curUthread = some n.ut ∧ (s.p 0).tid = b := by
  have hon := h.node pos n hn hf
  refine ⟨h.home n.ut (h.node_lt pos n hn), by rw [h.sched, if_pos rfl], hon, ?_⟩
  refine h.tid.resolve_right fun hstart => ?_
  rw [hstart.2] at hon
  cases hon

end Addressed

theorem AddressOk.addressed {b : SId} {s : Threads} (h : AddressOk b s) : Addressed s := by
  have hl := h.linked
  refine ⟨hl.mirror, fun q hq hidle => ?_, fun pos n hn _ hf => ⟨0, b, hl.aimed hn hf⟩, ?_⟩
  · rw [eq_zero_of_not_idle hq hidle]
    exact hl.existsUnique_bound
  · intro s' hs a
    cases threadStep_ok hs with
    | tick ht =>
      cases ht with
      | tick hnodes =>
        obtain ⟨sent, hsent, hall⟩ := tickNodes_appends hnodes a
        refine ⟨sent, hsent, fun u hu _ => ?_⟩
        obtain ⟨hdue, hf, q, hq, rfl⟩ := hall u hu
        obtain ⟨n, hn, rfl⟩ := mem_of_tickSlot_due hdue
        obtain ⟨hhome, -, hon, htid⟩ := hl.aimed hn hf
        cases hq.symm.trans hhome
        rw [htid]
        exact hon

/-- A node that refers to a new uthread, which has not run. -/
theorem not_addressed_of_node {b : SId} {addr : UId → Addr} {s s' : Threads} {act : TickAct} (h : AddressOk b s)
    (hoff : OffThreads addr s act) (hcreates : s.creates act = true) (hs : s.step addr act = .ok s') {pos : Nat}
    {n : TimerNode} (hn : n ∈ s.tk.rt.timer.slot pos) (ha : addr n.ut = addr s.tk.rt.heap) : ¬Addressed s' := by
  unfold Threads.step at hs
  obtain ⟨s₁, hact, hs⟩ := bind_ok hs
  cases hs
  rw [if_pos hcreates]
  have hnew := (threadStep_ok hact).creates h hcreates
  intro haddr
  have hmem : (⟨n.rotation, s.tk.rt.heap⟩ : TimerNode) ∈
      (s₁.readdress (newRecord addr s.tk.rt.heap)).tk.rt.timer.slot pos := by
    refine List.mem_map.mpr ⟨n, hnew.timer ▸ hn, ?_⟩
    rw [newRecord, if_pos ha]
  obtain ⟨q, a, -, -, hcur, -⟩ := haddr.node pos _ hmem hnew.live hnew.flag
  -- it is on no sched
  obtain ⟨u, hu, hto⟩ := Option.map_eq_some_iff.mp hcur
  rw [hnew.cur] at hu
  rw [newRecord_of_ne (hoff hcreates a u hu)] at hto
  exact Nat.ne_of_lt (h.linked.lt_of_cur hu) hto

/-- **Binding and addressing stay consistent**, in every run in which uthreads are preempted only
inside their own functions, exactly as long as no record is put where a node of the wheel still
refers to. The p that is in use is bound to one sched at a time, and a signal goes to the thread that
runs the uthread it is for. A record that is put there breaks it at once. -/
theorem addressed_iff {addr : UId → Addr} {s : Threads}
    (h : Threads.Reaches addr (fun s act => InBody s act ∧ OffThreads addr s act ∧ NodesGone addr s act) s) :
    Addressed s ∧ ∀ act s', InBody s act → OffThreads addr s act → s.step addr act = .ok s' →
      (Addressed s' ↔ NodesGone addr s act) := by
  obtain ⟨b, hok⟩ := AddressOk.of_reaches h
  refine ⟨hok.addressed, fun act s' hbody hoff hs => ⟨fun haddr hcreates pos n hn ha => ?_, fun hgone => ?_⟩⟩
  · exact not_addressed_of_node hok hoff hcreates hs hn ha haddr
  · obtain ⟨b', hok'⟩ := hok.step hbody hoff hgone hs
    exact hok'.addressed

def inBodyCheck (s : Threads) : TickAct → Bool
  | .deliver a => decide (s.regs a = .user)
  | _ => true

theorem inBody_of_check {s : Threads} {act : TickAct} (h : inBodyCheck s act = true) : InBody s act := by
  rintro a rfl
  exact of_decide_eq_true h

/-- The third record is put where the second was. -/
def secondAgain (u : UId) : Addr := if u = 2 then 1 else u

/-- The second record is the only one that is put anywhere. -/
theorem kept_of_first {addr : UId → Addr} {b : SId} {s : Threads} {act : TickAct} (h : AddressOk b s)
    (haddr : addr 0 ≠ addr 1) (hfirst : (!s.creates act || s.tk.rt.heap == 1) = true) :
    OffThreads addr s act ∧ NodesGone addr s act := by
  have hold : s.creates act = true → ∀ u < s.tk.rt.heap, addr u ≠ addr s.tk.rt.heap := by
    intro hcreates u hu
    simp only [hcreates, Bool.not_true, Bool.false_or, beq_iff_eq] at hfirst
    rw [hfirst] at hu ⊢
    rw [Nat.lt_one_iff.mp hu]
    exact haddr
  exact ⟨fun hc a u hu => hold hc u (h.linked.lt_of_cur hu),
    fun hc pos n hn => hold hc n.ut (h.linked.node_lt pos n hn)⟩

/-- Main hands its p off, and the uthread it has created runs on the new thread. It is preempted
there, and resumed. -/
def handedOffPreempted : List TickAct :=
  tickingBoot ++ runs (calls 0 .disk 3) ++ runs (scheds 1 5) ++ [.switch 1, .tick, .tick, .deliver 1, .back 1] ++
    runs (scheds 1 8) ++ [.switch 1, .tick]

/-- The next tick sends its signal to the new thread, while main is still in its disk call. -/
theorem handedOff_addressed : ∃ s, s.tk.rt.timer.slot 3 = [⟨0, 1⟩] ∧ (s.tk.rt.ut 1).life = .live ∧
    (s.tk.rt.ut 1).isWatingYieldSignal = true ∧ s.regs 0 = .diskCall ∧ (s.tk.rt.p 0).tid = 1 ∧
    (s.tk.rt.sched 1).curUthread = some 1 ∧ Addressed s ∧ ∀ act s', InBody s act → OffThreads secondAgain s act →
      s.step secondAgain act = .ok s' → (Addressed s' ↔ NodesGone secondAgain s act) := by
  have hread : (Run.checked (Threads.step secondAgain)
      (fun s act => inBodyCheck s act && (!s.creates act || s.tk.rt.heap == 1)) {} handedOffPreempted).map (fun s =>
        (decide (s.tk.rt.timer.slot 3 = [⟨0, 1⟩] ∧ (s.tk.rt.ut 1).life = .live),
          decide ((s.tk.rt.ut 1).isWatingYieldSignal = true ∧ s.regs 0 = .diskCall),
          decide ((s.tk.rt.p 0).tid = 1 ∧ (s.tk.rt.sched 1).curUthread = some 1))) =
      some (true, true, true) := by decide +kernel
  obtain ⟨s, hs, hread⟩ := Option.map_eq_some_iff.mp hread
  simp only [Prod.mk.injEq, decide_eq_true_eq] at hread
  obtain ⟨⟨hslot, hlive⟩, ⟨hf, hregs⟩, htid, hcur⟩ := hread
  have hreach : Threads.Reaches secondAgain
      (fun s act => InBody s act ∧ OffThreads secondAgain s act ∧ NodesGone secondAgain s act) s := by
    refine Run.reaches_of_checked (I := fun s => ∃ b, AddressOk b s) hs ⟨0, AddressOk.initial⟩ ?_ ?_
    · rintro s act s' ⟨b, hok⟩ ⟨hbody, hoff, hgone⟩ hs
      exact hok.step hbody hoff hgone hs
    · rintro s act ⟨b, hok⟩ hcheck
      obtain ⟨hbody, hfirst⟩ := Bool.and_eq_true_iff.mp hcheck
      exact ⟨inBody_of_check hbody, kept_of_first hok (by decide) hfirst⟩
  exact ⟨s, hslot, hlive, hf, hregs, htid, hcur, addressed_iff hreach⟩

/-- The uthread that main has created ends, before any tick, and main goes on. -/
def endsBeforeTick : List TickAct := tickingCreatedRuns ++ callsOff 0 .finish 2 ++ runs (scheds 0 2) ++ [.switch 0]

/-- Main creates another one, whose record is put where the freed one was. The node of the uthread that
ended refers to the new one, which has not run, and the second tick sends main a signal for it. -/
theorem reusedRecord_signals_another : ∃ s₀ s s', Threads.Reaches secondAgain InBody s₀ ∧
    (s₀.tk.rt.ut 1).life = .freed ∧ s₀.regs 0 = .user ∧
    Run.run (Threads.step secondAgain) s₀ (runs (calls 0 .create 8)) = .ok s ∧ ⟨0, 2⟩ ∈ s.tk.rt.timer.slot 1 ∧
    (s.tk.rt.ut 2).life = .live ∧ (s.tk.rt.ut 2).isWatingYieldSignal = true ∧ ¬Addressed s ∧
    Run.run (Threads.step secondAgain) s [.tick, .tick] = .ok s' ∧ 2 ∈ s'.tk.pending 0 ∧
    (s'.tk.rt.sched 0).curUthread = some 0 := by
  have hread : (Run.checked (Threads.step secondAgain) inBodyCheck {} endsBeforeTick).bind (fun s₀ =>
      (Run.run (Threads.step secondAgain) s₀ (runs (calls 0 .create 8))).toOption.bind fun s =>
        (Run.run (Threads.step secondAgain) s [.tick, .tick]).toOption.map fun s' =>
          (decide ((s₀.tk.rt.ut 1).life = .freed ∧ s₀.regs 0 = .user),
            decide (⟨0, 2⟩ ∈ s.tk.rt.timer.slot 1 ∧ (s.tk.rt.ut 2).life = .live ∧
              (s.tk.rt.ut 2).isWatingYieldSignal = true),
            decide ((s.tk.rt.ut 2).p = some 0 ∧ (s.tk.rt.p 0).sched = some 0 ∧
              (s.tk.rt.sched 0).curUthread = some 0),
            decide (2 ∈ s'.tk.pending 0 ∧ (s'.tk.rt.sched 0).curUthread = some 0))) =
      some (true, true, true, true) := by decide +kernel
  obtain ⟨s₀, hs₀, hread⟩ := Option.bind_eq_some_iff.mp hread
  obtain ⟨s, hs, hread⟩ := Option.bind_eq_some_iff.mp hread
  obtain ⟨s', hs', hread⟩ := Option.map_eq_some_iff.mp hread
  simp only [Prod.mk.injEq, decide_eq_true_eq] at hread
  obtain ⟨⟨hfreed, hregs⟩, ⟨hnode, hlive, hf⟩, ⟨hp, hsched, hcur⟩, hsent, hcur'⟩ := hread
  have hreach : Threads.Reaches secondAgain InBody s₀ := Run.reaches_of_checked (I := fun _ => True) hs₀ trivial
    (fun _ _ _ _ _ _ => trivial) fun _ _ _ => inBody_of_check
  refine ⟨s₀, s, s', hreach, hfreed, hregs, ok_of_toOption hs, hnode, hlive, hf, fun haddr => ?_,
    ok_of_toOption hs', hsent, hcur'⟩
  obtain ⟨q, a, hq, ha, hon, -⟩ := haddr.node 1 _ hnode hlive hf
  cases hp.symm.trans hq
  cases hsched.symm.trans ha
  cases hcur.symm.trans hon

end UthreadRuntime
