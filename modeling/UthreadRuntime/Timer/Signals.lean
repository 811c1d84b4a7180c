import UthreadRuntime.Timer.Wheel
import UthreadRuntime.Timer.Wiring

/-! Whom a signal hits.

`tick` tests the flag of a uthread and sends the signal; between the two and the delivery
the receiver may clear its flag and switch away, and `_uthread_resume` sets the flag while it
is still in scheduler code. Where neither happens, the handler runs on the stack of the
uthread the signal was sent for. -/
namespace UthreadRuntime

open State Placement

/-- Where a thread is and what is pending for it. -/
inductive ThreadOk (s : State) (a : SId) (pending : List UId) : Stage → Prop where
  | sched : (s.sched a).curUthread = none → pending = [] → ThreadOk s a pending .sched
  | entering {u : UId} : (s.sched a).curUthread = some u → pending = [] → ThreadOk s a pending .entering
  | uthread {u : UId} : (s.sched a).curUthread = some u →
      (∀ v ∈ pending, v = u ∧ (s.ut u).isWatingYieldSignal = true) → ThreadOk s a pending .uthread
  | left {u : UId} : (s.sched a).curUthread = some u → pending = [] →
      (s.ut u).isWatingYieldSignal = false → (s.ut u).ctx.switching = true →
      ThreadOk s a pending (.leaving true)
  | cut {u : UId} : (s.sched a).curUthread = some u → pending = [] →
      (s.ut u).isWatingYieldSignal = false → (s.ut u).ctx.switching = false →
      (∀ c, (s.ut u).ctx = .diskHandOff c → (s.sched c).p = none) → ThreadOk s a pending (.leaving false)

/-- The signals in flight are for whom they will hit. -/
structure SignalsOk (s : Ticking) : Prop where
  solid : Solid s.rt
  wired : Wired s.rt
  thread : ∀ a, ThreadOk s.rt a (s.pending a) (s.stage a)
  node_lt : ∀ pos n, n ∈ s.rt.timer.slot pos → n.ut < s.rt.heap
  node : ∀ pos n, n ∈ s.rt.timer.slot pos → (s.rt.ut n.ut).isWatingYieldSignal = true →
    ∃ a, (s.rt.sched a).curUthread = some n.ut ∧ ∀ b, s.stage a ≠ .leaving b

/-- What the signals need to hit whom they were sent for. -/
structure Settled (s : Ticking) (act : TickAct) : Prop where
  calm : CalmTick s act
  /-- A uthread's flag is cleared only while no signal is in flight to its thread. -/
  cleared : ∀ a r u b, act = .run (.stmt a r) → (s.rt.sched a).curUthread = some u →
    (s.rt.ut u).ctx.clears a = some b → s.pending b = []
  /-- A uthread that is due is not one whose `_uthread_resume` has still to switch. -/
  entered : ∀ a u, act = .tick → s.stage a = .entering → (s.rt.sched a).curUthread = some u →
    (s.rt.ut u).isWatingYieldSignal = true → u ∉ s.rt.timer.due

section Thread

variable {s s' : State} {a : SId} {pending : List UId} {k : Stage}

/-- A thread that does not act. -/
theorem ThreadOk.keep (h : ThreadOk s a pending k)
    (hcur : (s'.sched a).curUthread = (s.sched a).curUthread)
    (hctx : ∀ u b, k = .leaving b → (s.sched a).curUthread = some u → (s'.ut u).ctx = (s.ut u).ctx)
    (hflag : ∀ u, (s.sched a).curUthread = some u →
      (s'.ut u).isWatingYieldSignal = (s.ut u).isWatingYieldSignal ∨
        ((s'.ut u).isWatingYieldSignal = false ∧ pending = []))
    (hbound : ∀ c u, (s.sched a).curUthread = some u → (s.ut u).ctx = .diskHandOff c →
      (s.sched c).p = none → (s'.sched c).p = none) : ThreadOk s' a pending k := by
  have hfalse : ∀ u, (s.sched a).curUthread = some u → (s.ut u).isWatingYieldSignal = false →
      (s'.ut u).isWatingYieldSignal = false := by
    intro u hc hf
    rcases hflag u hc with hsame | ⟨hcl, -⟩
    · exact hsame.trans hf
    · exact hcl
  cases h with
  | sched hc hp => exact .sched (hcur.trans hc) hp
  | entering hc hp => exact .entering (hcur.trans hc) hp
  | @uthread u hc hp =>
    refine .uthread (hcur.trans hc) fun v hv => ?_
    obtain ⟨hvu, hf⟩ := hp v hv
    refine ⟨hvu, ?_⟩
    rcases hflag u hc with hsame | ⟨-, hnil⟩
    · exact hsame.trans hf
    · rw [hnil] at hv
      cases hv
  | @left u hc hp hf hsw =>
    refine .left (hcur.trans hc) hp (hfalse u hc hf) ?_
    rw [hctx u true rfl hc]
    exact hsw
  | @cut u hc hp hf hsw hoff =>
    have hk := hctx u false rfl hc
    refine .cut (hcur.trans hc) hp (hfalse u hc hf) (by rw [hk]; exact hsw) fun c hc' => ?_
    rw [hk] at hc'
    exact hbound c u hc hc' (hoff c hc')

theorem ThreadOk.pending_nil (h : ThreadOk s a pending k) (hk : k ≠ .uthread) : pending = [] := by
  cases h with
  | uthread _ _ => exact absurd rfl hk
  | sched _ hp | entering _ hp | left _ hp _ _ | cut _ hp _ _ _ => exact hp

theorem ThreadOk.idle_iff (h : ThreadOk s a pending k) : k = .sched ↔ (s.sched a).curUthread = none := by
  cases h with
  | sched hc _ => exact ⟨fun _ => hc, fun _ => rfl⟩
  | entering hc _ | uthread hc _ | left hc _ _ _ | cut hc _ _ _ _ =>
    refine ⟨fun he => (by cases he), fun hn => ?_⟩
    rw [hc] at hn
    cases hn

end Thread

/-! ### The nodes and the signals of a tick -/

/-- The signal of one node goes to the thread that the p of its uthread names. -/
theorem tickNode_appends {s : State} {v : UId} {pending pending' : SId → List UId}
    (h : tickNode v s pending = .ok pending') (a : SId) :
    pending' a = pending a ∨ (pending' a = pending a ++ [v] ∧ (s.ut v).isWatingYieldSignal = true ∧
      ∃ q, (s.ut v).p = some q ∧ (s.p q).tid = a) := by
  unfold tickNode at h
  split at h
  · rename_i hf
    obtain ⟨q, hq, h⟩ := bind_ok h
    cases h
    by_cases ha : a = (s.p q).tid
    · subst ha
      rw [Function.update_self]
      exact .inr ⟨rfl, hf, q, home_ok hq, rfl⟩
    · exact .inl (Function.update_of_ne ha _ _)
  · cases h
    exact .inl rfl

/-- Signals are sent for uthreads that are due and have their flag set, to the threads their p's
name. -/
theorem tickNodes_appends {s : State} {due : List UId} {pending pending' : SId → List UId}
    (h : tickNodes s due pending = .ok pending') (a : SId) :
    ∃ sent, pending' a = pending a ++ sent ∧ ∀ u ∈ sent, u ∈ due ∧ (s.ut u).isWatingYieldSignal = true ∧
      ∃ q, (s.ut u).p = some q ∧ (s.p q).tid = a := by
  induction due generalizing pending with
  | nil =>
    cases h
    exact ⟨[], (List.append_nil _).symm, fun u hu => by cases hu⟩
  | cons v rest ih =>
    obtain ⟨mid, hmid, hrest⟩ := bind_ok h
    obtain ⟨sent, hsent, hall⟩ := ih hrest
    rcases tickNode_appends hmid a with hsame | ⟨hnew, hok⟩
    · rw [hsame] at hsent
      exact ⟨sent, hsent, fun u hu => ⟨List.mem_cons_of_mem v (hall u hu).1, (hall u hu).2⟩⟩
    · rw [hnew, List.append_assoc] at hsent
      refine ⟨v :: sent, hsent, fun u hu => ?_⟩
      rcases List.mem_cons.mp hu with rfl | hu
      · exact ⟨List.mem_cons_self, hok⟩
      · exact ⟨List.mem_cons_of_mem v (hall u hu).1, (hall u hu).2⟩

theorem mem_of_tickNodes {s : State} {due : List UId} {pending pending' : SId → List UId}
    (h : tickNodes s due pending = .ok pending') {a : SId} {u : UId} (hu : u ∈ pending' a) :
    u ∈ pending a ∨ (u ∈ due ∧ (s.ut u).isWatingYieldSignal = true ∧
      ∃ q, (s.ut u).p = some q ∧ (s.p q).tid = a) := by
  obtain ⟨sent, hsent, hall⟩ := tickNodes_appends h a
  rw [hsent] at hu
  exact (List.mem_append.mp hu).imp_right (hall u)

/-! ### The actions -/

section Step

variable {s s' : Ticking} {a : SId} {u : UId}

/-- No node is added, no flag is set, and nobody with a flag leaves its thread. -/
theorem SignalsOk.nodes (h : SignalsOk s) (t : Ticking) (htimer : t.rt.timer = s.rt.timer)
    (hheap : s.rt.heap ≤ t.rt.heap)
    (hflag : ∀ v < s.rt.heap, (t.rt.ut v).isWatingYieldSignal = true → (s.rt.ut v).isWatingYieldSignal = true)
    (hkeep : ∀ d v, (s.rt.sched d).curUthread = some v → (t.rt.ut v).isWatingYieldSignal = true →
      (∀ b, s.stage d ≠ .leaving b) → (t.rt.sched d).curUthread = some v ∧ ∀ b, t.stage d ≠ .leaving b) :
    (∀ pos n, n ∈ t.rt.timer.slot pos → n.ut < t.rt.heap) ∧
    ∀ pos n, n ∈ t.rt.timer.slot pos → (t.rt.ut n.ut).isWatingYieldSignal = true →
      ∃ d, (t.rt.sched d).curUthread = some n.ut ∧ ∀ b, t.stage d ≠ .leaving b := by
  rw [htimer]
  refine ⟨fun pos n hn => Nat.lt_of_lt_of_le (h.node_lt pos n hn) hheap, fun pos n hn hf => ?_⟩
  obtain ⟨d, hd, hstage⟩ := h.node pos n hn (hflag n.ut (h.node_lt pos n hn) hf)
  exact ⟨d, hkeep d n.ut hd hf hstage⟩

theorem SignalsOk.call (h : SignalsOk s) {c : Call} {rt : State} (hstage : s.stage a = .uthread)
    (hcalm : Calm s.rt (.call a c)) (hs : step s.rt (.call a c) = .ok rt) : SignalsOk {s with rt := rt} := by
  have hsolid := h.solid.base_step hcalm hs
  cases step_ok hs with
  | @call a c u _ hc _ hent =>
    have hth := hent.threads
    have htimer : rt.timer = s.rt.timer := by
      rcases step_timer hs with ht | ⟨_, _, _, he, -⟩
      · exact ht
      · cases he
    obtain ⟨h1, h2⟩ := h.nodes {s with rt := rt} htimer
      (Nat.le_of_eq hent.heap.symm) (fun v _ hf => (hent.flag v).symm.trans hf)
      fun d v hd _ hk => ⟨(hth.cur d).trans hd, hk⟩
    refine ⟨hsolid, h.wired.enter h.solid.sound hent, fun d => ?_, h1, h2⟩
    refine (h.thread d).keep (hth.cur d) (fun v b hk hd => ?_) (fun v _ => .inl (hent.flag v))
      fun e v _ _ hn => ?_
    · refine (hent.others ?_).ctx
      rintro rfl
      rw [h.solid.inv.cur_inj (b := s.rt.board) hd hc, hstage] at hk
      cases hk
    · rw [hth.bound]
      exact hn

theorem SignalsOk.stmt (h : SignalsOk s) {r : Reply} {rt : State} (hset : Settled s (.run (.stmt a r)))
    (hstage : s.stage a = .uthread) (hc : (s.rt.sched a).curUthread = some u)
    (hsw : (s.rt.ut u).ctx.switching = false) (hs : step s.rt (.stmt a r) = .ok rt) :
    SignalsOk {s with rt := rt} := by
  have hsolid := h.solid.base_step (hset.calm _ rfl) hs
  have hst : Stmt a u r s.rt rt := by
    cases step_ok hs with
    | stmt hc' hst =>
      obtain rfl := Option.some.inj (hc'.symm.trans hc)
      exact hst
  have hsig := hst.signals hc hsw
  have hflag : ∀ v < s.rt.heap, (rt.ut v).isWatingYieldSignal = true →
      (s.rt.ut v).isWatingYieldSignal = true := by
    intro v hv hf
    rcases hsig.flag v hv with hsame | ⟨hfalse, -⟩
    · rw [← hsame]
      exact hf
    · rw [hfalse] at hf
      cases hf
  obtain ⟨h1, h2⟩ := h.nodes {s with rt := rt} hst.timer hsig.heap hflag
    fun d v hd _ hk => ⟨(hsig.cur d).trans hd, hk⟩
  refine ⟨hsolid, h.wired.stmt h.solid hc hsw hs, fun d => ?_, h1, h2⟩
  refine (h.thread d).keep (hsig.cur d) (fun v b hk hd => ?_) (fun v hd => ?_) fun e v hd hk hn => ?_
  · refine (hst.others ?_ (h.solid.sound.cur hd).1).ctx
    rintro rfl
    rw [h.solid.inv.cur_inj (b := s.rt.board) hd hc, hstage] at hk
    cases hk
  · rcases hsig.flag v (h.solid.sound.cur hd).1 with hsame | ⟨hfalse, b, hclears, hb⟩
    · exact .inl hsame
    · -- no signal was in flight to the thread whose uthread lost its flag
      obtain rfl : b = d := h.solid.inv.cur_inj (b := s.rt.board) hb hd
      exact .inr ⟨hfalse, hset.cleared a r u b rfl hc hclears⟩
  · have hidle := ((h.wired.ctx v (h.solid.sound.cur hd).1).diskHandOff e hk).1
    rcases step_frame hs with ⟨_, _, he, -⟩ | ⟨-, hstill⟩ | ⟨_, _, w, he, -, c, q, n, rest, -, hq, -, hidl, rfl⟩
    · cases he
    · rw [hstill.bound]
      exact hn
    · obtain ⟨hin, hnc, -⟩ := h.solid.sound.idle_ne hq hidl
      show ((handedOff c n q rest s.rt).sched e).p = none
      rw [handedOff_sched hnc]
      split
      · rfl
      · split
        · rename_i hen
          exact absurd (hen ▸ hin) hidle
        · exact hn

/-- What a scheduler's step does to the flags and to the other threads. -/
theorem sched_signals {st rt : State} {r : Reply} (hs : SchedStep a r st rt) :
    Local a st rt ∧ rt.heap = st.heap ∧
    ((∀ v, (rt.ut v).isWatingYieldSignal = (st.ut v).isWatingYieldSignal) ∧ rt.timer = st.timer ∨
      ∃ u, (rt.sched a).curUthread = some u ∧ rt.timer = addTimer 1 u st.timer ∧
        ∀ v, (rt.ut v).isWatingYieldSignal = if v = u then true else (st.ut v).isWatingYieldSignal) := by
  refine ⟨hs.toLocal, ?_⟩
  rcases SameSignals.untimed.schedStep hs with hsig | ⟨u, k, s₁, hsig, rfl⟩ | ⟨q, -, -, rfl⟩
  · exact ⟨hsig.heap, .inl ⟨hsig.flag, hsig.timer⟩⟩
  · refine ⟨?_, .inr ⟨u, uthreadResume_cur a u k s₁, ?_, fun v => ?_⟩⟩
    · refine Eq.trans ?_ hsig.heap
      unfold uthreadResume
      dsimp only
      split <;> rfl
    · rw [uthreadResume_timer, hsig.timer]
    · rw [uthreadResume_flag, hsig.flag]
  · exact ⟨rfl, .inl ⟨fun _ => rfl, rfl⟩⟩

/-- A thread other than the scheduler's that acts. -/
theorem SignalsOk.other (h : SignalsOk s) {r : Reply} {rt : State} {d : SId} (hd : d ≠ a)
    (hs : step s.rt (.sched a r) = .ok rt) (hl : Local a s.rt rt)
    (hflag : ∀ v, (s.rt.sched d).curUthread = some v →
      (rt.ut v).isWatingYieldSignal = (s.rt.ut v).isWatingYieldSignal) :
    ThreadOk rt d (s.pending d) (s.stage d) := by
  refine (h.thread d).keep (hl.cur d hd) (fun v b _ hv => ?_) (fun v hv => .inl (hflag v hv))
    fun e v _ _ hn => ?_
  · exact (step_others h.solid.sound hs (h.solid.sound.cur hv).1 fun hns => absurd rfl (hns a r)).ctx
  · rw [hl.bound]
    exact hn

theorem SignalsOk.sched (h : SignalsOk s) {r : Reply} {rt : State} (hstage : s.stage a = .sched)
    (hcalm : Calm s.rt (.sched a r)) (hs : step s.rt (.sched a r) = .ok rt)
    (hc' : (rt.sched a).curUthread = none) : SignalsOk {s with rt := rt} := by
  have hsolid := h.solid.base_step hcalm hs
  have hwired := h.wired.sched h.solid hcalm hs
  cases step_ok hs with
  | sched hc hsched =>
    obtain ⟨hl, hheap, ⟨hflag, htimer⟩ | ⟨u, hu, -⟩⟩ := sched_signals hsched
    · have hcur : ∀ d, (rt.sched d).curUthread = (s.rt.sched d).curUthread := by
        intro d
        by_cases hd : d = a
        · rw [hd, hc', hc]
        · exact hl.cur d hd
      obtain ⟨h1, h2⟩ := h.nodes {s with rt := rt} htimer (Nat.le_of_eq hheap.symm)
        (fun v _ hf => (hflag v).symm.trans hf) fun d v hd _ hk => ⟨(hcur d).trans hd, hk⟩
      refine ⟨hsolid, hwired, fun d => ?_, h1, h2⟩
      by_cases hd : d = a
      · have hth := h.thread a
        subst hd
        rw [hstage] at hth
        show ThreadOk rt d (s.pending d) (s.stage d)
        rw [hstage]
        exact .sched hc' (hth.pending_nil (by simp))
      · exact h.other hd hs hl fun v _ => hflag v
    · rw [hc'] at hu
      cases hu

theorem SignalsOk.resume (h : SignalsOk s) {r : Reply} {rt : State} (hstage : s.stage a = .sched)
    (hcalm : Calm s.rt (.sched a r)) (hs : step s.rt (.sched a r) = .ok rt)
    (hc' : (rt.sched a).curUthread = some u) : SignalsOk {s with
      rt := rt
      stage := Function.update s.stage a .entering
      since := Function.update s.since u 0} := by
  have hsolid := h.solid.base_step hcalm hs
  have hwired := h.wired.sched h.solid hcalm hs
  have hpend : s.pending a = [] := (h.thread a).pending_nil (by rw [hstage]; simp)
  cases step_ok hs with
  | sched hc hsched =>
    obtain ⟨hl, hheap, hcases⟩ := sched_signals hsched
    -- those that run elsewhere are others
    have hne : ∀ d v, d ≠ a → (s.rt.sched d).curUthread = some v → v ≠ u := by
      rintro d v hd hv rfl
      rw [← hl.cur d hd] at hv
      exact hd (hsolid.inv.cur_inj (b := rt.board) hv hc')
    have hflag : ∀ v, v ≠ u → (rt.ut v).isWatingYieldSignal = (s.rt.ut v).isWatingYieldSignal := by
      intro v hv
      rcases hcases with ⟨hsame, -⟩ | ⟨w, hw, -, hf⟩
      · exact hsame v
      · rw [hf v, if_neg]
        rw [Option.some.inj (hw.symm.trans hc')]
        exact hv
    have hnode : ∀ pos n, n ∈ rt.timer.slot pos → n.ut = u ∨ n ∈ s.rt.timer.slot pos := by
      intro pos n hn
      rcases hcases with ⟨-, ht⟩ | ⟨w, hw, ht, -⟩
      · rw [ht] at hn
        exact .inr hn
      · rw [ht] at hn
        rw [← Option.some.inj (hw.symm.trans hc')]
        exact mem_of_addTimer hn
    refine ⟨hsolid, hwired, fun d => ?_, fun pos n hn => ?_, fun pos n hn hf => ?_⟩
    · show ThreadOk rt d (s.pending d) (Function.update s.stage a .entering d)
      by_cases hd : d = a
      · rw [hd, Function.update_self]
        exact .entering hc' hpend
      · rw [Function.update_of_ne hd]
        exact h.other hd hs hl fun v hv => hflag v (hne d v hd hv)
    · show n.ut < rt.heap
      rcases hnode pos n hn with hu | hold
      · rw [hu]
        exact (hsolid.sound.cur hc').1
      · rw [hheap]
        exact h.node_lt pos n hold
    · have hentering : ∀ b, Function.update s.stage a Stage.entering a ≠ .leaving b := by
        intro b
        rw [Function.update_self]
        simp
      by_cases hnu : n.ut = u
      · exact ⟨a, by rw [hnu]; exact hc', hentering⟩
      · obtain ⟨d, hd, hst⟩ := h.node pos n ((hnode pos n hn).resolve_left hnu)
          ((hflag n.ut hnu).symm.trans hf)
        have hda : d ≠ a := by
          rintro rfl
          rw [hc] at hd
          cases hd
        refine ⟨d, (hl.cur d hda).trans hd, fun b => ?_⟩
        show Function.update s.stage a Stage.entering d ≠ .leaving b
        rw [Function.update_of_ne hda]
        exact hst b

/-- A thread moves on to another stack; the runtime is as it was. -/
theorem SignalsOk.restage (h : SignalsOk s) {k : Stage} (hk : ThreadOk s.rt a (s.pending a) k)
    (hflag : ∀ v b, k = .leaving b → (s.rt.sched a).curUthread = some v →
      (s.rt.ut v).isWatingYieldSignal = false) : SignalsOk (s.setStage a k) := by
  refine ⟨h.solid, h.wired, fun d => ?_, h.node_lt, fun pos n hn hf => ?_⟩
  · show ThreadOk s.rt d (s.pending d) (Function.update s.stage a k d)
    by_cases hd : d = a
    · rw [hd, Function.update_self]
      exact hk
    · rw [Function.update_of_ne hd]
      exact h.thread d
  · obtain ⟨d, hd, hst⟩ := h.node pos n hn hf
    refine ⟨d, hd, fun b hb => ?_⟩
    have hb' : Function.update s.stage a k d = .leaving b := hb
    by_cases hda : d = a
    · subst hda
      rw [Function.update_self] at hb'
      have hfalse := hflag n.ut b hb' hd
      exact absurd (hfalse.symm.trans hf) (by simp)
    · rw [Function.update_of_ne hda] at hb'
      exact hst b hb'

/-- The `_switch` of `_uthread_resume`. -/
theorem SignalsOk.enter (h : SignalsOk s) (hstage : s.stage a = .entering)
    (hc : (s.rt.sched a).curUthread = some u) : SignalsOk (s.setStage a .uthread) := by
  have hpend : s.pending a = [] := (h.thread a).pending_nil (by rw [hstage]; simp)
  refine h.restage (.uthread hc fun v hv => ?_) fun v b hk => by cases hk
  rw [hpend] at hv
  cases hv

/-- What is pending for a thread on the stack of its uthread. -/
theorem SignalsOk.flagged (h : SignalsOk s) (hstage : s.stage a = .uthread)
    (hc : (s.rt.sched a).curUthread = some u) {v : UId} (hv : v ∈ s.pending a) :
    v = u ∧ (s.rt.ut u).isWatingYieldSignal = true := by
  have hth := h.thread a
  rw [hstage] at hth
  cases hth with
  | uthread hc' hp =>
    obtain rfl := Option.some.inj (hc'.symm.trans hc)
    exact hp v hv

/-- The `_switch` of `_uthread_yield`: the flag is cleared, so no signal is in flight. -/
theorem SignalsOk.leave (h : SignalsOk s) (hstage : s.stage a = .uthread)
    (hc : (s.rt.sched a).curUthread = some u) (hsw : (s.rt.ut u).ctx.switching = true) :
    SignalsOk (s.setStage a (.leaving true)) := by
  obtain ⟨hf, -⟩ := (h.wired.ctx u (h.solid.sound.cur hc).1).switching hsw
  have hpend : s.pending a = [] := by
    refine List.eq_nil_iff_forall_not_mem.mpr fun v hv => ?_
    rw [(h.flagged hstage hc hv).2] at hf
    cases hf
  refine h.restage (.left hc hpend hf hsw) fun v b _ hv => ?_
  rw [Option.some.inj (hv.symm.trans hc)]
  exact hf

/-- `_uthread_resume` goes on with no uthread on its thread. -/
theorem SignalsOk.off (h : SignalsOk s) {rt : State} {b : Bool} (hsolid : Solid rt) (hwired : Wired rt)
    (hstage : s.stage a = .leaving b) (hc : (s.rt.sched a).curUthread = some u) (htimer : rt.timer = s.rt.timer)
    (hheap : rt.heap = s.rt.heap)
    (hcur : ∀ d, (rt.sched d).curUthread = if d = a then none else (s.rt.sched d).curUthread)
    (hbound : ∀ d, (rt.sched d).p = (s.rt.sched d).p)
    (hflag : ∀ v, (rt.ut v).isWatingYieldSignal = (s.rt.ut v).isWatingYieldSignal)
    (hctx : ∀ v, v ≠ u → (rt.ut v).ctx = (s.rt.ut v).ctx) :
    SignalsOk ({s with rt := rt}.setStage a .sched) := by
  have hpend : s.pending a = [] := (h.thread a).pending_nil (by rw [hstage]; simp)
  obtain ⟨h1, h2⟩ := h.nodes ({s with rt := rt}.setStage a .sched) htimer (Nat.le_of_eq hheap.symm)
    (fun v _ hf => (hflag v).symm.trans hf) fun d v hd _ hk => by
      have hda : d ≠ a := by
        rintro rfl
        exact hk b hstage
      refine ⟨?_, fun b' => ?_⟩
      · show (rt.sched d).curUthread = some v
        rw [hcur, if_neg hda]
        exact hd
      · show Function.update s.stage a Stage.sched d ≠ .leaving b'
        rw [Function.update_of_ne hda]
        exact hk b'
  refine ⟨hsolid, hwired, fun d => ?_, h1, h2⟩
  show ThreadOk rt d (s.pending d) (Function.update s.stage a .sched d)
  by_cases hd : d = a
  · rw [hd, Function.update_self]
    refine .sched ?_ hpend
    rw [hcur, if_pos rfl]
  · rw [Function.update_of_ne hd]
    refine (h.thread d).keep ?_ (fun v b' _ hv => hctx v ?_) (fun v _ => .inl (hflag v)) fun c v _ _ hn => ?_
    · rw [hcur, if_neg hd]
    · rintro rfl
      exact hd (h.solid.inv.cur_inj (b := s.rt.board) hv hc)
    · rw [hbound]
      exact hn

theorem SignalsOk.back (h : SignalsOk s) {rt : State} (hcalm : CalmTick s (.back a))
    (hstage : s.stage a = .leaving true) (hs : step s.rt (.stmt a {}) = .ok rt) :
    SignalsOk ({s with rt := rt}.setStage a .sched) := by
  have hsolid := h.solid.base_step (hcalm _ (by simp only [Ticking.base, hstage])) hs
  have hth := h.thread a
  rw [hstage] at hth
  cases hth with
  | @left u hc _ _ hsw =>
    obtain ⟨hwired, k, -, hswitched⟩ := h.wired.ownSwitch h.solid hc hsw hs
    have hsig := switched_signals hswitched
    refine h.off hsolid hwired hstage hc hsig.timer hsig.heap (fun d => (hsig.cur d).trans (idleCpu_cur d))
      (Still.switched hswitched).bound (fun v => (hsig.flag v).trans (goto_flag k s.rt v)) fun v hv => ?_
    rw [hsig.ctx]
    exact congrArg Uthread.ctx (goto_ut_of_ne hv)

theorem SignalsOk.interrupted (h : SignalsOk s) {rt : State} (hcalm : CalmTick s (.back a))
    (hstage : s.stage a = .leaving false) (hc : (s.rt.sched a).curUthread = some u)
    (hs : uthreadSwitched a u s.rt = .ok rt) : SignalsOk ({s with rt := rt}.setStage a .sched) := by
  have hsolid := h.solid.switched (hcalm _ (by simp only [Ticking.base, hstage])) hc hs
  have hth := h.thread a
  rw [hstage] at hth
  cases hth with
  | cut hc' _ _ hsw hoff =>
    obtain rfl := Option.some.inj (hc'.symm.trans hc)
    have hwired := h.wired.leave hc (fun d hd => h.solid.inv.cur_inj (b := s.rt.board) hd hc) hsw hoff hs
    have hsig := switched_signals hs
    exact h.off hsolid hwired hstage hc hsig.timer hsig.heap (fun d => (hsig.cur d).trans (idleCpu_cur d))
      (Still.switched hs).bound hsig.flag fun v _ => hsig.ctx v

/-- `handler` yields for the uthread whose stack it runs on. -/
theorem SignalsOk.deliver (h : SignalsOk s) (hp : s.pending a ≠ []) (hstage : s.stage a = .uthread)
    (hc : (s.rt.sched a).curUthread = some u) : SignalsOk {s with
      rt := s.rt.setUt u fun v => {v with isWatingYieldSignal := false}
      stage := Function.update s.stage a (.leaving false)
      pending := Function.update s.pending a []} := by
  obtain ⟨v, hv⟩ := List.exists_mem_of_ne_nil _ hp
  obtain ⟨-, hset⟩ := h.flagged hstage hc hv
  have hok := h.wired.ctx u (h.solid.sound.cur hc).1
  have hctx : ∀ v, ((s.rt.setUt u fun v => {v with isWatingYieldSignal := false}).ut v).ctx =
      (s.rt.ut v).ctx := setUt_keeps Uthread.ctx rfl
  have hself : ((s.rt.setUt u fun v => {v with isWatingYieldSignal := false}).ut u).isWatingYieldSignal =
      false := by rw [setUt_ut_self]
  have hflag : ∀ v, v ≠ u → ((s.rt.setUt u fun v => {v with isWatingYieldSignal := false}).ut
      v).isWatingYieldSignal = (s.rt.ut v).isWatingYieldSignal := by
    intro v hv
    rw [setUt_ut, if_neg hv]
  -- its flag is set: it is not about to switch, and a hand-off of it finds no p
  have hsw : (s.rt.ut u).ctx.switching = false := by
    rw [Bool.eq_false_iff]
    intro hsw
    rw [(hok.switching hsw).1] at hset
    cases hset
  have hoff : ∀ c, (s.rt.ut u).ctx = .diskHandOff c → (s.rt.sched c).p = none := by
    intro c hk
    refine (hok.diskHandOff c hk).2.resolve_right fun ho => ?_
    rw [ho.2] at hset
    cases hset
  have hwired : Wired (s.rt.setUt u fun v => {v with isWatingYieldSignal := false}) := by
    refine h.wired.same ⟨fun _ => rfl, fun _ => rfl, fun _ => rfl, rfl, fun _ => rfl⟩ h.solid.sound
      (fun v hv => .inl ⟨hv, hctx v⟩) fun v _ hf => ?_
    by_cases hvu : v = u
    · rw [hvu]
      exact hself
    · exact (hflag v hvu).trans hf
  obtain ⟨h1, h2⟩ := h.nodes {s with
      rt := s.rt.setUt u fun v => {v with isWatingYieldSignal := false}
      stage := Function.update s.stage a (.leaving false)
      pending := Function.update s.pending a []} rfl (Nat.le_refl _) (fun v _ hf => by
        by_cases hvu : v = u
        · rw [hvu]
          exact hset
        · exact (hflag v hvu).symm.trans hf) fun d v hd hf hk => by
      have hda : d ≠ a := by
        rintro rfl
        rw [Option.some.inj (hd.symm.trans hc)] at hf
        exact absurd (hself.symm.trans hf) (by simp)
      refine ⟨hd, fun b => ?_⟩
      show Function.update s.stage a (Stage.leaving false) d ≠ .leaving b
      rw [Function.update_of_ne hda]
      exact hk b
  refine ⟨h.solid.flag hc false, hwired, fun d => ?_, h1, h2⟩
  show ThreadOk _ d (Function.update s.pending a [] d) (Function.update s.stage a (.leaving false) d)
  by_cases hd : d = a
  · rw [hd, Function.update_self, Function.update_self]
    refine .cut hc rfl hself ?_ fun c hk => hoff c ?_
    · rw [hctx]
      exact hsw
    · rw [← hctx]
      exact hk
  · rw [Function.update_of_ne hd, Function.update_of_ne hd]
    refine (h.thread d).keep rfl (fun v _ _ _ => hctx v) (fun v hv => .inl (hflag v ?_)) fun _ _ _ _ hn => hn
    rintro rfl
    exact hd (h.solid.inv.cur_inj (b := s.rt.board) hv hc)

/-- `tick` sends a signal to the thread that runs the uthread, on whose stack it is. -/
theorem SignalsOk.hits (h : SignalsOk s) (hset : Settled s .tick) {q : PId} (hdue : u ∈ s.rt.timer.due)
    (hf : (s.rt.ut u).isWatingYieldSignal = true) (hq : (s.rt.ut u).p = some q) :
    s.stage (s.rt.p q).tid = .uthread ∧ (s.rt.sched (s.rt.p q).tid).curUthread = some u := by
  obtain ⟨n, hn, rfl⟩ := mem_of_tickSlot_due hdue
  obtain ⟨a, hc, hst⟩ := h.node _ n hn hf
  have hstage : s.stage a = .uthread := by
    cases hk : s.stage a with
    | sched =>
      rw [(h.thread a).idle_iff.mp hk] at hc
      cases hc
    | entering => exact absurd hdue (hset.entered a n.ut rfl hk hc hf)
    | uthread => rfl
    | leaving b => exact absurd hk (hst b)
  have htid : (s.rt.p q).tid = a := by
    obtain ⟨q', hq'⟩ := Option.ne_none_iff_exists'.mp (h.wired.bound a n.ut hc hf)
    have hqq : q = q' := by
      rw [h.solid.sound.one hq']
      exact Option.some.inj (hq.symm.trans (h.solid.sound.ut n.ut (h.solid.sound.cur hc).1).home)
    rcases h.wired.tid a q' hq' with ht | ⟨-, hn⟩
    · rw [hqq]
      exact ht
    · rw [hn] at hc
      cases hc
  rw [htid]
  exact ⟨hstage, hc⟩

theorem SignalsOk.tick (h : SignalsOk s) (hset : Settled s .tick) {pending : SId → List UId}
    (hs : tickNodes s.rt s.rt.timer.due s.pending = .ok pending) : SignalsOk {s with
      rt := {s.rt with timer := s.rt.timer.turned}
      pending := pending
      since := fun u => s.since u + 1} := by
  -- whatever is pending now was pending, or was sent to a thread on the stack of its uthread
  have hnew : ∀ d v, v ∈ pending d → v ∈ s.pending d ∨
      (s.stage d = .uthread ∧ (s.rt.sched d).curUthread = some v ∧ (s.rt.ut v).isWatingYieldSignal = true) := by
    intro d v hv
    rcases mem_of_tickNodes hs hv with hold | ⟨hdue, hf, q, hq, rfl⟩
    · exact .inl hold
    · obtain ⟨hstage, hc⟩ := h.hits hset hdue hf hq
      exact .inr ⟨hstage, hc, hf⟩
  have hkeep : ∀ d l k, ThreadOk s.rt d l k → ThreadOk {s.rt with timer := s.rt.timer.turned} d l k :=
    fun d l k hth => hth.keep rfl (fun _ _ _ _ => rfl) (fun _ _ => .inl rfl) fun _ _ _ _ hn => hn
  have hnode : ∀ pos n, n ∈ s.rt.timer.turned.slot pos → ∃ m ∈ s.rt.timer.slot pos, m.ut = n.ut :=
    fun pos n => mem_of_turned
  refine ⟨h.solid.timer _, ?_, fun d => hkeep d _ _ ?_, fun pos n hn => ?_, fun pos n hn hf => ?_⟩
  · exact h.wired.same ⟨fun _ => rfl, fun _ => rfl, fun _ => rfl, rfl, fun _ => rfl⟩ h.solid.sound
      (fun v hv => .inl ⟨hv, rfl⟩) fun v _ hf => hf
  · by_cases hstage : s.stage d = .uthread
    · have hth := h.thread d
      show ThreadOk s.rt d (pending d) (s.stage d)
      rw [hstage] at hth ⊢
      cases hth with
      | @uthread u hc hp =>
        refine .uthread hc fun v hv => ?_
        rcases hnew d v hv with hold | ⟨-, hcv, hf⟩
        · exact hp v hold
        · obtain rfl := Option.some.inj (hcv.symm.trans hc)
          exact ⟨rfl, hf⟩
    · have hnil := (h.thread d).pending_nil hstage
      have hnil' : pending d = [] := by
        refine List.eq_nil_iff_forall_not_mem.mpr fun v hv => ?_
        rcases hnew d v hv with hold | ⟨hst, -⟩
        · rw [hnil] at hold
          cases hold
        · exact hstage hst
      show ThreadOk s.rt d (pending d) (s.stage d)
      rw [hnil', ← hnil]
      exact h.thread d
  · obtain ⟨m, hm, hu⟩ := hnode pos n hn
    rw [← hu]
    exact h.node_lt pos m hm
  · obtain ⟨m, hm, hu⟩ := hnode pos n hn
    rw [← hu] at hf ⊢
    exact h.node pos m hm hf

theorem SignalsOk.step {act : TickAct} (h : SignalsOk s) (hset : Settled s act)
    (hs : s.step act = .ok s') : SignalsOk s' := by
  cases tickStep_ok hs with
  | call hstage hb => exact h.call hstage (hset.calm _ rfl) hb
  | stmt hstage hc hsw hb => exact h.stmt hset hstage hc hsw hb
  | sched hstage hb hc => exact h.sched hstage (hset.calm _ rfl) hb hc
  | resume hstage hb hc => exact h.resume hstage (hset.calm _ rfl) hb hc
  | enter hstage hc => exact h.enter hstage hc
  | leave hstage hc hsw => exact h.leave hstage hc hsw
  | back hstage hb => exact h.back hset.calm hstage hb
  | interrupted hstage hc hb => exact h.interrupted hset.calm hstage hc hb
  | deliver hp hstage hc => exact h.deliver hp hstage hc
  | tick hn => exact h.tick hset hn

theorem SignalsOk.initial : SignalsOk {} := by
  refine ⟨Solid.initial, Wired.initial, fun a => .sched (init_cur a) rfl, fun pos n hn => ?_,
    fun pos n hn => ?_⟩
  · cases hn
  · cases hn

end Step

/-- **A signal hits the uthread it was sent for**, in every run in which no flag is cleared
while a signal is in flight and no tick sends one into `_uthread_resume`. Whenever the
handler may run, the thread is on the stack of that uthread; the handler takes it off and
leaves its context as it was. -/
theorem signal_hits_its_uthread {s : Ticking} (h : Ticking.Reaches Settled s) {a : SId} {u : UId}
    (hu : u ∈ s.pending a) :
    s.stage a = .uthread ∧ (s.rt.sched a).curUthread = some u ∧
      ∃ s', s.deliver a = .ok s' ∧ s'.stage a = .leaving false ∧
        (s'.rt.sched a).curUthread = some u ∧ (s'.rt.ut u).ctx = (s.rt.ut u).ctx := by
  have hok : SignalsOk s := h.invariant SignalsOk.initial fun s act s' hok hset hs => hok.step hset hs
  have hp : s.pending a ≠ [] := List.ne_nil_of_mem hu
  have hstage : s.stage a = .uthread := by
    by_contra hst
    exact hp ((hok.thread a).pending_nil hst)
  have hc : (s.rt.sched a).curUthread = some u := by
    have hth := hok.thread a
    rw [hstage] at hth
    cases hth with
    | uthread hc hsent =>
      rw [(hsent u hu).1]
      exact hc
  refine ⟨hstage, hc, {s with
    rt := s.rt.setUt u fun v => {v with isWatingYieldSignal := false}
    stage := Function.update s.stage a (.leaving false)
    pending := Function.update s.pending a []}, ?_, Function.update_self _ _ _, hc, ?_⟩
  · unfold Ticking.deliver
    rw [if_neg hp, hc]
    dsimp only
    rw [if_pos hstage]
  · show ((s.rt.setUt u fun v => {v with isWatingYieldSignal := false}).ut u).ctx = (s.rt.ut u).ctx
    exact setUt_keeps Uthread.ctx rfl u

def settledCheck (s : Ticking) : TickAct → Bool
  | .run (.stmt a _) =>
    match (s.rt.sched a).curUthread with
    | none => true
    | some u =>
      match (s.rt.ut u).ctx.clears a with
      | none => true
      | some b => decide (s.pending b = [])
  | .tick => s.rt.timer.due.all fun u => decide ((s.rt.sched 0).curUthread = some u ∧ s.stage 0 = .uthread)
  | _ => true

theorem settled_of_check {s : Ticking} {act : TickAct} (hsolid : Solid s.rt) (hcalm : CalmTick s act)
    (h : settledCheck s act = true) : Settled s act := by
  refine ⟨hcalm, ?_, ?_⟩
  · rintro a r u b rfl hc hcl
    simpa [settledCheck, hc, hcl] using h
  · rintro a u rfl hstage hc - hdue
    obtain ⟨hc₀, hstage₀⟩ := of_decide_eq_true (List.all_eq_true.mp h u hdue)
    rw [hsolid.inv.cur_inj (b := s.rt.board) hc hc₀, hstage₀] at hstage
    cases hstage

/-- Main runs for two ticks and is interrupted. -/
theorem ticked_hits_main : ∃ s, Ticking.Reaches Settled s ∧ 0 ∈ s.pending 0 ∧
    s.stage 0 = .uthread ∧ (s.rt.sched 0).curUthread = some 0 ∧
      ∃ s', s.deliver 0 = .ok s' ∧ s'.stage 0 = .leaving false ∧
        (s'.rt.sched 0).curUthread = some 0 ∧ (s'.rt.ut 0).ctx = (s.rt.ut 0).ctx := by
  have hread : (Run.checked Ticking.step (fun s act => calmTickCheck s act && settledCheck s act) {}
      (tickingBoot ++ [.tick, .tick])).map (fun s => s.pending 0) = some [0] := by decide +kernel
  obtain ⟨s, hs, hread⟩ := Option.map_eq_some_iff.mp hread
  have hreach := reaches_of_tickChecks (fun _ _ hC => hC.calm) (fun _ _ => settled_of_check) hs
  have hu : 0 ∈ s.pending 0 := by
    rw [hread]
    exact List.mem_singleton_self 0
  exact ⟨s, hreach, hu, signal_hits_its_uthread hreach hu⟩

/-- The handler runs in scheduler code. -/
theorem deliver_clobbers {s : Ticking} {a : SId} {u : UId} (hh : s.rt.halted = false) (hp : s.pending a ≠ [])
    (hc : (s.rt.sched a).curUthread = some u) (hstage : s.stage a ≠ .uthread) :
    s.step (.deliver a) = .error .clobbers := by
  simp [Ticking.step, Ticking.deliver, hh, hp, hc, hstage]

theorem deliver_nullCur {s : Ticking} {a : SId} (hh : s.rt.halted = false) (hp : s.pending a ≠ [])
    (hc : (s.rt.sched a).curUthread = none) : s.step (.deliver a) = .error (.stop (.fault .nullCur)) := by
  simp [Ticking.step, Ticking.deliver, hh, hp, hc]

/-- Main yields while the signal for it is in flight. The handler runs in `_uthread_resume`,
where its `_switch` saves the scheduler's registers as the context of main; a little later it
finds no `cur_uthread`. And a signal for main is sent while `_uthread_resume` has its own
`_switch` still before it. -/
theorem lateSignal_misses :
    (∃ s s', Ticking.exec (tickingBoot ++ [.tick, .tick] ++ runs (calls 0 .yield 1) ++ [.switch 0]) = .ok s ∧
      s.pending 0 = [0] ∧ s.stage 0 = .leaving true ∧ s.step (.deliver 0) = .error .clobbers ∧
      s.step (.back 0) = .ok s' ∧ s'.pending 0 = [0] ∧ s'.stage 0 = .sched ∧
        s'.step (.deliver 0) = .error (.stop (.fault .nullCur))) ∧
    ∃ s, Ticking.exec (tickingCreatedRuns ++ callsOff 0 .yield 1 ++ [.tick] ++ runs (scheds 0 2) ++ [.tick]) =
        .ok s ∧
      s.pending 0 = [0] ∧ s.stage 0 = .entering ∧ s.step (.deliver 0) = .error .clobbers := by
  constructor
  · have hread : ((Ticking.exec (tickingBoot ++ [.tick, .tick] ++ runs (calls 0 .yield 1) ++
        [.switch 0])).toOption.bind fun s => (s.step (.back 0)).toOption.map fun s' =>
          (decide (s.pending 0 = [0] ∧ s.stage 0 = .leaving true),
            decide (s.rt.halted = false ∧ (s.rt.sched 0).curUthread = some 0),
            decide (s'.pending 0 = [0] ∧ s'.stage 0 = .sched),
            decide (s'.rt.halted = false ∧ (s'.rt.sched 0).curUthread = none))) =
        some (true, true, true, true) := by decide +kernel
    obtain ⟨s, hs, hread⟩ := Option.bind_eq_some_iff.mp hread
    obtain ⟨s', hs', hread⟩ := Option.map_eq_some_iff.mp hread
    simp only [Prod.mk.injEq, decide_eq_true_eq] at hread
    obtain ⟨⟨hp, hst⟩, ⟨hh, hc⟩, ⟨hp', hst'⟩, hh', hc'⟩ := hread
    exact ⟨s, s', ok_of_toOption hs, hp, hst, deliver_clobbers hh (by simp [hp]) hc (by simp [hst]),
      ok_of_toOption hs', hp', hst', deliver_nullCur hh' (by simp [hp']) hc'⟩
  · have hread : (Ticking.exec (tickingCreatedRuns ++ callsOff 0 .yield 1 ++ [.tick] ++ runs (scheds 0 2) ++
        [.tick])).toOption.map (fun s =>
          (decide (s.pending 0 = [0] ∧ s.stage 0 = .entering),
            decide (s.rt.halted = false ∧ (s.rt.sched 0).curUthread = some 0))) =
        some (true, true) := by decide +kernel
    obtain ⟨s, hs, hread⟩ := Option.map_eq_some_iff.mp hread
    simp only [Prod.mk.injEq, decide_eq_true_eq] at hread
    obtain ⟨⟨hp, hst⟩, hh, hc⟩ := hread
    exact ⟨s, ok_of_toOption hs, hp, hst, deliver_clobbers hh (by simp [hp]) hc (by simp [hst])⟩

end UthreadRuntime
