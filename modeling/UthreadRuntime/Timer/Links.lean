import UthreadRuntime.Safety.Fetched
import UthreadRuntime.Safety.Points
import UthreadRuntime.Timer.Wheel
import UthreadRuntime.Timer.Signals

/-! Where the p is.

One of the p's that `_runtime_init` makes is ever used, and one sched has it. A hand-off gives it to
another sched, whose thread has not started yet; until that thread sets `tid`, no uthread with a
node in the wheel has its flag set. From then on a uthread whose flag is set and that has a node
runs on the sched that has the p. -/
namespace UthreadRuntime

open State

/-- The sched of `b` has the p, and its thread is the one that `tid` names once it has started. -/
structure Linked (b : SId) (s : State) : Prop where
  points : ∀ u, s.Points u → u < s.heap
  home : ∀ u < s.heap, (s.ut u).p = some 0
  idle : ∀ c ∈ s.schedIdle, c ≠ b ∧ (s.sched c).curUthread = none
  nodup : s.schedIdle.Nodup
  bound : ∀ c, (s.sched c).p = if c = b then some 0 else none
  sched : ∀ q, (s.p q).sched = if q = 0 then some b else none
  tid : (s.p 0).tid = b ∨ ((s.sched b).pc = .another ∧ (s.sched b).curUthread = none)
  node_lt : ∀ pos n, n ∈ s.timer.slot pos → n.ut < s.heap
  node : ∀ pos n, n ∈ s.timer.slot pos → (s.ut n.ut).isWatingYieldSignal = true →
    (s.sched b).curUthread = some n.ut

/-- What the place of the code says that runs `u` on the thread of `a`. -/
structure CodeOk (b : SId) (s : State) (a : SId) (u : UId) (k : Ctx) : Prop where
  creates : ∀ c, k.createsOn = some c → c ∉ s.schedIdle
  inserts : ∀ c id p, k = .create c (.insert id p) → c ≠ b ∨ p = some 0
  diskFlag : ∀ c, k = .diskFlag c → c = a
  diskHandOff : ∀ c, k = .diskHandOff c → c = a ∧ (a = b → (s.ut u).isWatingYieldSignal = false)
  switching : k.switching = true → a = b → (s.ut u).isWatingYieldSignal = false

/-- A context that says nothing of the thread it was saved on. -/
structure Ctx.Resting (s : State) (k : Ctx) : Prop where
  unwired : k.Unwired
  creates : ∀ c, k.createsOn = some c → c ∉ s.schedIdle
  inserts : ∀ c id p, k ≠ .create c (.insert id p)

/-- The p is where it was, or on a sched that was idle. -/
structure Passes (b b' : SId) (s s' : State) : Prop where
  linked : Linked b' s'
  holder : b' = b ∨ b' ∈ s.schedIdle
  idle : ∀ c ∈ s'.schedIdle, c ∈ s.schedIdle

section State

variable {b b' : SId} {s s' : State} {a : SId} {u : UId}

theorem Ctx.Resting.codeOk {k : Ctx} (h : k.Resting s) : CodeOk b s a u k := by
  refine ⟨h.creates, fun c id p hk => absurd hk (h.inserts c id p), fun c hk => absurd hk (h.unwired.diskFlag c),
    fun c hk => absurd hk (h.unwired.diskHandOff c), fun hsw => ?_⟩
  rw [h.unwired.switching] at hsw
  cases hsw

theorem Ctx.Resting.of_plain {k : Ctx} (h : k.Unwired) (hk : k.createsOn = none) : k.Resting s := by
  refine ⟨h, fun c hc => ?_, fun c id p he => ?_⟩
  · rw [hk] at hc
    cases hc
  · rw [he] at hk
    cases hk

theorem Ctx.user_resting : Ctx.user.Resting s := .of_plain ⟨rfl, by simp, by simp⟩ rfl

theorem Ctx.Resting.keep {k : Ctx} (h : k.Resting s) (hidle : ∀ c ∈ s'.schedIdle, c ∈ s.schedIdle) :
    k.Resting s' :=
  ⟨h.unwired, fun c hc hc' => h.creates c hc (hidle c hc'), h.inserts⟩

/-- The code stands where it stood. The p is where it was, or on a sched that was idle. -/
theorem CodeOk.keep {k : Ctx} (h : CodeOk b s a u k) (hidle : ∀ c ∈ s'.schedIdle, c ∈ s.schedIdle)
    (hb : b' = b ∨ b' ∈ s.schedIdle) (ha : a ∉ s.schedIdle)
    (hflag : a = b → (s.ut u).isWatingYieldSignal = false → (s'.ut u).isWatingYieldSignal = false) :
    CodeOk b' s' a u k := by
  -- a sched in use that has the p now had it before
  have hhas : ∀ c, c ∉ s.schedIdle → c = b' → c = b := by
    rintro c hc rfl
    exact hb.resolve_right hc
  constructor
  · exact fun c hc hc' => h.creates c hc (hidle c hc')
  · intro c id p hk
    refine (h.inserts c id p hk).imp_left fun hne he => hne (hhas c (h.creates c ?_) he)
    rw [hk]
    rfl
  · exact h.diskFlag
  · intro c hk
    obtain ⟨hca, hf⟩ := h.diskHandOff c hk
    exact ⟨hca, fun he => hflag (hhas a ha he) (hf (hhas a ha he))⟩
  · exact fun hsw he => hflag (hhas a ha he) (h.switching hsw (hhas a ha he))

theorem Linked.has_p (h : Linked b s) {c : SId} {q : PId} (hq : (s.sched c).p = some q) : c = b ∧ q = 0 := by
  rw [h.bound] at hq
  split at hq
  · rename_i hc
    cases hq
    exact ⟨hc, rfl⟩
  · cases hq

theorem Linked.busy (h : Linked b s) (hc : (s.sched a).curUthread = some u) : a ∉ s.schedIdle := by
  intro ha
  rw [(h.idle a ha).2] at hc
  cases hc

theorem Linked.lt_of_cur (h : Linked b s) (hc : (s.sched a).curUthread = some u) : u < s.heap :=
  h.points u (.inl ⟨a, hc⟩)

/-- The p stays where it is. -/
theorem Linked.next (h : Linked b s) (hk : Kept s s') (hidle : s'.schedIdle = s.schedIdle)
    (hbound : ∀ c, (s'.sched c).p = (s.sched c).p)
    (hcur : ∀ c ∈ s.schedIdle, (s'.sched c).curUthread = none)
    (htid : (s'.p 0).tid = b ∨ ((s'.sched b).pc = .another ∧ (s'.sched b).curUthread = none))
    (hnode : ∀ pos n, n ∈ s'.timer.slot pos → n.ut < s.heap ∧
      ((s'.ut n.ut).isWatingYieldSignal = true → (s'.sched b).curUthread = some n.ut)) : Linked b s' := by
  constructor
  · intro v hv
    rw [hk.heap]
    exact h.points v (hk.points v hv)
  · intro v hv
    rw [hk.home]
    exact h.home v (hk.heap ▸ hv)
  · intro c hc
    rw [hidle] at hc
    exact ⟨(h.idle c hc).1, hcur c hc⟩
  · rw [hidle]
    exact h.nodup
  · intro c
    rw [hbound]
    exact h.bound c
  · intro q
    rw [hk.sched]
    exact h.sched q
  · exact htid
  · intro pos n hn
    rw [hk.heap]
    exact (hnode pos n hn).1
  · exact fun pos n hn => (hnode pos n hn).2

/-- Nobody comes or goes, and flags are cleared. -/
theorem Linked.quiet (h : Linked b s) (hk : Kept s s') (hth : SameThreads s s')
    (hflag : ∀ v < s.heap, (s'.ut v).isWatingYieldSignal = true → (s.ut v).isWatingYieldSignal = true)
    (hnode : ∀ pos n, n ∈ s'.timer.slot pos → ∃ m ∈ s.timer.slot pos, m.ut = n.ut) : Linked b s' := by
  refine h.next hk hth.idle hth.bound (fun c hc => ?_) ?_ fun pos n hn => ?_
  · rw [hth.cur]
    exact (h.idle c hc).2
  · rw [hth.tid, hth.pc, hth.cur]
    exact h.tid
  · obtain ⟨m, hm, hu⟩ := hnode pos n hn
    have hlt := h.node_lt pos m hm
    rw [← hu, hth.cur]
    exact ⟨hlt, fun hf => h.node pos m hm (hflag _ hlt hf)⟩

theorem Call.head_resting (c : Call) : c.head.Resting s :=
  .of_plain c.head_unwired (by cases c <;> rfl)

/-! ### Statements -/

/-- `uthread_create` reads the p of the sched it has fetched. -/
theorem Stmt.inserts {r : Reply} {c : SId} {id : Nat} {p : Option PId} (hs : Stmt a u r s s')
    (hctx : (s'.ut u).ctx = .create c (.insert id p)) : p = (s.sched c).p := by
  have hgoto : ∀ {k : Ctx} {s₀ : State}, ((goto u k s₀).ut u).ctx = .create c (.insert id p) →
      k = .create c (.insert id p) := by
    intro k s₀ h
    rw [goto_ctx] at h
    exact h
  have hret : ∀ {x : Int} {s₀ : State}, ((returns a u x s₀).ut u).ctx ≠ .create c (.insert id p) := by
    intro x s₀
    rw [returns_ctx]
    simp
  cases hs with
  | own _ hown => cases hown.fetched.symm.trans (congrArg Ctx.fetched (hgoto hctx))
  | moves hm =>
    have hk := hgoto hctx
    generalize (s.ut u).ctx = k at hm
    cases hm with
    | bind =>
      cases hk
      rfl
    | _ => cases hk
  | io _ _ hk => cases hk.fetched.symm.trans (congrArg Ctx.fetched (hgoto hctx))
  | switch _ hk hsw =>
    rw [(AllSeen.switched hsw u).ctx] at hctx
    cases hk.fetched.symm.trans (congrArg Ctx.fetched (hgoto hctx))
  | ioReturns _ _ | joinFails _ | joinExited _ _ | resetRetval _ | joinFree _ | allocFails _ _
  | created _ _ | diskCall _ _ => exact absurd hctx hret
  | _ => cases hgoto hctx

/-- The code goes on, and no p changes hands. -/
theorem CodeOk.stmt {r : Reply} (hok : CodeOk b s a u (s.ut u).ctx) (h : Linked b s)
    (hc : (s.sched a).curUthread = some u) (hsw : (s.ut u).ctx.switching = false) (hs : Stmt a u r s s')
    (hidle : s'.schedIdle = s.schedIdle) : CodeOk b s' a u (s'.ut u).ctx := by
  have hcreates : ∀ c, (s'.ut u).ctx.createsOn = some c → c ∉ s'.schedIdle := by
    intro c hf
    rw [hidle]
    rcases hs.createsOn hf with hk | ⟨rfl, -⟩
    · exact hok.creates c hk
    · exact h.busy hc
  have hinserts : ∀ c id p, (s'.ut u).ctx = .create c (.insert id p) → c ≠ b ∨ p = some 0 := by
    intro c id p hk
    by_cases hcb : c = b
    · right
      rw [hs.inserts hk, h.bound, if_pos hcb]
    · exact .inl hcb
  rcases hs.wiring hsw with hun | hsw' | rfl | ⟨c, v, hctx, hcur, rfl⟩
  · refine ⟨hcreates, hinserts, fun c hk => absurd hk (hun.diskFlag c),
      fun c hk => absurd hk (hun.diskHandOff c), fun hsw' => ?_⟩
    rw [hun.switching] at hsw'
    cases hsw'
  · refine ⟨hcreates, hinserts, fun c hk => ?_, fun c hk => ?_, fun _ _ => hs.switching hsw hsw'⟩
    · rw [hk] at hsw'
      cases hsw'
    · rw [hk] at hsw'
      cases hsw'
  · rw [goto_ctx] at hcreates hinserts ⊢
    refine ⟨hcreates, hinserts, fun c hk => ?_, fun c hk => (by cases hk), fun hsw' => by cases hsw'⟩
    cases hk
    rfl
  · -- the flag it clears is its own
    obtain rfl := hok.diskFlag c hctx
    obtain rfl := Option.some.inj (hcur.symm.trans hc)
    rw [goto_ctx] at hcreates hinserts ⊢
    refine ⟨hcreates, hinserts, fun c hk => (by cases hk), fun c hk => ?_, fun hsw' => by cases hsw'⟩
    cases hk
    refine ⟨rfl, fun _ => ?_⟩
    rw [goto_flag, setUt_ut_self]

/-- The p goes to a sched that was idle. -/
theorem Linked.handOff (h : Linked b s) {n : SId} {rest : List SId} (hf : ∀ v, (s.sched b).curUthread = some v →
    (s.ut v).isWatingYieldSignal = false) (hidle : s.schedIdle = n :: rest) :
    Linked n (goto u .diskCall (handedOff b n 0 rest s)) := by
  obtain ⟨hnb, hncur⟩ := h.idle n (by rw [hidle]; exact List.mem_cons_self)
  have hnodup : (n :: rest).Nodup := by
    rw [← hidle]
    exact h.nodup
  have hsched : ∀ c, (goto u .diskCall (handedOff b n 0 rest s)).sched c =
      if c = b then {s.sched b with p := none}
      else if c = n then {s.sched n with p := some 0, pc := .another} else s.sched c :=
    handedOff_sched hnb
  have hcur : ∀ c, ((goto u .diskCall (handedOff b n 0 rest s)).sched c).curUthread =
      (s.sched c).curUthread := handedOff_cur
  have hp : ∀ q, (goto u .diskCall (handedOff b n 0 rest s)).p q =
      if q = 0 then {s.p 0 with sched := some n} else s.p q := handedOff_p (c := b)
  have hut : ∀ {α : Type} (field : Uthread → α), (∀ v k, field {v with ctx := k} = field v) → ∀ v,
      field ((goto u .diskCall (handedOff b n 0 rest s)).ut v) = field (s.ut v) := by
    intro α field hfield v
    exact setUt_keeps field (hfield _ _) v
  constructor
  · exact fun v hv => h.points v (handedOff_points hv)
  · intro v hv
    rw [hut Uthread.p fun _ _ => rfl]
    exact h.home v hv
  · intro c hc
    rw [hcur]
    refine ⟨?_, (h.idle c (by rw [hidle]; exact List.mem_cons_of_mem n hc)).2⟩
    rintro rfl
    exact (List.nodup_cons.mp hnodup).1 hc
  · exact (List.nodup_cons.mp hnodup).2
  · intro c
    rw [hsched]
    split
    · rename_i hcb
      rw [if_neg (hcb ▸ hnb.symm)]
    · rename_i hcb
      split
      · rfl
      · rw [h.bound, if_neg hcb]
  · intro q
    rw [hp]
    split
    · rfl
    · rename_i hq
      rw [h.sched, if_neg hq]
  · right
    rw [hcur, hsched, if_neg hnb, if_pos rfl]
    exact ⟨rfl, hncur⟩
  · exact h.node_lt
  · intro pos m hm hfm
    rw [hut Uthread.isWatingYieldSignal fun _ _ => rfl] at hfm
    rw [hf m.ut (h.node pos m hm hfm)] at hfm
    cases hfm

theorem Linked.created (h : Linked b s) (id : Nat) : Linked b (created 0 id (some 0) s) := by
  have hold : ∀ {v : UId}, v < s.heap → (UthreadRuntime.created 0 id (some 0) s).ut v = s.ut v :=
    fun hv => created_ut_of_lt hv
  have hp : ∀ {α : Type} (field : P → α), (∀ v l, field {v with ready := l} = field v) → ∀ r,
      field ((UthreadRuntime.created 0 id (some 0) s).p r) = field (s.p r) := by
    intro α field hfield r
    rw [created_p]
    split
    · rename_i hr
      rw [hr]
      exact hfield _ _
    · rfl
  constructor
  · intro v hv
    show v < s.heap + 1
    rcases created_points hv with hv | hv
    · exact Nat.lt_succ_of_lt (h.points v hv)
    · exact Nat.lt_succ_of_le (Nat.le_of_eq hv)
  · intro v hv
    rcases Nat.lt_succ_iff_lt_or_eq.mp hv with hlt | rfl
    · rw [hold hlt]
      exact h.home v hlt
    · show (Function.update s.ut s.heap _ s.heap).p = some 0
      rw [Function.update_self]
  · exact h.idle
  · exact h.nodup
  · exact h.bound
  · intro q
    rw [hp P.sched fun _ _ => rfl]
    exact h.sched q
  · rw [hp P.tid fun _ _ => rfl]
    exact h.tid
  · exact fun pos n hn => Nat.lt_succ_of_lt (h.node_lt pos n hn)
  · intro pos n hn hf
    rw [hold (h.node_lt pos n hn)] at hf
    exact h.node pos n hn hf

/-- **A statement gives the p to an idle sched, or leaves it where it is.** -/
theorem Linked.stmt {r : Reply} (h : Linked b s) (hok : CodeOk b s a u (s.ut u).ctx)
    (hc : (s.sched a).curUthread = some u) (hsw : (s.ut u).ctx.switching = false) (hs : Stmt a u r s s') :
    ∃ b', Passes b b' s s' ∧ CodeOk b' s' a u (s'.ut u).ctx := by
  have hsig := hs.signals hc hsw
  have hover : HandsOver u s s' → ∃ b', Passes b b' s s' ∧ CodeOk b' s' a u (s'.ut u).ctx := by
    rintro ⟨c, q, n, rest, hctx, hq, -, hidle, rfl⟩
    obtain ⟨rfl, rfl⟩ := h.has_p hq
    -- the uthread on the sched is the one that hands off
    obtain ⟨rfl, hf⟩ := hok.diskHandOff c hctx
    refine ⟨n, ⟨h.handOff (fun v hv => ?_) hidle, .inr ?_, fun d hd => ?_⟩, ?_⟩
    · rw [Option.some.inj (hv.symm.trans hc)]
      exact hf rfl
    · rw [hidle]
      exact List.mem_cons_self
    · rw [hidle]
      exact List.mem_cons_of_mem n hd
    · rw [goto_ctx]
      exact (Ctx.Resting.of_plain ⟨rfl, by simp, by simp⟩ rfl).codeOk
  rcases hs.frame with hstill | hhand
  · have hcode := hok.stmt h hc hsw hs hstill.idle
    have hpass : Linked b s' → ∃ b', Passes b b' s s' ∧ CodeOk b' s' a u (s'.ut u).ctx :=
      fun hl => ⟨b, ⟨hl, .inl rfl, fun c hc => hstill.idle ▸ hc⟩, hcode⟩
    rcases hs.kept (.inl ⟨a, hc⟩) with hk | hhand | ⟨c, id, p, q, hctx, hq, rfl⟩
    · refine hpass (h.quiet hk ⟨hsig.cur, hstill.bound, hstill.pc, hstill.idle, hsig.tid⟩ (fun v hv hf => ?_)
        fun pos n hn => ⟨n, hs.timer ▸ hn, rfl⟩)
      rcases hsig.flag v hv with hsame | ⟨hfalse, -⟩
      · rw [← hsame]
        exact hf
      · rw [hfalse] at hf
        cases hf
    · exact hover hhand
    · obtain ⟨rfl, rfl⟩ := h.has_p hq
      obtain rfl : p = some 0 := (hok.inserts c id p hctx).resolve_left fun hne => hne rfl
      refine hpass ((h.created id).quiet (.returns (.refl _) 0)
        ⟨fun _ => rfl, fun _ => rfl, fun _ => rfl, rfl, fun _ => rfl⟩ (fun v _ hf => ?_) fun pos n hn => ⟨n, hn, rfl⟩)
      rw [returns_flag] at hf
      exact hf
  · exact hover hhand

/-- A call of user code. -/
theorem Linked.enter {c : Call} (h : Linked b s) (hs : Entered a u s c s') : Linked b s' := by
  refine h.quiet hs.kept hs.threads (fun v _ hf => ?_) fun pos n hn => ⟨n, ?_, rfl⟩
  · rw [hs.flag] at hf
    exact hf
  · cases hs <;> exact hn

/-- A uthread whose flag is cleared leaves its thread, or one without a p does. -/
theorem Linked.leave (h : Linked b s) (hc : (s.sched a).curUthread = some u)
    (hf : a = b → (s.ut u).isWatingYieldSignal = false) (hs : uthreadSwitched a u s = .ok s') : Linked b s' := by
  have hsig := switched_signals hs
  have hstill : Still a s s' := Still.switched hs
  have hcur : ∀ d, (s'.sched d).curUthread = if d = a then none else (s.sched d).curUthread :=
    fun d => (hsig.cur d).trans (idleCpu_cur d)
  refine h.next ((Kept.refl s).switched (.inl ⟨a, hc⟩) hs) hstill.idle hstill.bound (fun c hci => ?_) ?_
    fun pos n hn => ?_
  · rw [hcur]
    split
    · rfl
    · exact (h.idle c hci).2
  · rw [hsig.tid, hstill.pc, hcur]
    rcases h.tid with ht | ⟨hpc, hn⟩
    · exact .inl ht
    · refine .inr ⟨hpc, ?_⟩
      split
      · rfl
      · exact hn
  · have htimer : s'.timer = s.timer := hsig.timer
    rw [htimer] at hn
    refine ⟨h.node_lt pos n hn, fun hfn => ?_⟩
    have hfn' : (s.ut n.ut).isWatingYieldSignal = true := (hsig.flag n.ut).symm.trans hfn
    have hon := h.node pos n hn hfn'
    rw [hcur, if_neg, hon]
    rintro rfl
    rw [Option.some.inj (hon.symm.trans hc), hf rfl] at hfn'
    cases hfn'

/-! ### Schedulers -/

/-- A thread starts, and tells its p. -/
theorem Linked.start (h : Linked b s) {q : PId} (hq : (s.sched a).p = some q) :
    Linked b (setPc a .top (s.setP q fun v => {v with tid := a})) := by
  obtain ⟨rfl, rfl⟩ := h.has_p hq
  have hk : Kept s (setPc a .top (s.setP 0 fun v => {v with tid := a})) :=
    ((Kept.refl s).setP_same rfl rfl rfl rfl).setSched_same rfl
  have hcur : ∀ d, ((setPc a .top (s.setP 0 fun v => {v with tid := a})).sched d).curUthread =
      (s.sched d).curUthread := setSched_keeps Sched.curUthread rfl
  refine h.next hk rfl (setSched_keeps Sched.p rfl) (fun c hci => ?_) (.inl ?_) fun pos n hn => ?_
  · rw [hcur]
    exact (h.idle c hci).2
  · unfold setPc
    rw [setSched_p, setP_p_self]
  · rw [hcur]
    exact ⟨h.node_lt pos n hn, h.node pos n hn⟩

/-- The scheduler goes on without taking a uthread. -/
theorem Linked.turn (h : Linked b s) {r : Reply} (hs : SchedStep a r s s') (hsig : SameSignals s s')
    (hpc : (s.sched a).pc ≠ .another) : Linked b s' := by
  refine h.next hs.kept hsig.idle hsig.bound (fun c hci => ?_) ?_ fun pos n hn => ?_
  · rw [hsig.cur]
    exact (h.idle c hci).2
  · rw [hsig.tid, hsig.cur]
    refine h.tid.imp_right fun hn => ⟨(hs.toLocal.pc b ?_).trans hn.1, hn.2⟩
    rintro rfl
    exact hpc hn.1
  · rw [hsig.timer] at hn
    rw [hsig.flag, hsig.cur]
    exact ⟨h.node_lt pos n hn, h.node pos n hn⟩

/-- A uthread is taken. The thread has the p, so no other thread runs a uthread with a node whose
flag is set. -/
theorem Linked.resume (h : Linked b s) {r : Reply} {k : SchedAt} {s₁ : State} (hc : (s.sched a).curUthread = none)
    (hs : SchedStep a r s (uthreadResume a u k s₁)) (hsig : SameSignals s s₁) :
    Linked b (uthreadResume a u k s₁) := by
  have hself : ((uthreadResume a u k s₁).sched a).curUthread = some u := uthreadResume_cur a u k s₁
  have hl := hs.toLocal
  obtain ⟨⟨q, hq⟩, hpc⟩ := hs.takes hc hself
  obtain ⟨rfl, -⟩ := h.has_p hq
  have hu : u < s.heap := h.points u (hs.kept.points u (.inl ⟨a, hself⟩))
  refine h.next hs.kept hl.idle hl.bound (fun c hci => ?_) (.inl ?_) fun pos n hn => ?_
  · rw [hl.cur c (h.idle c hci).1]
    exact (h.idle c hci).2
  · rw [(uthreadResume_p a u k s₁).1, hsig.tid]
    exact h.tid.resolve_right fun hn => hpc hn.1
  · rw [uthreadResume_timer, hsig.timer] at hn
    rw [hself]
    by_cases hnu : n.ut = u
    · rw [hnu]
      exact ⟨hu, fun _ => rfl⟩
    · have hold := (mem_of_addTimer hn).resolve_left hnu
      refine ⟨h.node_lt pos n hold, fun hf => ?_⟩
      rw [uthreadResume_flag, if_neg hnu, hsig.flag] at hf
      have hon := h.node pos n hold hf
      rw [hc] at hon
      cases hon

/-- **A scheduler leaves the p where it is.** -/
theorem Linked.schedStep (h : Linked b s) {r : Reply} (hc : (s.sched a).curUthread = none)
    (hs : SchedStep a r s s') : Linked b s' := by
  by_cases hpc : (s.sched a).pc = .another
  · obtain ⟨q, hq, rfl⟩ := hs.starts hpc
    exact h.start hq
  · rcases SameSignals.untimed.schedStep hs with hsig | ⟨u, k, s₁, hsig, rfl⟩ | ⟨q, hpc', -⟩
    · exact h.turn hs hsig hpc
    · exact h.resume hc hs hsig
    · exact absurd hpc' hpc

/-- A scheduler sets the flag of a uthread only when it has the p. -/
theorem Linked.sched_flag (h : Linked b s) {r : Reply} (hc : (s.sched a).curUthread = none)
    (hs : SchedStep a r s s') {v : UId} (hf : (s.ut v).isWatingYieldSignal = false) :
    (s'.ut v).isWatingYieldSignal = false ∨ a = b := by
  obtain ⟨-, -, ⟨hsame, -⟩ | ⟨u, hu, -, -⟩⟩ := sched_signals hs
  · exact .inl ((hsame v).trans hf)
  · obtain ⟨⟨q, hq⟩, -⟩ := hs.takes hc hu
    exact .inr (h.has_p hq).1

/-- A scheduler leaves the saved contexts alone, but for that of a new uthread. -/
theorem SchedStep.saved {r : Reply} (hs : SchedStep a r s s') (v : UId) :
    (s'.ut v).ctx = (s.ut v).ctx ∨ (s'.ut v).ctx = .user := by
  rcases SameSignals.untimed.schedStep hs with hsig | ⟨u, k, s₁, hsig, rfl⟩ | ⟨q, -, -, rfl⟩
  · exact .inl (hsig.ctx v)
  · rw [← hsig.ctx v]
    unfold uthreadResume
    dsimp only
    rw [setUt_keeps Uthread.ctx rfl, setSched_ut]
    split
    · unfold uthreadInit
      rw [setUt_ut]
      split
      · exact .inr rfl
      · exact .inl rfl
    · exact .inl rfl
  · exact .inl rfl

theorem Linked.goto (h : Linked b s) (u : UId) (k : Ctx) : Linked b (goto u k s) := by
  refine h.quiet ((Kept.refl s).goto k) ⟨fun _ => rfl, fun _ => rfl, fun _ => rfl, rfl, fun _ => rfl⟩
    (fun v _ hf => ?_) fun pos n hn => ⟨n, hn, rfl⟩
  rw [goto_flag] at hf
  exact hf

theorem CodeOk.goto {k : Ctx} (h : CodeOk b s a u k) (ha : a ∉ s.schedIdle) (v : UId) (k' : Ctx) :
    CodeOk b (goto v k' s) a u k :=
  h.keep (fun _ hc => hc) (.inl rfl) ha fun _ hf => (goto_flag k' s u).trans hf

theorem Linked.initial : Linked 0 init := by
  constructor
  · rintro u (⟨a, hc⟩ | ⟨q, hq⟩ | ⟨t, ht⟩)
    · rw [init_cur] at hc
      cases hc
    · obtain ⟨hsl, hw, -⟩ := init_links q
      rw [hsl, hw] at hq
      rcases hq with hr | hr | hr
      · rw [(init_ready hr).2]
        exact Nat.one_pos
      · cases hr
      · cases hr
    · by_cases htu : t = 0
      · rw [htu] at ht
        cases ht
      · rw [init_ut htu] at ht
        cases ht
  · intro u hu
    obtain rfl : u = 0 := Nat.lt_one_iff.mp hu
    rfl
  · intro c hc
    refine ⟨?_, init_cur c⟩
    rintro rfl
    exact absurd hc (by decide)
  · show (List.range maxProcs).tail.Nodup
    decide
  · intro c
    split
    · rename_i hc
      rw [hc]
      rfl
    · rename_i hc
      rw [init_sched hc]
  · intro q
    split
    · rename_i hq
      rw [hq]
      rfl
    · rename_i hq
      rw [init_p hq]
  · exact .inl rfl
  · intro pos n hn
    cases hn
  · intro pos n hn
    cases hn

end State

end UthreadRuntime
