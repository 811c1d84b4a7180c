import UthreadRuntime.Timer.Flags

/-! Whom the timer wheel refers to.

Every `_uthread_resume` puts a node for its uthread one slot ahead of the hand of the wheel,
and only `tick` takes it out, with the second turn from then. Nothing takes the nodes of a
uthread out when it is freed: a uthread that ends less than two ticks after it was resumed
leaves a node that refers to freed memory, and `tick` reads it. -/
namespace UthreadRuntime

open State

/-! ### The wheel in a step -/

section Step

variable {s s' : State} {a : SId} {u : UId}

theorem switched_timer (hs : uthreadSwitched a u s = .ok s') : s'.timer = s.timer :=
  (switched_signals hs).timer

theorem uthreadResume_timer (a : SId) (u : UId) (k : SchedAt) (s : State) :
    (uthreadResume a u k s).timer = addTimer 1 u s.timer := by
  unfold uthreadResume
  dsimp only
  split <;> rfl

theorem Stmt.timer {r : Reply} (hs : Stmt a u r s s') : s'.timer = s.timer := by
  cases hs with
  | io _ h₀ _ | ioReturns _ h₀ | diskCall _ h₀ => rcases h₀ with rfl | ⟨e, rfl⟩ <;> rfl
  | switch _ _ hsw => exact (switched_timer hsw).trans rfl
  | store _ =>
    rw [storeRetval_eq]
    rfl
  | _ => rfl

/-- The scheduler takes a uthread, which gets a node and its flag, or it takes nobody. -/
theorem SchedStep.timer {r : Reply} (hs : SchedStep a r s s') (hc : (s.sched a).curUthread = none) :
    (s'.timer = s.timer ∧ (s'.sched a).curUthread = none) ∨
    ∃ u, (s'.sched a).curUthread = some u ∧ s'.timer = addTimer 1 u s.timer ∧
      (s'.ut u).isWatingYieldSignal = true := by
  rcases SameSignals.untimed.schedStep hs with h | ⟨u, k, s₁, h, rfl⟩ | ⟨q, -, -, rfl⟩
  · exact .inl ⟨h.timer, (h.cur a).trans hc⟩
  · refine .inr ⟨u, uthreadResume_cur a u k s₁, ?_, ?_⟩
    · rw [uthreadResume_timer, h.timer]
    · rw [uthreadResume_flag, if_pos rfl]
  · exact .inl ⟨rfl, (setSched_keeps Sched.curUthread rfl a).trans hc⟩

/-- **A node is added when a uthread is resumed**, and by nothing else of the runtime. -/
theorem step_timer {act : Act} (hs : step s act = .ok s') :
    s'.timer = s.timer ∨
    ∃ a r u, act = .sched a r ∧ (s'.sched a).curUthread = some u ∧ s'.timer = addTimer 1 u s.timer := by
  cases step_ok hs with
  | call _ _ hent => cases hent <;> exact .inl rfl
  | stmt _ hstmt => exact .inl hstmt.timer
  | preempt _ _ hsw => exact .inl ((switched_timer hsw).trans rfl)
  | @sched a r s' hc hsched =>
    rcases hsched.timer hc with ⟨ht, -⟩ | ⟨u, hu, ht, -⟩
    · exact .inl ht
    · exact .inr ⟨a, r, u, rfl, hu, ht⟩

/-- A statement that is no switch frees nobody. -/
theorem Stmt.life {r : Reply} (hs : Stmt a u r s s') (hsw : (s.ut u).ctx.switching = false) {v : UId}
    (hv : v < s.heap) : (s'.ut v).life = (s.ut v).life := by
  have herr : ∀ {s₀ : State}, (s₀ = s ∨ ∃ e, s₀ = setErrno a e s) → s₀.ut = s.ut := by
    rintro s₀ (rfl | ⟨e, rfl⟩) <;> rfl
  cases hs with
  | own _ hown => rw [goto_life, setUt_keeps Uthread.life (hown.life _)]
  | io _ h₀ _ => rw [goto_life, herr h₀]
  | ioReturns _ h₀ => rw [returns_life, herr h₀]
  | diskCall _ h₀ => rw [returns_life, herr h₀]
  | switch hctx hk _ =>
    rw [hctx] at hsw
    cases hk <;> cases hsw
  | store _ =>
    rw [goto_life, storeRetval_ut]
  | created _ _ => rw [returns_life, created_ut_of_lt hv]
  | publish _ | setRetval _ | unpublish _ | diskFlag _ _ => rw [goto_life, setUt_keeps Uthread.life rfl]
  | resetRetval _ => rw [returns_life, setUt_keeps Uthread.life rfl]
  | joinFails _ | joinExited _ _ | joinFree _ | allocFails _ _ => exact returns_life _ v
  | moves _ | linkSleeping _ _ _ | watch _ _ _ | linkWaiting _ _ | lock _ _ | count _ | unlock _
  | handOff _ _ _ _ => exact goto_life _ v

end Step

/-- A uthread that has exited is taken back by its scheduler only when two ticks have passed
since it was resumed. -/
def Lingers (s : Ticking) (act : TickAct) : Prop :=
  ∀ a u, act = .back a → (s.rt.sched a).curUthread = some u → (s.rt.ut u).status.has .exited = true →
    2 ≤ s.since u

/-- A live uthread stays, or its scheduler takes it back. -/
theorem TickStep.life {s s' : Ticking} {act : TickAct} (h : TickStep s act s') (hsnd : Sound s.rt)
    {v : UId} (hv : v < s.rt.heap) : (s'.rt.ut v).life = (s.rt.ut v).life ∨
      ∃ a, act = .back a ∧ (s.rt.sched a).curUthread = some v ∧ (s.rt.ut v).status.has .exited = true := by
  cases h with
  | call _ hs =>
    cases step_ok hs with
    | call _ _ hent =>
      left
      cases hent with
      | goes _ _ _ => rw [goto_life, entered_life]
      | detach _ => rw [returns_life, setUt_keeps Uthread.life rfl, entered_life]
      | close => rw [returns_life, closeFd_ut, entered_life]
  | stmt _ hc hsw hs =>
    cases step_ok hs with
    | stmt hc' hstmt =>
      rw [Option.some.inj (hc.symm.trans hc')] at hsw
      exact .inl (hstmt.life hsw hv)
  | @sched a r _ _ hs _ =>
    rcases step_life hsnd hs hv with hl | ⟨-, -, hns, -⟩
    · exact .inl hl
    · exact absurd rfl (hns a r)
  | @resume a r _ _ _ hs _ =>
    rcases step_life hsnd hs hv with hl | ⟨-, -, hns, -⟩
    · exact .inl hl
    · exact absurd rfl (hns a r)
  | enter _ _ => exact .inl rfl
  | leave _ _ _ => exact .inl rfl
  | @back a _ _ hs =>
    rcases step_life hsnd hs hv with hl | ⟨-, he, -, hc⟩
    · exact .inl hl
    · exact .inr ⟨a, rfl, hc, he⟩
  | @interrupted a _ _ _ hc hs =>
    rcases uthreadSwitched_marks hs v with hm | ⟨rfl, he, -⟩
    · exact .inl (congrArg Marks.life hm)
    · exact .inr ⟨a, rfl, hc, he⟩
  | deliver _ _ _ =>
    left
    dsimp only
    rw [setUt_keeps Uthread.life rfl]
  | tick _ => exact .inl rfl

/-! ### The nodes -/

theorem tickSlot_kept {l : List TimerNode} (h : ∀ n ∈ l, n.rotation = 0) : (tickSlot l).1 = [] := by
  induction l with
  | nil => rfl
  | cons n rest ih =>
    have hn : ¬n.rotation > 0 := by
      rw [h n List.mem_cons_self]
      exact Nat.lt_irrefl 0
    simp only [tickSlot, if_neg hn]
    exact ih fun m hm => h m (List.mem_cons_of_mem n hm)

theorem mem_of_tickSlot_due {l : List TimerNode} {u : UId} (h : u ∈ (tickSlot l).2) : ∃ n ∈ l, n.ut = u := by
  induction l with
  | nil => cases h
  | cons n rest ih =>
    have hrest : u ∈ (tickSlot rest).2 → ∃ m ∈ n :: rest, m.ut = u := by
      intro hu
      obtain ⟨m, hm, hmu⟩ := ih hu
      exact ⟨m, List.mem_cons_of_mem n hm, hmu⟩
    simp only [tickSlot] at h
    split at h
    · exact hrest h
    · rcases List.mem_cons.mp h with hu | hu
      · exact ⟨n, List.mem_cons_self, hu.symm⟩
      · exact hrest hu

theorem mem_of_tickSlot_kept {l : List TimerNode} {n : TimerNode} (h : n ∈ (tickSlot l).1) :
    ∃ m ∈ l, m.ut = n.ut := by
  induction l with
  | nil => cases h
  | cons m rest ih =>
    have hrest : n ∈ (tickSlot rest).1 → ∃ m' ∈ m :: rest, m'.ut = n.ut := by
      intro hn
      obtain ⟨m', hm', hu⟩ := ih hn
      exact ⟨m', List.mem_cons_of_mem m hm', hu⟩
    simp only [tickSlot] at h
    split at h
    · rcases List.mem_cons.mp h with rfl | hn
      · exact ⟨m, List.mem_cons_self, rfl⟩
      · exact hrest hn
    · exact hrest h

theorem mem_of_turned {w : TimerWheel} {pos : Nat} {n : TimerNode} (h : n ∈ w.turned.slot pos) :
    ∃ m ∈ w.slot pos, m.ut = n.ut := by
  unfold TimerWheel.turned at h
  dsimp only at h
  by_cases hpos : pos = w.current
  · rw [hpos, Function.update_self] at h
    rw [hpos]
    exact mem_of_tickSlot_kept h
  · rw [Function.update_of_ne hpos] at h
    exact ⟨n, h, rfl⟩

theorem mem_of_addTimer {len : Nat} {u : UId} {w : TimerWheel} {pos : Nat} {n : TimerNode}
    (h : n ∈ (addTimer len u w).slot pos) : n.ut = u ∨ n ∈ w.slot pos := by
  unfold addTimer at h
  dsimp only at h
  by_cases hpos : pos = (len + w.current) % timeWheelSize
  · rw [← hpos, Function.update_self] at h
    rcases List.mem_cons.mp h with rfl | hn
    · exact .inl rfl
    · exact .inr hn
  · rw [Function.update_of_ne hpos] at h
    exact .inr h

/-- A uthread is resumed and gets a node, or the hand moves on, or the wheel stays as it is. -/
theorem TickStep.timer {s s' : Ticking} {act : TickAct} (h : TickStep s act s') :
    (s'.rt.timer = s.rt.timer ∧ s'.since = s.since) ∨
    (∃ a r u, act = .run (.sched a r) ∧ step s.rt (.sched a r) = .ok s'.rt ∧
      (s'.rt.sched a).curUthread = some u ∧ s'.rt.timer = addTimer 1 u s.rt.timer ∧
      s'.since = Function.update s.since u 0 ∧ (s'.rt.ut u).isWatingYieldSignal = true) ∨
    (s'.rt.timer = s.rt.timer.turned ∧ s'.since = fun u => s.since u + 1) := by
  have hbase : ∀ {b : Act} {rt : State}, UthreadRuntime.step s.rt b = .ok rt →
      (∀ a r, b = .sched a r → (rt.sched a).curUthread = none) → rt.timer = s.rt.timer := by
    intro b rt hb hnone
    rcases step_timer hb with ht | ⟨a, r, u, hact, hc, -⟩
    · exact ht
    · rw [hnone a r hact] at hc
      cases hc
  cases h with
  | call _ hb => exact .inl ⟨hbase hb (fun a r he => by cases he), rfl⟩
  | stmt _ _ _ hb => exact .inl ⟨hbase hb (fun a r he => by cases he), rfl⟩
  | sched _ hb hc =>
    refine .inl ⟨hbase hb fun a r he => ?_, rfl⟩
    cases he
    exact hc
  | @resume a r u rt _ hb hc =>
    cases step_ok hb with
    | sched hidle hsched =>
      rcases hsched.timer hidle with ⟨-, hnone⟩ | ⟨v, hv, ht, hf⟩
      · rw [hnone] at hc
        cases hc
      · cases hc.symm.trans hv
        exact .inr (.inl ⟨a, r, u, rfl, hb, hc, ht, rfl, hf⟩)
  | enter _ _ => exact .inl ⟨rfl, rfl⟩
  | leave _ _ _ => exact .inl ⟨rfl, rfl⟩
  | back _ hb => exact .inl ⟨hbase hb (fun a r he => by cases he), rfl⟩
  | interrupted _ _ hb => exact .inl ⟨switched_timer hb, rfl⟩
  | deliver _ _ _ => exact .inl ⟨rfl, rfl⟩
  | tick _ => exact .inr (.inr ⟨rfl, rfl⟩)

/-- The nodes of a slice are one slot ahead of the hand, in the tick it began in, or under the
hand, a tick later. A uthread that was resumed again may have a node of an older slice there:
`low` is the least number of ticks since the last resume. -/
structure Dated (low : Nat) (s : Ticking) : Prop where
  current : s.rt.timer.current < timeWheelSize
  rotation : ∀ pos n, n ∈ s.rt.timer.slot pos → n.rotation = 0
  place : ∀ pos n, n ∈ s.rt.timer.slot pos →
    (pos = (s.rt.timer.current + 1) % timeWheelSize ∧ s.since n.ut = 0) ∨
    (pos = s.rt.timer.current ∧ low ≤ s.since n.ut ∧ s.since n.ut ≤ 1)

/-- No node of the uthread is under the hand. -/
def TimerWheel.Past (w : TimerWheel) (u : UId) : Prop := ∀ n ∈ w.slot w.current, n.ut ≠ u

section Dated

variable {low : Nat} {s s' : Ticking} {act : TickAct}

theorem Dated.same (h : Dated low s) (htimer : s'.rt.timer = s.rt.timer) (hsince : s'.since = s.since) :
    Dated low s' := by
  constructor
  · rw [htimer]
    exact h.current
  · rw [htimer]
    exact h.rotation
  · rw [htimer, hsince]
    exact h.place

/-- The slice of `u` begins. -/
theorem Dated.restarted (h : Dated low s) {u : UId} (hu : low = 0 ∨ s.rt.timer.Past u) {pos : Nat}
    {n : TimerNode} (hn : n ∈ s.rt.timer.slot pos) :
    (pos = (s.rt.timer.current + 1) % timeWheelSize ∧ Function.update s.since u 0 n.ut = 0) ∨
    (pos = s.rt.timer.current ∧ low ≤ Function.update s.since u 0 n.ut ∧
      Function.update s.since u 0 n.ut ≤ 1) := by
  by_cases hnu : n.ut = u
  · rw [hnu, Function.update_self]
    rcases h.place pos n hn with ⟨hpos, -⟩ | ⟨hpos, -, -⟩
    · exact .inl ⟨hpos, rfl⟩
    · have hlow : low = 0 := hu.resolve_right fun hpast => hpast n (hpos ▸ hn) hnu
      exact .inr ⟨hpos, Nat.le_of_eq hlow, Nat.zero_le 1⟩
  · rw [Function.update_of_ne hnu]
    exact h.place pos n hn

/-- A uthread is resumed: it gets a node, and its older ones stay. -/
theorem Dated.resume (h : Dated low s) {u : UId} (hu : low = 0 ∨ s.rt.timer.Past u)
    (htimer : s'.rt.timer = addTimer 1 u s.rt.timer) (hsince : s'.since = Function.update s.since u 0) :
    Dated low s' := by
  have hcur : s'.rt.timer.current = s.rt.timer.current := by
    rw [htimer]
    rfl
  have hnode : ∀ pos n, n ∈ s'.rt.timer.slot pos → n ∈ s.rt.timer.slot pos ∨
      (pos = (s.rt.timer.current + 1) % timeWheelSize ∧ n = ⟨0, u⟩) := by
    intro pos n hn
    rw [htimer] at hn
    by_cases hpos : pos = (1 + s.rt.timer.current) % timeWheelSize
    · subst hpos
      have hn' : n ∈ (⟨0, u⟩ : TimerNode) :: s.rt.timer.slot ((1 + s.rt.timer.current) % timeWheelSize) := by
        simpa [addTimer, timeWheelSize] using hn
      rcases List.mem_cons.mp hn' with hn' | hn'
      · exact .inr ⟨by rw [Nat.add_comm], hn'⟩
      · exact .inl hn'
    · left
      simpa [addTimer, Function.update_of_ne hpos] using hn
  constructor
  · rw [hcur]
    exact h.current
  · intro pos n hn
    rcases hnode pos n hn with hn | ⟨-, rfl⟩
    · exact h.rotation pos n hn
    · rfl
  · intro pos n hn
    rw [hcur, hsince]
    rcases hnode pos n hn with hn | ⟨hpos, rfl⟩
    · exact h.restarted hu hn
    · exact .inl ⟨hpos, Function.update_self _ _ _⟩

/-- The hand moves on: the slot it leaves is empty, and the next one is under it. -/
theorem Dated.tick (h : Dated low s) (hlow : low ≤ 1) (htimer : s'.rt.timer = s.rt.timer.turned)
    (hsince : s'.since = fun u => s.since u + 1) : Dated low s' := by
  have hkept : (tickSlot (s.rt.timer.slot s.rt.timer.current)).1 = [] :=
    tickSlot_kept fun n hn => h.rotation _ n hn
  have hcur : s'.rt.timer.current = (s.rt.timer.current + 1) % timeWheelSize := by
    rw [htimer]
    rfl
  have hnode : ∀ pos n, n ∈ s'.rt.timer.slot pos → pos ≠ s.rt.timer.current ∧ n ∈ s.rt.timer.slot pos := by
    intro pos n hn
    rw [htimer] at hn
    simp only [TimerWheel.turned, hkept] at hn
    by_cases hpos : pos = s.rt.timer.current
    · rw [hpos, Function.update_self] at hn
      cases hn
    · rw [Function.update_of_ne hpos] at hn
      exact ⟨hpos, hn⟩
  constructor
  · rw [hcur]
    exact Nat.mod_lt _ (by decide)
  · intro pos n hn
    exact h.rotation pos n (hnode pos n hn).2
  · intro pos n hn
    obtain ⟨hpos, hn⟩ := hnode pos n hn
    obtain ⟨hp, h0⟩ := (h.place pos n hn).resolve_right fun hp => hpos hp.1
    refine .inr ⟨hp.trans hcur.symm, ?_⟩
    rw [hsince]
    dsimp only
    rw [h0]
    exact ⟨hlow, Nat.le_refl 1⟩

theorem Dated.initial : Dated low {} := by
  refine ⟨by decide, fun pos n hn => ?_, fun pos n hn => ?_⟩
  · cases hn
  · cases hn

/-- A uthread is resumed only when no node of an older slice of it is under the hand. -/
def ResumesPast (s : Ticking) (act : TickAct) : Prop :=
  ∀ a r rt u, act = .run (.sched a r) → step s.rt (.sched a r) = .ok rt →
    (rt.sched a).curUthread = some u → s.rt.timer.Past u

theorem Dated.step (h : Dated low s) (hlow : low ≤ 1) (hpast : low = 0 ∨ ResumesPast s act)
    (hs : s.step act = .ok s') : Dated low s' := by
  rcases (tickStep_ok hs).timer with ⟨ht, hsince⟩ | ⟨a, r, u, rfl, hb, hc, ht, hsince, -⟩ | ⟨ht, hsince⟩
  · exact h.same ht hsince
  · exact h.resume (hpast.imp_right fun hp => hp a r _ u rfl hb hc) ht hsince
  · exact h.tick hlow ht hsince

end Dated

/-- Where the nodes of a uthread are: one slot ahead of the hand, in the tick it was resumed
in; or under the hand, a tick later. -/
structure NodeOk (s : Ticking) (pos : Nat) (n : TimerNode) : Prop where
  rotation : n.rotation = 0
  live : (s.rt.ut n.ut).life = .live
  place : (pos = (s.rt.timer.current + 1) % timeWheelSize ∧ s.since n.ut = 0) ∨
    (pos = s.rt.timer.current ∧ s.since n.ut ≤ 1)

structure WheelOk (s : Ticking) : Prop where
  solid : Solid s.rt
  current : s.rt.timer.current < timeWheelSize
  node : ∀ pos n, n ∈ s.rt.timer.slot pos → NodeOk s pos n

section Wheel

variable {s s' : Ticking} {act : TickAct}

theorem NodeOk.since_le {pos : Nat} {n : TimerNode} (h : NodeOk s pos n) : s.since n.ut ≤ 1 := by
  rcases h.place with ⟨-, h0⟩ | ⟨-, h1⟩
  · rw [h0]
    exact Nat.zero_le 1
  · exact h1

theorem WheelOk.dated (h : WheelOk s) : Dated 0 s where
  current := h.current
  rotation pos n hn := (h.node pos n hn).rotation
  place pos n hn := (h.node pos n hn).place.imp_right fun hp => ⟨hp.1, Nat.zero_le _, hp.2⟩

theorem Dated.wheelOk (h : Dated 0 s) (hsolid : Solid s.rt)
    (hlive : ∀ pos n, n ∈ s.rt.timer.slot pos → (s.rt.ut n.ut).life = .live) : WheelOk s where
  solid := hsolid
  current := h.current
  node pos n hn := ⟨h.rotation pos n hn, hlive pos n hn, (h.place pos n hn).imp_right fun hp => ⟨hp.1, hp.2.2⟩⟩

/-- A node was there before, or it is that of a uthread that was just resumed. -/
theorem TickStep.nodes (h : TickStep s act s') {pos : Nat} {n : TimerNode} (hn : n ∈ s'.rt.timer.slot pos) :
    (∃ n' ∈ s.rt.timer.slot pos, n'.ut = n.ut) ∨ ∃ a, (s'.rt.sched a).curUthread = some n.ut := by
  rcases h.timer with ⟨ht, -⟩ | ⟨a, r, u, -, -, hc, ht, -⟩ | ⟨ht, -⟩
  · exact .inl ⟨n, ht ▸ hn, rfl⟩
  · rcases mem_of_addTimer (ht ▸ hn) with rfl | hn'
    · exact .inr ⟨a, hc⟩
    · exact .inl ⟨n, hn', rfl⟩
  · exact .inl (mem_of_turned (ht ▸ hn))

theorem WheelOk.step (h : WheelOk s) (hcalm : CalmTick s act) (hling : Lingers s act)
    (hs : s.step act = .ok s') : WheelOk s' := by
  have hstep := tickStep_ok hs
  have hsolid := hstep.solid h.solid hcalm
  refine (h.dated.step (Nat.zero_le 1) (.inl rfl) hs).wheelOk hsolid fun pos n hn => ?_
  rcases hstep.nodes hn with ⟨n', hn', hu⟩ | ⟨a, hc⟩
  · rw [← hu]
    have hok := h.node pos n' hn'
    have hlt := h.solid.sound.lt_of_life (u := n'.ut) (by rw [hok.live]; simp)
    rcases hstep.life h.solid.sound hlt with hl | ⟨a, hact, hc, he⟩
    · exact hl.trans hok.live
    · -- it would have been resumed two ticks ago
      exact absurd (hling a n'.ut hact hc he) (Nat.not_le_of_lt (Nat.lt_succ_of_le hok.since_le))
  · exact hsolid.inv.cur_live hc

theorem WheelOk.initial : WheelOk {} := by
  refine ⟨Solid.initial, by decide, fun pos n hn => ?_⟩
  cases hn

end Wheel

/-- **The wheel refers to live uthreads only**, in every run in which no uthread is freed
less than two ticks after it was resumed; so `tick` reads live uthreads only. -/
theorem wheel_refers_to_live {s : Ticking}
    (h : Ticking.Reaches (fun s act => CalmTick s act ∧ Lingers s act) s) :
    (∀ pos n, n ∈ s.rt.timer.slot pos → (s.rt.ut n.ut).life = .live) ∧
      ∀ u ∈ s.rt.timer.due, (s.rt.ut u).life = .live := by
  have hok : WheelOk s := by
    refine Run.Reaches.invariant h WheelOk.initial ?_
    rintro s act s' hok ⟨hcalm, hling⟩ hs
    exact hok.step hcalm hling hs
  have hnode : ∀ pos n, n ∈ s.rt.timer.slot pos → (s.rt.ut n.ut).life = .live :=
    fun pos n hn => (hok.node pos n hn).live
  refine ⟨hnode, fun u hu => ?_⟩
  obtain ⟨n, hn, rfl⟩ := mem_of_tickSlot_due hu
  exact hnode _ n hn

def lingersCheck (s : Ticking) : TickAct → Bool
  | .back a =>
    match (s.rt.sched a).curUthread with
    | none => true
    | some u => !(s.rt.ut u).status.has .exited || decide (2 ≤ s.since u)
  | _ => true

theorem lingers_of_check {s : Ticking} {act : TickAct} (h : lingersCheck s act = true) : Lingers s act := by
  rintro a u rfl hc he
  simpa [lingersCheck, hc, he] using h

/-- The uthread that main created runs for two ticks and ends; main is resumed. -/
theorem lingering_refers_to_live : ∃ s, Ticking.Reaches (fun s act => CalmTick s act ∧ Lingers s act) s ∧
    (s.rt.ut 1).life = .freed ∧ s.rt.timer.slot 3 = [⟨0, 0⟩] ∧
    (∀ pos n, n ∈ s.rt.timer.slot pos → (s.rt.ut n.ut).life = .live) ∧
      ∀ u ∈ s.rt.timer.due, (s.rt.ut u).life = .live := by
  have hread : (Run.checked Ticking.step (fun s act => calmTickCheck s act && lingersCheck s act) {}
      (tickingCreatedRuns ++ [.tick, .tick] ++ callsOff 0 .finish 2 ++ runs (scheds 0 2))).map (fun s =>
        ((s.rt.ut 1).life, s.rt.timer.slot 3)) = some (.freed, [⟨0, 0⟩]) := by decide +kernel
  obtain ⟨s, hs, hread⟩ := Option.map_eq_some_iff.mp hread
  simp only [Prod.mk.injEq] at hread
  have hreach := reaches_of_tickChecks (C := fun s act => CalmTick s act ∧ Lingers s act) (fun _ _ hC => hC.1)
    (fun _ _ _ hcalm hl => ⟨hcalm, lingers_of_check hl⟩) hs
  exact ⟨s, hreach, hread.1, hread.2, wheel_refers_to_live hreach⟩

/-- The same without the ticks: the node of the freed uthread is in the wheel, and the tick
after the next reads it. -/
theorem shortRun_refers_to_freed : ∃ s s', Ticking.exec (tickingCreatedRuns ++ callsOff 0 .finish 2) = .ok s ∧
    ⟨0, 1⟩ ∈ s.rt.timer.slot 1 ∧ (s.rt.ut 1).life = .freed ∧
    s.step .tick = .ok s' ∧ 1 ∈ s'.rt.timer.due ∧ (s'.rt.ut 1).life = .freed := by
  have hread : ((Ticking.exec (tickingCreatedRuns ++ callsOff 0 .finish 2)).toOption.bind fun s =>
      (s.step .tick).toOption.map fun s' =>
        (decide (⟨0, 1⟩ ∈ s.rt.timer.slot 1 ∧ (s.rt.ut 1).life = .freed),
          decide (1 ∈ s'.rt.timer.due ∧ (s'.rt.ut 1).life = .freed))) = some (true, true) := by decide +kernel
  obtain ⟨s, hs, hread⟩ := Option.bind_eq_some_iff.mp hread
  obtain ⟨s', hs', hread⟩ := Option.map_eq_some_iff.mp hread
  simp only [Prod.mk.injEq, decide_eq_true_eq] at hread
  exact ⟨s, s', ok_of_toOption hs, hread.1.1, hread.1.2, ok_of_toOption hs', hread.2⟩

end UthreadRuntime
