import UthreadRuntime.Timer.Wheel

/-! How long a slice lasts.

A uthread's slice begins when it is resumed, and the node that `_uthread_resume` adds is due
with the second tick from then. A uthread that yields keeps its nodes, and the flag that
`tick` tests is set again when it is resumed: the node of a slice that has ended is then taken
for one of the slice that has just begun. -/
namespace UthreadRuntime

open State

/-- The next `tick` sends a signal for the uthread. -/
def Ticking.Sends (s : Ticking) (u : UId) : Prop :=
  u ∈ s.rt.timer.due ∧ (s.rt.ut u).isWatingYieldSignal = true

/-- The next `tick` is for every uthread it sends a signal for the second one at least since
that was resumed. -/
def Ticking.SendsLate (s : Ticking) : Prop := ∀ u, s.Sends u → 2 ≤ s.since u + 1

theorem mem_tickSlot_due {l : List TimerNode} {n : TimerNode} (hn : n ∈ l) (h : n.rotation = 0) :
    n.ut ∈ (tickSlot l).2 := by
  induction l with
  | nil => cases hn
  | cons m rest ih =>
    simp only [tickSlot]
    rcases List.mem_cons.mp hn with rfl | hn
    · rw [if_neg (by rw [h]; exact Nat.lt_irrefl 0)]
      exact List.mem_cons_self
    · split
      · exact ih hn
      · exact List.mem_cons_of_mem _ (ih hn)

/-- A node that is added is put in front of the others. -/
theorem mem_addTimer {len pos : Nat} {u : UId} {w : TimerWheel} {n : TimerNode} (hn : n ∈ w.slot pos) :
    n ∈ (addTimer len u w).slot pos := by
  unfold addTimer
  dsimp only
  by_cases hpos : pos = (len + w.current) % timeWheelSize
  · rw [hpos, Function.update_self, ← hpos]
    exact List.mem_cons_of_mem _ hn
  · rw [Function.update_of_ne hpos]
    exact hn

section Slices

variable {s s' : Ticking} {act : TickAct}

theorem Dated.of_reaches (h : Ticking.Reaches (fun _ _ => True) s) : Dated 0 s :=
  Run.Reaches.invariant h Dated.initial fun _ _ _ hd _ hs => hd.step (Nat.zero_le 1) (.inl rfl) hs

/-- Where no slice begins with a node of an older one under the hand, every node that is due
was added a tick ago. -/
theorem Dated.of_resumesPast (h : Ticking.Reaches ResumesPast s) : Dated 1 s :=
  Run.Reaches.invariant h Dated.initial fun _ _ _ hd hpast hs => hd.step (Nat.le_refl 1) (.inr hpast) hs

theorem Dated.sendsLate (h : Dated 1 s) : s.SendsLate := by
  rintro u ⟨hdue, -⟩
  obtain ⟨n, hn, rfl⟩ := mem_of_tickSlot_due hdue
  have hne : s.rt.timer.current ≠ (s.rt.timer.current + 1) % timeWheelSize := by
    have hlt := h.current
    unfold timeWheelSize at hlt ⊢
    omega
  obtain ⟨-, hlow, -⟩ := (h.place _ n hn).resolve_left fun hp => hne hp.1
  exact Nat.succ_le_succ hlow

/-- A uthread that is resumed with an older node under the hand is due at once. -/
theorem Dated.sends_early (h : Dated 0 s) (hs : s.step act = .ok s') (hpast : ¬ResumesPast s act) :
    ¬s'.SendsLate := by
  unfold ResumesPast TimerWheel.Past at hpast
  push Not at hpast
  obtain ⟨a, r, rt, u, rfl, hb, hc, n, hn, rfl⟩ := hpast
  have hstep : s' = {s with
      rt := rt
      stage := Function.update s.stage a .entering
      since := Function.update s.since n.ut 0} := by
    cases tickStep_ok hs with
    | sched _ hb' hc' =>
      cases hb.symm.trans hb'
      rw [hc'] at hc
      cases hc
    | resume _ hb' hc' =>
      cases hb.symm.trans hb'
      cases hc.symm.trans hc'
      rfl
  intro hlate
  have hlt : 2 ≤ s'.since n.ut + 1 := by
    apply hlate
    cases step_ok hb with
    | sched hidle hsched =>
      rcases hsched.timer hidle with ⟨-, hnone⟩ | ⟨v, hv, ht, hf⟩
      · rw [hnone] at hc
        cases hc
      · cases hc.symm.trans hv
        refine ⟨?_, by rw [hstep]; exact hf⟩
        rw [hstep]
        refine mem_tickSlot_due ?_ (h.rotation _ n hn)
        dsimp only
        rw [ht]
        exact mem_addTimer hn
  rw [hstep] at hlt
  dsimp only at hlt
  rw [Function.update_self] at hlt
  exact absurd hlt (by decide)

end Slices

/-- **No slice is cut short by a node of an older one** in runs in which no slice begins with
such a node under the hand. Where one does, the next tick would cut it short. -/
theorem slices_last_two_ticks {s : Ticking} : (Ticking.Reaches ResumesPast s → s.SendsLate) ∧
    (Ticking.Reaches (fun _ _ => True) s →
      ∀ act s', s.step act = .ok s' → ¬ResumesPast s act → ¬s'.SendsLate) := by
  constructor
  · intro h
    exact (Dated.of_resumesPast h).sendsLate
  · intro h act s' hs hpast
    exact (Dated.of_reaches h).sends_early hs hpast

def resumesPastCheck (s : Ticking) : TickAct → Bool
  | .run (.sched a r) =>
    match step s.rt (.sched a r) with
    | .error _ => true
    | .ok rt =>
      match (rt.sched a).curUthread with
      | none => true
      | some u => (s.rt.timer.slot s.rt.timer.current).all fun n => n.ut != u
  | _ => true

theorem resumesPast_of_check {s : Ticking} {act : TickAct} (h : resumesPastCheck s act = true) :
    ResumesPast s act := by
  rintro a r rt u rfl hb hc n hn
  have hall : (s.rt.timer.slot s.rt.timer.current).all (fun n => n.ut != u) = true := by
    simpa [resumesPastCheck, hb, hc] using h
  simpa using List.all_eq_true.mp hall n hn

/-- Main yields, and so does the uthread it created; main goes on. -/
def twoYields : List TickAct := callsOff 0 .yield 1 ++ runs (scheds 0 8) ++ [.switch 0] ++
  callsOff 0 .yield 1 ++ runs (scheds 0 2) ++ [.switch 0]

/-- Both slices of main begin before the tick; the next one is the second for the later too. -/
theorem twoYields_then_tick : ∃ s, Ticking.Reaches ResumesPast s ∧ s.Sends 0 ∧ s.since 0 = 1 ∧ s.SendsLate := by
  have hread : (Run.checked Ticking.step resumesPastCheck {} (tickingBoot ++ twoYields ++ [.tick])).map (fun s =>
      (decide (0 ∈ s.rt.timer.due), (s.rt.ut 0).isWatingYieldSignal, s.since 0)) = some (true, true, 1) := by
    decide +kernel
  obtain ⟨s, hs, hread⟩ := Option.map_eq_some_iff.mp hread
  simp only [Prod.mk.injEq, decide_eq_true_eq] at hread
  have hreach : Ticking.Reaches ResumesPast s :=
    Run.reaches_of_checked (I := fun _ => True) hs trivial (fun _ _ _ _ _ _ => trivial)
      fun _ _ _ hcheck => resumesPast_of_check hcheck
  exact ⟨s, hreach, ⟨hread.1, hread.2.1⟩, hread.2.2, slices_last_two_ticks.1 hreach⟩

/-- With a tick between the two slices of main, the next tick is the first since main went on,
and sends a signal for it. -/
theorem tick_between_yields : ∃ s s', Ticking.exec (tickingBoot ++ [.tick] ++ twoYields) = .ok s ∧
    s.Sends 0 ∧ s.step .tick = .ok s' ∧ s'.since 0 = 1 ∧ s'.pending 0 = [0] ∧ ¬s.SendsLate := by
  have hread : ((Ticking.exec (tickingBoot ++ [.tick] ++ twoYields)).toOption.bind fun s =>
      (s.step .tick).toOption.map fun s' =>
        ((decide (0 ∈ s.rt.timer.due), (s.rt.ut 0).isWatingYieldSignal, s.since 0), s'.since 0, s'.pending 0)) =
      some ((true, true, 0), 1, [0]) := by decide +kernel
  obtain ⟨s, hs, hread⟩ := Option.bind_eq_some_iff.mp hread
  obtain ⟨s', hs', hread⟩ := Option.map_eq_some_iff.mp hread
  simp only [Prod.mk.injEq, decide_eq_true_eq] at hread
  obtain ⟨⟨hdue, hflag, hsince⟩, hsince', hpend⟩ := hread
  refine ⟨s, s', ok_of_toOption hs, ⟨hdue, hflag⟩, ok_of_toOption hs', hsince', hpend, fun hlate => ?_⟩
  have hle := hlate 0 ⟨hdue, hflag⟩
  rw [hsince] at hle
  exact absurd hle (by decide)

end UthreadRuntime
