import UthreadRuntime.Placement.Invariant

/-! Every move keeps the invariant.

A move that is more than a uthread's own progress is taken apart: leaving a sched,
getting on one, entering and leaving a ready queue, waking an event sleeper. Each of
these keeps `Inv` by itself, so the switches and the wake-ups are compositions of
them. Only two moves are not: a joiner is entered in another uthread's record, and
an exit frees one uthread and wakes another in one go. -/
namespace UthreadRuntime.Placement

open Board

/-! ### Keys -/

theorem fdOnly_waitKey (fd : Int) (e : UthreadEvent) : fdOnly (waitKey fd e) = fd := by
  cases e <;> simp only [fdOnly, waitKey, fdKey, UthreadEvent.toNat] <;> omega

theorem fdEvent_waitKey (fd : Int) (e : UthreadEvent) : fdEvent (waitKey fd e) = e.toNat := by
  unfold fdEvent Int.bmod
  cases e <;> simp only [waitKey, fdKey, UthreadEvent.toNat] <;> omega

theorem waitKey_nonneg {fd : Int} (e : UthreadEvent) (h : 0 ≤ fd) : 0 ≤ waitKey fd e := by
  cases e <;> simp only [waitKey, fdKey, UthreadEvent.toNat] <;> omega

theorem waitKey_inj {fd fd' : Int} {e e' : UthreadEvent} (h : waitKey fd e = waitKey fd' e') :
    fd = fd' ∧ e = e' := by
  cases e <;> cases e' <;> simp only [waitKey, fdKey, UthreadEvent.toNat] at h <;>
    first
      | exact ⟨by omega, rfl⟩
      | omega

/-! ### Modes and the sched -/

/-- A uthread that is not half way into a wait or an exit may leave its sched. -/
theorem Task.Wf.leave {t : Task} {c c' : Prop} (h : t.Wf c) (hp : t.mode.publishing = false)
    (he : t.exited = false) (hc : ¬c') : t.Wf c' := by
  unfold Task.Wf at h ⊢
  cases hm : t.mode <;> simp_all [Mode.publishing]

/-- A uthread off its sched that is not asleep may be resumed. -/
theorem Task.Wf.enter {t : Task} {c c' : Prop} (h : t.Wf c) (hc : ¬c) (ha : t.asleep = false) :
    t.Wf c' := by
  unfold Task.Wf at h ⊢
  cases hm : t.mode <;> simp_all

/-- Only a uthread past its marking is asleep. -/
theorem Task.Wf.of_asleep {t : Task} {c : Prop} (h : t.Wf c) (ha : t.asleep = true) :
    ∃ g, (t.mode = .parking g ∨ t.mode = .parked g) ∧ t.fdWait = g.key ∧ g.Valid := by
  unfold Task.Wf at h
  cases hm : t.mode <;> simp_all

/-- Whoever is in the sleeping tree has not exited. -/
theorem Task.Wf.not_exited {t : Task} {c : Prop} (h : t.Wf c) (htree : t.InTree) : t.exited = false := by
  unfold Task.InTree at htree
  unfold Task.Wf at h
  cases hm : t.mode <;> simp_all

theorem Task.Wf.onCpu_of_publishing {t : Task} {c : Prop} (h : t.Wf c)
    (hp : t.mode.publishing = true) : c := by
  unfold Task.Wf at h
  cases hm : t.mode <;> simp_all [Mode.publishing]

theorem Task.Wf.of_exited {t : Task} {c : Prop} (h : t.Wf c) (he : t.exited = true) :
    t.mode = .exiting ∧ c := by
  unfold Task.Wf at h
  cases hm : t.mode <;> simp_all

theorem Task.WaitsFor.goal_eq {t : Task} {g g' : Goal} (h : t.WaitsFor g) (h' : t.WaitsFor g') :
    g = g' := by
  unfold Task.WaitsFor at h h'
  cases hm : t.mode <;> simp_all

theorem Task.WaitsFor.key_eq {t : Task} {g : Goal} {c : Prop} (h : t.WaitsFor g) (hwf : t.Wf c) :
    t.fdWait = g.key ∧ g.Valid := by
  unfold Task.WaitsFor at h
  unfold Task.Wf at hwf
  cases hm : t.mode <;> simp_all

section Alone

variable {b : Board} {a : SId} {u : UId}

/-- Who waits, and does not run on `a`, has switched away and is asleep. -/
theorem Inv.asleep_of_waits (h : Inv b) (hal : b.Alone a) (hlive : b.live u) {g : Goal}
    (hw : (b.task u).WaitsFor g) (hcur : b.cur a ≠ some u) :
    (b.task u).asleep = true ∧ ¬b.onCpu u := by
  have hwf := h.wf hlive
  have hoff : ¬b.onCpu u := by
    rintro ⟨c, hc⟩
    have hca : c = a := by
      apply hal c u hc
      rcases hw with hw | hw | hw
      · exact .inl (by rw [hw]; rfl)
      · exact .inl (by rw [hw]; rfl)
      · exact .inr hw.1
    rw [hca] at hc
    exact hcur hc
  refine ⟨?_, hoff⟩
  unfold Task.Wf at hwf
  rcases hw with hw | hw | hw
  · rw [hw] at hwf
    exact absurd hwf.2.2.2.1 hoff
  · rw [hw] at hwf
    exact absurd hwf.2.2.2.1 hoff
  · exact hw.1

/-- Who is in a sleeping tree, and does not run on `a`, has switched away and is asleep. -/
theorem Inv.asleep_of_sleeping (h : Inv b) (hal : b.Alone a) {q : PId} (hs : b.sleeping q u)
    (hcur : b.cur a ≠ some u) :
    ∃ g, (b.task u).WaitsFor g ∧ (b.task u).asleep = true ∧ ¬b.onCpu u := by
  obtain ⟨hlive, -, htree⟩ := h.sleeping_iff.mp hs
  have hw : ∃ g, (b.task u).WaitsFor g := by
    rcases htree with ha | ⟨g, hg⟩
    · obtain ⟨g, hm, -⟩ := (h.wf hlive).of_asleep ha
      exact ⟨g, .inr (.inr ⟨ha, hm⟩)⟩
    · exact ⟨g, .inr (.inl hg)⟩
  obtain ⟨g, hg⟩ := hw
  exact ⟨g, hg, h.asleep_of_waits hal hlive hg hcur⟩

end Alone

/-! ### A uthread on a sched links itself -/

/-- The interest set may change by itself. -/
theorem Inv.setInterest {b : Board} (h : Inv b) {i : PId → Int → Prop} (hi : ∀ q fd, i q fd → 0 ≤ fd) :
    Inv {b with interest := i} :=
  ⟨h.cur_inj, h.cur_live, h.cur_home, h.wf, h.freed_exited, h.sleeping_iff, h.ready_mem,
    h.ready_nodup, h.waiting_mem, h.waiting_inj, h.joined_iff, h.waits_live, h.target, hi _ _⟩

section Link

variable {b : Board} {a : SId} {u : UId} (h : Inv b) (hc : b.cur a = some u)
include h hc

theorem Inv.not_ready {q : PId} : u ∉ b.ready q :=
  fun hq => (h.ready_mem hq).2.2.2 ⟨a, hc⟩

theorem Inv.register {q : PId} {fd : Int} {e : UthreadEvent} (hm : (b.task u).mode = .free)
    (hfd : 0 ≤ fd) : Inv ((b.watch q fd).setMode u (.registered fd e)) := by
  have hw : Inv (b.watch q fd) := by
    refine h.setInterest fun q' f hf => ?_
    rcases hf with hf | ⟨-, rfl⟩
    · exact h.interest_nonneg hf
    · exact hfd
  have hwf := h.wf_of_mode hc hm
  simp only [Task.Wf] at hwf
  refine hw.progress (u := u) ⟨a, hc⟩ rfl rfl rfl ?_ ?_ ?_ (.inl rfl) ?_
  · exact ⟨hwf.1, hwf.2.1, hwf.2.2, ⟨a, hc⟩, hfd⟩
  · simp [Task.InTree, watch, hm]
  · simp [Task.WaitsFor, watch, hm]
  · simp [TargetOk]

theorem Inv.queueRefused {fd : Int} {e : UthreadEvent} (hm : (b.task u).mode = .keyed fd e)
    (hnot : ∀ q, ¬b.waiting q u) : Inv (b.setMode u (.arming (.event fd e))) := by
  have hwf := h.wf_of_mode hc hm
  simp only [Task.Wf] at hwf
  unfold setMode
  refine h.update (only_setTask rfl rfl) (h.cur_live hc) (fun q hq => absurd hq (h.not_ready hc))
    ?_ (fun q v => ?_) ⟨fun _ _ _ => Iff.rfl, fun q hq => absurd hq (hnot q),
      fun q v hq => absurd hq (hnot q)⟩ (joined_setTask rfl) (fun t => ?_) ?_
    fun _ _ => h.interest_nonneg
  · rw [setTask_self]
    exact hwf
  · rw [setTask_self]
    by_cases hv : v = u
    · rw [if_pos hv, hv]
      show b.sleeping q u ↔ _
      rw [h.sleeping_iff]
      simp [Task.InTree, hm, hwf.1]
    · rw [if_neg hv]
      rfl
  · rw [setTask_self]
    simp [Task.WaitsFor, hm]
  · simp [TargetOk]

theorem Inv.queue {q : PId} {fd : Int} {e : UthreadEvent} (hm : (b.task u).mode = .keyed fd e)
    (hq : (b.task u).home = some q)
    (hk : ∀ v, b.waiting q v → (b.task v).fdWait ≠ (b.task u).fdWait) :
    Inv ((b.linkWaiting q u).setMode u (.arming (.event fd e))) := by
  have hwf := h.wf_of_mode hc hm
  simp only [Task.Wf] at hwf
  have hnot : ∀ q, ¬b.waiting q u := by
    intro q' hw
    obtain ⟨-, -, fd', e', hw⟩ := h.waiting_mem hw
    simp [Task.WaitsFor, hm] at hw
  have honly : Only u b ((b.linkWaiting q u).setMode u (.arming (.event fd e))) :=
    ⟨rfl, rfl, rfl, fun v hv => by rw [setMode, setTask_other _ _ hv]; rfl,
      by simp [setMode, linkWaiting], by simp [setMode, linkWaiting]⟩
  have hwait : WaitingOk u b ((b.linkWaiting q u).setMode u (.arming (.event fd e))) := by
    refine ⟨fun q' v hv => ?_, fun q' hw => ?_, fun q' v hw hv hvq => ?_⟩
    · simp [setMode, setTask, linkWaiting, hv]
    · rcases hw with hw | ⟨rfl, -⟩
      · exact absurd hw (hnot q')
      · exact ⟨hq, fd, e, .inl (by simp [setMode])⟩
    · rcases hw with hw | ⟨rfl, -⟩
      · exact absurd hw (hnot q')
      · simpa [setMode, linkWaiting] using hk v hvq
  refine h.update honly (h.cur_live hc) (fun q hq => absurd hq (h.not_ready hc))
    ?_ (fun q' v => ?_) hwait (joined_setTask rfl) (fun t => ?_) ?_ fun _ _ => h.interest_nonneg
  · simpa [setMode, linkWaiting, Task.Wf, Goal.key, Goal.Valid] using hwf
  · by_cases hv : v = u
    · rw [if_pos hv, hv]
      show b.sleeping q' u ↔ _
      rw [h.sleeping_iff]
      simp [Task.InTree, setMode, linkWaiting, hm, hwf.1]
    · rw [if_neg hv]
      rfl
  · simp [Task.WaitsFor, setMode, linkWaiting, hm]
  · simp [TargetOk, setMode]

theorem Inv.link {q : PId} {g : Goal} (hm : (b.task u).mode = .arming g)
    (hq : (b.task u).home = some q) : Inv ((b.linkSleeping q u).setMode u (.linked g)) := by
  have hwf := h.wf_of_mode hc hm
  simp only [Task.Wf] at hwf
  have honly : Only u b ((b.linkSleeping q u).setMode u (.linked g)) :=
    ⟨rfl, rfl, rfl, fun v hv => by rw [setMode, setTask_other _ _ hv]; rfl,
      by simp [setMode, linkSleeping], by simp [setMode, linkSleeping]⟩
  have hwait : WaitingOk u b ((b.linkSleeping q u).setMode u (.linked g)) := by
    refine ⟨fun _ _ _ => Iff.rfl, fun q' hw => ?_, fun q' v hw hv hvq he => hv ?_⟩
    · obtain ⟨-, h2, fd, e, h3⟩ := h.waiting_mem hw
      refine ⟨h2, fd, e, .inr (.inl ?_)⟩
      simp only [Task.WaitsFor, hm] at h3
      simpa [setMode, linkSleeping] using h3
    · apply h.waiting_inj hvq hw
      simpa [setMode, linkSleeping] using he
  refine h.update honly (h.cur_live hc) (fun q hq => absurd hq (h.not_ready hc))
    ?_ (fun q' v => ?_) hwait (joined_setTask rfl) (fun t => ?_) ?_ fun _ _ => h.interest_nonneg
  · simpa [setMode, linkSleeping, Task.Wf] using hwf
  · by_cases hv : v = u
    · rw [if_pos hv, hv]
      show b.sleeping q' u ∨ (q' = q ∧ u = u) ↔ _
      rw [h.sleeping_iff, hq]
      simp [Task.InTree, setMode, linkSleeping, hm, hwf.1, eq_comm]
    · rw [if_neg hv]
      show b.sleeping q' v ∨ (q' = q ∧ v = u) ↔ _
      simp [hv]
  · simp [Task.WaitsFor, setMode, linkSleeping, hm, hwf.1]
  · simp [TargetOk, setMode]

end Link

/-! ### Scheds and ready queues -/

theorem setCur_cur (b : Board) (a c : SId) (o : Option UId) :
    (b.setCur a o).cur c = if c = a then o else b.cur c := rfl

theorem setReady_ready (b : Board) (q q' : PId) (l : List UId) :
    (b.setReady q l).ready q' = if q' = q then l else b.ready q' := rfl

theorem onCpu_setCur_none {b : Board} {a : SId} {u v : UId} (hc : b.cur a = some u) (hv : v ≠ u) :
    (b.setCur a none).onCpu v ↔ b.onCpu v := by
  constructor
  · rintro ⟨c, h⟩
    by_cases hca : c = a
    · simp [setCur, hca] at h
    · exact ⟨c, by simpa [setCur, hca] using h⟩
  · rintro ⟨c, h⟩
    have hca : c ≠ a := by
      rintro rfl
      exact hv (Option.some.inj (h.symm.trans hc))
    exact ⟨c, by simpa [setCur, hca] using h⟩

theorem Inv.not_onCpu_setCur_none {b : Board} (h : Inv b) {a : SId} {u : UId}
    (hc : b.cur a = some u) : ¬(b.setCur a none).onCpu u := by
  rintro ⟨c, hcu⟩
  by_cases hca : c = a
  · simp [setCur, hca] at hcu
  · exact hca (h.cur_inj (by simpa [setCur, hca] using hcu) hc)

theorem onCpu_setCur_some {b : Board} {a : SId} {u v : UId} (hc : b.cur a = none) (hv : v ≠ u) :
    (b.setCur a (some u)).onCpu v ↔ b.onCpu v := by
  constructor
  · rintro ⟨c, h⟩
    by_cases hca : c = a
    · rw [setCur_cur, if_pos hca] at h
      exact absurd (Option.some.inj h).symm hv
    · exact ⟨c, by simpa [setCur, hca] using h⟩
  · rintro ⟨c, h⟩
    have hca : c ≠ a := by
      rintro rfl
      rw [hc] at h
      cases h
    exact ⟨c, by simpa [setCur, hca] using h⟩

/-- A uthread leaves its sched. -/
theorem Inv.leave {b : Board} {a : SId} {u : UId} (h : Inv b) (hc : b.cur a = some u)
    (hp : (b.task u).mode.publishing = false) (he : (b.task u).exited = false) :
    Inv (b.setCur a none) := by
  have hoff := h.not_onCpu_setCur_none hc
  have hcur : ∀ {c v}, (b.setCur a none).cur c = some v → b.cur c = some v := by
    intro c v hv
    by_cases hca : c = a
    · simp [setCur, hca] at hv
    · simpa [setCur, hca] using hv
  refine ⟨fun h1 h2 => h.cur_inj (hcur h1) (hcur h2), fun h1 => h.cur_live (hcur h1),
    fun h1 => h.cur_home (hcur h1), ?_, h.freed_exited, h.sleeping_iff, ?_, h.ready_nodup,
    h.waiting_mem, h.waiting_inj, h.joined_iff, h.waits_live, h.target, h.interest_nonneg⟩
  · intro v hv
    by_cases hvu : v = u
    · subst hvu
      exact (h.wf hv).leave hp he hoff
    · rw [show (b.setCur a none).onCpu v = b.onCpu v from propext (onCpu_setCur_none hc hvu)]
      exact h.wf hv
  · intro q v hv
    obtain ⟨h1, h2, h3, h4⟩ := h.ready_mem hv
    exact ⟨h1, h2, h3, fun ⟨c, hcv⟩ => h4 ⟨c, hcur hcv⟩⟩

/-- A uthread that is nowhere else gets on a sched. -/
theorem Inv.enter {b : Board} {a : SId} {u : UId} {q : PId} (h : Inv b) (hc : b.cur a = none)
    (hlive : b.live u) (hoff : ¬b.onCpu u) (ha : (b.task u).asleep = false)
    (hready : ∀ q, u ∉ b.ready q) (hb : b.bound a = some q) (hq : (b.task u).home = some q) :
    Inv (b.setCur a (some u)) := by
  have hcur : ∀ {c v}, (b.setCur a (some u)).cur c = some v →
      (c = a ∧ v = u) ∨ (v ≠ u ∧ b.cur c = some v) := by
    intro c v hv
    by_cases hca : c = a
    · rw [setCur_cur, if_pos hca] at hv
      exact .inl ⟨hca, (Option.some.inj hv).symm⟩
    · rw [setCur_cur, if_neg hca] at hv
      exact .inr ⟨fun hvu => hoff ⟨c, hvu ▸ hv⟩, hv⟩
  constructor
  case cur_inj =>
    intro c d v h1 h2
    rcases hcur h1 with ⟨rfl, rfl⟩ | ⟨hv, h1⟩ <;> rcases hcur h2 with ⟨rfl, hv'⟩ | ⟨hv', h2⟩
    · rfl
    · exact absurd rfl hv'
    · exact absurd hv' hv
    · exact h.cur_inj h1 h2
  case cur_live =>
    intro c v h1
    rcases hcur h1 with ⟨rfl, rfl⟩ | ⟨-, h1⟩
    · exact hlive
    · exact h.cur_live h1
  case cur_home =>
    intro c v h1
    rcases hcur h1 with ⟨rfl, rfl⟩ | ⟨-, h1⟩
    · exact .inr (hb.trans hq.symm)
    · exact h.cur_home h1
  case wf =>
    intro v hv
    by_cases hvu : v = u
    · subst hvu
      exact (h.wf hv).enter hoff ha
    · rw [show (b.setCur a (some u)).onCpu v = b.onCpu v from propext (onCpu_setCur_some hc hvu)]
      exact h.wf hv
  case ready_mem =>
    intro q' v hv
    obtain ⟨h1, h2, h3, h4⟩ := h.ready_mem hv
    have hvu : v ≠ u := fun hvu => hready q' (hvu ▸ hv)
    exact ⟨h1, h2, h3, (onCpu_setCur_some hc hvu).not.mpr h4⟩
  case freed_exited => exact h.freed_exited
  case sleeping_iff => exact h.sleeping_iff
  case ready_nodup => exact h.ready_nodup
  case waiting_mem => exact h.waiting_mem
  case waiting_inj => exact h.waiting_inj
  case joined_iff => exact h.joined_iff
  case waits_live => exact h.waits_live
  case target => exact h.target
  case interest_nonneg => exact h.interest_nonneg

/-- A ready queue may change, its members being off the scheds and not asleep. -/
theorem Inv.setReady {b : Board} {q : PId} {l : List UId} (h : Inv b) (hn : l.Nodup)
    (hl : ∀ u ∈ l, b.live u ∧ (b.task u).home = some q ∧ (b.task u).asleep = false ∧ ¬b.onCpu u) :
    Inv (b.setReady q l) := by
  refine ⟨h.cur_inj, h.cur_live, h.cur_home, h.wf, h.freed_exited, h.sleeping_iff, ?_, ?_,
    h.waiting_mem, h.waiting_inj, h.joined_iff, h.waits_live, h.target, h.interest_nonneg⟩
  · intro q' u hu
    by_cases hq : q' = q
    · subst hq
      rw [setReady_ready, if_pos rfl] at hu
      exact hl u hu
    · rw [setReady_ready, if_neg hq] at hu
      exact h.ready_mem hu
  · intro q'
    by_cases hq : q' = q
    · rw [setReady_ready, if_pos hq]
      exact hn
    · rw [setReady_ready, if_neg hq]
      exact h.ready_nodup q'

theorem Inv.enqueue {b : Board} {q : PId} {u : UId} (h : Inv b) (hlive : b.live u)
    (hq : (b.task u).home = some q) (ha : (b.task u).asleep = false) (hoff : ¬b.onCpu u)
    (hnot : u ∉ b.ready q) : Inv (b.setReady q (b.ready q ++ [u])) := by
  refine h.setReady ?_ fun v hv => ?_
  · rw [List.nodup_append]
    refine ⟨h.ready_nodup q, by simp, fun v hv w hw hvw => hnot ?_⟩
    rw [List.mem_singleton] at hw
    rwa [← hw, ← hvw]
  · rcases List.mem_append.mp hv with hv | hv
    · exact h.ready_mem hv
    · rw [List.mem_singleton] at hv
      subst hv
      exact ⟨hlive, hq, ha, hoff⟩

theorem Inv.dequeue {b : Board} {q : PId} {u : UId} {rest : List UId} (h : Inv b)
    (hr : b.ready q = u :: rest) : Inv (b.setReady q rest) := by
  have hn := h.ready_nodup q
  rw [hr] at hn
  refine h.setReady (List.nodup_cons.mp hn).2 fun v hv => h.ready_mem ?_
  rw [hr]
  exact List.mem_cons_of_mem u hv

/-- Off its sched, a uthread's own switch is behind it. -/
theorem Inv.away {b : Board} {u : UId} {m : Mode} (h : Inv b) (hlive : b.live u)
    (hoff : ¬b.onCpu u) (hm : Away (b.task u).mode m) : Inv (b.setMode u m) := by
  rcases hm with rfl | ⟨g, hg, rfl⟩
  · have hsame : b.setMode u (b.task u).mode = b := by
      have : (fun v => if v = u then b.task u else b.task v) = b.task := by
        funext v
        by_cases hv : v = u
        · rw [if_pos hv, hv]
        · rw [if_neg hv]
      unfold setMode setTask
      rw [this]
    rw [hsame]
    exact h
  · have hwf := h.wf hlive
    have htarget := h.target hlive
    simp only [Task.Wf, hg] at hwf
    have hwaits : ∀ g', Task.WaitsFor {b.task u with mode := .parked g} g' ↔ (b.task u).WaitsFor g' := by
      intro g'
      simp [Task.WaitsFor, hg]
    unfold setMode
    refine h.update (only_setTask rfl rfl) hlive (fun q hq => ?_) ?_ (fun q v => ?_)
      ⟨fun _ _ _ => Iff.rfl, fun q hq => ?_, fun q v hq hv hvq he => hv ?_⟩ (joined_setTask rfl)
      (fun t => ?_) ?_ fun _ _ => h.interest_nonneg
    · rw [setTask_self]
      exact (h.ready_mem hq).2.2.1
    · rw [setTask_self]
      exact ⟨hwf.1, hwf.2.1, hwf.2.2, fun hon => absurd hon hoff⟩
    · rw [setTask_self]
      by_cases hv : v = u
      · rw [if_pos hv, hv]
        show b.sleeping q u ↔ _
        rw [h.sleeping_iff]
        simp [Task.InTree, hg, hlive]
      · rw [if_neg hv]
        rfl
    · rw [setTask_self]
      obtain ⟨-, h2, fd, e, h3⟩ := h.waiting_mem hq
      exact ⟨h2, fd, e, (hwaits _).mpr h3⟩
    · rw [setTask_self] at he
      exact h.waiting_inj hvq hq he
    · rw [setTask_self]
      exact hwaits _
    · cases g with
      | event fd e => simp [TargetOk]
      | join t =>
        simp only [TargetOk, hg] at htarget
        by_cases htu : t = u
        · simp_all [TargetOk]
        · simpa [TargetOk, setTask_other _ _ htu] using htarget

/-! ### Moves over more than one record -/

/-- The joiner of `t` is on its sched and has seen that `t` has neither joiner nor exited. -/
theorem Inv.publish {b : Board} {a : SId} {u t : UId} (h : Inv b) (hal : b.Alone a)
    (hc : b.cur a = some u) (hm : (b.task u).mode = .deciding t) (htu : t ≠ u) :
    Inv ((b.setTask t {b.task t with joined := some u}).setMode u (.arming (.join t))) := by
  have hlive := h.cur_live hc
  have hwf := h.wf_of_mode hc hm
  simp only [Task.Wf] at hwf
  have htarget := h.target hlive
  simp only [TargetOk, hm] at htarget
  obtain ⟨hnone, htlive⟩ := htarget
  set b' := (b.setTask t {b.task t with joined := some u}).setMode u (.arming (.join t)) with hb'
  have hu : b'.task u = {b.task u with mode := .arming (.join t)} := by
    simp [hb', setMode, setTask, htu.symm]
  have hj : ∀ v, (b'.task v).joined = if v = t then some u else (b.task v).joined := by
    intro v
    by_cases hvt : v = t
    · simp [hb', setMode, setTask, hvt, htu]
    · by_cases hvu : v = u
      · simp [hvu, hu, htu.symm]
      · simp [hb', setMode, setTask, hvu, hvt]
  have honly : Only u b b' := by
    refine ⟨rfl, rfl, rfl, fun v hv => ?_, by rw [hu], by rw [hu]⟩
    by_cases hvt : v = t
    · simp [hb', setMode, setTask, hvt, htu]
    · simp [hb', setMode, setTask, hv, hvt]
  have hwaits : ∀ v g, (b'.task v).WaitsFor g ↔ (b.task v).WaitsFor g ∨ (v = u ∧ g = .join t) := by
    intro v g
    by_cases hvu : v = u
    · rw [hvu, hu]
      simp only [Task.WaitsFor, hm, Mode.arming.injEq, reduceCtorEq, or_false, and_false, false_or,
        true_and]
      exact eq_comm
    · rw [honly.rest v hvu]
      simp [Task.WaitsFor, hvu]
  refine h.change honly hlive (fun q hq => absurd hq (h.not_ready hc)) ?_ ?_ ?_ ⟨?_, ?_, ?_⟩
    fun _ _ => h.interest_nonneg
  · rw [hu]
    exact ⟨hwf.1, hwf.2.1, hwf.2.2.1, ⟨a, hc⟩, trivial⟩
  · intro q v
    show b.sleeping q v ↔ _
    by_cases hvu : v = u
    · rw [if_pos hvu, hvu, hu, h.sleeping_iff]
      simp [Task.InTree, hm, hlive]
    · rw [if_neg hvu]
  · have hnot : ∀ q, ¬b.waiting q u := by
      intro q hq
      obtain ⟨-, -, fd, e, hw⟩ := h.waiting_mem hq
      simp [Task.WaitsFor, hm] at hw
    exact ⟨fun _ _ _ => Iff.rfl, fun q hq => absurd hq (hnot q), fun q v hq => absurd hq (hnot q)⟩
  · intro v j hv
    have hold := h.joined_iff (j := j) hv
    rw [hj, hwaits]
    by_cases hvt : v = t
    · subst hvt
      rw [hnone] at hold
      rw [if_pos rfl]
      constructor
      · intro hju
        cases hju
        exact ⟨hlive, .inr ⟨rfl, rfl⟩⟩
      · rintro ⟨hjl, hw | ⟨rfl, -⟩⟩
        · exact absurd (hold.mpr ⟨hjl, hw⟩) (by simp)
        · rfl
    · rw [if_neg hvt, hold]
      simp [hvt]
  · intro v j hjl hw
    rcases (hwaits j _).mp hw with hw | ⟨-, hg⟩
    · exact h.waits_live hjl hw
    · cases hg
      exact htlive
  · intro j hjl
    by_cases hju : j = u
    · simp [TargetOk, hju, hu]
    · refine (h.target hjl).mono (by rw [honly.rest j hju]) (by rw [honly.rest j hju])
        (fun v hv => (honly.life_eq v).trans hv) fun hp => ?_
      -- no one else is between looking at a target and publishing
      obtain ⟨c, hcj⟩ := (h.wf hjl).onCpu_of_publishing hp
      have hca := hal c j hcj (.inl hp)
      rw [hca, hc] at hcj
      exact absurd (Option.some.inj hcj).symm hju

/-- The joiner that gave up is taken out of the record of its target, which is gone. -/
theorem Inv.unpublish {b : Board} {a : SId} {u t : UId} (h : Inv b) (hc : b.cur a = some u)
    (hm : (b.task u).mode = .joined t) : Inv (b.setTask t {b.task t with joined := none}) := by
  have hlive := h.cur_live hc
  have hgone : (b.task t).life = .freed := by
    have htarget := h.target hlive
    simpa only [TargetOk, hm] using htarget
  have htu : u ≠ t := by
    rintro rfl
    rw [hlive] at hgone
    cases hgone
  set b' := b.setTask t {b.task t with joined := none} with hb'
  have hu : b'.task u = b.task u := setTask_other _ _ htu
  have hrest : ∀ v, b'.task v = {b.task v with joined := (b'.task v).joined} := by
    intro v
    by_cases hvt : v = t
    · simp [hb', hvt]
    · rw [hb', setTask_other _ _ hvt]
  have honly : Only u b b' := ⟨rfl, rfl, rfl, fun v _ => hrest v, by rw [hu], by rw [hu]⟩
  have hwaits : ∀ v g, (b'.task v).WaitsFor g ↔ (b.task v).WaitsFor g := by
    intro v g
    rw [hrest v]
    rfl
  refine h.change honly hlive (fun q hq => absurd hq (h.not_ready hc)) ?_ ?_ ?_ ⟨?_, ?_, ?_⟩
    fun _ _ => h.interest_nonneg
  · rw [hu]
    exact h.wf hlive
  · intro q v
    show b.sleeping q v ↔ _
    by_cases hvu : v = u
    · rw [if_pos hvu, hvu, hu, h.sleeping_iff]
      simp [hlive]
    · rw [if_neg hvu]
  · refine ⟨fun _ _ _ => Iff.rfl, fun q hq => ?_, fun q v hq hv hvq he => hv ?_⟩
    · rw [hu]
      exact (h.waiting_mem hq).2
    · rw [hu] at he
      exact h.waiting_inj hvq hq he
  · intro v j hv
    have hvt : v ≠ t := by
      rintro rfl
      rw [hv] at hgone
      cases hgone
    rw [hwaits, hb', setTask_other _ _ hvt]
    exact h.joined_iff hv
  · intro v j hjl hw
    exact h.waits_live hjl ((hwaits j _).mp hw)
  · intro j hjl
    refine (h.target hjl).mono (by rw [hrest j]) (by rw [hrest j])
      (fun v hv => (honly.life_eq v).trans hv) fun _ v _ => ⟨honly.life_eq v, fun hv => ?_⟩
    by_cases hvt : v = t
    · simp [hb', hvt]
    · rw [hb', setTask_other _ _ hvt, hv]

section Create

variable {b : Board} {n v : UId} {q : PId}

/-- A record that is not in use is not that of a live uthread. -/
theorem ne_of_fresh (hfresh : (b.task n).life = .fresh) (hv : (b.task v).life ≠ .fresh) : v ≠ n := by
  rintro rfl
  exact hv hfresh

theorem ne_of_live (hfresh : (b.task n).life = .fresh) (hv : b.live v) : v ≠ n := by
  refine ne_of_fresh hfresh ?_
  rw [hv]
  simp

theorem created_live_iff :
    (b.setTask n ⟨.live, some q, false, false, none, -1, .free⟩).live v ↔ b.live v ∨ v = n := by
  by_cases hv : v = n
  · simp [hv, live]
  · simp [hv, live, setTask_other b _ hv]

/-- A created uthread waits for nothing. -/
theorem created_waits {g : Goal} (hv : (b.setTask n ⟨.live, some q, false, false, none, -1, .free⟩).live v)
    (hw : ((b.setTask n ⟨.live, some q, false, false, none, -1, .free⟩).task v).WaitsFor g) :
    b.live v ∧ (b.task v).WaitsFor g := by
  have hvn : v ≠ n := by
    rintro rfl
    simp [Task.WaitsFor] at hw
  rw [setTask_other b _ hvn] at hw
  exact ⟨(created_live_iff.mp hv).resolve_right hvn, hw⟩

/-- A record that nothing refers to is set up. -/
theorem Inv.created (h : Inv b) (hfresh : (b.task n).life = .fresh) :
    Inv (b.setTask n ⟨.live, some q, false, false, none, -1, .free⟩) := by
  set t : Task := ⟨.live, some q, false, false, none, -1, .free⟩ with ht
  have hrest : ∀ {v}, v ≠ n → (b.setTask n t).task v = b.task v := fun hv => setTask_other b t hv
  have hlive : ∀ {v}, (b.setTask n t).live v ↔ b.live v ∨ v = n := created_live_iff
  have hne : ∀ {v}, b.live v → v ≠ n := ne_of_live hfresh
  have hwaits : ∀ {v g}, (b.setTask n t).live v → ((b.setTask n t).task v).WaitsFor g →
      b.live v ∧ (b.task v).WaitsFor g := created_waits
  constructor
  case cur_inj => exact h.cur_inj
  case cur_live => exact fun hc => hlive.mpr (.inl (h.cur_live hc))
  case cur_home =>
    intro a v hc
    rw [hrest (hne (h.cur_live hc))]
    exact h.cur_home hc
  case wf =>
    intro v hv
    by_cases hvn : v = n
    · rw [hvn, setTask_self]
      exact ⟨rfl, rfl, rfl⟩
    · rw [hrest hvn]
      exact h.wf ((hlive.mp hv).resolve_right hvn)
  case freed_exited =>
    intro v hv
    by_cases hvn : v = n
    · rw [hvn, setTask_self] at hv
      cases hv
    · rw [hrest hvn] at hv ⊢
      exact h.freed_exited hv
  case sleeping_iff =>
    intro q' v
    show b.sleeping q' v ↔ _
    rw [h.sleeping_iff, hlive]
    by_cases hvn : v = n
    · rw [hvn, setTask_self]
      simp [live, hfresh, ht, Task.InTree]
    · simp [hrest hvn, hvn]
  case ready_mem =>
    intro q' v hv
    obtain ⟨h1, h2⟩ := h.ready_mem hv
    rw [hlive, hrest (hne h1)]
    exact ⟨.inl h1, h2⟩
  case ready_nodup => exact h.ready_nodup
  case waiting_mem =>
    intro q' v hv
    obtain ⟨h1, h2⟩ := h.waiting_mem hv
    rw [hlive, hrest (hne h1)]
    exact ⟨.inl h1, h2⟩
  case waiting_inj =>
    intro q' v w hv hw he
    rw [hrest (hne (h.waiting_mem hv).1), hrest (hne (h.waiting_mem hw).1)] at he
    exact h.waiting_inj hv hw he
  case joined_iff =>
    intro v j hv
    by_cases hvn : v = n
    · -- nobody waits for a record that was not in use
      rw [hvn, setTask_self]
      constructor
      · intro hj
        cases hj
      · rintro ⟨hj, hw⟩
        obtain ⟨h1, h2⟩ := hwaits hj hw
        exact absurd rfl (hne (h.waits_live h1 h2))
    · rw [hrest hvn, h.joined_iff ((hlive.mp hv).resolve_right hvn)]
      constructor
      · rintro ⟨h1, h2⟩
        rw [hrest (hne h1)]
        exact ⟨hlive.mpr (.inl h1), h2⟩
      · rintro ⟨h1, h2⟩
        exact hwaits h1 h2
  case waits_live =>
    intro v j hj hw
    obtain ⟨h1, h2⟩ := hwaits hj hw
    exact hlive.mpr (.inl (h.waits_live h1 h2))
  case target =>
    intro j hj
    by_cases hjn : j = n
    · simp [TargetOk, hjn, ht]
    · refine (h.target ((hlive.mp hj).resolve_right hjn)).mono (by rw [hrest hjn])
        (by rw [hrest hjn]) (fun v hv => ?_) fun _ v hv => ?_
      · rw [hrest (ne_of_fresh hfresh (by rw [hv]; simp))]
        exact hv
      · rw [hrest (ne_of_fresh hfresh hv)]
        exact ⟨rfl, id⟩
  case interest_nonneg => exact h.interest_nonneg

/-- A record that nothing refers to becomes a ready uthread. -/
theorem Inv.create (h : Inv b) (hfresh : (b.task n).life = .fresh) :
    Inv ((b.setTask n ⟨.live, some q, false, false, none, -1, .free⟩).setReady q (b.ready q ++ [n])) := by
  have hoff : ¬b.onCpu n := by
    rintro ⟨c, hc⟩
    exact ne_of_live hfresh (h.cur_live hc) rfl
  refine (h.created hfresh).enqueue (created_live_iff.mpr (.inr rfl)) ?_ ?_ hoff ?_
  · rw [setTask_self]
  · rw [setTask_self]
  · intro hn
    exact ne_of_live hfresh (h.ready_mem hn).1 rfl

end Create

theorem Inv.handOff {b : Board} {c n : SId} {q : PId} (h : Inv b) (hn : b.cur n = none) :
    Inv {b with bound := fun a' => if a' = c then none else if a' = n then some q else b.bound a'} := by
  refine ⟨h.cur_inj, h.cur_live, ?_, h.wf, h.freed_exited, h.sleeping_iff, h.ready_mem, h.ready_nodup,
    h.waiting_mem, h.waiting_inj, h.joined_iff, h.waits_live, h.target, h.interest_nonneg⟩
  intro a u hc
  show (if a = c then none else if a = n then some q else b.bound a) = none ∨
    (if a = c then none else if a = n then some q else b.bound a) = (b.task u).home
  by_cases hac : a = c
  · rw [if_pos hac]
    exact .inl rfl
  · have han : a ≠ n := by
      rintro rfl
      rw [hn] at hc
      cases hc
    rw [if_neg hac, if_neg han]
    exact h.cur_home hc

/-! ### Waking a uthread -/

theorem desched_eq {b : Board} {u : UId} {q : PId} (ha : (b.task u).asleep = true)
    (hq : (b.task u).home = some q) :
    b.desched u = (b.unlinkSleeping q u).setTask u {b.task u with asleep := false} := by
  simp [desched, ha, hq]

theorem desched_of_awake {b : Board} {u : UId} (ha : (b.task u).asleep = false) : b.desched u = b := by
  simp [desched, ha]

theorem setTask_setTask (b : Board) (u : UId) (t t' : Task) :
    (b.setTask u t).setTask u t' = b.setTask u t' := by
  unfold setTask
  congr 1
  funext v
  by_cases hv : v = u
  · rw [if_pos hv, if_pos hv]
  · simp only [hv, if_false]

/-- An event sleeper is unlinked, by whoever finds it. -/
theorem Inv.wake {b b' : Board} {u : UId} {fd : Int} {e : UthreadEvent} (h : Inv b)
    (hlive : b.live u) (hw : (b.task u).WaitsFor (.event fd e)) (ha : (b.task u).asleep = true)
    (ho : Only u b b')
    (htask : b'.task u = {b.task u with asleep := false, fdWait := (b'.task u).fdWait})
    (hk : (b'.task u).fdWait = (b.task u).fdWait ∨ (b'.task u).fdWait = -1)
    (hjoined : ∀ v, (b'.task v).joined = (b.task v).joined)
    (hsleep : ∀ q v, b'.sleeping q v ↔ b.sleeping q v ∧ v ≠ u)
    (hwait : ∀ q v, b'.waiting q v ↔ b.waiting q v ∧ v ≠ u)
    (hi : ∀ q fd, b'.interest q fd → 0 ≤ fd) : Inv b' := by
  have hwf := h.wf hlive
  have hmode : (b'.task u).mode = (b.task u).mode := by rw [htask]
  have hasleep : (b'.task u).asleep = false := by rw [htask]
  have hg : (b.task u).mode = .parking (.event fd e) ∨ (b.task u).mode = .parked (.event fd e) := by
    obtain ⟨g, hg, -⟩ := hwf.of_asleep ha
    rw [Task.WaitsFor.goal_eq hw (.inr (.inr ⟨ha, hg⟩))]
    exact hg
  have hnone : ∀ g, ¬(b'.task u).WaitsFor g := by
    intro g
    rcases hg with hg | hg <;> simp [Task.WaitsFor, hmode, hg, hasleep]
  refine h.update ho hlive (fun _ _ => hasleep) ?_ (fun q v => ?_)
    ⟨fun q v hv => by simp [hwait, hv], fun q hq => absurd rfl ((hwait q u).mp hq).2,
      fun q v hq => absurd rfl ((hwait q u).mp hq).2⟩ hjoined (fun t => ?_) ?_ hi
  · have hkey := (hw.key_eq hwf).1
    rw [htask]
    rcases hg with hg | hg
    · simp only [Task.Wf, hg] at hwf ⊢
      exact ⟨hwf.1, hwf.2.1, hk.imp (·.trans hkey) fun hk => ⟨trivial, hk⟩⟩
    · simp only [Task.Wf, hg] at hwf ⊢
      exact ⟨hwf.1, hwf.2.1, hk.imp (·.trans hkey) fun hk => ⟨trivial, hk⟩, fun _ => trivial⟩
  · rw [hsleep]
    by_cases hv : v = u
    · rw [if_pos hv]
      rcases hg with hg | hg <;> simp [hv, Task.InTree, hasleep, hmode, hg]
    · simp [hv]
  · refine ⟨fun hn => absurd hn (hnone _), fun hjw => ?_⟩
    have := hw.goal_eq hjw
    cases this
  · rcases hg with hg | hg <;> simp [TargetOk, hmode, hg]

/-- A sleeper is in one sleeping tree only, a waiter in one waiting tree only. -/
theorem Inv.unlinkSleeping_iff {b : Board} {u v : UId} {q q' : PId} (h : Inv b)
    (hq : (b.task u).home = some q) :
    (b.unlinkSleeping q u).sleeping q' v ↔ b.sleeping q' v ∧ v ≠ u := by
  show b.sleeping q' v ∧ ¬(q' = q ∧ v = u) ↔ _
  refine and_congr_right fun hs => not_congr ⟨And.right, ?_⟩
  rintro rfl
  have hq' := (h.sleeping_iff.mp hs).2.1
  exact ⟨Option.some.inj (hq'.symm.trans hq), rfl⟩

theorem Inv.unlinkWaiting_iff {b : Board} {u v : UId} {q q' : PId} (h : Inv b)
    (hq : (b.task u).home = some q) :
    (b.unlinkWaiting q u).waiting q' v ↔ b.waiting q' v ∧ v ≠ u := by
  show b.waiting q' v ∧ ¬(q' = q ∧ v = u) ↔ _
  refine and_congr_right fun hs => not_congr ⟨And.right, ?_⟩
  rintro rfl
  have hq' := (h.waiting_mem hs).2.1
  exact ⟨Option.some.inj (hq'.symm.trans hq), rfl⟩

/-- An event sleeper out of both trees, with its key as it was or taken back. -/
theorem Inv.unlinked {b : Board} {u : UId} {q : PId} {fd k : Int} {e : UthreadEvent} (h : Inv b)
    (hlive : b.live u) (hq : (b.task u).home = some q) (hw : (b.task u).WaitsFor (.event fd e))
    (ha : (b.task u).asleep = true) (hk : k = (b.task u).fdWait ∨ k = -1) :
    Inv (((b.unlinkWaiting q u).unlinkSleeping q u).setTask u
      {b.task u with asleep := false, fdWait := k}) := by
  refine h.wake hlive hw ha ⟨rfl, rfl, rfl, fun v hv => ?_, ?_, ?_⟩ ?_ ?_ (joined_setTask rfl)
    (fun q' v => h.unlinkSleeping_iff hq) (fun q' v => h.unlinkWaiting_iff hq)
    fun _ _ => h.interest_nonneg
  · rw [setTask_other _ _ hv]
    rfl
  · rw [setTask_self]
  · rw [setTask_self]
  · rw [setTask_self]
  · rw [setTask_self]
    exact hk

/-- And on a sched. -/
theorem Inv.unlinked_enter {b : Board} {a : SId} {u : UId} {q : PId} {fd k : Int}
    {e : UthreadEvent} (h : Inv b) (hlive : b.live u) (hq : (b.task u).home = some q)
    (hw : (b.task u).WaitsFor (.event fd e)) (ha : (b.task u).asleep = true) (hoff : ¬b.onCpu u)
    (hk : k = (b.task u).fdWait ∨ k = -1) (hc : b.cur a = none) (hb : b.bound a = some q) :
    Inv ((((b.unlinkWaiting q u).unlinkSleeping q u).setTask u
      {b.task u with asleep := false, fdWait := k}).setCur a (some u)) := by
  refine (h.unlinked hlive hq hw ha hk).enter hc ?_ hoff ?_ (fun q' hq' => ?_) hb ?_
  · rw [live, setTask_self]
    exact hlive
  · rw [setTask_self]
  · have := (h.ready_mem hq').2.2.1
    rw [ha] at this
    cases this
  · rw [setTask_self]
    exact hq

theorem deschedFound_eq {b : Board} {v : UId} {q : PId} (ha : (b.task v).asleep = true)
    (hq : (b.task v).home = some q) : b.deschedFound q (some v) =
      ((b.unlinkWaiting q v).unlinkSleeping q v).setTask v {b.task v with asleep := false} :=
  desched_eq (b := b.unlinkWaiting q v) ha hq

theorem Inv.unwatch {b : Board} (h : Inv b) (q : PId) (fd : Int) : Inv (b.unwatch q fd) :=
  h.setInterest fun _ _ hi => h.interest_nonneg hi.1

protected theorem Inv.closed {b : Board} (h : Inv b) (fd : Int) : Inv (b.closed fd) :=
  h.setInterest fun _ _ hi => h.interest_nonneg hi.1

theorem Inv.event {b : Board} {a : SId} {u : UId} {q : PId} {fd : Int} (h : Inv b) (hal : b.Alone a)
    (hc : b.cur a = none) (hb : b.bound a = some q) (hw : b.waiting q u) :
    Inv (((b.deschedFound q (some u)).unwatch q fd).setCur a (some u)) := by
  obtain ⟨hlive, hq, f, e, hwf⟩ := h.waiting_mem hw
  obtain ⟨ha, hoff⟩ := h.asleep_of_waits hal hlive hwf (by rw [hc]; simp)
  rw [deschedFound_eq ha hq]
  exact (h.unlinked_enter hlive hq hwf ha hoff (.inl rfl) hc hb).unwatch q fd

/-- The wait under the key of an expiring uthread, if it is another's, goes by itself. -/
theorem Inv.expireOther {b : Board} {a : SId} {u v : UId} {q : PId} (h : Inv b) (hal : b.Alone a)
    (hc : b.cur a = none) (hw : b.waiting q v) (hvu : v ≠ u) (hnot : ∀ q', ¬b.waiting q' u) :
    ∃ b', b.deschedFound q (some v) = b' ∧ Inv b' ∧ b'.task u = b.task u ∧ b'.cur = b.cur ∧
      b'.bound = b.bound ∧ ∀ q', ¬b'.waiting q' u := by
  obtain ⟨hlive, hq, f, e, hwf⟩ := h.waiting_mem hw
  obtain ⟨ha, -⟩ := h.asleep_of_waits hal hlive hwf (by rw [hc]; simp)
  refine ⟨_, deschedFound_eq ha hq, h.unlinked hlive hq hwf ha (.inl rfl), ?_, rfl, rfl, ?_⟩
  · exact setTask_other _ _ hvu.symm
  · exact fun q' hw' => hnot q' hw'.1

/-- The usual case: the wait found under the key of an expiring uthread is its own. -/
theorem expire_own {b : Board} {u : UId} {q : PId} {fd : Int} (ha : (b.task u).asleep = true)
    (hq : (b.task u).home = some q) :
    (((b.unwatch q fd).deschedFound q (some u)).setFdWait u (-1)).desched u =
      (((b.unwatch q fd).unlinkWaiting q u).unlinkSleeping q u).setTask u
        {b.task u with asleep := false, fdWait := -1} := by
  rw [deschedFound_eq (b := b.unwatch q fd) ha hq, setFdWait, setTask_setTask,
    desched_of_awake (by simp), setTask_self]
  rfl

theorem Inv.expire {b : Board} {a : SId} {u : UId} {q : PId} {fd : Int} {found : Option UId}
    (h : Inv b) (hal : b.Alone a) (hc : b.cur a = none) (hb : b.bound a = some q)
    (hs : b.sleeping q u) (hfd : fd = fdOnly (b.task u).fdWait) (hi : b.interest q fd)
    (hfound : ∀ v, found = some v → b.waiting q v ∧ (b.task v).fdWait = (b.task u).fdWait)
    (hnone : found = none → ∀ v, b.waiting q v → (b.task v).fdWait ≠ (b.task u).fdWait) :
    Inv (((((b.unwatch q fd).deschedFound q found).setFdWait u (-1)).desched u).setCur a (some u)) := by
  obtain ⟨g, hg, ha, hoff⟩ := h.asleep_of_sleeping hal hs (by rw [hc]; simp)
  obtain ⟨hlive, hq, -⟩ := h.sleeping_iff.mp hs
  obtain ⟨hkey, -⟩ := hg.key_eq (h.wf hlive)
  have hun := h.unwatch q fd
  cases g with
  | join t =>
    -- a joiner waits under `-1`, and no interest set has a negative descriptor
    have hneg := h.interest_nonneg hi
    rw [hfd, hkey] at hneg
    simp [Goal.key, fdOnly] at hneg
  | event f e =>
    by_cases hfu : found = some u
    · -- the wait found is that of `u` itself
      rw [hfu, expire_own ha hq]
      exact hun.unlinked_enter hlive hq hg ha hoff (.inr rfl) hc hb
    · -- another wait with the same key was found, or none: the wait of `u` was never linked
      have hnot : ∀ q', ¬b.waiting q' u := by
        intro q' hw
        have hqq : q' = q := Option.some.inj ((h.waiting_mem hw).2.1.symm.trans hq)
        subst hqq
        cases hf : found with
        | none => exact hnone hf u hw rfl
        | some v =>
          obtain ⟨hv, he⟩ := hfound v hf
          exact hfu (hf.trans (congrArg some (h.waiting_inj hv hw he)))
      have hex : ∃ b', (b.unwatch q fd).deschedFound q found = b' ∧ Inv b' ∧ b'.task u = b.task u ∧
          b'.cur = b.cur ∧ b'.bound = b.bound ∧ ∀ q', ¬b'.waiting q' u := by
        cases hf : found with
        | none => exact ⟨_, rfl, hun, rfl, rfl, rfl, hnot⟩
        | some v =>
          exact hun.expireOther hal hc (hfound v hf).1 (fun hvu => hfu (hvu ▸ hf)) hnot
      obtain ⟨b', heq, hinv, hu, hcur, hbound, hnot'⟩ := hex
      have hoff' : ¬b'.onCpu u := by
        unfold onCpu
        rw [hcur]
        exact hoff
      have heq' : (b'.setFdWait u (-1)).desched u =
          ((b'.unlinkWaiting q u).unlinkSleeping q u).setTask u
            {b'.task u with asleep := false, fdWait := -1} := by
        have hnw : (b'.unlinkWaiting q u).waiting = b'.waiting := by
          funext q' v
          refine propext ⟨And.left, fun hw => ⟨hw, ?_⟩⟩
          rintro ⟨-, rfl⟩
          exact hnot' q' hw
        have hsame : b'.unlinkWaiting q u = b' := by
          show {b' with waiting := (b'.unlinkWaiting q u).waiting} = b'
          rw [hnw]
        rw [hsame, desched_eq (q := q) (by simp [setFdWait, hu, ha]) (by simp [setFdWait, hu, hq]),
          setFdWait, setTask_self]
        exact setTask_setTask (b'.unlinkSleeping q u) _ _ _
      rw [heq, heq']
      rw [← hu] at hq ha hg
      refine hinv.unlinked_enter ?_ hq hg ha hoff' (.inr rfl) ?_ ?_
      · rw [live, hu]
        exact hlive
      · rw [hcur]
        exact hc
      · rw [hbound]
        exact hb

/-! ### A uthread is freed -/

/-- The board when `u` has left its sched for good and its joiner, if it has one, is
awake and not yet ready. -/
structure Released (a : SId) (u : UId) (m : Mode) (b b' : Board) : Prop where
  cur : ∀ c, b'.cur c = if c = a then none else b.cur c
  bound : b'.bound = b.bound
  ready : b'.ready = b.ready
  waiting : b'.waiting = b.waiting
  interest : b'.interest = b.interest
  self : b'.task u = {b.task u with life := .freed, mode := m}
  joiner : ∀ v, v ≠ u → (b.task u).joined = some v → b'.task v = {b.task v with asleep := false}
  rest : ∀ v, v ≠ u → (b.task u).joined ≠ some v → b'.task v = b.task v
  sleeping : ∀ q v, b'.sleeping q v ↔ b.sleeping q v ∧ (b.task u).joined ≠ some v

section Released

variable {b b' : Board} {a : SId} {u : UId} {m : Mode}

/-- Of the other records only the mark of the joiner is another. -/
theorem Released.other (hr : Released a u m b b') {v : UId} (hvu : v ≠ u) :
    b'.task v = {b.task v with asleep := (b'.task v).asleep} := by
  by_cases hj : (b.task u).joined = some v
  · rw [hr.joiner v hvu hj]
  · rw [hr.rest v hvu hj]

theorem Released.life_eq (hr : Released a u m b b') {v : UId} (hvu : v ≠ u) :
    (b'.task v).life = (b.task v).life := by
  rw [hr.other hvu]

theorem Released.live_iff (hr : Released a u m b b') {v : UId} : b'.live v ↔ b.live v ∧ v ≠ u := by
  by_cases hvu : v = u
  · simp [live, hvu, hr.self]
  · simp [live, hr.life_eq hvu, hvu]

variable (h : Inv b) (hal : b.Alone a) (hc : b.cur a = some u) (he : (b.task u).exited = true)
include h hc he

theorem Inv.exiting : (b.task u).mode = .exiting ∧ (b.task u).asleep = false := by
  have hwf := h.wf (h.cur_live hc)
  have hm := (hwf.of_exited he).1
  simp only [Task.Wf, hm] at hwf
  exact ⟨hm, hwf.1⟩

theorem Inv.exiting_waits (g : Goal) : ¬(b.task u).WaitsFor g := by
  have hm := (h.exiting hc he).1
  simp [Task.WaitsFor, hm]

omit he in
/-- Whoever is on a sched was there before, and is not `u`. -/
theorem Inv.released_cur (hr : Released a u m b b') {c : SId} {v : UId} (hv : b'.cur c = some v) :
    b.cur c = some v ∧ v ≠ u := by
  rw [hr.cur] at hv
  split at hv
  · cases hv
  · rename_i hca
    exact ⟨hv, fun hvu => hca (h.cur_inj hv (hvu ▸ hc))⟩

omit he in
theorem Inv.released_onCpu (hr : Released a u m b b') {v : UId} (hvu : v ≠ u) : b'.onCpu v ↔ b.onCpu v := by
  constructor
  · rintro ⟨c, hv⟩
    exact ⟨c, (h.released_cur hc hr hv).1⟩
  · rintro ⟨c, hv⟩
    refine ⟨c, ?_⟩
    rw [hr.cur, if_neg, hv]
    rintro rfl
    exact hvu (Option.some.inj (hv.symm.trans hc))

include hal

/-- The joiner of an exiting uthread sleeps in its join. -/
theorem Inv.joiner {j : UId} (hj : (b.task u).joined = some j) : b.live j ∧ j ≠ u ∧
    (b.task j).asleep = true ∧ ¬b.onCpu j ∧ (b.task j).fdWait = -1 ∧
    ((b.task j).mode = .parking (.join u) ∨ (b.task j).mode = .parked (.join u)) := by
  obtain ⟨hjl, hjw⟩ := (h.joined_iff (h.cur_live hc)).mp hj
  have hju : j ≠ u := by
    rintro rfl
    exact h.exiting_waits hc he _ hjw
  obtain ⟨ha, hoff⟩ := h.asleep_of_waits hal hjl hjw
    (by rw [hc]; exact fun hs => hju (Option.some.inj hs).symm)
  obtain ⟨g, hm, hk, -⟩ := (h.wf hjl).of_asleep ha
  have hg : Goal.join u = g := hjw.goal_eq (.inr (.inr ⟨ha, hm⟩))
  subst hg
  exact ⟨hjl, hju, ha, hoff, hk, hm⟩

/-- Who waits now waited before, and is not the joiner. -/
theorem Inv.released_waits (hr : Released a u m b b') {v : UId} {g : Goal} (hvu : v ≠ u) :
    (b'.task v).WaitsFor g ↔ (b.task v).WaitsFor g ∧ (b.task u).joined ≠ some v := by
  by_cases hj : (b.task u).joined = some v
  · obtain ⟨-, -, -, -, -, hm⟩ := h.joiner hal hc he hj
    rw [hr.joiner v hvu hj]
    rcases hm with hm | hm <;> simp [Task.WaitsFor, hm, hj]
  · rw [hr.rest v hvu hj]
    simp [hj]

theorem Inv.released_wf (hr : Released a u m b b') {v : UId} (hvl : b.live v) (hvu : v ≠ u) :
    (b'.task v).Wf (b'.onCpu v) := by
  rw [show b'.onCpu v = b.onCpu v from propext (h.released_onCpu hc hr hvu)]
  by_cases hj : (b.task u).joined = some v
  · obtain ⟨-, -, -, -, hk, hm⟩ := h.joiner hal hc he hj
    have hwf := h.wf hvl
    rw [hr.joiner v hvu hj]
    rcases hm with hm | hm
    · simp only [Task.Wf, hm] at hwf ⊢
      exact ⟨hwf.1, hwf.2.1, .inl hk⟩
    · simp only [Task.Wf, hm] at hwf ⊢
      exact ⟨hwf.1, hwf.2.1, .inl hk, fun _ => trivial⟩
  · rw [hr.rest v hvu hj]
    exact h.wf hvl

theorem Inv.released_target (hr : Released a u m b b') {j : UId} (hjl : b.live j) (hju : j ≠ u) :
    b'.TargetOk j := by
  by_cases hjj : (b.task u).joined = some j
  · obtain ⟨-, -, -, -, -, hm⟩ := h.joiner hal hc he hjj
    rcases hm with hm | hm <;> simp [TargetOk, hr.joiner j hju hjj, hm, hr.self]
  · refine (h.target hjl).mono (by rw [hr.rest j hju hjj]) (by rw [hr.rest j hju hjj])
      (fun v hv => ?_) fun hp => ?_
    · by_cases hvu : v = u
      · rw [hvu, hr.self]
      · rw [hr.life_eq hvu]
        exact hv
    · obtain ⟨c, hcj⟩ := (h.wf hjl).onCpu_of_publishing hp
      have hca := hal c j hcj (.inl hp)
      rw [hca, hc] at hcj
      exact absurd (Option.some.inj hcj).symm hju

theorem Inv.released (hr : Released a u m b b') : Inv b' := by
  have hlive := h.cur_live hc
  have hexit := h.exiting hc he
  have hcur : ∀ {c v}, b'.cur c = some v → b.cur c = some v ∧ v ≠ u := h.released_cur hc hr
  have hlv : ∀ {v}, b'.live v ↔ b.live v ∧ v ≠ u := hr.live_iff
  constructor
  case cur_inj => exact fun h1 h2 => h.cur_inj (hcur h1).1 (hcur h2).1
  case cur_live => exact fun h1 => hlv.mpr ⟨h.cur_live (hcur h1).1, (hcur h1).2⟩
  case cur_home =>
    intro c v h1
    rw [hr.bound, hr.other (hcur h1).2]
    exact h.cur_home (hcur h1).1
  case wf => exact fun hv => h.released_wf hal hc he hr (hlv.mp hv).1 (hlv.mp hv).2
  case freed_exited =>
    intro v hv
    by_cases hvu : v = u
    · rw [hvu, hr.self]
      exact he
    · rw [hr.life_eq hvu] at hv
      rw [hr.other hvu]
      exact h.freed_exited hv
  case sleeping_iff =>
    intro q v
    rw [hr.sleeping, hlv, h.sleeping_iff]
    by_cases hvu : v = u
    · simp [hvu, Task.InTree, hexit]
    · by_cases hj : (b.task u).joined = some v
      · obtain ⟨-, -, -, -, -, hm⟩ := h.joiner hal hc he hj
        rw [hr.joiner v hvu hj]
        rcases hm with hm | hm <;> simp [Task.InTree, hm, hj]
      · simp [hr.rest v hvu hj, hj, hvu]
  case ready_mem =>
    intro q v hv
    rw [hr.ready] at hv
    obtain ⟨h1, h2, h3, h4⟩ := h.ready_mem hv
    have hvu : v ≠ u := fun hvu => h4 ⟨a, hvu ▸ hc⟩
    have hj : (b.task u).joined ≠ some v := by
      intro hj
      rw [(h.joiner hal hc he hj).2.2.1] at h3
      cases h3
    rw [hlv, hr.rest v hvu hj, h.released_onCpu hc hr hvu]
    exact ⟨⟨h1, hvu⟩, h2, h3, h4⟩
  case ready_nodup =>
    rw [hr.ready]
    exact h.ready_nodup
  case waiting_mem =>
    intro q v hv
    rw [hr.waiting] at hv
    obtain ⟨h1, h2, fd, e, h3⟩ := h.waiting_mem hv
    have hvu : v ≠ u := fun hvu => h.exiting_waits hc he _ (hvu ▸ h3)
    have hj : (b.task u).joined ≠ some v := by
      intro hj
      have hg := h3.goal_eq ((h.joined_iff hlive).mp hj).2
      cases hg
    rw [hlv, hr.rest v hvu hj]
    exact ⟨⟨h1, hvu⟩, h2, fd, e, h3⟩
  case waiting_inj =>
    intro q v w hv hw hk
    rw [hr.waiting] at hv hw
    have hne : ∀ {x}, b.waiting q x → x ≠ u := by
      rintro x hx rfl
      obtain ⟨-, -, fd, e, h3⟩ := h.waiting_mem hx
      exact h.exiting_waits hc he _ h3
    rw [hr.other (hne hv), hr.other (hne hw)] at hk
    exact h.waiting_inj hv hw hk
  case joined_iff =>
    intro t j ht
    obtain ⟨htl, htu⟩ := hlv.mp ht
    rw [show (b'.task t).joined = (b.task t).joined by rw [hr.other htu], h.joined_iff htl, hlv]
    constructor
    · rintro ⟨hjl, hjw⟩
      have hju : j ≠ u := fun hju => h.exiting_waits hc he _ (hju ▸ hjw)
      refine ⟨⟨hjl, hju⟩, (h.released_waits hal hc he hr hju).mpr ⟨hjw, fun hj => ?_⟩⟩
      have hg := hjw.goal_eq ((h.joined_iff hlive).mp hj).2
      cases hg
      exact htu rfl
    · rintro ⟨⟨hjl, hju⟩, hjw⟩
      exact ⟨hjl, ((h.released_waits hal hc he hr hju).mp hjw).1⟩
  case waits_live =>
    intro t j hj hw
    obtain ⟨hjl, hju⟩ := hlv.mp hj
    obtain ⟨hjw, hnot⟩ := (h.released_waits hal hc he hr hju).mp hw
    refine hlv.mpr ⟨h.waits_live hjl hjw, ?_⟩
    rintro rfl
    exact hnot ((h.joined_iff hlive).mpr ⟨hjl, hjw⟩)
  case target => exact fun hj => h.released_target hal hc he hr (hlv.mp hj).1 (hlv.mp hj).2
  case interest_nonneg =>
    rw [hr.interest]
    exact h.interest_nonneg

/-- What freeing `u` makes of the board: its joiner, asleep until then, is awake and ready. -/
theorem Inv.freed_board (hhome : ∀ j, (b.task u).joined = some j → (b.task j).home ≠ none)
    (hb : b' = (((b.setMode u m).setCur a none).wakeJoiner u).setLife u .freed) :
    ((b.task u).joined = none ∧ Released a u m b b') ∨
    ∃ j q b₁, (b.task u).joined = some j ∧ (b.task j).home = some q ∧ Released a u m b b₁ ∧
      b' = b₁.setReady q (b.ready q ++ [j]) := by
  set b0 := (b.setMode u m).setCur a none with hb0
  have hu0 : b0.task u = {b.task u with mode := m} := by simp [hb0, setMode, setCur]
  have hv0 : ∀ v, v ≠ u → b0.task v = b.task v := by
    intro v hv
    simp [hb0, setMode, setCur, setTask, hv]
  cases hj : (b.task u).joined with
  | none =>
    have heq : b0.wakeJoiner u = b0 := by simp [wakeJoiner, hu0, hj]
    rw [heq] at hb
    subst hb
    refine .inl ⟨rfl, fun _ => rfl, rfl, rfl, rfl, rfl, ?_, ?_, ?_, ?_⟩
    · rw [setLife, setTask_self, hu0]
    · intro v _ hv
      rw [hj] at hv
      cases hv
    · intro v hv _
      rw [setLife, setTask_other _ _ hv, hv0 v hv]
    · intro q v
      rw [hj]
      exact ⟨fun hs => ⟨hs, by simp⟩, And.left⟩
  | some j =>
    obtain ⟨hjl, hju, hja, hjoff, -, -⟩ := h.joiner hal hc he hj
    obtain ⟨q, hq⟩ := Option.ne_none_iff_exists'.mp (hhome j hj)
    -- the joiner, awake and not ready yet, and `u` freed
    set b1 := ((b0.unlinkSleeping q j).setTask j {b.task j with asleep := false}).setLife u .freed
      with hb1
    have heq : (b0.wakeJoiner u).setLife u .freed = b1.setReady q (b.ready q ++ [j]) := by
      have hd : b0.desched j = (b0.unlinkSleeping q j).setTask j {b.task j with asleep := false} := by
        rw [desched_eq (q := q) (by rw [hv0 j hju]; exact hja) (by rw [hv0 j hju]; exact hq), hv0 j hju]
      have hw : b0.wakeJoiner u = (b0.desched j).setReady q (b0.ready q ++ [j]) := by
        simp only [wakeJoiner, hu0, hj, hv0 j hju, hq]
      rw [hw, hd]
      rfl
    refine .inr ⟨j, q, b1, rfl, hq, ⟨fun _ => rfl, rfl, rfl, rfl, rfl, ?_, ?_, ?_, ?_⟩, hb.trans heq⟩
    · have hbu : ((b0.unlinkSleeping q j).setTask j {b.task j with asleep := false}).task u = b0.task u :=
        setTask_other _ _ hju.symm
      rw [hb1, setLife, setTask_self, hbu, hu0]
    · intro v _ hv
      rw [hj] at hv
      cases hv
      rw [hb1, setLife, setTask_other _ _ hju, setTask_self]
    · intro v hvu hv
      have hvj : v ≠ j := by
        rintro rfl
        exact hv hj
      rw [hb1, setLife, setTask_other _ _ hvu, setTask_other _ _ hvj]
      exact hv0 v hvu
    · intro q' v
      rw [hj]
      refine (h.unlinkSleeping_iff hq).trans (and_congr_right fun _ => ?_)
      exact ⟨fun hv hs => hv (Option.some.inj hs).symm, fun hs hv => hs (congrArg some hv.symm)⟩

theorem Inv.switchFree (hhome : ∀ j, (b.task u).joined = some j → (b.task j).home ≠ none) :
    Inv ((((b.setMode u m).setCur a none).wakeJoiner u).setLife u .freed) := by
  rcases h.freed_board hal hc he hhome rfl with ⟨-, hr⟩ | ⟨j, q, b₁, hj, hq, hr, heq⟩
  · exact h.released hal hc he hr
  · obtain ⟨hjl, hju, hja, hjoff, -, -⟩ := h.joiner hal hc he hj
    have hj1 : b₁.task j = {b.task j with asleep := false} := hr.joiner j hju hj
    rw [heq, ← hr.ready]
    refine (h.released hal hc he hr).enqueue ?_ ?_ ?_ ?_ ?_
    · rw [live, hj1]
      exact hjl
    · rw [hj1]
      exact hq
    · rw [hj1]
    · rintro ⟨c, hcj⟩
      rw [hr.cur] at hcj
      split at hcj
      · cases hcj
      · exact hjoff ⟨c, hcj⟩
    · intro hready
      rw [hr.ready] at hready
      have := (h.ready_mem hready).2.2.1
      rw [hja] at this
      cases this

end Released

/-! ### The step -/

/-- **No uthread gets into two places.** -/
theorem Inv.move {a : SId} {b b' : Board} (h : Inv b) (hal : b.Alone a) (hm : Move a b b') :
    Inv b' := by
  cases hm with
  | choose hc hm hj hl => exact h.choose hc hm hj hl
  | giveUp hc hm => exact h.giveUp hc hm
  | decide hc hm he => exact h.decide hc hm he
  | publish hc hm hne => exact h.publish hal hc hm hne
  | register hc hm _ hfd _ => exact h.register hc hm hfd
  | key hc hm => exact h.key hc hm
  | queue hc hm hq hk => exact h.queue hc hm hq hk
  | queueRefused hc hm =>
    refine h.queueRefused hc hm fun q hw => ?_
    obtain ⟨-, -, f, e, hw⟩ := h.waiting_mem hw
    simp [Task.WaitsFor, hm] at hw
  | link hc hm hq => exact h.link hc hm hq
  | mark hc hm => exact h.mark hc hm
  | backJoined hc hm => exact h.backJoined hc hm
  | backEvent hc hm => exact h.backEvent hc hm
  | unkey hc hm => exact h.unkey hc hm
  | unpublish hc hm => exact h.unpublish hc hm
  | finishJoin hc hm => exact h.finishJoin hc hm
  | exit hc hm => exact h.exit hc hm
  | create hf => exact h.create hf
  | handOff _ hn _ => exact h.handOff hn
  | switchFree hc he hh => exact h.switchFree hal hc he hh
  | @switchSleep u m hc he ha hm =>
    have hp : (b.task u).mode.publishing = false := by
      obtain ⟨g, hg, -⟩ := (h.wf (h.cur_live hc)).of_asleep ha
      rcases hg with hg | hg <;> rw [hg] <;> rfl
    exact (h.leave hc hp he).away (h.cur_live hc) (h.not_onCpu_setCur_none hc) hm
  | @switchReady u q m hc he ha hb hm hp =>
    have hleave := h.leave hc hp he
    have hq := h.home_of_cur hc hb
    have hoff := h.not_onCpu_setCur_none hc
    refine (hleave.enqueue (h.cur_live hc) hq ha hoff (h.not_ready hc)).away (h.cur_live hc) hoff hm
  | @resume u q rest hc hb hr =>
    have hu : u ∈ b.ready q := by rw [hr]; exact List.mem_cons_self
    obtain ⟨h1, h2, h3, h4⟩ := h.ready_mem hu
    refine (h.dequeue hr).enter hc h1 h4 h3 (fun q' hq' => ?_) hb h2
    rw [setReady_ready] at hq'
    split at hq'
    · have hn := h.ready_nodup q
      rw [hr] at hn
      exact (List.nodup_cons.mp hn).1 hq'
    · rename_i hne
      exact hne (Option.some.inj ((h.ready_mem hq').2.1.symm.trans h2))
  | expire hc hb hs hfd hi hf hn => exact h.expire hal hc hb hs hfd hi hf hn
  | event hc hb hw _ _ => exact h.event hal hc hb hw

end UthreadRuntime.Placement
