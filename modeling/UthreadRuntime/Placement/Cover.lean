import UthreadRuntime.Placement.Moves

/-! Every uthread is in some place.

`Inv` says that no uthread is in two places. The other half needs that a wait, once
published, is found: a uthread that waits for a descriptor is in the waiting tree, its
descriptor is in the interest set, and no one else uses it. A program that closes a
descriptor somebody waits for takes this away, and nothing else does. -/
namespace UthreadRuntime.Placement

open Board

/-- The descriptor is registered for the uthread. -/
def Task.Holds (t : Task) (fd : Int) : Prop :=
  (∃ e, t.mode = .registered fd e ∨ t.mode = .keyed fd e) ∨ ∃ e, t.WaitsFor (.event fd e)

/-- Who holds a descriptor and is not asleep is on its way to sleep. -/
theorem Task.Holds.publishing {t : Task} {fd : Int} (h : t.Holds fd) (hna : t.asleep = false) :
    t.mode.publishing = true := by
  rcases h with ⟨e, hm | hm⟩ | ⟨e, hm | hm | hm⟩
  · exact congrArg Mode.publishing hm
  · exact congrArg Mode.publishing hm
  · exact congrArg Mode.publishing hm
  · exact congrArg Mode.publishing hm
  · have ha : t.asleep = true := hm.1
    rw [hna] at ha
    cases ha

structure Cover (b : Board) : Prop where
  placed : ∀ {u}, b.live u → b.onCpu u ∨ (∃ q, u ∈ b.ready q) ∨ (b.task u).asleep = true
  queued : ∀ {q u fd e}, b.live u → (b.task u).home = some q →
    (b.task u).WaitsFor (.event fd e) → b.waiting q u
  watched : ∀ {q u fd}, b.live u → (b.task u).home = some q → (b.task u).Holds fd → b.interest q fd
  one_each : ∀ {q u v fd}, b.live u → b.live v → (b.task u).home = some q →
    (b.task v).home = some q → (b.task u).Holds fd → (b.task v).Holds fd → u = v

/-- Nobody has come to hold a descriptor. -/
structure Fewer (b b' : Board) : Prop where
  live : ∀ v, b'.live v → b.live v
  home : ∀ v, b'.live v → (b'.task v).home = (b.task v).home
  holds : ∀ v fd, b'.live v → (b'.task v).Holds fd → (b.task v).Holds fd

/-- One task differs, and its uthread lives as before. -/
theorem live_of_task {b b' : Board} {u : UId} (hlife : (b'.task u).life = (b.task u).life)
    (hother : ∀ v, v ≠ u → b'.task v = b.task v) (v : UId) (hv : b'.live v) : b.live v := by
  unfold Board.live at hv ⊢
  by_cases hvu : v = u
  · rw [hvu] at hv ⊢
    exact hlife.symm.trans hv
  · rwa [hother v hvu] at hv

/-- One task differs, and its uthread has come to hold nothing. -/
theorem Fewer.of_task {b b' : Board} {u : UId} (hlife : (b'.task u).life = (b.task u).life)
    (hhome : (b'.task u).home = (b.task u).home) (hholds : ∀ fd, (b'.task u).Holds fd → (b.task u).Holds fd)
    (hother : ∀ v, v ≠ u → b'.task v = b.task v) : Fewer b b' := by
  refine ⟨live_of_task hlife hother, fun v _ => ?_, fun v fd _ hh => ?_⟩
  · by_cases hv : v = u
    · rw [hv, hhome]
    · rw [hother v hv]
  · by_cases hv : v = u
    · rw [hv] at hh ⊢
      exact hholds fd hh
    · rwa [hother v hv] at hh

theorem Cover.fewer {b b' : Board} (h : Cover b) (hf : Fewer b b')
    (hplaced : ∀ v, b'.live v → b'.onCpu v ∨ (∃ q, v ∈ b'.ready q) ∨ (b'.task v).asleep = true)
    (hqueued : ∀ q v fd e, b'.live v → (b.task v).home = some q →
      (b'.task v).WaitsFor (.event fd e) → b'.waiting q v)
    (hinterest : ∀ q v fd, b'.live v → (b.task v).home = some q → (b'.task v).Holds fd →
      b.interest q fd → b'.interest q fd) : Cover b' := by
  constructor
  case placed => exact fun hv => hplaced _ hv
  case queued =>
    intro q v fd e hv hq hw
    rw [hf.home v hv] at hq
    exact hqueued q v fd e hv hq hw
  case watched =>
    intro q v fd hv hq hh
    rw [hf.home v hv] at hq
    exact hinterest q v fd hv hq hh (h.watched (hf.live v hv) hq (hf.holds v fd hv hh))
  case one_each =>
    intro q v w fd hv hw hqv hqw hhv hhw
    rw [hf.home v hv] at hqv
    rw [hf.home w hw] at hqw
    exact h.one_each (hf.live v hv) (hf.live w hw) hqv hqw (hf.holds v fd hv hhv) (hf.holds w fd hw hhw)

/-- Only where uthreads are has changed. -/
theorem Cover.moved {b b' : Board} (h : Cover b) (htask : b'.task = b.task)
    (hw : ∀ q v, b.waiting q v → b'.waiting q v) (hi : b'.interest = b.interest)
    (hplaced : ∀ v, b.live v → b'.onCpu v ∨ (∃ q, v ∈ b'.ready q) ∨ (b.task v).asleep = true) :
    Cover b' := by
  have hlive : ∀ v, b'.live v = b.live v := by
    intro v
    unfold Board.live
    rw [htask]
  refine h.fewer ⟨fun v hv => ?_, fun v _ => ?_, fun v fd _ hh => ?_⟩ (fun v hv => ?_)
    (fun q v fd e hv hq hwait => ?_) fun q v fd _ _ _ hin => ?_
  · rwa [hlive] at hv
  · rw [htask]
  · rwa [htask] at hh
  · rw [hlive] at hv
    rw [htask]
    exact hplaced v hv
  · rw [hlive] at hv
    rw [htask] at hwait
    exact hw q v (h.queued hv hq hwait)
  · rwa [hi]

/-- One task changes and its uthread comes to wait for nothing. -/
theorem Cover.setTask {b : Board} {u : UId} {t : Task} (h : Cover b)
    (hlife : t.life = (b.task u).life) (hhome : t.home = (b.task u).home)
    (hplace : b.onCpu u ∨ t.asleep = (b.task u).asleep)
    (hholds : ∀ fd, t.Holds fd → (b.task u).Holds fd)
    (hwaits : ∀ fd e, t.WaitsFor (.event fd e) → (b.task u).WaitsFor (.event fd e)) :
    Cover (b.setTask u t) := by
  have hfewer : Fewer b (b.setTask u t) := by
    refine .of_task (u := u) ?_ ?_ (fun fd hh => ?_) fun v hv => setTask_other b t hv
    · rw [setTask_self, hlife]
    · rw [setTask_self, hhome]
    · rw [setTask_self] at hh
      exact hholds fd hh
  refine h.fewer hfewer (fun v hv => ?_) (fun q v fd e hv hq hw => ?_) fun _ _ _ _ _ _ hi => hi
  · have hp := h.placed (hfewer.live v hv)
    by_cases hvu : v = u
    · subst hvu
      rw [setTask_self]
      rcases hplace with hc | ha
      · exact .inl hc
      · rw [ha]
        exact hp
    · rw [setTask_other b t hvu]
      exact hp
  · refine h.queued (hfewer.live v hv) hq (?_ : (b.task v).WaitsFor (.event fd e))
    by_cases hvu : v = u
    · rw [hvu, setTask_self] at hw
      rw [hvu]
      exact hwaits fd e hw
    · rwa [setTask_other b t hvu] at hw

/-! ### A uthread on a sched moves on -/

section Progress

variable {b : Board} {a : SId} {u : UId} (h : Cover b) (hc : b.cur a = some u)
include h hc

/-- It begins no wait for an event. -/
theorem Cover.progress {t : Task} (hlife : t.life = (b.task u).life) (hhome : t.home = (b.task u).home)
    (hmode : ∀ fd, ¬t.Holds fd) : Cover (b.setTask u t) :=
  h.setTask hlife hhome (.inl ⟨a, hc⟩) (fun fd hh => absurd hh (hmode fd))
    fun fd e hw => absurd (.inr ⟨e, hw⟩) (hmode fd)

theorem Cover.publish {t : UId} : Cover ((b.setTask t {b.task t with joined := some u}).setMode u
    (.arming (.join t))) := by
  have h1 : Cover (b.setTask t {b.task t with joined := some u}) :=
    h.setTask rfl rfl (.inr rfl) (fun _ hh => hh) fun _ _ hw => hw
  refine h1.progress (a := a) hc rfl rfl fun fd hh => ?_
  simp [Task.Holds, Task.WaitsFor] at hh

theorem Cover.register {q : PId} {fd : Int} {e : UthreadEvent} (hi : Inv b) (hb : b.bound a = some q)
    (hfd : ¬b.interest q fd) :
    Cover ((b.watch q fd).setMode u (.registered fd e)) := by
  have hq := hi.home_of_cur hc hb
  have hself : ((b.watch q fd).setMode u (.registered fd e)).task u =
      {b.task u with mode := .registered fd e} := setTask_self _ _ _
  have hother : ∀ v, v ≠ u → ((b.watch q fd).setMode u (.registered fd e)).task v = b.task v :=
    fun v hv => setTask_other _ _ hv
  have hlive : ∀ v, ((b.watch q fd).setMode u (.registered fd e)).live v → b.live v :=
    live_of_task (by rw [hself]) hother
  have hselfHolds : ∀ f, (((b.watch q fd).setMode u (.registered fd e)).task u).Holds f → f = fd := by
    intro f hh
    rw [hself] at hh
    simp [Task.Holds, Task.WaitsFor] at hh
    exact hh.symm
  -- nobody of this p holds a descriptor that is not in its interest set
  have hnone : ∀ v, b.live v → (b.task v).home = some q → ¬(b.task v).Holds fd :=
    fun v hv hvq hh => hfd (h.watched hv hvq hh)
  constructor
  case placed =>
    intro v hv
    by_cases hvu : v = u
    · exact .inl ⟨a, hvu ▸ hc⟩
    · rw [hother v hvu]
      exact h.placed (hlive v hv)
  case queued =>
    intro q' v f e' hv hvq hw
    by_cases hvu : v = u
    · rw [hvu, hself] at hw
      simp [Task.WaitsFor] at hw
    · rw [hother v hvu] at hvq hw
      exact h.queued (hlive v hv) hvq hw
  case watched =>
    intro q' v f hv hvq hh
    by_cases hvu : v = u
    · rw [hvu] at hh hvq
      rw [hself] at hvq
      exact .inr ⟨Option.some.inj (hvq.symm.trans hq), hselfHolds f hh⟩
    · rw [hother v hvu] at hvq hh
      exact .inl (h.watched (hlive v hv) hvq hh)
  case one_each =>
    intro q' v w f hv hw hvq hwq hhv hhw
    by_cases hvu : v = u
    · by_cases hwu : w = u
      · rw [hvu, hwu]
      · rw [hvu] at hhv hvq
        rw [hself] at hvq
        obtain rfl := hselfHolds f hhv
        rw [hother w hwu] at hwq hhw
        exact absurd hhw (hnone w (hlive w hw) (hwq.trans (hvq.symm.trans hq)))
    · rw [hother v hvu] at hvq hhv
      by_cases hwu : w = u
      · rw [hwu] at hhw hwq
        rw [hself] at hwq
        obtain rfl := hselfHolds f hhw
        exact absurd hhv (hnone v (hlive v hv) (hvq.trans (hwq.symm.trans hq)))
      · rw [hother w hwu] at hwq hhw
        exact h.one_each (hlive v hv) (hlive w hw) hvq hwq hhv hhw

theorem Cover.key {fd : Int} {e : UthreadEvent} (hm : (b.task u).mode = .registered fd e) :
    Cover (b.setTask u {b.task u with fdWait := waitKey fd e, mode := .keyed fd e}) := by
  refine h.setTask rfl rfl (.inl ⟨a, hc⟩) (fun f hh => ?_) fun f e' hw => ?_
  · simp [Task.Holds, Task.WaitsFor] at hh
    exact .inl ⟨e, .inl (by rw [hm, hh])⟩
  · simp [Task.WaitsFor] at hw

theorem Cover.queue {q : PId} {fd : Int} {e : UthreadEvent} (hm : (b.task u).mode = .keyed fd e)
    (hq : (b.task u).home = some q) : Cover ((b.linkWaiting q u).setMode u (.arming (.event fd e))) := by
  have hself : ((b.linkWaiting q u).setMode u (.arming (.event fd e))).task u =
      {b.task u with mode := .arming (.event fd e)} := setTask_self _ _ _
  have hother : ∀ v, v ≠ u → ((b.linkWaiting q u).setMode u (.arming (.event fd e))).task v = b.task v :=
    fun v hv => setTask_other _ _ hv
  have hfewer : Fewer b ((b.linkWaiting q u).setMode u (.arming (.event fd e))) := by
    refine .of_task (by rw [hself]) (by rw [hself]) (fun f hh => ?_) hother
    rw [hself] at hh
    simp [Task.Holds, Task.WaitsFor] at hh
    exact .inl ⟨e, .inr (by rw [hm, hh])⟩
  refine h.fewer hfewer (fun v hv => ?_) (fun q' v f e' hv hvq hw => ?_) fun _ _ _ _ _ _ hi => hi
  · by_cases hvu : v = u
    · exact .inl ⟨a, hvu ▸ hc⟩
    · rw [hother v hvu]
      exact h.placed (hfewer.live v hv)
  · by_cases hvu : v = u
    · rw [hvu, hq] at hvq
      exact .inr ⟨(Option.some.inj hvq).symm, hvu⟩
    · rw [hother v hvu] at hw
      exact .inl (h.queued (hfewer.live v hv) hvq hw)

/-- The key of a registered wait is not in the tree, since its descriptor is nobody else's. -/
theorem Cover.queueRefused {v : UId} {q : PId} {fd : Int} {e : UthreadEvent} (hi : Inv b)
    (hm : (b.task u).mode = .keyed fd e) (hq : (b.task u).home = some q) (hw : b.waiting q v)
    (hk : (b.task v).fdWait = (b.task u).fdWait) : False := by
  obtain ⟨hv, hvq, fd', e', hvw⟩ := hi.waiting_mem hw
  have hku : (b.task u).fdWait = waitKey fd e := by
    have hwf := hi.wf (hi.cur_live hc)
    simp only [Task.Wf, hm] at hwf
    exact hwf.2.2.1
  have hkv : (b.task v).fdWait = waitKey fd' e' := (hvw.key_eq (hi.wf hv)).1
  obtain ⟨rfl, -⟩ := waitKey_inj (hkv.symm.trans (hk.trans hku))
  have huv : u = v := h.one_each (hi.cur_live hc) hv hq hvq (.inl ⟨e, .inr hm⟩) (.inr ⟨e', hvw⟩)
  rw [← huv] at hvw
  simp [Task.WaitsFor, hm] at hvw

theorem Cover.link {q : PId} {g : Goal} (hm : (b.task u).mode = .arming g) :
    Cover ((b.linkSleeping q u).setMode u (.linked g)) := by
  have h1 : Cover (b.linkSleeping q u) :=
    h.moved rfl (fun _ _ hw => hw) rfl fun _ hv => h.placed hv
  have hw : ∀ f e, g = .event f e → (b.task u).WaitsFor (.event f e) := by
    rintro f e rfl
    exact .inl hm
  refine h1.setTask rfl rfl (.inl ⟨a, hc⟩) (fun f hh => ?_) fun f e hwait => ?_
  · simp [Task.Holds, Task.WaitsFor] at hh
    obtain ⟨e, rfl⟩ := hh
    exact .inr ⟨e, hw f e rfl⟩
  · simp [Task.WaitsFor] at hwait
    exact hw f e hwait

theorem Cover.mark {g : Goal} (hm : (b.task u).mode = .linked g) :
    Cover (b.setTask u {b.task u with asleep := true, mode := .parking g}) := by
  have hw : ∀ f e, g = .event f e → (b.task u).WaitsFor (.event f e) := by
    rintro f e rfl
    exact .inr (.inl hm)
  refine h.setTask rfl rfl (.inl ⟨a, hc⟩) (fun f hh => ?_) fun f e hwait => ?_
  · simp [Task.Holds, Task.WaitsFor] at hh
    obtain ⟨e, rfl⟩ := hh
    exact .inr ⟨e, hw f e rfl⟩
  · simp [Task.WaitsFor] at hwait
    exact hw f e hwait

end Progress

/-! ### Switching away and resuming -/

theorem Task.WaitsFor.away {t : Task} {m : Mode} {g : Goal} (hm : Away t.mode m) :
    ({t with mode := m} : Task).WaitsFor g → t.WaitsFor g := by
  rcases hm with rfl | ⟨g', h1, rfl⟩
  · exact id
  · rintro (hw | hw | ⟨ha, hw⟩)
    · cases hw
    · cases hw
    · rcases hw with hw | hw
      · cases hw
      · cases hw
        exact .inr (.inr ⟨ha, .inl h1⟩)

theorem Task.Holds.away {t : Task} {m : Mode} {fd : Int} (hm : Away t.mode m)
    (hh : ({t with mode := m} : Task).Holds fd) : t.Holds fd := by
  rcases hh with ⟨e, he⟩ | ⟨e, he⟩
  · rcases hm with rfl | ⟨g, -, rfl⟩
    · exact .inl ⟨e, he⟩
    · rcases he with he | he <;> cases he
  · exact .inr ⟨e, he.away hm⟩

theorem Cover.away {b : Board} {u : UId} {m : Mode} (h : Cover b) (hm : Away (b.task u).mode m) :
    Cover (b.setMode u m) :=
  h.setTask rfl rfl (.inr rfl) (fun _ hh => hh.away hm) fun _ _ hw => hw.away hm

/-- Who is still somewhere when `u` has left the sched of `a`. -/
theorem Cover.placed_left {b b' : Board} {a : SId} {u v : UId} (h : Cover b) (hc : b.cur a = some u)
    (hcur : ∀ c, b'.cur c = if c = a then none else b.cur c)
    (hready : ∀ q w, w ∈ b.ready q → w ∈ b'.ready q) (hvu : v ≠ u) (hv : b.live v) :
    b'.onCpu v ∨ (∃ q, v ∈ b'.ready q) ∨ (b.task v).asleep = true := by
  rcases h.placed hv with ⟨c, hcv⟩ | ⟨q, hq⟩ | ha
  · refine .inl ⟨c, ?_⟩
    have hca : c ≠ a := by
      rintro rfl
      rw [hc] at hcv
      exact hvu (Option.some.inj hcv).symm
    rw [hcur, if_neg hca]
    exact hcv
  · exact .inr (.inl ⟨q, hready q v hq⟩)
  · exact .inr (.inr ha)

/-- And when it has come to the sched of `a`. -/
theorem Cover.placed_entered {b b' : Board} {a : SId} {u v : UId} (h : Cover b) (hc : b.cur a = none)
    (hcur : ∀ c, b'.cur c = if c = a then some u else b.cur c)
    (hready : ∀ q w, w ≠ u → w ∈ b.ready q → w ∈ b'.ready q) (hv : b.live v) :
    b'.onCpu v ∨ (∃ q, v ∈ b'.ready q) ∨ (b.task v).asleep = true := by
  by_cases hvu : v = u
  · refine .inl ⟨a, ?_⟩
    rw [hcur, if_pos rfl, hvu]
  · rcases h.placed hv with ⟨c, hcv⟩ | ⟨q, hq⟩ | ha
    · refine .inl ⟨c, ?_⟩
      have hca : c ≠ a := by
        rintro rfl
        rw [hc] at hcv
        cases hcv
      rw [hcur, if_neg hca]
      exact hcv
    · exact .inr (.inl ⟨q, hready q v hvu hq⟩)
    · exact .inr (.inr ha)

theorem Cover.switchSleep {b : Board} {a : SId} {u : UId} {m : Mode} (h : Cover b)
    (hc : b.cur a = some u) (ha : (b.task u).asleep = true) (hm : Away (b.task u).mode m) :
    Cover ((b.setCur a none).setMode u m) := by
  have hleft : Cover (b.setCur a none) := by
    refine h.moved rfl (fun _ _ hw => hw) rfl fun v hv => ?_
    by_cases hvu : v = u
    · rw [hvu]
      exact .inr (.inr ha)
    · exact h.placed_left hc (fun _ => rfl) (fun _ _ hw => hw) hvu hv
  exact hleft.away hm

theorem Cover.switchReady {b : Board} {a : SId} {u : UId} {q : PId} {m : Mode} (h : Cover b)
    (hc : b.cur a = some u) (hm : Away (b.task u).mode m) :
    Cover (((b.setCur a none).setReady q (b.ready q ++ [u])).setMode u m) := by
  have hleft : Cover ((b.setCur a none).setReady q (b.ready q ++ [u])) := by
    refine h.moved rfl (fun _ _ hw => hw) rfl fun v hv => ?_
    by_cases hvu : v = u
    · refine .inr (.inl ⟨q, ?_⟩)
      rw [setReady_ready, if_pos rfl, hvu]
      simp
    · refine h.placed_left hc (fun _ => rfl) (fun r w hw => ?_) hvu hv
      rw [setReady_ready]
      split
      · rename_i hr
        rw [hr] at hw
        exact List.mem_append_left _ hw
      · exact hw
  exact hleft.away hm

theorem Cover.resume {b : Board} {a : SId} {u : UId} {q : PId} {rest : List UId} (h : Cover b)
    (hc : b.cur a = none) (hr : b.ready q = u :: rest) :
    Cover ((b.setReady q rest).setCur a (some u)) := by
  refine h.moved rfl (fun _ _ hw => hw) rfl fun v hv => ?_
  refine h.placed_entered hc (fun _ => rfl) (fun r w hwu hw => ?_) hv
  show w ∈ (b.setReady q rest).ready r
  rw [setReady_ready]
  split
  · rename_i hrq
    rw [hrq, hr] at hw
    exact (List.mem_cons.mp hw).resolve_left hwu
  · exact hw

/-- A sleeper whose event or whose time has come is resumed, and its descriptor dropped. -/
theorem Cover.woken {b b' : Board} {a : SId} {u : UId} {q : PId} {fd : Int} {e : UthreadEvent}
    (h : Cover b) (hi : Inv b) (hlive : b.live u) (hq : (b.task u).home = some q)
    (hw : (b.task u).WaitsFor (.event fd e)) (ha : (b.task u).asleep = true) (hc : b.cur a = none)
    (hself : b'.task u = {b.task u with asleep := false, fdWait := (b'.task u).fdWait})
    (hother : ∀ v, v ≠ u → b'.task v = b.task v)
    (hcur : ∀ c, b'.cur c = if c = a then some u else b.cur c) (hready : b'.ready = b.ready)
    (hwaiting : ∀ r v, v ≠ u → b.waiting r v → b'.waiting r v)
    (hinterest : ∀ r f, b.interest r f → ¬(r = q ∧ f = fd) → b'.interest r f) : Cover b' := by
  have hnone : ∀ f, ¬(b'.task u).Holds f := by
    intro f hh
    obtain ⟨g, hg, -⟩ := (hi.wf hlive).of_asleep ha
    rw [hself] at hh
    rcases hg with hg | hg <;> simp [Task.Holds, Task.WaitsFor, hg] at hh
  have hfewer : Fewer b b' :=
    .of_task (by rw [hself]) (by rw [hself]) (fun f hh => absurd hh (hnone f)) hother
  refine h.fewer hfewer (fun v hv => ?_) (fun r v f e' hv hvq hvw => ?_) fun r v f hv hvq hh hin => ?_
  · by_cases hvu : v = u
    · refine .inl ⟨a, ?_⟩
      rw [hcur, if_pos rfl, hvu]
    · rw [hother v hvu]
      refine h.placed_entered hc hcur (fun r w _ hw => ?_) (hfewer.live v hv)
      rw [hready]
      exact hw
  · by_cases hvu : v = u
    · rw [hvu] at hvw
      exact absurd (.inr ⟨e', hvw⟩) (hnone f)
    · rw [hother v hvu] at hvw
      exact hwaiting r v hvu (h.queued (hfewer.live v hv) hvq hvw)
  · have hvu : v ≠ u := by
      rintro rfl
      exact hnone f hh
    rw [hother v hvu] at hh
    refine hinterest r f hin ?_
    rintro ⟨rfl, rfl⟩
    exact hvu (h.one_each (hfewer.live v hv) hlive hvq hq hh (.inr ⟨e, hw⟩))

theorem Cover.event {b : Board} {a : SId} {u : UId} {q : PId} {fd : Int} {e : UthreadEvent}
    (h : Cover b) (hi : Inv b) (hal : b.Alone a) (hc : b.cur a = none) (hw : b.waiting q u)
    (hk : (b.task u).fdWait = waitKey fd e) :
    Cover (((b.deschedFound q (some u)).unwatch q fd).setCur a (some u)) := by
  obtain ⟨hlive, hq, fd', e', hwf⟩ := hi.waiting_mem hw
  obtain ⟨ha, -⟩ := hi.asleep_of_waits hal hlive hwf (by rw [hc]; simp)
  obtain ⟨rfl, -⟩ := waitKey_inj ((hwf.key_eq (hi.wf hlive)).1.symm.trans hk)
  rw [deschedFound_eq ha hq]
  refine h.woken hi hlive hq hwf ha hc ?_ (fun v hv => ?_) (fun _ => rfl) rfl (fun r v hv hw => ?_)
    fun r f hin hne => ⟨hin, hne⟩
  · simp [setCur, unwatch]
  · exact setTask_other _ _ hv
  · exact ⟨hw, fun hrv => hv hrv.2⟩

/-- The wait that an expiring uthread finds under its key is its own. -/
theorem Cover.expire_found {b : Board} {a : SId} {u : UId} {q : PId} {fd : Int} {found : Option UId}
    (h : Cover b) (hi : Inv b) (hal : b.Alone a) (hc : b.cur a = none) (hs : b.sleeping q u)
    (hfd : fd = fdOnly (b.task u).fdWait) (hin : b.interest q fd)
    (hfound : ∀ v, found = some v → b.waiting q v ∧ (b.task v).fdWait = (b.task u).fdWait)
    (hnone : found = none → ∀ v, b.waiting q v → (b.task v).fdWait ≠ (b.task u).fdWait) :
    found = some u ∧ ∃ e, (b.task u).WaitsFor (.event fd e) := by
  obtain ⟨g, hg, -, -⟩ := hi.asleep_of_sleeping hal hs (by rw [hc]; simp)
  obtain ⟨hlive, hq, -⟩ := hi.sleeping_iff.mp hs
  obtain ⟨hkey, -⟩ := hg.key_eq (hi.wf hlive)
  cases g with
  | join t =>
    have hneg := hi.interest_nonneg hin
    rw [hfd, hkey] at hneg
    simp [Goal.key, fdOnly] at hneg
  | event f e =>
    have hf : fd = f := by rw [hfd, hkey, Goal.key, fdOnly_waitKey]
    subst hf
    have hwait : b.waiting q u := h.queued hlive hq hg
    refine ⟨?_, e, hg⟩
    cases hfd : found with
    | none => exact absurd rfl (hnone hfd u hwait)
    | some v =>
      obtain ⟨hv, he⟩ := hfound v hfd
      rw [hi.waiting_inj hv hwait he]

theorem Cover.expire {b : Board} {a : SId} {u : UId} {q : PId} {fd : Int} {found : Option UId}
    (h : Cover b) (hi : Inv b) (hal : b.Alone a) (hc : b.cur a = none) (hs : b.sleeping q u)
    (hfd : fd = fdOnly (b.task u).fdWait) (hin : b.interest q fd)
    (hfound : ∀ v, found = some v → b.waiting q v ∧ (b.task v).fdWait = (b.task u).fdWait)
    (hnone : found = none → ∀ v, b.waiting q v → (b.task v).fdWait ≠ (b.task u).fdWait) :
    Cover (((((b.unwatch q fd).deschedFound q found).setFdWait u (-1)).desched u).setCur a (some u)) := by
  obtain ⟨rfl, e, hg⟩ := h.expire_found hi hal hc hs hfd hin hfound hnone
  obtain ⟨-, -, ha, -⟩ := hi.asleep_of_sleeping hal hs (by rw [hc]; simp)
  obtain ⟨hlive, hq, -⟩ := hi.sleeping_iff.mp hs
  rw [expire_own ha hq]
  refine h.woken hi hlive hq hg ha hc ?_ (fun v hv => ?_) (fun _ => rfl) rfl (fun r v hv hw => ?_)
    fun r f hin hne => ⟨hin, hne⟩
  · simp [setCur]
  · exact setTask_other _ _ hv
  · exact ⟨hw, fun hrv => hv hrv.2⟩

theorem Cover.released {b b' : Board} {a : SId} {u : UId} {m : Mode} (h : Cover b) (hi : Inv b)
    (hal : b.Alone a) (hc : b.cur a = some u) (he : (b.task u).exited = true)
    (htask : ∃ b₁, Released a u m b b₁ ∧ b'.task = b₁.task ∧ b'.cur = b₁.cur ∧
      b'.waiting = b₁.waiting ∧ b'.interest = b₁.interest)
    (hready : ∀ q v, v ∈ b.ready q → v ∈ b'.ready q)
    (hjoiner : ∀ j, (b.task u).joined = some j → ∃ q, j ∈ b'.ready q) : Cover b' := by
  obtain ⟨b₁, hr, ht, hcur, hw, hin⟩ := htask
  have hne : ∀ v, b'.live v → v ≠ u := by
    rintro v hv rfl
    rw [Board.live, ht, hr.self] at hv
    cases hv
  -- but for being asleep, the task of a live uthread is as it was
  have hsame : ∀ v, v ≠ u → b'.task v = b.task v ∨
      ((b.task u).joined = some v ∧ b'.task v = {b.task v with asleep := false}) := by
    intro v hv
    rw [ht]
    by_cases hj : (b.task u).joined = some v
    · exact .inr ⟨hj, hr.joiner v hv hj⟩
    · exact .inl (hr.rest v hv hj)
  have hnone : ∀ v fd, v ≠ u → (b'.task v).Holds fd → b'.task v = b.task v := by
    intro v fd hv hh
    rcases hsame v hv with heq | ⟨hj, heq⟩
    · exact heq
    · obtain ⟨-, -, -, -, -, hm⟩ := hi.joiner hal hc he hj
      rw [heq] at hh
      rcases hm with hm | hm <;> simp [Task.Holds, Task.WaitsFor, hm] at hh
  have hlive : ∀ v, b'.live v → b.live v := by
    intro v hv
    rcases hsame v (hne v hv) with heq | ⟨-, heq⟩
    · rwa [Board.live, heq] at hv
    · rwa [Board.live, heq] at hv
  refine h.fewer ⟨hlive, fun v hv => ?_, fun v fd hv hh => ?_⟩ (fun v hv => ?_)
    (fun q v fd e hv hq hvw => ?_) fun q v fd _ _ _ hi' => ?_
  · rcases hsame v (hne v hv) with heq | ⟨-, heq⟩ <;> rw [heq]
  · rwa [hnone v fd (hne v hv) hh] at hh
  · rcases hsame v (hne v hv) with heq | ⟨hj, -⟩
    · rw [heq]
      refine h.placed_left hc (fun c => ?_) hready (hne v hv) (hlive v hv)
      rw [hcur]
      exact hr.cur c
    · exact .inr (.inl (hjoiner v hj))
  · have heq := hnone v fd (hne v hv) (.inr ⟨e, hvw⟩)
    rw [heq] at hvw
    rw [hw, hr.waiting]
    exact h.queued (hlive v hv) hq hvw
  · rw [hin, hr.interest]
    exact hi'

theorem Cover.switchFree {b : Board} {a : SId} {u : UId} {m : Mode} (h : Cover b) (hi : Inv b)
    (hal : b.Alone a) (hc : b.cur a = some u) (he : (b.task u).exited = true)
    (hhome : ∀ j, (b.task u).joined = some j → (b.task j).home ≠ none) :
    Cover ((((b.setMode u m).setCur a none).wakeJoiner u).setLife u .freed) := by
  rcases hi.freed_board hal hc he hhome rfl with ⟨hj, hr⟩ | ⟨j, q, b₁, hj, hq, hr, heq⟩
  · refine h.released hi hal hc he ⟨_, hr, rfl, rfl, rfl, rfl⟩ (fun q v hv => ?_) fun j hj' => ?_
    · rw [hr.ready]
      exact hv
    · rw [hj] at hj'
      cases hj'
  · rw [heq]
    refine h.released hi hal hc he ⟨b₁, hr, rfl, rfl, rfl, rfl⟩ (fun r v hv => ?_) fun j' hj' => ?_
    · rw [setReady_ready]
      split
      · rename_i hrq
        rw [hrq] at hv
        exact List.mem_append_left _ hv
      · rw [hr.ready]
        exact hv
    · rw [hj] at hj'
      cases hj'
      refine ⟨q, ?_⟩
      rw [setReady_ready, if_pos rfl]
      simp

theorem Cover.create {b : Board} {n : UId} {q : PId} (h : Cover b) (hfresh : (b.task n).life = .fresh) :
    Cover ((b.setTask n ⟨.live, some q, false, false, none, -1, .free⟩).setReady q (b.ready q ++ [n])) := by
  set b' := (b.setTask n ⟨.live, some q, false, false, none, -1, .free⟩).setReady q (b.ready q ++ [n])
  have hself : b'.task n = ⟨.live, some q, false, false, none, -1, .free⟩ := setTask_self _ _ _
  have hother : ∀ v, v ≠ n → b'.task v = b.task v := fun v hv => setTask_other _ _ hv
  have hnone : ∀ fd, ¬(b'.task n).Holds fd := by
    intro fd hh
    rw [hself] at hh
    simp [Task.Holds, Task.WaitsFor] at hh
  have hlive : ∀ v, v ≠ n → b'.live v → b.live v := by
    intro v hv
    unfold Board.live
    rw [hother v hv]
    exact id
  have hne : ∀ v fd, (b'.task v).Holds fd → v ≠ n := by
    rintro v fd hh rfl
    exact hnone fd hh
  constructor
  case placed =>
    intro v hv
    by_cases hvn : v = n
    · refine .inr (.inl ⟨q, ?_⟩)
      rw [setReady_ready, if_pos rfl, hvn]
      simp
    · rw [hother v hvn]
      rcases h.placed (hlive v hvn hv) with hon | ⟨r, hr⟩ | ha
      · exact .inl hon
      · refine .inr (.inl ⟨r, ?_⟩)
        rw [setReady_ready]
        split
        · rename_i hrq
          rw [hrq] at hr
          exact List.mem_append_left _ hr
        · exact hr
      · exact .inr (.inr ha)
  case queued =>
    intro r v fd e hv hvq hw
    have hvn := hne v fd (.inr ⟨e, hw⟩)
    rw [hother v hvn] at hvq hw
    exact h.queued (hlive v hvn hv) hvq hw
  case watched =>
    intro r v fd hv hvq hh
    have hvn := hne v fd hh
    rw [hother v hvn] at hvq hh
    exact h.watched (hlive v hvn hv) hvq hh
  case one_each =>
    intro r v w fd hv hw hvq hwq hhv hhw
    have hvn := hne v fd hhv
    have hwn := hne w fd hhw
    rw [hother v hvn] at hvq hhv
    rw [hother w hwn] at hwq hhw
    exact h.one_each (hlive v hvn hv) (hlive w hwn hw) hvq hwq hhv hhw

/-! ### The step -/

/-- **No uthread is lost.** -/
theorem Cover.move {a : SId} {b b' : Board} (h : Cover b) (hi : Inv b) (hal : b.Alone a)
    (hm : Move a b b') : Cover b' := by
  cases hm with
  | choose hc _ _ _ => exact h.progress hc rfl rfl (by simp [Task.Holds, Task.WaitsFor])
  | giveUp hc _ => exact h.progress hc rfl rfl (by simp [Task.Holds, Task.WaitsFor])
  | decide hc _ _ => exact h.progress hc rfl rfl (by simp [Task.Holds, Task.WaitsFor])
  | publish hc _ _ => exact h.publish hc
  | register hc _ hb _ hfd => exact h.register hc hi hb hfd
  | key hc hm => exact h.key hc hm
  | queue hc hm hq _ => exact h.queue hc hm hq
  | queueRefused hc hm hq hw hk => exact (h.queueRefused hc hi hm hq hw hk).elim
  | link hc hm _ => exact h.link hc hm
  | mark hc hm => exact h.mark hc hm
  | backJoined hc _ => exact h.progress hc rfl rfl (by simp [Task.Holds, Task.WaitsFor])
  | backEvent hc _ => exact h.progress hc rfl rfl (by simp [Task.Holds, Task.WaitsFor])
  | unkey hc _ => exact h.progress hc rfl rfl (by simp [Task.Holds, Task.WaitsFor])
  | unpublish hc _ => exact h.setTask rfl rfl (.inr rfl) (fun _ hh => hh) fun _ _ hw => hw
  | finishJoin hc _ => exact h.progress hc rfl rfl (by simp [Task.Holds, Task.WaitsFor])
  | exit hc _ => exact h.progress hc rfl rfl (by simp [Task.Holds, Task.WaitsFor])
  | create hf => exact h.create hf
  | handOff _ _ _ => exact h.moved rfl (fun _ _ hw => hw) rfl fun _ hv => h.placed hv
  | switchFree hc he hh => exact h.switchFree hi hal hc he hh
  | switchSleep hc _ ha hm => exact h.switchSleep hc ha hm
  | switchReady hc _ _ _ hm _ => exact h.switchReady hc hm
  | resume hc _ hr => exact h.resume hc hr
  | expire hc _ hs hfd hin hf hn => exact h.expire hi hal hc hs hfd hin hf hn
  | event hc _ hw hk _ => exact h.event hi hal hc hw hk

/-! ### Who still holds a descriptor -/

/-- Who has been woken holds nothing. -/
theorem Inv.not_holds_of_woken {b : Board} {u : UId} {k : Int} (hi : Inv b) (hlive : b.live u)
    (ha : (b.task u).asleep = true) (fd : Int) :
    ¬({b.task u with asleep := false, fdWait := k} : Task).Holds fd := by
  intro hh
  obtain ⟨g, hg, -⟩ := (hi.wf hlive).of_asleep ha
  rcases hg with hg | hg <;> simp [Task.Holds, Task.WaitsFor, hg] at hh

/-- Who holds a descriptor after a move of another thread's, held it before, and stands where
it stood: only its joiner may have changed. -/
theorem Move.holds_other {a : SId} {b b' : Board} {u : UId} {fd : Int} (hm : Move a b b') (hi : Inv b)
    (hcov : Cover b) (hal : b.Alone a) (hc : b.cur a ≠ some u) (hh : (b'.task u).Holds fd) :
    (∃ j, b'.task u = {b.task u with joined := j}) ∧ b'.cur a ≠ some u := by
  have hne : ∀ {w}, b.cur a = some w → u ≠ w := by
    rintro w hw rfl
    exact hc hw
  have hsame : ∀ {t}, t = b.task u → ∃ j, t = {b.task u with joined := j} := by
    rintro t rfl
    exact ⟨(b.task u).joined, rfl⟩
  cases hm with
  | choose hw _ _ _ | giveUp hw _ | decide hw _ _ | register hw _ _ _ _ | key hw _ | queue hw _ _ _
  | queueRefused hw _ _ _ _ | link hw _ _ | mark hw _ | backJoined hw _ | backEvent hw _ | unkey hw _
  | finishJoin hw _ | exit hw _ =>
    exact ⟨hsame (setTask_other _ _ (hne hw)), hc⟩
  | @publish w t hw _ _ =>
    refine ⟨?_, hc⟩
    rw [setMode, setTask_other _ _ (hne hw)]
    by_cases hut : u = t
    · rw [hut, setTask_self]
      exact ⟨_, rfl⟩
    · exact hsame (setTask_other _ _ hut)
  | @unpublish w t hw _ =>
    refine ⟨?_, hc⟩
    by_cases hut : u = t
    · rw [hut, setTask_self]
      exact ⟨_, rfl⟩
    · exact hsame (setTask_other _ _ hut)
  | @create n q _ =>
    refine ⟨hsame (setTask_other _ _ ?_), hc⟩
    rintro rfl
    have hself : ((b.setTask u ⟨.live, some q, false, false, none, -1, .free⟩).setReady q
        (b.ready q ++ [u])).task u = ⟨.live, some q, false, false, none, -1, .free⟩ := setTask_self _ _ _
    rw [hself] at hh
    simp [Task.Holds, Task.WaitsFor] at hh
  | handOff _ _ _ => exact ⟨hsame rfl, hc⟩
  | @switchFree w m hw he hhome =>
    have hcur : ∀ {b₁ : Board}, Released a w m b b₁ → b₁.cur a ≠ some u := by
      intro b₁ hr
      rw [hr.cur, if_pos rfl]
      simp
    have htask : ∀ {b₁ : Board}, Released a w m b b₁ → (b₁.task u).Holds fd → b₁.task u = b.task u := by
      intro b₁ hr hh
      by_cases hj : (b.task w).joined = some u
      · obtain ⟨hjl, -, hja, -, -, -⟩ := hi.joiner hal hw he hj
        rw [hr.joiner u (hne hw) hj] at hh
        exact absurd hh (hi.not_holds_of_woken hjl hja fd)
      · exact hr.rest u (hne hw) hj
    rcases hi.freed_board (m := m) hal hw he hhome rfl with ⟨-, hr⟩ | ⟨j, q, b₁, -, -, hr, heq⟩
    · exact ⟨hsame (htask hr hh), hcur hr⟩
    · rw [heq] at hh ⊢
      have ht : b₁.task u = b.task u := htask hr hh
      exact ⟨hsame ht, (hcur hr : b₁.cur a ≠ some u)⟩
  | switchSleep hw _ _ _ => exact ⟨hsame (setTask_other _ _ (hne hw)), by simp [setMode, setTask, setCur]⟩
  | switchReady hw _ _ _ _ _ =>
    exact ⟨hsame (setTask_other _ _ (hne hw)), by simp [setMode, setTask, setReady, setCur]⟩
  | @resume w q rest hn hb hr =>
    refine ⟨hsame rfl, fun hcu => ?_⟩
    have hwu : w = u := by simpa [setCur] using hcu
    subst hwu
    -- a ready uthread is neither asleep nor on its way to sleep
    obtain ⟨hlive, -, hna, hoff⟩ := hi.ready_mem (q := q) (u := w) (by rw [hr]; exact List.mem_cons_self)
    have hwf := hi.wf hlive
    exact hoff (hwf.onCpu_of_publishing (Task.Holds.publishing hh hna))
  | @expire w q f found hn hb hs hfd hin hf hnone =>
    obtain ⟨rfl, e, hw⟩ := hcov.expire_found hi hal hn hs hfd hin hf hnone
    obtain ⟨-, -, ha, -⟩ := hi.asleep_of_sleeping hal hs (by rw [hn]; simp)
    obtain ⟨hlive, hq, -⟩ := hi.sleeping_iff.mp hs
    rw [expire_own ha hq] at hh ⊢
    have huw : u ≠ w := by
      rintro rfl
      refine hi.not_holds_of_woken (k := -1) hlive ha fd ?_
      have hself : (((((b.unwatch q f).unlinkWaiting q u).unlinkSleeping q u).setTask u
          {b.task u with asleep := false, fdWait := -1}).setCur a (some u)).task u =
          {b.task u with asleep := false, fdWait := -1} := setTask_self _ _ _
      rwa [hself] at hh
    exact ⟨hsame (setTask_other _ _ huw), by simpa [setCur] using huw.symm⟩
  | @event w q f e hn hb hw hk hin =>
    obtain ⟨hlive, hq, f', e', hwf⟩ := hi.waiting_mem hw
    obtain ⟨ha, -⟩ := hi.asleep_of_waits hal hlive hwf (by rw [hn]; simp)
    rw [deschedFound_eq ha hq] at hh ⊢
    have huw : u ≠ w := by
      rintro rfl
      refine hi.not_holds_of_woken (k := (b.task u).fdWait) hlive ha fd ?_
      have hself : (((((b.unlinkWaiting q u).unlinkSleeping q u).setTask u
          {b.task u with asleep := false}).unwatch q f).setCur a (some u)).task u =
          {b.task u with asleep := false} := setTask_self _ _ _
      rwa [hself] at hh
    exact ⟨hsame (setTask_other _ _ huw), by simpa [setCur] using huw.symm⟩

/-- Who moves on and holds a descriptor, held it before or has just registered it. -/
theorem Move.holds_own {a : SId} {b b' : Board} {u : UId} {fd : Int} (hm : Move a b b') (hi : Inv b)
    (hc : b.cur a = some u) (hl : b'.live u) (hh : (b'.task u).Holds fd) :
    (b.task u).Holds fd ∨ ∃ e, (b'.task u).mode = .registered fd e := by
  have heq : ∀ {w}, b.cur a = some w → w = u := fun hw => Option.some.inj (hw.symm.trans hc)
  have hfree : ∀ {t : Task}, b'.task u = t → (∀ f, ¬t.Holds f) → False := by
    rintro t rfl hn
    exact hn fd hh
  have hnone : b.cur a ≠ none := by
    rw [hc]
    simp
  cases hm with
  | choose hw _ _ _ | giveUp hw _ | decide hw _ _ | publish hw _ _ | backJoined hw _ | backEvent hw _
  | unkey hw _ | finishJoin hw _ | exit hw _ =>
    obtain rfl := heq hw
    exact (hfree (setTask_self _ _ _) (by simp [Task.Holds, Task.WaitsFor])).elim
  | @register w q f e hw _ _ _ _ =>
    obtain rfl := heq hw
    have hself : ((b.watch q f).setMode w (.registered f e)).task w =
        {b.task w with mode := .registered f e} := setTask_self _ _ _
    rw [hself] at hh ⊢
    have hf : f = fd := by simpa [Task.Holds, Task.WaitsFor] using hh
    exact .inr ⟨e, by rw [hf]⟩
  | @key w f e hw hm =>
    obtain rfl := heq hw
    rw [setTask_self] at hh
    have hf : f = fd := by simpa [Task.Holds, Task.WaitsFor] using hh
    exact .inl (.inl ⟨e, .inl (by rw [hm, hf])⟩)
  | @queue w q f e hw hm _ _ =>
    obtain rfl := heq hw
    have hself : ((b.linkWaiting q w).setMode w (.arming (.event f e))).task w =
        {b.task w with mode := .arming (.event f e)} := setTask_self _ _ _
    rw [hself] at hh
    have hf : f = fd := by simpa [Task.Holds, Task.WaitsFor] using hh
    exact .inl (.inl ⟨e, .inr (by rw [hm, hf])⟩)
  | @queueRefused w v q f e hw hm _ _ _ =>
    obtain rfl := heq hw
    have hself : (b.setMode w (.arming (.event f e))).task w =
        {b.task w with mode := .arming (.event f e)} := setTask_self _ _ _
    rw [hself] at hh
    have hf : f = fd := by simpa [Task.Holds, Task.WaitsFor] using hh
    exact .inl (.inl ⟨e, .inr (by rw [hm, hf])⟩)
  | @link w q g hw hm _ =>
    obtain rfl := heq hw
    have hself : ((b.linkSleeping q w).setMode w (.linked g)).task w =
        {b.task w with mode := .linked g} := setTask_self _ _ _
    rw [hself] at hh
    obtain ⟨e, rfl⟩ : ∃ e, g = .event fd e := by simpa [Task.Holds, Task.WaitsFor] using hh
    exact .inl (.inr ⟨e, .inl hm⟩)
  | @mark w g hw hm =>
    obtain rfl := heq hw
    rw [setTask_self] at hh
    obtain ⟨e, rfl⟩ : ∃ e, g = .event fd e := by simpa [Task.Holds, Task.WaitsFor] using hh
    exact .inl (.inr ⟨e, .inr (.inl hm)⟩)
  | @unpublish w t hw _ =>
    by_cases hut : u = t
    · rw [hut, setTask_self] at hh
      rw [hut]
      exact .inl hh
    · rw [setTask_other _ _ hut] at hh
      exact .inl hh
  | @create n q hf =>
    have hne : u ≠ n := by
      rintro rfl
      have hlive : (b.task u).life = .live := hi.cur_live hc
      rw [hlive] at hf
      cases hf
    have ht : ((b.setTask n ⟨.live, some q, false, false, none, -1, .free⟩).setReady q
        (b.ready q ++ [n])).task u = b.task u := setTask_other _ _ hne
    rw [ht] at hh
    exact .inl hh
  | handOff _ _ _ => exact .inl hh
  | switchFree hw _ _ =>
    obtain rfl := heq hw
    rw [Board.live, setLife, setTask_self] at hl
    cases hl
  | @switchSleep w m hw _ _ hm =>
    obtain rfl := heq hw
    have hself : ((b.setCur a none).setMode w m).task w = {b.task w with mode := m} := setTask_self _ _ _
    rw [hself] at hh
    exact .inl (hh.away hm)
  | @switchReady w q m hw _ _ _ hm _ =>
    obtain rfl := heq hw
    have hself : (((b.setCur a none).setReady q (b.ready q ++ [w])).setMode w m).task w =
        {b.task w with mode := m} := setTask_self _ _ _
    rw [hself] at hh
    exact .inl (hh.away hm)
  | resume hn _ _ | expire hn _ _ _ _ _ _ | event hn _ _ _ _ => exact absurd hn hnone

end UthreadRuntime.Placement
