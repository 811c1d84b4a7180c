import UthreadRuntime.Placement.Cover

/-! Every descriptor in an interest set is somebody's.

`Cover` says that a uthread which holds a descriptor finds it in the interest set. `Watchful` is
the other direction: whatever is in the interest set is held by a uthread of the p. A
registration adds the two together, and a wait that ends drops the descriptor with it. -/
namespace UthreadRuntime.Placement

open Board

structure Watchful (b : Board) : Prop where
  held : ∀ {q fd}, b.interest q fd → ∃ u, b.live u ∧ (b.task u).home = some q ∧ (b.task u).Holds fd

section Watchful

variable {b b' : Board}

/-- Nothing is added to the interest sets, and whoever holds what is left goes on holding it. -/
theorem Watchful.kept (h : Watchful b) (hin : ∀ q fd, b'.interest q fd → b.interest q fd)
    (hkeep : ∀ q fd u, b'.interest q fd → b.live u → (b.task u).home = some q → (b.task u).Holds fd →
      b'.live u ∧ (b'.task u).home = some q ∧ (b'.task u).Holds fd) : Watchful b' := by
  constructor
  intro q fd hi
  obtain ⟨u, hu, hq, hh⟩ := h.held (hin q fd hi)
  exact ⟨u, hkeep q fd u hi hu hq hh⟩

/-- One task changes, and its uthread lets go of nothing. -/
theorem Watchful.setTask {u : UId} {t : Task} (h : Watchful b) (hlife : t.life = (b.task u).life)
    (hhome : t.home = (b.task u).home) (hholds : ∀ fd, (b.task u).Holds fd → t.Holds fd) :
    Watchful (b.setTask u t) := by
  refine h.kept (fun _ _ hi => hi) fun q fd v _ hv hq hh => ?_
  unfold Board.live at hv ⊢
  by_cases hvu : v = u
  · subst hvu
    rw [setTask_self, hlife, hhome]
    exact ⟨hv, hq, hholds fd hh⟩
  · rw [setTask_other b t hvu]
    exact ⟨hv, hq, hh⟩

theorem Task.not_holds {t : Task} {m : Mode} (hm : t.mode = m) (hpub : ∀ fd e, m ≠ .registered fd e ∧
      m ≠ .keyed fd e ∧ m ≠ .arming (.event fd e) ∧ m ≠ .linked (.event fd e) ∧
      m ≠ .parking (.event fd e) ∧ m ≠ .parked (.event fd e)) (fd : Int) : ¬t.Holds fd := by
  rintro (⟨e, he⟩ | ⟨e, he⟩)
  · rw [hm] at he
    exact he.elim (hpub fd e).1 (hpub fd e).2.1
  · unfold Task.WaitsFor at he
    rw [hm] at he
    rcases he with he | he | ⟨-, he | he⟩
    · exact (hpub fd e).2.2.1 he
    · exact (hpub fd e).2.2.2.1 he
    · exact (hpub fd e).2.2.2.2.1 he
    · exact (hpub fd e).2.2.2.2.2 he

/-- A uthread that holds nothing moves on. -/
theorem Watchful.progress {u : UId} {t : Task} (h : Watchful b) (hlife : t.life = (b.task u).life)
    (hhome : t.home = (b.task u).home) (hnone : ∀ fd, ¬(b.task u).Holds fd) : Watchful (b.setTask u t) :=
  h.setTask hlife hhome fun fd hh => absurd hh (hnone fd)

theorem Watchful.register {a : SId} {u : UId} {q : PId} {fd : Int} {e : UthreadEvent} (h : Watchful b)
    (hi : Inv b) (hc : b.cur a = some u) (hm : (b.task u).mode = .free) (hb : b.bound a = some q) :
    Watchful ((b.watch q fd).setMode u (.registered fd e)) := by
  have hq := hi.home_of_cur hc hb
  have hself : ((b.watch q fd).setMode u (.registered fd e)).task u =
      {b.task u with mode := .registered fd e} := setTask_self _ _ _
  constructor
  rintro r f (hin | ⟨rfl, rfl⟩)
  · obtain ⟨v, hv, hvq, hh⟩ := h.held hin
    have hvu : v ≠ u := by
      rintro rfl
      exact Task.not_holds hm (by simp) f hh
    refine ⟨v, ?_⟩
    unfold Board.live at hv ⊢
    rw [setMode, setTask_other _ _ hvu]
    exact ⟨hv, hvq, hh⟩
  · refine ⟨u, ?_⟩
    unfold Board.live
    rw [hself]
    exact ⟨hi.cur_live hc, hq, .inl ⟨e, .inl rfl⟩⟩

theorem Watchful.switchSleep {a : SId} {u : UId} {m : Mode} (h : Watchful b)
    (ha : (b.task u).asleep = true) (hm : Away (b.task u).mode m) :
    Watchful ((b.setCur a none).setMode u m) := by
  have hleft : Watchful (b.setCur a none) := ⟨h.held⟩
  refine hleft.setTask rfl rfl fun fd hh => ?_
  rcases hm with rfl | ⟨g, hg, rfl⟩
  · exact hh
  · have hgoal : ∃ e, g = .event fd e := by
      have hh' : (b.task u).Holds fd := hh
      unfold Task.Holds Task.WaitsFor at hh'
      simp only [hg] at hh'
      simpa [ha] using hh'
    obtain ⟨e, rfl⟩ := hgoal
    exact .inr ⟨e, .inr (.inr ⟨ha, .inr rfl⟩)⟩

theorem Watchful.released {a : SId} {u : UId} {m : Mode} (h : Watchful b) (hi : Inv b) (hal : b.Alone a)
    (hc : b.cur a = some u) (he : (b.task u).exited = true) (hr : Released a u m b b') : Watchful b' := by
  refine h.kept (fun q fd hin => by rwa [hr.interest] at hin) fun q fd v _ hv hq hh => ?_
  have hvu : v ≠ u := by
    rintro rfl
    exact Task.not_holds (hi.exiting hc he).1 (by simp) fd hh
  have hj : (b.task u).joined ≠ some v := by
    intro hj
    obtain ⟨-, -, -, -, -, hm | hm⟩ := hi.joiner hal hc he hj
    · exact Task.not_holds hm (by simp) fd hh
    · exact Task.not_holds hm (by simp) fd hh
  unfold Board.live at hv ⊢
  rw [hr.rest v hvu hj]
  exact ⟨hv, hq, hh⟩

theorem Task.WaitsFor.holds_eq {t : Task} {fd f : Int} {e : UthreadEvent} (hw : t.WaitsFor (.event fd e))
    (hh : t.Holds f) : f = fd := by
  rcases hh with ⟨e', hm⟩ | ⟨e', hw'⟩
  · unfold Task.WaitsFor at hw
    rcases hm with hm | hm <;> simp [hm] at hw
  · cases hw.goal_eq hw'
    rfl

/-- A wait that ends takes its descriptor with it. -/
theorem Watchful.woken {u : UId} {q : PId} {fd : Int} {e : UthreadEvent} (h : Watchful b)
    (hq : (b.task u).home = some q) (hw : (b.task u).WaitsFor (.event fd e))
    (hother : ∀ v, v ≠ u → b'.task v = b.task v)
    (hinterest : ∀ r f, b'.interest r f → b.interest r f ∧ ¬(r = q ∧ f = fd)) : Watchful b' := by
  refine h.kept (fun r f hin => (hinterest r f hin).1) fun r f v hin hv hvq hh => ?_
  have hvu : v ≠ u := by
    rintro rfl
    exact (hinterest r f hin).2 ⟨Option.some.inj (hvq.symm.trans hq), hw.holds_eq hh⟩
  unfold Board.live at hv ⊢
  rw [hother v hvu]
  exact ⟨hv, hvq, hh⟩

/-- **No descriptor is left behind.** -/
theorem Watchful.move {a : SId} (h : Watchful b) (hcov : Cover b) (hi : Inv b) (hal : b.Alone a)
    (hm : Move a b b') : Watchful b' := by
  cases hm with
  | choose _ hmode _ _ | exit _ hmode => exact h.progress rfl rfl (Task.not_holds hmode (by simp))
  | giveUp _ hmode | decide _ hmode _ | backJoined _ hmode | unkey _ hmode | finishJoin _ hmode =>
    exact h.progress rfl rfl (Task.not_holds hmode (by simp))
  | @publish u t hc hmode _ =>
    have h1 : Watchful (b.setTask t {b.task t with joined := some u}) := h.setTask rfl rfl fun _ hh => hh
    refine h1.progress rfl rfl (Task.not_holds (m := .deciding t) ?_ (by simp))
    by_cases hut : u = t
    · rw [hut, setTask_self]
      rw [hut] at hmode
      exact hmode
    · rw [setTask_other _ _ hut]
      exact hmode
  | register hc hmode hb _ _ => exact h.register hi hc hmode hb
  | @key u fd e _ hmode =>
    refine h.setTask rfl rfl fun f hh => ?_
    have hf : fd = f := by simpa [Task.Holds, Task.WaitsFor, hmode] using hh
    exact .inl ⟨e, .inr (by rw [hf])⟩
  | @queue u q fd e _ hmode _ _ =>
    have h1 : Watchful (b.linkWaiting q u) := ⟨h.held⟩
    refine h1.setTask rfl rfl fun f hh => ?_
    have hmode' : ((b.linkWaiting q u).task u).mode = .keyed fd e := hmode
    have hf : fd = f := by simpa [Task.Holds, Task.WaitsFor, hmode'] using hh
    exact .inr ⟨e, .inl (by rw [hf])⟩
  | queueRefused hc hmode hq hw hk => exact (hcov.queueRefused hc hi hmode hq hw hk).elim
  | @link u q g _ hmode _ =>
    have h1 : Watchful (b.linkSleeping q u) := ⟨h.held⟩
    refine h1.setTask rfl rfl fun f hh => ?_
    have hmode' : ((b.linkSleeping q u).task u).mode = .arming g := hmode
    obtain ⟨e, rfl⟩ : ∃ e, g = .event f e := by simpa [Task.Holds, Task.WaitsFor, hmode'] using hh
    exact .inr ⟨e, .inr (.inl rfl)⟩
  | @mark u g _ hmode =>
    refine h.setTask rfl rfl fun f hh => ?_
    obtain ⟨e, rfl⟩ : ∃ e, g = .event f e := by simpa [Task.Holds, Task.WaitsFor, hmode] using hh
    exact .inr ⟨e, .inr (.inr ⟨rfl, .inl rfl⟩)⟩
  | @backEvent u fd e hc hmode =>
    -- a uthread that is back on a sched is not asleep
    have hwf := hi.wf (hi.cur_live hc)
    simp only [Task.Wf, hmode] at hwf
    have hna := hwf.2.2.2 ⟨a, hc⟩
    refine h.progress rfl rfl fun f hh => ?_
    simp [Task.Holds, Task.WaitsFor, hmode, hna] at hh
  | unpublish _ _ => exact h.setTask rfl rfl fun _ hh => hh
  | @create n q hfresh =>
    refine h.kept (fun _ _ hin => hin) fun r fd v _ hv hq hh => ?_
    have hvn : v ≠ n := by
      rintro rfl
      have hv' : (b.task v).life = .live := hv
      rw [hfresh] at hv'
      cases hv'
    have ht : ((b.setTask n ⟨.live, some q, false, false, none, -1, .free⟩).setReady q
        (b.ready q ++ [n])).task v = b.task v := setTask_other _ _ hvn
    unfold Board.live at hv ⊢
    rw [ht]
    exact ⟨hv, hq, hh⟩
  | handOff _ _ _ => exact ⟨h.held⟩
  | @switchFree u m hc he hhome =>
    rcases hi.freed_board (m := m) hal hc he hhome rfl with ⟨-, hr⟩ | ⟨j, q, b₁, -, -, hr, heq⟩
    · exact h.released hi hal hc he hr
    · rw [heq]
      exact ⟨(h.released hi hal hc he hr).held⟩
  | switchSleep _ _ ha hm => exact h.switchSleep ha hm
  | @switchReady u q m _ _ hna _ _ hpub =>
    have h1 : Watchful ((b.setCur a none).setReady q (b.ready q ++ [u])) := ⟨h.held⟩
    refine h1.progress rfl rfl fun f hh => ?_
    have hh' : (b.task u).Holds f := hh
    rw [hh'.publishing hna] at hpub
    cases hpub
  | resume _ _ _ => exact ⟨h.held⟩
  | @expire u q fd found hc _ hs hfd hin hf hn =>
    obtain ⟨rfl, e, hw⟩ := hcov.expire_found hi hal hc hs hfd hin hf hn
    obtain ⟨-, -, ha, -⟩ := hi.asleep_of_sleeping hal hs (by rw [hc]; simp)
    obtain ⟨-, hq, -⟩ := hi.sleeping_iff.mp hs
    rw [expire_own ha hq]
    exact h.woken hq hw (fun v hv => setTask_other _ _ hv) fun r f hin => hin
  | @event u q fd e hc _ hw hk _ =>
    obtain ⟨hlive, hq, fd', e', hwf⟩ := hi.waiting_mem hw
    obtain ⟨ha, -⟩ := hi.asleep_of_waits hal hlive hwf (by rw [hc]; simp)
    obtain ⟨rfl, -⟩ := waitKey_inj ((hwf.key_eq (hi.wf hlive)).1.symm.trans hk)
    rw [deschedFound_eq ha hq]
    exact h.woken hq hwf (fun v hv => setTask_other _ _ hv) fun r f hin => hin

end Watchful

end UthreadRuntime.Placement
