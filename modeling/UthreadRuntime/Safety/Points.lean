import UthreadRuntime.Safety.Frame
import UthreadRuntime.Safety.Sound

/-! What the runtime refers to.

A uthread is referred to by the sched it runs on, by the queue and the trees of a p, and by the
uthread it has joined. A step refers to nobody anew, but for the uthread that it creates: whoever
is queued or resumed was in a tree, in a queue, on a sched or a joiner before. This holds of every
step, wherever the uthread that takes it stands. -/
namespace UthreadRuntime

open State

/-- Somebody refers to the uthread. -/
def State.Points (s : State) (u : UId) : Prop :=
  (∃ a, (s.sched a).curUthread = some u) ∨
  (∃ q, u ∈ (s.p q).ready ∨ u ∈ (s.p q).sleeping ∨ u ∈ (s.p q).waiting) ∨ ∃ t, (s.ut t).utJoined = some u

/-- Nobody is referred to anew, and p's and uthreads belong where they belonged. -/
structure Kept (s s' : State) : Prop where
  points : ∀ u, s'.Points u → s.Points u
  home : ∀ u, (s'.ut u).p = (s.ut u).p
  sched : ∀ q, (s'.p q).sched = (s.p q).sched
  heap : s'.heap = s.heap

namespace Kept

variable {s s₁ s' : State} {a : SId} {u v : UId} {q : PId}

theorem of_eq (hut : s'.ut = s.ut) (hp : s'.p = s.p) (hs : s'.sched = s.sched) (hheap : s'.heap = s.heap) :
    Kept s s' := by
  refine ⟨fun u hu => ?_, fun u => by rw [hut], fun q => by rw [hp], hheap⟩
  unfold Points at hu
  rwa [hut, hp, hs] at hu

theorem refl (s : State) : Kept s s := of_eq rfl rfl rfl rfl

theorem trans (h : Kept s s₁) (h' : Kept s₁ s') : Kept s s' :=
  ⟨fun u hu => h.points u (h'.points u hu), fun u => (h'.home u).trans (h.home u),
    fun q => (h'.sched q).trans (h.sched q), h'.heap.trans h.heap⟩

theorem setUt {f : Uthread → Uthread} (h : Kept s s₁) (hp : (f (s₁.ut u)).p = (s₁.ut u).p)
    (hj : ∀ j, (f (s₁.ut u)).utJoined = some j → s.Points j) : Kept s (s₁.setUt u f) := by
  refine ⟨fun v hv => ?_, fun v => (setUt_keeps Uthread.p hp v).trans (h.home v), h.sched, h.heap⟩
  rcases hv with hc | hl | ⟨t, ht⟩
  · exact h.points v (.inl hc)
  · exact h.points v (.inr (.inl hl))
  · rw [setUt_ut] at ht
    split at ht
    · exact hj v ht
    · exact h.points v (.inr (.inr ⟨t, ht⟩))

/-- A field that refers to nobody is written. -/
theorem setUt_same {f : Uthread → Uthread} (h : Kept s s₁) (hp : (f (s₁.ut u)).p = (s₁.ut u).p)
    (hj : (f (s₁.ut u)).utJoined = (s₁.ut u).utJoined) : Kept s (s₁.setUt u f) := by
  refine h.setUt hp fun j hj' => h.points j (.inr (.inr ⟨u, ?_⟩))
  rw [← hj]
  exact hj'

theorem setP {g : P → P} (h : Kept s s₁) (hs : (g (s₁.p q)).sched = (s₁.p q).sched)
    (hl : ∀ w, w ∈ (g (s₁.p q)).ready ∨ w ∈ (g (s₁.p q)).sleeping ∨ w ∈ (g (s₁.p q)).waiting → s.Points w) :
    Kept s (s₁.setP q g) := by
  refine ⟨fun v hv => ?_, h.home, fun r => (setP_keeps P.sched hs r).trans (h.sched r), h.heap⟩
  rcases hv with hc | ⟨r, hr⟩ | hj
  · exact h.points v (.inl hc)
  · rw [setP_p] at hr
    split at hr
    · exact hl v hr
    · exact h.points v (.inr (.inl ⟨r, hr⟩))
  · exact h.points v (.inr (.inr hj))

/-- The queue and the trees are as they were, or have lost somebody. -/
theorem setP_less {g : P → P} (h : Kept s s₁) (hs : (g (s₁.p q)).sched = (s₁.p q).sched)
    (hr : ∀ w ∈ (g (s₁.p q)).ready, w ∈ (s₁.p q).ready)
    (hsl : ∀ w ∈ (g (s₁.p q)).sleeping, w ∈ (s₁.p q).sleeping)
    (hw : ∀ w ∈ (g (s₁.p q)).waiting, w ∈ (s₁.p q).waiting) : Kept s (s₁.setP q g) := by
  refine h.setP hs fun w hw' => h.points w (.inr (.inl ⟨q, ?_⟩))
  rcases hw' with h1 | h1 | h1
  · exact .inl (hr w h1)
  · exact .inr (.inl (hsl w h1))
  · exact .inr (.inr (hw w h1))

/-- The queue and the trees are as they were. -/
theorem setP_same {g : P → P} (h : Kept s s₁) (hs : (g (s₁.p q)).sched = (s₁.p q).sched)
    (hr : (g (s₁.p q)).ready = (s₁.p q).ready) (hsl : (g (s₁.p q)).sleeping = (s₁.p q).sleeping)
    (hw : (g (s₁.p q)).waiting = (s₁.p q).waiting) : Kept s (s₁.setP q g) :=
  h.setP_less hs (fun _ h1 => hr ▸ h1) (fun _ h1 => hsl ▸ h1) fun _ h1 => hw ▸ h1

theorem setSched {f : Sched → Sched} (h : Kept s s₁)
    (hc : ∀ w, (f (s₁.sched a)).curUthread = some w → s.Points w) : Kept s (s₁.setSched a f) := by
  refine ⟨fun v hv => ?_, h.home, h.sched, h.heap⟩
  rcases hv with ⟨c, hc'⟩ | hl
  · rw [setSched_sched] at hc'
    split at hc'
    · exact hc v hc'
    · exact h.points v (.inl ⟨c, hc'⟩)
  · exact h.points v (.inr hl)

/-- The sched runs what it ran. -/
theorem setSched_same {f : Sched → Sched} (h : Kept s s₁)
    (hc : (f (s₁.sched a)).curUthread = (s₁.sched a).curUthread) : Kept s (s₁.setSched a f) := by
  refine h.setSched fun w hw => h.points w (.inl ⟨a, ?_⟩)
  rw [← hc]
  exact hw

theorem insertReady (h : Kept s s₁) (hu : s.Points u) : Kept s (insertReady q u s₁) := by
  refine h.setP rfl fun w hw => ?_
  rcases hw with hw | hw
  · rcases List.mem_append.mp hw with hold | hnew
    · exact h.points w (.inr (.inl ⟨q, .inl hold⟩))
    · rw [List.mem_singleton.mp hnew]
      exact hu
  · exact h.points w (.inr (.inl ⟨q, .inr hw⟩))

theorem deschedSleep (h : Kept s s₁) (hs : uthreadDeschedSleep u s₁ = .ok s') : Kept s s' := by
  rcases uthreadDeschedSleep_ok hs with ⟨-, rfl⟩ | ⟨-, q, -, rfl⟩
  · exact h
  · have hp : Kept s (s₁.setP q fun v => {v with sleeping := Tree.remove u v.sleeping}) :=
      h.setP_less rfl (fun _ hw => hw) (fun _ hw => (Tree.mem_remove.mp hw).1) fun _ hw => hw
    exact hp.setUt_same rfl rfl

theorem goto (h : Kept s s₁) (k : Ctx) : Kept s (goto u k s₁) := h.setUt_same rfl rfl

theorem returns (h : Kept s s₁) (x : Int) : Kept s (returns a u x s₁) := h.setUt_same rfl rfl

theorem setErrno (h : Kept s s₁) (e : Errno) : Kept s (setErrno a e s₁) := h.setSched_same rfl

theorem deschedEvent (h : Kept s s₁) {fd e : Int} {found : Option UId}
    (hs : uthreadDeschedEvent a fd e s₁ = .ok (found, s')) : Kept s s' := by
  obtain ⟨q, -, -, ⟨-, rfl⟩ | ⟨v, -, hv⟩⟩ := uthreadDeschedEvent_ok hs
  · exact h
  · refine (h.setP_less rfl (fun _ hw => hw) (fun _ hw => hw) fun w hw => ?_).deschedSleep hv
    exact (Tree.mem_remove.mp hw).1

/-- Who is found in the waiting tree is in it. -/
theorem points_found {fd e : Int} (hs : uthreadDeschedEvent a fd e s = .ok (some u, s')) : s.Points u := by
  obtain ⟨q, -, hf, -⟩ := uthreadDeschedEvent_ok hs
  exact .inr (.inl ⟨q, .inr (.inr (Tree.find_eq_some hf).1)⟩)

theorem dropInterest (h : Kept s s₁) (fd : Int) : Kept s (dropInterest q fd s₁) :=
  h.setP_same rfl rfl rfl rfl

theorem cancelEvent (h : Kept s s₁) (hs : uthreadCancelEvent a u s₁ = .ok s') : Kept s s' := by
  obtain ⟨q, s₂, -, -, rfl, hs₂⟩ := uthreadCancelEvent_ok hs
  have hdrop : Kept s (UthreadRuntime.dropInterest q (fdOnly (s₁.ut u).fdWait)
      (s₁.setUt u fun v => {v with status := clearWait v.status})) := (h.setUt_same rfl rfl).dropInterest _
  rcases hs₂ with ⟨-, rfl⟩ | ⟨-, found, hd⟩
  · exact hdrop.setUt_same rfl rfl
  · exact (hdrop.deschedEvent hd).setUt_same rfl rfl

theorem wakeJoined (h : Kept s s₁) (hs : wakeJoined u s₁ = .ok s') : Kept s s' := by
  rcases wakeJoined_ok hs with ⟨-, rfl⟩ | ⟨j, q, s₂, hj, hd, -, rfl⟩
  · exact h
  · exact ((h.deschedSleep hd).setUt_same rfl rfl).insertReady (h.points j (.inr (.inr ⟨u, hj⟩)))

theorem switched (h : Kept s s₁) (hu : s.Points u) (hs : uthreadSwitched a u s₁ = .ok s') : Kept s s' := by
  have hi : Kept s (idleCpu a s₁) := h.setSched fun w hw => by cases hw
  rcases uthreadSwitched_ok hs with ⟨-, s₂, hw, -, rfl⟩ | ⟨-, -, rfl⟩ | ⟨-, -, q, -, rfl⟩
  · have h₂ := hi.wakeJoined hw
    refine setUt_same (h₂.trans (of_eq rfl rfl rfl rfl)) ?_ ?_ <;> rfl
  · exact hi
  · exact hi.insertReady hu

theorem resume (h : Kept s s₁) (hu : s.Points u) (k : SchedAt) : Kept s (uthreadResume a u k s₁) := by
  have h₀ : Kept s (if (s₁.ut u).status.has .new then uthreadInit u s₁ else s₁) := by
    split
    · exact h.setUt_same rfl rfl
    · exact h
  unfold uthreadResume
  generalize (if (s₁.ut u).status.has .new then uthreadInit u s₁ else s₁) = s₂ at h₀ ⊢
  have h₁ : Kept s (s₂.setSched a fun v => {v with curUthread := some u, pc := k}) := by
    refine h₀.setSched fun w hw => ?_
    cases hw
    exact hu
  have h₃ : Kept s ((s₂.setSched a fun v => {v with curUthread := some u, pc := k}).setUt u fun v =>
      {v with isWatingYieldSignal := true}) := h₁.setUt_same rfl rfl
  exact h₃.trans (of_eq rfl rfl rfl rfl)

theorem handleEvent (h : Kept s s₁) {fd : Int} {ev : UthreadEvent} {isEof : Bool} {k : SchedAt}
    (hs : handleEvent a fd ev isEof k s₁ = .ok s') : Kept s s' := by
  rcases handleEvent_ok hs with ⟨s₂, hd, rfl⟩ | ⟨u, s₂, s₃, hd, -, hdel, rfl⟩
  · exact (h.deschedEvent hd).setSched_same rfl
  · obtain ⟨q, -, -, rfl⟩ := epollDel_ok hdel
    have h₃ := ((h.deschedEvent hd).setUt_same (u := u) (f := fun v => {v with status := clearWait v.status})
      rfl rfl).dropInterest (q := q) fd
    exact (h₃.setUt_same rfl rfl).resume (h.points u (points_found hd)) k

end Kept

/-- **A scheduler refers to nobody anew.** -/
theorem SchedStep.kept {a : SId} {r : Reply} {s s' : State} (hs : SchedStep a r s s') : Kept s s' := by
  have h := Kept.refl s
  cases hs with
  | goes _ => exact h.setSched_same rfl
  | another _ _ => exact (h.setP_same rfl rfl rfl rfl).setSched_same rfl
  | @expired q u s₁ s₂ _ _ hmin _ hcancel hsl =>
    have hu : s.Points u := .inr (.inl ⟨q, .inr (.inl (Tree.min_mem hmin))⟩)
    exact (((h.cancelEvent hcancel).deschedSleep hsl).setUt_same rfl rfl).resume hu .expiry
  | @ready q u rest last _ _ hr =>
    have hu : s.Points u := .inr (.inl ⟨q, .inl (by rw [hr]; exact List.mem_cons_self)⟩)
    refine (h.setP_less rfl (fun w hw => ?_) (fun _ hw => hw) fun _ hw => hw).resume hu _
    rw [hr]
    exact List.mem_cons_of_mem u hw
  | noPoll _ _ => exact (h.setP_same rfl rfl rfl rfl).setSched_same rfl
  | @polled q _ _ _ =>
    have h₁ : Kept s (s.setP q fun v => {v with numNewEvents := 0}) :=
      h.setP_same rfl rfl rfl rfl
    have h₂ : Kept s (UthreadRuntime.polled q r.events (s.setP q fun v => {v with numNewEvents := 0})) :=
      h₁.setP_same rfl rfl rfl rfl
    exact h₂.setSched_same rfl
  | @took q e _ _ _ _ _ he =>
    refine Kept.handleEvent ?_ he
    unfold tookEvent
    dsimp only
    have h₁ : Kept s (s.setP q fun v =>
        {v with numNewEvents := v.numNewEvents - 1, taken := v.taken ++ [e]}) :=
      h.setP_same rfl rfl rfl rfl
    split
    · have h₂ := h₁.setSched_same (a := a) (f := fun v => {v with errno := .econnreset}) rfl
      exact h₂.trans (.of_eq rfl rfl rfl rfl)
    · exact h₁.trans (.of_eq rfl rfl rfl rfl)
  | handled _ he => exact h.handleEvent he
  | halted _ => exact .of_eq rfl rfl rfl rfl

/-! ### Library code -/

section Statements

variable {s s' : State} {a : SId} {u : UId}

/-- **A statement refers to nobody anew**, but for the uthread it creates; and no p changes hands,
but in a hand-off. -/
theorem Stmt.kept {r : Reply} (hs : Stmt a u r s s') (hu : s.Points u) :
    Kept s s' ∨ HandsOver u s s' ∨
    ∃ c id p q, (s.ut u).ctx = .create c (.insert id p) ∧ (s.sched c).p = some q ∧
      s' = returns a u 0 (UthreadRuntime.created q id p s) := by
  have h := Kept.refl s
  have hgo : ∀ {k : Ctx} {s₀ : State}, Kept s s₀ → Kept s (goto u k s₀) := fun h₀ => h₀.goto _
  have hret : ∀ {x : Int} {s₀ : State}, Kept s s₀ → Kept s (returns a u x s₀) := fun h₀ => h₀.returns _
  have herr : ∀ {s₀ : State}, (s₀ = s ∨ ∃ e, s₀ = setErrno a e s) → Kept s s₀ := by
    rintro s₀ (rfl | ⟨e, rfl⟩)
    · exact h
    · exact h.setErrno e
  cases hs with
  | own _ hown => exact .inl (hgo (h.setUt_same (by cases hown <;> rfl) (by cases hown <;> rfl)))
  | moves _ => exact .inl (hgo h)
  | io _ h₀ _ => exact .inl (hgo (herr h₀))
  | ioReturns _ h₀ | diskCall _ h₀ => exact .inl (hret (herr h₀))
  | linkSleeping _ _ ht =>
    obtain ⟨rfl, -⟩ := Tree.insert_eq_some ht
    refine .inl (hgo (h.setP rfl fun w hw => ?_))
    rcases hw with hw | hw | hw
    · exact .inr (.inl ⟨_, .inl hw⟩)
    · rcases List.mem_cons.mp hw with rfl | hw
      · exact hu
      · exact .inr (.inl ⟨_, .inr (.inl hw)⟩)
    · exact .inr (.inl ⟨_, .inr (.inr hw)⟩)
  | watch _ _ _ =>
    have hc : Kept s {s with consumed := Function.update s.consumed u false} := .of_eq rfl rfl rfl rfl
    exact .inl (hgo (hc.setP_same rfl rfl rfl rfl))
  | @linkWaiting c q _ _ =>
    refine .inl (hgo (h.setP rfl fun w hw => ?_))
    rcases hw with hw | hw | hw
    · exact .inr (.inl ⟨_, .inl hw⟩)
    · exact .inr (.inl ⟨_, .inr (.inl hw)⟩)
    · cases hins : insertWaiting s u (s.p q).waiting with
      | none =>
        simp only [hins, Option.getD_none] at hw
        exact .inr (.inl ⟨_, .inr (.inr hw)⟩)
      | some t =>
        simp only [hins, Option.getD_some] at hw
        obtain ⟨rfl, -⟩ := Tree.insert_eq_some hins
        rcases List.mem_cons.mp hw with rfl | hw
        · exact hu
        · exact .inr (.inl ⟨_, .inr (.inr hw)⟩)
  | joinFails _ => exact .inl (hret (h.setErrno _))
  | publish _ =>
    refine .inl (hgo (h.setUt rfl fun j hj => ?_))
    cases hj
    exact hu
  | unpublish _ => exact .inl (hgo (h.setUt rfl fun j hj => by cases hj))
  | setRetval _ | diskFlag _ _ => exact .inl (hgo (h.setUt_same rfl rfl))
  | resetRetval _ => exact .inl (hret (h.setUt_same rfl rfl))
  | joinExited _ _ | joinFree _ => exact .inl (hret (.of_eq rfl rfl rfl rfl))
  | store _ =>
    rw [storeRetval_eq]
    exact .inl (hgo (.of_eq rfl rfl rfl rfl))
  | switch _ _ hsw => exact .inl ((h.goto _).switched hu hsw)
  | allocFails _ _ => exact .inl (hret h)
  | lock _ _ | count _ | unlock _ => exact .inl (hgo (.of_eq rfl rfl rfl rfl))
  | created hctx hq => exact .inr (.inr ⟨_, _, _, _, hctx, hq, rfl⟩)
  | handOff hctx hq hr hidle => exact .inr (.inl ⟨_, _, _, _, hctx, hq, hr, hidle, rfl⟩)

theorem Entered.kept {c : Call} (hs : Entered a u s c s') : Kept s s' := by
  have h := Kept.refl s
  have hent : ∀ c, Kept s (entered u c s) := fun c => h.setUt_same rfl rfl
  cases hs with
  | goes _ _ _ => exact (hent _).goto _
  | detach _ => exact ((hent _).setUt_same rfl rfl).returns _
  | close =>
    refine Kept.returns ?_ _
    obtain ⟨hp, hh, hs, hheap⟩ := hent (.close _)
    exact ⟨fun w hw => hp w hw, hh, hs, hheap⟩

/-- A hand-off refers to nobody anew. -/
theorem handedOff_points {c n : SId} {q : PId} {rest : List SId} {v : UId}
    (h : (goto u .diskCall (handedOff c n q rest s)).Points v) : s.Points v := by
  rcases h with ⟨d, hd⟩ | ⟨r, hr⟩ | ⟨t, ht⟩
  · have hd' : ((handedOff c n q rest s).sched d).curUthread = some v := hd
    rw [handedOff_cur] at hd'
    exact .inl ⟨d, hd'⟩
  · have hp : (goto u .diskCall (handedOff c n q rest s)).p r = _ := handedOff_p (c := c) r
    rw [hp] at hr
    split at hr
    · exact .inr (.inl ⟨q, hr⟩)
    · exact .inr (.inl ⟨r, hr⟩)
  · have hkeeps : ((goto u .diskCall (handedOff c n q rest s)).ut t).utJoined = (s.ut t).utJoined :=
      setUt_keeps Uthread.utJoined rfl t
    exact .inr (.inr ⟨t, hkeeps.symm.trans ht⟩)

/-- The uthread that is created is referred to by the queue. -/
theorem created_points {q : PId} {id : Nat} {p : Option PId} {v : UId} (h : (created q id p s).Points v) :
    s.Points v ∨ v = s.heap := by
  rcases h with hc | ⟨r, hr⟩ | ⟨t, ht⟩
  · exact .inl (.inl hc)
  · rw [created_p] at hr
    split at hr
    · rename_i hrq
      rcases hr with hr | hr
      · rcases List.mem_append.mp hr with hr | hr
        · exact .inl (.inr (.inl ⟨q, .inl hr⟩))
        · exact .inr (List.mem_singleton.mp hr)
      · exact .inl (.inr (.inl ⟨q, .inr hr⟩))
    · exact .inl (.inr (.inl ⟨r, hr⟩))
  · have ht' : (Function.update s.ut s.heap
        {id := id, status := .only .new, p := p, fdWait := -1, isWatingYieldSignal := true, life := .live}
        t).utJoined = some v := ht
    rw [Function.update_apply] at ht'
    split at ht'
    · cases ht'
    · exact .inl (.inr (.inr ⟨t, ht'⟩))

end Statements

end UthreadRuntime
