import UthreadRuntime.Placement.Moves
import UthreadRuntime.Safety.SoundRuns

/-! The runtime makes the moves of the abstract scheduler.

`board` reads a board off a state of the runtime. Most statements leave it as it is;
each of the others is one move, of the thread that executes it. The places where a
preemption or another thread would break this are those of `Calm`. -/
namespace UthreadRuntime

open State Placement

def Wait.goal : Wait → Goal
  | .join t _ => .join t
  | .event c => .event c.fd c.event

/-- How far a uthread is, by the statement it executes next. -/
def Ctx.mode : Ctx → Mode
  | .join t _ .exited => .choosing t
  | .join t _ .publish => .deciding t
  | .join t _ .setRetval => .arming (.join t)
  | .join t _ .expired | .join t _ .unpublish | .join t _ .resetRetval | .join t _ .free => .joined t
  | .register c .status | .register c .key => .registered c.fd c.event
  | .register c .insert => .keyed c.fd c.event
  | .register _ .unkey => .unkeying
  | .sleep w .clock | .sleep w .insert => .arming w.goal
  | .sleep w .mark => .linked w.goal
  | .sleep w .flag | .sleep w .yieldFlag | .sleep w .switch => .parking w.goal
  | .sleep w .wake => .parked w.goal
  | .exit _ .store | .exit _ .yieldFlag | .exit _ .switch => .exiting
  | _ => .free

def Uthread.task (r : Uthread) : Task :=
  ⟨r.life, r.p, r.status.has .sleeping, r.status.has .exited, r.utJoined, r.fdWait, r.ctx.mode⟩

/-- Who is where. -/
def State.board (s : State) : Board where
  task u := (s.ut u).task
  cur a := (s.sched a).curUthread
  bound a := (s.sched a).p
  ready q := (s.p q).ready
  sleeping q u := u ∈ (s.p q).sleeping
  waiting q u := u ∈ (s.p q).waiting
  interest q fd := fd ∈ (s.p q).interest.map Interest.fd

/-- From the last look at the target of a join, or from the registration of a
descriptor, to the mark that says the uthread sleeps. -/
def Ctx.publishing : Ctx → Bool
  | .join _ _ .exited | .join _ _ .publish | .join _ _ .setRetval => true
  | .register _ .status | .register _ .key | .register _ .insert => true
  | .sleep _ .clock | .sleep _ .insert | .sleep _ .mark => true
  | _ => false

/-- While a uthread publishes its wait nothing but its own next statement happens; once
it is marked asleep and until it has switched away, it may also be preempted. -/
def Calm (s : State) (act : Act) : Prop :=
  ∀ a u, (s.sched a).curUthread = some u →
    ((s.ut u).ctx.publishing = true → ∃ r, act = .stmt a r) ∧
    ((s.ut u).status.has .sleeping = true → (∃ r, act = .stmt a r) ∨ act = .preempt a)

theorem Ctx.publishing_mode (c : Ctx) : c.mode.publishing = c.publishing := by
  cases c with
  | join t r pc => cases pc <;> rfl
  | register c pc => cases pc <;> rfl
  | sleep w pc => cases pc <;> rfl
  | exit v pc => cases pc <;> rfl
  | _ => rfl

theorem Calm.alone {s : State} {act : Act} (h : Calm s act) : s.board.Alone act.thread := by
  intro c u hc hp
  obtain ⟨h1, h2⟩ := h c u hc
  rcases hp with hp | hp
  · have hpub : (s.ut u).ctx.publishing = true := by
      rw [← Ctx.publishing_mode]
      exact hp
    obtain ⟨r, rfl⟩ := h1 hpub
    rfl
  · rcases h2 hp with ⟨r, rfl⟩ | rfl <;> rfl

/-! ### Reading the board after an update -/

section Board

variable (s : State) (u : UId) (q : PId) (a : SId)

theorem board_ext {s s' : State} (hut : ∀ u, (s'.ut u).task = (s.ut u).task)
    (hsched : ∀ a, (s'.sched a).curUthread = (s.sched a).curUthread ∧ (s'.sched a).p = (s.sched a).p)
    (hp : ∀ q, (s'.p q).ready = (s.p q).ready ∧ (s'.p q).sleeping = (s.p q).sleeping ∧
      (s'.p q).waiting = (s.p q).waiting ∧
      (s'.p q).interest.map Interest.fd = (s.p q).interest.map Interest.fd) :
    s'.board = s.board := by
  unfold State.board
  congr 1
  · funext u
    exact hut u
  · funext a
    exact (hsched a).1
  · funext a
    exact (hsched a).2
  · funext q
    exact (hp q).1
  · funext q u
    rw [(hp q).2.1]
  · funext q u
    rw [(hp q).2.2.1]
  · funext q fd
    rw [(hp q).2.2.2]

theorem board_setUt (f : Uthread → Uthread) :
    (s.setUt u f).board = s.board.setTask u (f (s.ut u)).task := by
  unfold State.board Board.setTask
  congr 1
  funext v
  rw [setUt_ut]
  split <;> rfl

theorem setTask_same (b : Board) : b.setTask u (b.task u) = b := by
  unfold Board.setTask
  have : (fun v => if v = u then b.task u else b.task v) = b.task := by
    funext v
    by_cases hv : v = u
    · rw [if_pos hv, hv]
    · rw [if_neg hv]
  rw [this]

/-- A change that no board shows. -/
theorem board_setUt_same {f : Uthread → Uthread} (hf : (f (s.ut u)).task = (s.ut u).task) :
    (s.setUt u f).board = s.board := by
  rw [board_setUt, hf]
  exact setTask_same u s.board

theorem board_goto (c : Ctx) : (goto u c s).board = s.board.setMode u c.mode := board_setUt s u _

theorem board_returns (v : Int) : (returns a u v s).board = s.board.setMode u .free := board_setUt s u _

theorem board_setSched_same {f : Sched → Sched} (hc : (f (s.sched a)).curUthread = (s.sched a).curUthread)
    (hp : (f (s.sched a)).p = (s.sched a).p) : (s.setSched a f).board = s.board := by
  refine board_ext (fun _ => rfl) (fun c => ?_) fun _ => ⟨rfl, rfl, rfl, rfl⟩
  rw [setSched_sched]
  split
  · rename_i hca
    rw [hca]
    exact ⟨hc, hp⟩
  · exact ⟨rfl, rfl⟩

theorem board_setPc (k : SchedAt) : (setPc a k s).board = s.board :=
  board_setSched_same s a rfl rfl

theorem board_setErrno (e : Errno) : (setErrno a e s).board = s.board :=
  board_setSched_same s a rfl rfl

theorem board_setP_same {g : P → P} (hr : (g (s.p q)).ready = (s.p q).ready)
    (hs : (g (s.p q)).sleeping = (s.p q).sleeping) (hw : (g (s.p q)).waiting = (s.p q).waiting)
    (hi : (g (s.p q)).interest.map Interest.fd = (s.p q).interest.map Interest.fd) :
    (s.setP q g).board = s.board := by
  refine board_ext (fun _ => rfl) (fun _ => ⟨rfl, rfl⟩) fun r => ?_
  rw [setP_p]
  split
  · rename_i hrq
    rw [hrq]
    exact ⟨hr, hs, hw, hi⟩
  · exact ⟨rfl, rfl, rfl, rfl⟩

theorem board_setReady (l : List UId) :
    (s.setP q fun v => {v with ready := l}).board = s.board.setReady q l := by
  unfold State.board Board.setReady
  congr 1 <;> funext r
  · rw [setP_p]
    split <;> rfl
  · exact setP_keeps (fun v u => u ∈ v.sleeping) rfl r
  · exact setP_keeps (fun v u => u ∈ v.waiting) rfl r
  · exact setP_keeps (fun v fd => fd ∈ v.interest.map Interest.fd) rfl r

theorem board_insertReady : (insertReady q u s).board =
    s.board.setReady q (s.board.ready q ++ [u]) :=
  board_setReady s q ((s.p q).ready ++ [u])

/-- A thread has another uthread. -/
theorem board_setCur {f : Sched → Sched} {v : Option UId} (hc : (f (s.sched a)).curUthread = v)
    (hp : (f (s.sched a)).p = (s.sched a).p) : (s.setSched a f).board = s.board.setCur a v := by
  unfold State.board Board.setCur
  congr 1 <;> funext c
  · rw [setSched_sched]
    split
    · exact hc
    · rfl
  · exact setSched_keeps Sched.p hp c

theorem board_idleCpu : (idleCpu a s).board = s.board.setCur a none := board_setCur s a rfl rfl

/-- The trees of one p change. -/
theorem board_setSleeping (t : List UId) : (s.setP q fun v => {v with sleeping := t}).board =
    {s.board with sleeping := fun r u => if r = q then u ∈ t else u ∈ (s.p r).sleeping} := by
  unfold State.board
  congr 1 <;> funext r
  all_goals
    rw [setP_p]
    by_cases hr : r = q
    · simp [hr]
    · simp [hr]

theorem board_setWaiting (t : List UId) : (s.setP q fun v => {v with waiting := t}).board =
    {s.board with waiting := fun r u => if r = q then u ∈ t else u ∈ (s.p r).waiting} := by
  unfold State.board
  congr 1 <;> funext r
  all_goals
    rw [setP_p]
    by_cases hr : r = q
    · simp [hr]
    · simp [hr]

theorem board_setInterest (l : List Interest) : (s.setP q fun v => {v with interest := l}).board =
    {s.board with interest := fun r fd =>
      if r = q then fd ∈ l.map Interest.fd else fd ∈ (s.p r).interest.map Interest.fd} := by
  unfold State.board
  congr 1 <;> funext r
  all_goals
    rw [setP_p]
    by_cases hr : r = q
    · simp [hr]
    · simp [hr]

end Board

/-! ### Sleeping, waiting and descriptors -/

section Links

variable {s s' : State} {u : UId} {q : PId}

theorem board_linkSleeping {t : List UId} (ht : t = u :: (s.p q).sleeping) :
    (s.setP q fun v => {v with sleeping := t}).board = s.board.linkSleeping q u := by
  rw [board_setSleeping, ht]
  unfold Board.linkSleeping
  dsimp only
  congr 1
  funext r v
  by_cases hr : r = q
  · simp [hr, State.board, or_comm]
  · simp [hr, State.board]

theorem board_linkWaiting {t : List UId} (ht : t = u :: (s.p q).waiting) :
    (s.setP q fun v => {v with waiting := t}).board = s.board.linkWaiting q u := by
  rw [board_setWaiting, ht]
  unfold Board.linkWaiting
  dsimp only
  congr 1
  funext r v
  by_cases hr : r = q
  · simp [hr, State.board, or_comm]
  · simp [hr, State.board]

theorem board_unlinkSleeping :
    (s.setP q fun v => {v with sleeping := Tree.remove u v.sleeping}).board =
      s.board.unlinkSleeping q u := by
  have hs := board_setSleeping s q (Tree.remove u (s.p q).sleeping)
  refine Eq.trans ?_ (hs.trans ?_)
  · rfl
  · unfold Board.unlinkSleeping
    dsimp only
    congr 1
    funext r v
    by_cases hr : r = q
    · simp [hr, State.board]
    · simp [hr, State.board]

theorem board_unlinkWaiting :
    (s.setP q fun v => {v with waiting := Tree.remove u v.waiting}).board =
      s.board.unlinkWaiting q u := by
  have hs := board_setWaiting s q (Tree.remove u (s.p q).waiting)
  refine Eq.trans ?_ (hs.trans ?_)
  · rfl
  · unfold Board.unlinkWaiting
    dsimp only
    congr 1
    funext r v
    by_cases hr : r = q
    · simp [hr, State.board]
    · simp [hr, State.board]

theorem board_watch {fd : Int} {e : UthreadEvent} {l : List Interest}
    (hl : l = ⟨fd, e, true⟩ :: (s.p q).interest) :
    (s.setP q fun v => {v with interest := l}).board = s.board.watch q fd := by
  rw [board_setInterest, hl]
  unfold Board.watch
  dsimp only
  congr 1
  funext r f
  by_cases hr : r = q
  · simp [hr, State.board, or_comm]
  · simp [hr, State.board]

theorem board_dropInterest (fd : Int) : (dropInterest q fd s).board = s.board.unwatch q fd := by
  have hs := board_setInterest s q ((s.p q).interest.filter fun i => i.fd != fd)
  refine Eq.trans ?_ (hs.trans ?_)
  · rfl
  · unfold Board.unwatch
    dsimp only
    congr 1
    funext r f
    by_cases hr : r = q
    · subst hr
      simp only [State.board, List.mem_map, List.mem_filter, bne_iff_ne, if_true, true_and,
        eq_iff_iff]
      constructor
      · rintro ⟨i, ⟨hi, hne⟩, rfl⟩
        exact ⟨⟨i, hi, rfl⟩, hne⟩
      · rintro ⟨⟨i, hi, rfl⟩, hne⟩
        exact ⟨i, ⟨hi, hne⟩, rfl⟩
    · simp [hr, State.board]

theorem board_deschedSleep (h : uthreadDeschedSleep u s = .ok s') :
    s'.board = s.board.desched u := by
  rcases uthreadDeschedSleep_ok h with ⟨hs, rfl⟩ | ⟨hs, q, hq, rfl⟩
  · rw [desched_of_awake]
    exact hs
  · rw [desched_eq (q := q) hs hq]
    unfold unlinkSleeper
    rw [board_setUt, board_unlinkSleeping]
    congr 1
    simp [Uthread.task, State.board]

theorem board_deschedEvent {a : SId} {fd e : Int} {found : Option UId}
    (h : uthreadDeschedEvent a fd e s = .ok (found, s')) :
    ∃ q, (s.sched a).p = some q ∧ s'.board = s.board.deschedFound q found ∧
      (∀ v, found = some v → s.board.waiting q v ∧ (s.ut v).fdWait = fdKey fd e) ∧
      (found = none → ∀ v, s.board.waiting q v → (s.ut v).fdWait ≠ fdKey fd e) := by
  obtain ⟨q, hq, hf, ⟨rfl, rfl⟩ | ⟨v, rfl, hd⟩⟩ := uthreadDeschedEvent_ok h
  · refine ⟨q, hq, rfl, by simp, fun _ v hv => Tree.find_eq_none hf v hv⟩
  · refine ⟨q, hq, ?_, fun w hw => ?_, by simp⟩
    · rw [board_deschedSleep hd, board_unlinkWaiting]
      rfl
    · cases hw
      exact Tree.find_eq_some hf

theorem task_clearWait (r : Uthread) (hs : (clearWait r.status).has .sleeping = r.status.has .sleeping)
    (he : (clearWait r.status).has .exited = r.status.has .exited) :
    ({r with status := clearWait r.status} : Uthread).task = r.task := by
  unfold Uthread.task
  rw [hs, he]

theorem board_clearWait : (s.setUt u fun v => {v with status := clearWait v.status}).board = s.board :=
  board_setUt_same s u (task_clearWait _ (has_clearWait_of_ne _ _ (by simp) (by simp))
    (has_clearWait_of_ne _ _ (by simp) (by simp)))

end Links

/-! ### Switching away -/

theorem desched_ready (b : Board) (u : UId) : (b.desched u).ready = b.ready := by
  unfold Board.desched
  split
  · split <;> rfl
  · rfl

section Switch

variable {s s' : State} {a : SId} {u : UId}

theorem board_wakeJoined (h : wakeJoined u s = .ok s') :
    s'.board = s.board.wakeJoiner u ∧ ∀ j, (s.ut u).utJoined = some j → (s.ut j).p ≠ none := by
  rcases wakeJoined_ok h with ⟨hj, rfl⟩ | ⟨j, q, s₁, hj, hd, hq, rfl⟩
  · refine ⟨?_, by simp [hj]⟩
    simp [Board.wakeJoiner, State.board, Uthread.task, hj]
  · have hb := board_deschedSleep hd
    have hq' : (s.ut j).p = some q := by
      rcases uthreadDeschedSleep_ok hd with ⟨-, rfl⟩ | ⟨-, q', -, rfl⟩
      · exact hq
      · simpa [unlinkSleeper] using hq
    refine ⟨?_, fun j' hj' => ?_⟩
    · unfold readyJoiner
      rw [board_insertReady, board_setUt_same s₁ j rfl, hb, desched_ready]
      have hw : s.board.wakeJoiner u = (s.board.desched j).setReady q (s.board.ready q ++ [j]) := by
        have h1 : (s.board.task u).joined = some j := hj
        have h2 : (s.board.task j).home = some q := hq'
        simp only [Board.wakeJoiner, h1, h2]
      rw [hw]
    · rw [hj] at hj'
      cases hj'
      rw [hq']
      simp

theorem board_freed : (freed u s).board = s.board.setLife u .freed := by
  unfold freed
  rw [board_setUt]
  unfold State.board
  rfl

/-- Control goes back to the scheduler; `m` is where the uthread stands then. -/
theorem switched_move {b : Board} {m : Mode} (hb : s.board = b.setMode u m)
    (hc : b.cur a = some u) (hm : (b.task u).exited = false → Away (b.task u).mode m)
    (hp : (b.task u).asleep = false → (b.task u).exited = false → (b.task u).mode.publishing = false)
    (hs : uthreadSwitched a u s = .ok s') : Move a b s'.board := by
  have hu : (s.ut u).task = {b.task u with mode := m} := by
    have := congrArg (fun b => b.task u) hb
    simpa [State.board, Board.setMode] using this
  have hexit : (b.task u).exited = (s.ut u).status.has .exited := by
    have := congrArg Task.exited hu
    exact this.symm
  have hasleep : (b.task u).asleep = (s.ut u).status.has .sleeping := by
    have := congrArg Task.asleep hu
    exact this.symm
  have hidle := board_idleCpu s a
  rcases uthreadSwitched_ok hs with ⟨he, s₁, hw, -, rfl⟩ | ⟨he, hsl, rfl⟩ | ⟨he, hsl, q, hq, rfl⟩
  · obtain ⟨hw, hhome⟩ := board_wakeJoined hw
    rw [board_freed, hw, hidle, hb]
    refine .switchFree hc (hexit.trans he) fun j hj => ?_
    have hj' : (s.ut u).utJoined = some j := by
      have := congrArg Task.joined hu
      exact this.trans hj
    have hne := hhome j hj'
    have hhj : (s.ut j).p = (b.task j).home := by
      have := congrArg (fun b => (b.task j).home) hb
      refine Eq.trans this ?_
      by_cases hju : j = u
      · simp [hju, Board.setMode]
      · simp [Board.setMode, setTask_other _ _ hju]
    rw [← hhj]
    exact hne
  · rw [hidle, hb]
    exact .switchSleep hc (hexit.trans he) (hasleep.trans hsl) (hm (hexit.trans he))
  · have hbound : b.bound a = some q := by
      have := congrArg (fun b => b.bound a) hb
      exact this.symm.trans hq
    rw [board_insertReady, hidle, hb]
    exact .switchReady hc (hexit.trans he) (hasleep.trans hsl) hbound (hm (hexit.trans he))
      (hp (hasleep.trans hsl) (hexit.trans he))

/-- A uthread is resumed. A new one has nothing that its first resumption could change. -/
theorem board_uthreadResume (h : Sound s) (hu : u < s.heap) (k : SchedAt) :
    (uthreadResume a u k s).board = s.board.setCur a (some u) := by
  have hinit : (if (s.ut u).status.has .new then uthreadInit u s else s).board = s.board := by
    split
    · rename_i hn
      obtain ⟨hctx, hsl, hex⟩ := (h.ut u hu).new hn
      refine board_setUt_same s u ?_
      simp [Uthread.task, hctx, hsl, hex]
    · rfl
  unfold uthreadResume
  generalize (if (s.ut u).status.has .new then uthreadInit u s else s) = s₀ at hinit ⊢
  rw [← hinit]
  have h1 : (s₀.setSched a fun v => {v with curUthread := some u, pc := k}).board =
      s₀.board.setCur a (some u) := board_setCur s₀ a rfl rfl
  rw [← h1]
  exact board_setUt_same (s₀.setSched a fun v => {v with curUthread := some u, pc := k}) u
    (f := fun v => {v with isWatingYieldSignal := true}) rfl

end Switch

/-! ### Statements of library code -/

/-- The board stays or makes one move. -/
def Refines (a : SId) (b b' : Board) : Prop := b' = b ∨ Move a b b'

theorem setMode_same {b : Board} {u : UId} {m : Mode} (hm : (b.task u).mode = m) : b.setMode u m = b := by
  unfold Board.setMode
  rw [← hm]
  exact setTask_same u b

section Statements

variable {s s' : State} {a : SId} {u : UId} (h : Sound s) (hinv : Inv s.board)
  (hc : (s.sched a).curUthread = some u)
include h hinv hc

omit h hinv in
theorem refines_sleep {w : Wait} {pc : SleepAt} {r : Reply} (hctx : (s.ut u).ctx = .sleep w pc)
    (hs : schedSleepStmt a u w pc r s = .ok s') : Refines a s.board s'.board := by
  have hmode : (s.board.task u).mode = (Ctx.sleep w pc).mode := by rw [← hctx]; rfl
  cases pc with
  | clock =>
    cases hs
    left
    rw [board_goto, board_setUt_same s u rfl]
    exact setMode_same hmode
  | insert =>
    obtain ⟨q, hq, hs⟩ := bind_ok hs
    split at hs
    · cases hs
    · rename_i t ht
      cases hs
      right
      rw [board_goto, board_linkSleeping (Tree.insert_eq_some ht).1]
      exact .link hc hmode (home_ok hq)
  | mark =>
    cases hs
    right
    unfold goto
    rw [setUt_setUt, board_setUt]
    have ht : ({s.ut u with status := (s.ut u).status.add .sleeping, ctx := .sleep w .flag} : Uthread).task =
        {s.board.task u with asleep := true, mode := .parking w.goal} := by
      simp [Uthread.task, State.board, Ctx.mode]
    rw [ht]
    exact .mark hc hmode
  | flag =>
    cases hs
    left
    rw [board_goto, board_setUt_same s u rfl]
    exact setMode_same hmode
  | yieldFlag =>
    cases hs
    left
    rw [board_goto, board_setUt_same s u rfl]
    exact setMode_same hmode
  | switch =>
    right
    refine switched_move (board_goto s u _) hc (fun _ => .inr ⟨w.goal, hmode, rfl⟩) (fun _ _ => ?_) hs
    rw [hmode]
    rfl
  | wake =>
    cases hs
    right
    unfold goto
    rw [setUt_setUt, board_setUt]
    cases w with
    | join t r =>
      have ht : ({s.ut u with status := (s.ut u).status.del .sleeping, ctx := .join t r .expired} :
          Uthread).task = {s.board.task u with asleep := false, mode := .joined t} := by
        simp [Uthread.task, State.board, Ctx.mode]
      exact ht ▸ .backJoined hc hmode
    | event c =>
      have ht : ({s.ut u with status := (s.ut u).status.del .sleeping, ctx := .register c .unkey} :
          Uthread).task = {s.board.task u with asleep := false, mode := .unkeying} := by
        simp [Uthread.task, State.board, Ctx.mode]
      exact ht ▸ .backEvent hc hmode

omit h hinv in
theorem refines_register {c : IoCall} {pc : RegisterAt} (hctx : (s.ut u).ctx = .register c pc)
    (hs : registerStmt a u c pc s = .ok s') : Refines a s.board s'.board := by
  have hmode : (s.board.task u).mode = (Ctx.register c pc).mode := by rw [← hctx]; rfl
  cases pc with
  | ctl =>
    obtain ⟨q, hq, hs⟩ := bind_ok hs
    split at hs
    · cases hs
    · rename_i l hl
      obtain ⟨hfd, hnot, hl⟩ := epollCtlAdd_some hl
      cases hs
      right
      rw [board_goto, board_watch (s := {s with consumed := Function.update s.consumed u false}) hl]
      exact .register hc hmode (bound_ok hq) hfd hnot
  | status =>
    cases hs
    left
    have hst : ({s.ut u with status := (s.ut u).status.add c.event.waitSt} : Uthread).task =
        (s.ut u).task := by
      cases hev : c.event <;> simp [Uthread.task, UthreadEvent.waitSt]
    rw [board_goto, board_setUt_same s u hst]
    exact setMode_same hmode
  | key =>
    cases hs
    right
    unfold goto
    rw [setUt_setUt, board_setUt]
    exact .key hc hmode
  | insert =>
    obtain ⟨q, hq, hs⟩ := bind_ok hs
    cases hs
    right
    cases hi : insertWaiting s u (s.p q).waiting with
    | none =>
      obtain ⟨v, hv, he⟩ := Tree.insert_eq_none hi
      rw [board_goto, board_setP_same s q rfl rfl rfl rfl]
      exact .queueRefused hc hmode (home_ok hq) hv he
    | some t =>
      obtain ⟨ht, hne⟩ := Tree.insert_eq_some hi
      rw [board_goto, Option.getD_some, board_linkWaiting ht]
      exact .queue hc hmode (home_ok hq) hne
  | unkey =>
    cases hs
    right
    unfold goto
    rw [setUt_setUt, board_setUt]
    exact .unkey hc hmode
  | unstatus =>
    cases hs
    left
    have hst : ({s.ut u with status := (s.ut u).status.del c.event.waitSt} : Uthread).task =
        (s.ut u).task := by
      cases hev : c.event <;> simp [Uthread.task, UthreadEvent.waitSt]
    rw [board_goto, board_setUt_same s u hst]
    exact setMode_same hmode

omit h hinv hc in
theorem refines_io {c : IoCall} {pc : IoAt} {r : Reply} (hctx : (s.ut u).ctx = .io c pc)
    (hs : ioStmt a u c pc r s = .ok s') : Refines a s.board s'.board := by
  have hmode : (s.board.task u).mode = .free := by
    show (s.ut u).ctx.mode = _
    rw [hctx]
    rfl
  obtain ⟨s₀, hs₀, hs⟩ := ioStmt_ok hs
  have hb : s₀.board = s.board := by
    rcases hs₀ with rfl | ⟨e, rfl⟩
    · rfl
    · exact board_setErrno s a e
  left
  rcases hs with ⟨k, hk, rfl⟩ | ⟨v, rfl⟩
  · have hk' : k.mode = .free := by
      rcases hk with ⟨c', pc', rfl⟩ | ⟨c', rfl⟩ <;> rfl
    rw [board_goto, hk', hb]
    exact setMode_same hmode
  · rw [board_returns, hb]
    exact setMode_same hmode

omit hinv in
theorem refines_join {t : UId} {r : Option Addr} {pc : JoinAt} (hctx : (s.ut u).ctx = .join t r pc) :
    Refines a s.board (joinStmt a u t r pc s).board := by
  have hmode : (s.board.task u).mode = (Ctx.join t r pc).mode := by rw [← hctx]; rfl
  have hok := (h.ut u (h.cur hc).1).ctx
  rw [hctx] at hok
  have herr : ∀ v e, (returns a u v (setErrno a e s)).board = s.board.setMode u .free := by
    intro v e
    rw [board_returns, board_setErrno]
  unfold joinStmt
  cases pc with
  | self =>
    left
    dsimp only
    split
    · rw [herr]
      exact setMode_same hmode
    · rw [board_goto]
      exact setMode_same hmode
  | detached =>
    left
    dsimp only
    split
    · rw [herr]
      exact setMode_same hmode
    · rw [board_goto]
      exact setMode_same hmode
  | taken =>
    dsimp only
    split
    · left
      rw [herr]
      exact setMode_same hmode
    · rename_i hj
      right
      rw [board_goto]
      exact .choose hc hmode (Option.not_isSome_iff_eq_none.mp hj) (h.ut t hok.1).life
  | exited =>
    right
    dsimp only
    split
    · rw [board_returns]
      exact .giveUp hc hmode
    · rename_i he
      rw [board_goto]
      exact .decide hc hmode (Bool.eq_false_iff.mpr he)
  | publish =>
    right
    rw [board_goto, board_setUt]
    exact .publish hc hmode hok.2
  | setRetval =>
    left
    rw [board_goto, board_setUt_same s t rfl]
    exact setMode_same hmode
  | expired =>
    left
    dsimp only
    split
    · rw [board_goto]
      exact setMode_same hmode
    · rw [board_goto]
      exact setMode_same hmode
  | unpublish =>
    right
    rw [board_goto, board_setUt]
    have hsame : (s.board.setTask t {s.board.task t with joined := none}).setMode u (.joined t) =
        s.board.setTask t {s.board.task t with joined := none} := by
      apply setMode_same
      rw [setTask_other _ _ hok.2.symm]
      exact hmode
    refine Eq.mpr (congrArg _ hsame) ?_
    exact .unpublish hc hmode
  | resetRetval =>
    right
    rw [board_returns, board_setUt_same s t rfl]
    exact .finishJoin hc hmode
  | free =>
    right
    rw [board_returns]
    exact .finishJoin hc hmode

omit h in
theorem refines_exit {v : Option Val} {pc : ExitAt} (hctx : (s.ut u).ctx = .exit v pc)
    (hs : exitStmt a u v pc s = .ok s') : Refines a s.board s'.board := by
  have hmode : (s.board.task u).mode = (Ctx.exit v pc).mode := by rw [← hctx]; rfl
  cases pc with
  | mark =>
    cases hs
    right
    unfold goto
    rw [setUt_setUt, board_setUt]
    have ht : ({s.ut u with
          status := (s.ut u).status.add .exited
          ctx := .exit v (if v.isSome then .store else .yieldFlag)} : Uthread).task =
        {s.board.task u with exited := true, mode := .exiting} := by
      cases v <;> simp [Uthread.task, State.board, Ctx.mode]
    exact ht ▸ .exit hc hmode
  | store =>
    cases hs
    left
    have hb : (storeRetval u (v.getD 0) s).board = s.board := by
      rw [storeRetval_eq]
      rfl
    rw [board_goto, hb]
    exact setMode_same hmode
  | yieldFlag =>
    cases hs
    left
    rw [board_goto, board_setUt_same s u rfl]
    exact setMode_same hmode
  | switch =>
    -- a uthread this far has exited
    have hexit : (s.board.task u).exited = true := by
      have hwf := hinv.wf (hinv.cur_live hc)
      simp only [Task.Wf, hmode, Ctx.mode] at hwf
      exact hwf.2.1
    right
    refine switched_move (board_goto s u .user) hc (fun he => ?_) (fun _ he => ?_) hs
    · rw [hexit] at he
      cases he
    · rw [hexit] at he
      cases he

omit hinv in
theorem refines_create {c : SId} {pc : CreateAt} {r : Reply} (hctx : (s.ut u).ctx = .create c pc)
    (hs : createStmt a u c pc r s = .ok s') : Refines a s.board s'.board := by
  have hmode : (s.board.task u).mode = .free := by
    show (s.ut u).ctx.mode = _
    rw [hctx]
    rfl
  obtain ⟨hu, -⟩ := h.cur hc
  rcases createStmt_ok hs with ⟨s₀, pc', rfl, hut, hp, hsch, -, -, -, -⟩ | rfl | ⟨id, p, q, rfl, hq, rfl⟩
  · left
    have hb : s₀.board = s.board := by
      refine board_ext (fun v => by rw [hut]) (fun d => by rw [hsch]; exact ⟨rfl, rfl⟩) fun r => ?_
      rw [hp]
      exact ⟨rfl, rfl, rfl, rfl⟩
    rw [board_goto, hb]
    exact setMode_same hmode
  · left
    rw [board_returns]
    exact setMode_same hmode
  · right
    have hpq : p = some q := by
      have hok := (h.ut u hu).ctx
      rw [hctx] at hok
      rcases hok.2 with hn | hp
      · rw [hn] at hq
        cases hq
      · rw [← hp, hq]
    have hb : (created q id p s).board =
        (s.board.setTask s.heap ⟨.live, some q, false, false, none, -1, .free⟩).setReady q
          (s.board.ready q ++ [s.heap]) := by
      unfold created
      rw [board_insertReady]
      have h1 : (State.board {s with
          ut := Function.update s.ut s.heap
            {id := id, status := .only .new, p := p, fdWait := -1, isWatingYieldSignal := true, life := .live}
          heap := s.heap + 1}) =
          s.board.setTask s.heap ⟨.live, some q, false, false, none, -1, .free⟩ := by
        unfold State.board Board.setTask
        congr 1
        funext v
        by_cases hv : v = s.heap
        · subst hv
          simp [Uthread.task, Ctx.mode, hpq]
        · simp [hv]
      rw [h1]
      rfl
    rw [board_returns, setMode_same]
    · rw [hb]
      exact .create (h.fresh s.heap (Nat.le_refl _))
    · rw [hb]
      show ((s.board.setTask s.heap _).task u).mode = .free
      rw [setTask_other _ _ (Nat.ne_of_lt hu)]
      exact hmode

omit hinv hc in
theorem refines_handOff {c : SId} {r : Reply} (hctx : (s.ut u).ctx = .diskHandOff c)
    (hs : diskHandOffStmt u c r s = .ok s') : Refines a s.board s'.board := by
  have hmode : (s.board.task u).mode = .free := by
    show (s.ut u).ctx.mode = _
    rw [hctx]
    rfl
  rcases diskHandOffStmt_ok hs with ⟨-, rfl⟩ | ⟨q, n, rest, hq, -, hidle, rfl⟩
  · left
    rw [board_goto]
    exact setMode_same hmode
  · right
    obtain ⟨hn, hnc, -⟩ := h.idle_ne hq hidle
    have hb : (handedOff c n q rest s).board =
        {s.board with bound := fun d => if d = c then none else if d = n then some q else s.board.bound d} := by
      unfold State.board
      dsimp only
      congr 1
      · funext d
        rw [handedOff_sched hnc]
        split
        · rename_i hd
          rw [hd]
        · split
          · rename_i hd
            rw [hd]
          · rfl
      · funext d
        rw [handedOff_sched hnc]
        split
        · rfl
        · split <;> rfl
      all_goals
        funext r
        rw [handedOff_p]
        split
        · rename_i hr
          rw [hr]
        · rfl
    rw [board_goto, setMode_same]
    · rw [hb]
      exact .handOff hq (h.idle n hn).2.1 hnc
    · rw [hb]
      exact hmode

end Statements

/-! ### The scheduler -/

/-- The key of an event wait names its descriptor and its event. -/
theorem fdKey_split (fd : Int) (e : UthreadEvent) :
    fdKey (fdOnly (waitKey fd e)) (fdEvent (waitKey fd e)) = waitKey fd e := by
  rw [fdEvent_waitKey, fdOnly_waitKey]

section Scheduler

variable {s s' : State} {a : SId} (h : Sound s) (hinv : Inv s.board) (hal : s.board.Alone a)
  (hc : (s.sched a).curUthread = none)
include h hinv hal hc

/-- What the board shows of an expiry. The wait that is found is the one under the uthread's key. -/
theorem board_expired {q : PId} {u : UId} {s₁ s₂ : State} (hb : (s.sched a).p = some q)
    (hu : u ∈ (s.p q).sleeping) (hcancel : uthreadCancelEvent a u s = .ok s₁)
    (hsl : uthreadDeschedSleep u s₁ = .ok s₂) :
    ∃ found, s.board.interest q (fdOnly (s.ut u).fdWait) ∧
      (∀ v, found = some v → s.board.waiting q v ∧ (s.board.task v).fdWait = (s.board.task u).fdWait) ∧
      (found = none → ∀ v, s.board.waiting q v → (s.board.task v).fdWait ≠ (s.board.task u).fdWait) ∧
      (uthreadResume a u .expiry (notedExpiry u s₂)).board =
        ((((s.board.unwatch q (fdOnly (s.ut u).fdWait)).deschedFound q found).setFdWait u (-1)).desched
          u).setCur a (some u) := by
  have hsleep : s.board.sleeping q u := hu
  obtain ⟨hlive, hq, -⟩ := hinv.sleeping_iff.mp hsleep
  obtain ⟨g, hg, -, -⟩ := hinv.asleep_of_sleeping hal hsleep (by rw [show s.board.cur a = none from hc]; simp)
  obtain ⟨hkey, hvalid⟩ := hg.key_eq (hinv.wf hlive)
  obtain ⟨h₃, hu₂, -⟩ := h.expired hu hcancel hsl
  obtain ⟨q', s₀, hq', hin, rfl, hs₀⟩ := uthreadCancelEvent_ok hcancel
  have hqq : q' = q := Option.some.inj (hq'.symm.trans hq)
  subst hqq
  have hnoted : (notedExpiry u s₂).board = s₂.board := board_setUt_same s₂ u (by simp [Uthread.task])
  rw [board_uthreadResume h₃ hu₂, hnoted, board_deschedSleep hsl, board_setUt]
  cases g with
  | join t =>
    -- a joiner has the key `-1`, which is the descriptor `-1`
    have hneg := hinv.interest_nonneg (q := q') hin
    have hk : (s.ut u).fdWait = -1 := hkey
    rw [hk] at hneg
    simp [fdOnly] at hneg
  | event fd e =>
    have hk : (s.ut u).fdWait = waitKey fd e := hkey
    have hpos : 0 ≤ (s.ut u).fdWait := by rw [hk]; exact waitKey_nonneg e hvalid
    rcases hs₀ with ⟨hneg, -⟩ | ⟨-, found, hd⟩
    · omega
    · obtain ⟨q'', hq'', hb', hfound, hnone⟩ := board_deschedEvent hd
      have hqq : q'' = q' := Option.some.inj (hq''.symm.trans hb)
      subst hqq
      have hfd : ∀ v, ((dropInterest q'' (fdOnly (s.ut u).fdWait)
          (s.setUt u fun v => {v with status := clearWait v.status})).ut v).fdWait = (s.ut v).fdWait := by
        intro v
        show ((s.setUt u fun v => {v with status := clearWait v.status}).ut v).fdWait = _
        exact setUt_keeps Uthread.fdWait rfl v
      rw [board_dropInterest, board_clearWait] at hb' hfound hnone
      have hkk : fdKey (fdOnly (s.ut u).fdWait) (fdEvent (s.ut u).fdWait) = (s.ut u).fdWait := by
        rw [hk]
        exact fdKey_split fd e
      simp only [hfd, hkk] at hfound hnone
      have ht : ({s₀.ut u with fdWait := -1} : Uthread).task =
          {s₀.board.task u with fdWait := -1} := rfl
      rw [ht, hb']
      exact ⟨found, hin, hfound, hnone, rfl⟩

theorem refines_expired {r : Reply} (hs : uthreadResumeExpired a r s = .ok s') :
    Refines a s.board s'.board := by
  rcases uthreadResumeExpired_ok hs with rfl | ⟨q, u, s₁, s₂, hb, hmin, -, hcancel, hsl, rfl⟩
  · exact .inl (board_setPc s a _)
  · have hsleep : u ∈ (s.p q).sleeping := Tree.min_mem hmin
    obtain ⟨found, hin, hfound, hnone, hb'⟩ := board_expired h hinv hal hc hb hsleep hcancel hsl
    rw [hb']
    exact .inr (.expire hc hb hsleep rfl hin hfound hnone)

omit hal in
theorem refines_handleEvent {fd : Int} {ev : UthreadEvent} {isEof : Bool} {k : SchedAt}
    (hs : handleEvent a fd ev isEof k s = .ok s') : Refines a s.board s'.board := by
  rcases handleEvent_ok hs with ⟨s₁, hd, rfl⟩ | ⟨u, s₁, s₂, hd, hfd, hdel, rfl⟩
  · left
    obtain ⟨q, -, hb, -, -⟩ := board_deschedEvent hd
    rw [board_setPc, hb]
    rfl
  · right
    obtain ⟨h₃, hu₂, -⟩ := h.handled hd hfd hdel isEof
    obtain ⟨q, hb, hb', hfound, -⟩ := board_deschedEvent hd
    obtain ⟨hw, hk⟩ := hfound u rfl
    obtain ⟨hlive, hq, -⟩ := hinv.waiting_mem hw
    obtain ⟨q', hq', hin, rfl⟩ := epollDel_ok hdel
    -- the descriptor goes from the poller of the uthread's p, which is that of the thread
    have hqq : q' = q := by
      have h1 : (s₁.board.task u).home = some q' := by
        have := hq'
        rw [setUt_ut_self] at this
        exact this
      rw [hb'] at h1
      have h2 : ((s.board.deschedFound q (some u)).task u).home = (s.board.task u).home := by
        show (((s.board.unlinkWaiting q u).desched u).task u).home = _
        unfold Board.desched
        split
        · split
          · rw [setTask_self]
            rfl
          · rfl
        · rfl
      rw [h2, hq] at h1
      exact (Option.some.inj h1).symm
    subst hqq
    have hin' : s.board.interest q' fd := by
      have h1 : s₁.board.interest q' fd := hin
      rw [hb'] at h1
      have h2 : (s.board.deschedFound q' (some u)).interest = s.board.interest := by
        show ((s.board.unlinkWaiting q' u).desched u).interest = _
        unfold Board.desched
        split
        · split <;> rfl
        · rfl
      rw [h2] at h1
      exact h1
    have hnoted : ∀ t : State, (notedEvent u isEof t).board = t.board := by
      intro t
      refine board_setUt_same t u ?_
      cases isEof <;> simp [Uthread.task]
    rw [board_uthreadResume h₃ hu₂, hnoted, board_dropInterest, board_clearWait, hb']
    exact .event hc hb hw hk hin'

omit h hinv hal hc in
theorem board_tookEvent (s : State) (a : SId) (q : PId) (e : EpollEvent) :
    (tookEvent a q e s).board = s.board := by
  have hmark : ∀ t : State, (markConsumed q e.fd t).board = t.board := fun _ => rfl
  unfold tookEvent
  dsimp only
  rw [hmark]
  split
  · rw [board_setSched_same _ a rfl rfl, board_setP_same s q rfl rfl rfl rfl]
  · rw [board_setP_same s q rfl rfl rfl rfl]

theorem refines_sched {r : Reply} (hs : schedRun a r s = .ok s') : Refines a s.board s'.board := by
  unfold schedRun at hs
  cases hpc : (s.sched a).pc with
  | off => rw [hpc] at hs; cases hs
  | another =>
    rw [hpc] at hs
    obtain ⟨q, -, hs⟩ := bind_ok hs
    cases hs
    left
    rw [board_setPc, board_setP_same s q rfl rfl rfl rfl]
  | top =>
    rw [hpc] at hs
    dsimp only at hs
    split at hs <;> cases hs <;> exact .inl (board_setPc s a _)
  | expiry =>
    rw [hpc] at hs
    exact refines_expired h hinv hal hc hs
  | lastReady =>
    rw [hpc] at hs
    obtain ⟨q, -, hs⟩ := bind_ok hs
    cases hs
    exact .inl (board_setPc s a _)
  | ready last =>
    rw [hpc] at hs
    obtain ⟨q, hq, hs⟩ := bind_ok hs
    split at hs
    · cases hs
      exact .inl (board_setPc s a _)
    · rename_i u rest hr
      cases hs
      right
      have hu : u < s.heap := h.ready (q := q) (by rw [hr]; exact List.mem_cons_self)
      have hp : Sound (s.setP q fun v => {v with ready := rest}) := by
        refine h.setP (fun v hv => ?_) (fun _ hv => h.sleeping hv) (fun _ hv => h.waiting hv)
          fun _ hi => h.interest hi
        exact h.ready (q := q) (by rw [hr]; exact List.mem_cons_of_mem u hv)
      rw [board_uthreadResume hp hu, board_setReady]
      exact .resume hc (bound_ok hq) hr
  | readyAfter last u =>
    rw [hpc] at hs
    dsimp only at hs
    split at hs <;> cases hs <;> exact .inl (board_setPc s a _)
  | pollCheck =>
    rw [hpc] at hs
    dsimp only at hs
    split at hs <;> cases hs <;> exact .inl (board_setPc s a _)
  | poll =>
    rw [hpc] at hs
    left
    obtain ⟨q, -, rfl | ⟨-, rfl⟩⟩ := uthreadPoll_ok hs
    · rw [board_setPc, board_setP_same s q rfl rfl rfl rfl]
    · unfold polled
      rw [board_setPc, board_setP_same _ q rfl rfl rfl, board_setP_same s q rfl rfl rfl rfl]
      -- a reported descriptor stays in the set, disarmed
      simp only [disarm, List.map_map]
      apply List.map_congr_left
      intro i _
      simp only [Function.comp]
      split <;> rfl
  | events =>
    rw [hpc] at hs
    dsimp only at hs
    split at hs
    · cases hs
      exact .inl (board_setPc s a _)
    · rename_i q hq
      split at hs
      · cases hs
        exact .inl (board_setPc s a _)
      · obtain ⟨e, -, hs⟩ := takeEvent_ok hs
        have ha := h.busy_of_p hq
        have ht := (h.tookEvent ha q e).1
        have hb := board_tookEvent s a q e
        have hcur : ((tookEvent a q e s).sched a).curUthread = none := by
          have := congrArg (fun b => b.cur a) hb
          exact this.trans hc
        have hr := refines_handleEvent ht (by rw [hb]; exact hinv) hcur hs
        rw [hb] at hr
        exact hr
  | handleWr fd eof =>
    rw [hpc] at hs
    exact refines_handleEvent h hinv hc hs
  | done =>
    rw [hpc] at hs
    dsimp only at hs
    split at hs
    · split at hs
      · cases hs
      · cases hs
        exact .inl rfl
    · cases hs
      exact .inl (board_setPc s a _)

end Scheduler

/-! ### The step -/

theorem board_closeFd (s : State) (fd : Int) : (closeFd fd s).board = s.board.closed fd := by
  unfold closeFd State.board Board.closed
  dsimp only
  congr 1
  funext q f
  simp only [List.mem_map, List.mem_filter, bne_iff_ne, eq_iff_iff]
  constructor
  · rintro ⟨i, ⟨hi, hne⟩, rfl⟩
    exact ⟨⟨i, hi, rfl⟩, hne⟩
  · rintro ⟨⟨i, hi, rfl⟩, hne⟩
    exact ⟨i, ⟨hi, hne⟩, rfl⟩

theorem refines_enter {s s' : State} {a : SId} {u : UId} {k : Call} (hctx : (s.ut u).ctx = .user)
    (hs : enter a u k s = .ok s') :
    s'.board = s.board ∨ ∃ fd, k = .close fd ∧ s'.board = s.board.closed fd := by
  have hmode : (s.board.task u).mode = .free := by
    show (s.ut u).ctx.mode = _
    rw [hctx]
    rfl
  unfold enter at hs
  have hb : (s.setUt u fun v => {v with hist := {call := some k}}).board =
      s.board := board_setUt_same s u rfl
  have hgoto : ∀ c : Ctx, c.mode = .free → (goto u c (s.setUt u fun v =>
      {v with hist := {call := some k}})).board = s.board := by
    intro c hcm
    rw [board_goto, hb, hcm]
    exact setMode_same hmode
  cases k with
  | yield => cases hs; exact .inl (hgoto _ rfl)
  | create => cases hs; exact .inl (hgoto _ rfl)
  | join t r =>
    dsimp only at hs
    split at hs
    · cases hs
    · cases hs
      exact .inl (hgoto _ rfl)
  | exit v => cases hs; exact .inl (hgoto _ rfl)
  | finish =>
    dsimp only at hs
    split at hs
    · cases hs
    · cases hs
      exact .inl (hgoto _ rfl)
  | mainEnd => cases hs; exact .inl (hgoto _ rfl)
  | detach t =>
    dsimp only at hs
    split at hs
    · cases hs
    · cases hs
      left
      rw [board_returns, board_setUt_same _ t (by simp [Uthread.task]), hb]
      exact setMode_same hmode
  | disk => cases hs; exact .inl (hgoto _ rfl)
  | io c =>
    dsimp only at hs
    split at hs
    · cases hs
      exact .inl (hgoto _ rfl)
    · cases hs
  | close fd =>
    cases hs
    right
    refine ⟨fd, rfl, ?_⟩
    rw [board_returns, board_closeFd, hb]
    exact setMode_same hmode

theorem refines_stmt {s s' : State} {a : SId} {u : UId} {r : Reply} (h : Sound s)
    (hinv : Inv s.board) (hc : (s.sched a).curUthread = some u) (hs : uthreadStmt a u r s = .ok s') :
    Refines a s.board s'.board := by
  unfold uthreadStmt at hs
  have hfree : ∀ {c : Ctx}, (s.ut u).ctx = c → c.mode = .free → (s.board.task u).mode = .free := by
    intro c hctx hcm
    show (s.ut u).ctx.mode = _
    rw [hctx, hcm]
  cases hctx : (s.ut u).ctx with
  | user => rw [hctx] at hs; cases hs
  | yieldFlag =>
    rw [hctx] at hs
    cases hs
    left
    unfold yieldFlagStmt
    rw [board_goto, board_setUt_same s u rfl]
    exact setMode_same (hfree hctx rfl)
  | yieldSwitch =>
    rw [hctx] at hs
    right
    have hm := hfree hctx rfl
    refine switched_move (board_goto s u .user) hc (fun _ => .inl ?_) (fun _ _ => ?_) hs
    · exact hm.symm
    · rw [hm]
      rfl
  | sleep w pc => rw [hctx] at hs; exact refines_sleep hc hctx hs
  | register c pc => rw [hctx] at hs; exact refines_register hc hctx hs
  | io c pc => rw [hctx] at hs; exact refines_io hctx hs
  | join t v pc =>
    rw [hctx] at hs
    cases hs
    exact refines_join h hc hctx
  | exit v pc => rw [hctx] at hs; exact refines_exit hinv hc hctx hs
  | createGet =>
    rw [hctx] at hs
    cases hs
    left
    rw [board_goto]
    exact setMode_same (hfree hctx rfl)
  | createAlloc c =>
    rw [hctx] at hs
    dsimp only at hs
    left
    split at hs
    · cases hs
      rw [board_goto]
      exact setMode_same (hfree hctx rfl)
    · cases hs
      rw [board_returns]
      exact setMode_same (hfree hctx rfl)
  | create c pc => rw [hctx] at hs; exact refines_create h hc hctx hs
  | diskGet =>
    rw [hctx] at hs
    cases hs
    left
    rw [board_goto]
    exact setMode_same (hfree hctx rfl)
  | diskFlag c =>
    rw [hctx] at hs
    dsimp only at hs
    unfold diskFlagStmt at hs
    left
    split at hs
    · cases hs
    · rename_i v hv
      cases hs
      rw [board_goto, board_setUt_same s v rfl]
      exact setMode_same (hfree hctx rfl)
  | diskHandOff c => rw [hctx] at hs; exact refines_handOff h hctx hs
  | diskCall =>
    rw [hctx] at hs
    cases hs
    left
    unfold diskCallStmt
    rw [board_returns]
    split
    · rw [board_setErrno]
      exact setMode_same (hfree hctx rfl)
    · exact setMode_same (hfree hctx rfl)

/-- **A step of the runtime is a move of the abstract scheduler, or none.** Closing a
descriptor is the program's own doing. -/
theorem refines_step {s s' : State} {act : Act} (h : Sound s) (hinv : Inv s.board) (hcalm : Calm s act)
    (hs : step s act = .ok s') :
    (∃ a fd, act = .call a (.close fd) ∧ s'.board = s.board.closed fd) ∨
      Refines act.thread s.board s'.board := by
  have hal := hcalm.alone
  unfold step at hs
  split at hs
  · exact absurd hs stepHalted_ne_ok
  · cases act with
    | call a c =>
      dsimp only at hs
      split at hs
      · cases hs
      · split at hs
        · rename_i hctx
          rcases refines_enter hctx hs with hb | ⟨fd, rfl, hb⟩
          · exact .inr (.inl hb)
          · exact .inl ⟨a, fd, rfl, hb⟩
        · cases hs
    | stmt a r =>
      dsimp only at hs
      split at hs
      · cases hs
      · rename_i u hc
        exact .inr (refines_stmt h hinv hc hs)
    | preempt a =>
      dsimp only at hs
      split at hs
      · cases hs
      · rename_i u hc
        split at hs
        · refine .inr (.inr ?_)
          have hb : (s.setUt u fun v => {v with isWatingYieldSignal := false}).board =
              s.board.setMode u (s.board.task u).mode := by
            rw [board_setUt_same s u rfl, setMode_same rfl]
          refine switched_move hb hc (fun _ => .inl rfl) (fun _ _ => ?_) hs
          show (s.ut u).ctx.mode.publishing = false
          rw [Ctx.publishing_mode, Bool.eq_false_iff]
          intro hp
          obtain ⟨r, hr⟩ := (hcalm a u hc).1 hp
          cases hr
        · cases hs
    | sched a r =>
      dsimp only at hs
      split at hs
      · rename_i hc
        exact .inr (refines_sched h hinv hal hc hs)
      · cases hs

theorem inv_initial : Inv init.board := by
  have hcur : ∀ a, init.board.cur a = none := init_cur
  have hoff : ∀ u, ¬init.board.onCpu u := by
    rintro u ⟨a, ha⟩
    rw [hcur] at ha
    cases ha
  have hlive : ∀ {u}, (init.board.task u).life ≠ .fresh → u = 0 := by
    intro u hu
    by_contra h0
    apply hu
    show (init.ut u).life = .fresh
    rw [init_ut h0]
  have hlive' : ∀ {u}, init.board.live u → u = 0 := fun hu => hlive (by rw [hu]; simp)
  have hmain : (init.board.task 0) = ⟨.live, some 0, false, false, none, -1, .free⟩ := rfl
  have hfree : ∀ g, ¬(init.board.task 0).WaitsFor g := by
    intro g
    simp [hmain, Task.WaitsFor]
  constructor
  case cur_inj =>
    intro a c u ha
    rw [hcur] at ha
    cases ha
  case cur_live =>
    intro a u ha
    rw [hcur] at ha
    cases ha
  case cur_home =>
    intro a u ha
    rw [hcur] at ha
    cases ha
  case wf =>
    intro u hu
    rw [hlive' hu, hmain]
    exact ⟨rfl, rfl, rfl⟩
  case freed_exited =>
    intro u hu
    have h0 := hlive (u := u) (by rw [hu]; simp)
    rw [h0, hmain] at hu
    cases hu
  case sleeping_iff =>
    intro q u
    constructor
    · intro hs
      have hs' : u ∈ (init.p q).sleeping := hs
      rw [(init_links q).1] at hs'
      cases hs'
    · rintro ⟨hu, -, ht⟩
      rw [hlive' hu, hmain] at ht
      simp [Task.InTree] at ht
  case ready_mem =>
    intro q u hu
    obtain ⟨rfl, rfl⟩ := init_ready hu
    exact ⟨rfl, rfl, rfl, hoff 0⟩
  case ready_nodup =>
    intro q
    by_cases hq : q = 0
    · subst hq
      show ([0] : List UId).Nodup
      simp
    · show (init.p q).ready.Nodup
      rw [init_p hq]
      exact List.nodup_nil
  case waiting_mem =>
    intro q u hs
    have hs' : u ∈ (init.p q).waiting := hs
    rw [(init_links q).2.1] at hs'
    cases hs'
  case waiting_inj =>
    intro q u v hs
    have hs' : u ∈ (init.p q).waiting := hs
    rw [(init_links q).2.1] at hs'
    cases hs'
  case joined_iff =>
    intro t j ht
    rw [hlive' ht]
    constructor
    · intro hj
      cases hj
    · rintro ⟨hj, hw⟩
      rw [hlive' hj] at hw
      exact absurd hw (hfree _)
  case waits_live =>
    intro t j hj hw
    rw [hlive' hj] at hw
    exact absurd hw (hfree _)
  case target =>
    intro j hj
    rw [hlive' hj]
    trivial
  case interest_nonneg =>
    intro q fd hs
    have hs' : fd ∈ (init.p q).interest.map Interest.fd := hs
    rw [(init_links q).2.2] at hs'
    cases hs'

theorem inv_step {s s' : State} {act : Act} (hs : Sound s) (hi : Inv s.board) (hcalm : Calm s act)
    (hstep : step s act = .ok s') : Inv s'.board := by
  rcases refines_step hs hi hcalm hstep with ⟨a, fd, -, hb⟩ | hb | hm
  · rw [hb]
    exact hi.closed fd
  · rw [hb]
    exact hi
  · exact hi.move hcalm.alone hm

/-- **In a calm run no uthread is ever in two places.** -/
theorem inv_of_reaches {s : State} (h : Reaches Calm s) : Inv s.board :=
  (Sound.initial.invariant (I := fun s => Inv s.board) h inv_initial
    fun _ _ _ hs hi hcalm hstep => inv_step hs hi hcalm hstep).2

end UthreadRuntime
