import UthreadRuntime.Safety.Records
import UthreadRuntime.Safety.Transfers

/-! Who holds the lock.

`ptr_global->mutex` guards the counters. `uthread_create` takes it on the stack of a uthread,
which the timer may preempt there; the scheduler takes it when it frees a uthread. A thread
that waits for the lock does nothing else meanwhile: when the holder was preempted, and only
that thread could resume it, both wait for ever. -/
namespace UthreadRuntime

open State

/-- The uthread holds the lock at this statement. -/
def Ctx.locked : Ctx → Bool
  | .create _ .count | .create _ (.unlock _) => true
  | _ => false

/-- The timer preempts no uthread that holds the lock. -/
def KeepsLock (s : State) (act : Act) : Prop :=
  ∀ a u, act = .preempt a → (s.sched a).curUthread = some u → (s.ut u).ctx.locked = false

/-- The action takes the lock: `uthread_create` does, and `_uthread_free` when a uthread that
has exited is off its thread, by its own switch or by the timer's. -/
inductive TakesLock (s : State) : Act → Prop where
  | create {a : SId} {r : Reply} {u : UId} {c : SId} : (s.sched a).curUthread = some u →
      (s.ut u).ctx = .create c .lock → TakesLock s (.stmt a r)
  | free {a : SId} {r : Reply} {u : UId} {k : Ctx} : (s.sched a).curUthread = some u →
      Switches (s.ut u).ctx k → (s.ut u).status.has .exited = true → TakesLock s (.stmt a r)
  | freePreempted {a : SId} {u : UId} : (s.sched a).curUthread = some u →
      (s.ut u).isWatingYieldSignal = true → (s.ut u).status.has .exited = true → TakesLock s (.preempt a)

/-! ### The lock in a step -/

def SameLock (s s' : State) : Prop := s'.mutex = s.mutex

theorem SameLock.transparent : Transparent SameLock where
  refl _ := rfl
  trans h h' := Eq.trans h' h
  setUt _ _ _ _ := rfl
  setP _ _ _ := rfl
  setSched _ _ _ := rfl
  timer _ _ := rfl
  consumed _ _ := rfl
  halted _ _ := rfl

section Step

variable {s s' : State} {a : SId} {u : UId}

theorem switched_mutex (hs : uthreadSwitched a u s = .ok s') : s'.mutex = s.mutex := by
  rcases SameLock.transparent.switched hs with h | ⟨-, s₁, h, rfl⟩
  · exact h
  · exact h

/-- A statement leaves the lock alone, or takes it, or gives it back. -/
theorem Stmt.mutex {r : Reply} (hs : Stmt a u r s s') :
    s'.mutex = s.mutex ∨ (s'.mutex = some u ∧ s'.sched = s.sched ∧ (s'.ut u).ctx.locked = true) ∨
      s'.mutex = none := by
  cases hs with
  | io _ h₀ _ | ioReturns _ h₀ | diskCall _ h₀ => rcases h₀ with rfl | ⟨e, rfl⟩ <;> exact .inl rfl
  | switch _ _ hsw => exact .inl ((switched_mutex hsw).trans rfl)
  | store _ =>
    rw [storeRetval_eq]
    exact .inl rfl
  | lock _ _ =>
    refine .inr (.inl ⟨rfl, rfl, ?_⟩)
    rw [goto_ctx]
    rfl
  | unlock _ => exact .inr (.inr rfl)
  | _ => exact .inl rfl

theorem step_mutex {act : Act} (hs : step s act = .ok s') :
    s'.mutex = s.mutex ∨ (∃ a u, (s'.sched a).curUthread = some u ∧ s'.mutex = some u ∧
      (s'.ut u).ctx.locked = true) ∨ s'.mutex = none := by
  cases step_ok hs with
  | call _ _ hent => cases hent <;> exact .inl rfl
  | stmt hc hstmt =>
    rcases hstmt.mutex with hm | ⟨hm, hsched, hl⟩ | hm
    · exact .inl hm
    · exact .inr (.inl ⟨_, _, by rw [hsched]; exact hc, hm, hl⟩)
    · exact .inr (.inr hm)
  | preempt _ _ hsw => exact .inl ((switched_mutex hsw).trans rfl)
  | sched _ hsched => exact .inl (SameLock.transparent.schedStep hsched)

/-- The holder of the lock waits for nobody: its next statement succeeds, and is the last one
with the lock or leaves it with it. -/
theorem locked_stmt (hl : (s.ut u).ctx.locked = true) (r : Reply) :
    ∃ s', uthreadStmt a u r s = .ok s' ∧ s'.sched = s.sched ∧
      ((s'.ut u).ctx.locked = true ∨ s'.mutex = none) := by
  unfold uthreadStmt
  cases hctx : (s.ut u).ctx with
  | create c pc =>
    rw [hctx] at hl
    cases pc with
    | count =>
      refine ⟨_, rfl, rfl, .inl ?_⟩
      rw [goto_ctx]
      rfl
    | unlock id => exact ⟨_, rfl, rfl, .inr rfl⟩
    | _ => cases hl
  | _ =>
    rw [hctx] at hl
    cases hl

end Step

/-! ### Runs -/

/-- The holder of the lock runs, at a statement where it holds it. -/
structure LockOk (s : State) : Prop where
  sound : Sound s
  runs : ∀ u, s.mutex = some u → (∃ a, (s.sched a).curUthread = some u) ∧ (s.ut u).ctx.locked = true

section Runs

variable {s s' : State} {u : UId}

/-- A step that leaves the lock with its holder. -/
theorem LockOk.kept (h : LockOk s) {act : Act} (hkeeps : KeepsLock s act) (hs : step s act = .ok s')
    (hm : s.mutex = some u) (hm' : s'.mutex = some u) :
    (∃ a, (s'.sched a).curUthread = some u) ∧ (s'.ut u).ctx.locked = true := by
  obtain ⟨⟨a, ha⟩, hl⟩ := h.runs u hm
  by_cases hacts : (∀ d r, act ≠ .sched d r) ∧ (s.sched act.thread).curUthread = some u
  · -- the holder's own action is its next statement
    obtain ⟨hns, hc⟩ := hacts
    cases act with
    | call d c =>
      cases step_ok hs with
      | call hc' hu _ =>
        cases hc.symm.trans hc'
        rw [hu] at hl
        cases hl
    | stmt d r =>
      obtain ⟨s₁, hs₁, hsched, hl₁⟩ := locked_stmt (a := d) hl r
      rw [step_stmt (a := d) (not_halted_of_step hs) hc] at hs
      cases hs.symm.trans hs₁
      refine ⟨⟨d, by rw [hsched]; exact hc⟩, hl₁.resolve_right fun hnone => ?_⟩
      rw [hnone] at hm'
      cases hm'
    | preempt d =>
      rw [hkeeps d u rfl hc] at hl
      cases hl
    | sched d r => exact absurd rfl (hns d r)
  · have hsame : SameCall (s.ut u) (s'.ut u) :=
      step_others h.sound hs (h.sound.cur ha).1 fun hns hc => hacts ⟨hns, hc⟩
    have hne : a ≠ act.thread := by
      rintro rfl
      refine hacts ⟨?_, ha⟩
      rintro d r rfl
      cases step_ok hs with
      | sched hc _ =>
        rw [show (Act.sched d r).thread = d from rfl, hc] at ha
        cases ha
    rw [hsame.ctx]
    exact ⟨⟨a, (step_cur hs hne).trans ha⟩, hl⟩

theorem LockOk.step (h : LockOk s) {act : Act} (hkeeps : KeepsLock s act) (hs : step s act = .ok s') :
    LockOk s' := by
  refine ⟨h.sound.step hs, fun v hv => ?_⟩
  rcases step_mutex hs with hm | ⟨a, w, hc, hm, hl⟩ | hm
  · exact h.kept hkeeps hs (hm.symm.trans hv) hv
  · cases hm.symm.trans hv
    exact ⟨⟨a, hc⟩, hl⟩
  · rw [hm] at hv
    cases hv

theorem LockOk.initial : LockOk init := by
  refine ⟨Sound.initial, fun u hu => ?_⟩
  cases hu

theorem LockOk.of_reaches (h : Reaches KeepsLock s) : LockOk s :=
  Run.Reaches.invariant h LockOk.initial fun _ _ _ hok hkeeps hs => hok.step hkeeps hs

/-- A thread that waits for the lock does not run its holder. -/
theorem LockOk.waits (h : LockOk s) {act : Act} (hkeeps : KeepsLock s act) (htakes : TakesLock s act)
    (hm : s.mutex = some u) : (s.sched act.thread).curUthread ≠ some u := by
  intro hc
  have hl := (h.runs u hm).2
  cases htakes with
  | create hc' hctx =>
    cases hc.symm.trans hc'
    rw [hctx] at hl
    cases hl
  | free hc' hk _ =>
    cases hc.symm.trans hc'
    generalize (s.ut u).ctx = k at hk hl
    cases hk <;> cases hl
  | freePreempted hc' _ _ =>
    cases hc.symm.trans hc'
    rw [hkeeps _ _ rfl hc'] at hl
    cases hl

end Runs

/-- **The lock is never held by a suspended uthread** in runs in which the timer preempts no
uthread that holds it: the holder runs. Whoever waits for the lock waits for a uthread that
another thread runs and that goes on. -/
theorem lock_holder_runs {s : State} (h : Reaches KeepsLock s) {u : UId} (hm : s.mutex = some u) :
    (∃ a, (s.sched a).curUthread = some u) ∧
    ∀ act, TakesLock s act → KeepsLock s act → ∃ a, a ≠ act.thread ∧ (s.sched a).curUthread = some u ∧
      ∃ s', uthreadStmt a u {} s = .ok s' := by
  have hok := LockOk.of_reaches h
  obtain ⟨⟨a, ha⟩, hl⟩ := hok.runs u hm
  refine ⟨⟨a, ha⟩, fun act htakes hkeeps => ⟨a, ?_, ha, ?_⟩⟩
  · rintro rfl
    exact hok.waits hkeeps htakes hm ha
  · obtain ⟨s', hs', -⟩ := locked_stmt (a := a) hl {}
    exact ⟨s', hs'⟩

/-! ### Threads that wait -/

section Waits

variable {s : State} {a : SId} {u v : UId}

theorem create_waits {c : SId} (hhalt : s.halted = false) (hc : (s.sched a).curUthread = some u)
    (hctx : (s.ut u).ctx = .create c .lock) (hm : s.mutex = some v) (r : Reply) :
    step s (.stmt a r) = .error .disabled := by
  rw [step_stmt hhalt hc]
  simp only [uthreadStmt, hctx, createStmt, hm, Option.isSome_some, if_true]

theorem exit_waits {x : Option Val} (hhalt : s.halted = false) (hc : (s.sched a).curUthread = some u)
    (hctx : (s.ut u).ctx = .exit x .switch) (hexit : (s.ut u).status.has .exited = true)
    (hjoin : (s.ut u).utJoined = none) (hm : s.mutex = some v) (r : Reply) :
    step s (.stmt a r) = .error .disabled := by
  rw [step_stmt hhalt hc]
  simp only [uthreadStmt, hctx, exitStmt, uthreadSwitched, goto, setSched_ut, setUt_ut_self, hexit, if_true,
    wakeJoined, hjoin]
  show uthreadFree u _ = _
  unfold uthreadFree
  exact if_pos (by simp [setSched, setUt, hm])

end Waits

def keepsLockCheck (s : State) : Act → Bool
  | .preempt a =>
    match (s.sched a).curUthread with
    | none => true
    | some u => !(s.ut u).ctx.locked
  | _ => true

theorem keepsLock_of_check {s : State} {act : Act} (h : keepsLockCheck s act = true) : KeepsLock s act := by
  rintro a u rfl hc
  simpa [keepsLockCheck, hc] using h

/-- Main, after a disk call that handed its p off, is in `uthread_create` and has the lock; the
uthread that the other thread runs calls `uthread_create` too. -/
def bothCreate : List Act := boot ++ calls 0 .disk 4 ++ calls 0 .create 3 ++ scheds 1 5 ++ calls 1 .create 2

theorem bothCreate_waits : ∃ s, Reaches KeepsLock s ∧ s.mutex = some 0 ∧ TakesLock s (.stmt 1 {}) ∧
    step s (.stmt 1 {}) = .error .disabled ∧
    ∃ a, a ≠ 1 ∧ (s.sched a).curUthread = some 0 ∧ ∃ s', uthreadStmt a 0 {} s = .ok s' := by
  have hread : (Run.checked step keepsLockCheck init bothCreate).map (fun s =>
      (s.halted, s.mutex, (s.sched 1).curUthread, (s.ut 1).ctx)) =
      some (false, some 0, some 1, .create 1 .lock) := by decide +kernel
  obtain ⟨s, hs, hread⟩ := Option.map_eq_some_iff.mp hread
  simp only [Prod.mk.injEq] at hread
  obtain ⟨hhalt, hm, hc, hctx⟩ := hread
  have hreach : Reaches KeepsLock s :=
    Run.reaches_of_checked (I := fun _ => True) hs trivial (fun _ _ _ _ _ _ => trivial)
      fun _ _ _ hcheck => keepsLock_of_check hcheck
  refine ⟨s, hreach, hm, .create hc hctx, create_waits hhalt hc hctx hm {}, ?_⟩
  refine (lock_holder_runs hreach hm).2 (.stmt 1 {}) (.create hc hctx) ?_
  intro a u hact
  cases hact

/-- The timer preempts main in `uthread_create`, with the lock. The uthread that main created
runs and ends: its scheduler waits for the lock, and only that scheduler could resume main. -/
def preemptedWithLock : List Act := boot ++ calls 0 .create 3 ++ [.preempt 0] ++ scheds 0 8 ++ calls 0 .finish 2

theorem preemptedWithLock_waits : ∃ s, exec preemptedWithLock = .ok s ∧ s.mutex = some 0 ∧
    (s.sched 0).p = some 0 ∧ (s.p 0).ready = [0] ∧ (s.sched 0).curUthread = some 1 ∧
    s.schedIdle = [1, 2, 3] ∧ TakesLock s (.stmt 0 {}) ∧ ∀ r, step s (.stmt 0 r) = .error .disabled := by
  have hread : (exec preemptedWithLock).toOption.map (fun s =>
      (decide (s.halted = false ∧ s.mutex = some 0 ∧ (s.sched 0).p = some 0 ∧ (s.p 0).ready = [0]),
        decide ((s.sched 0).curUthread = some 1 ∧ s.schedIdle = [1, 2, 3]),
        decide ((s.ut 1).ctx = .exit none .switch ∧ (s.ut 1).status.has .exited = true ∧
          (s.ut 1).utJoined = none))) = some (true, true, true) := by decide +kernel
  obtain ⟨s, hs, hread⟩ := Option.map_eq_some_iff.mp hread
  simp only [Prod.mk.injEq, decide_eq_true_eq] at hread
  obtain ⟨⟨hhalt, hm, hp, hready⟩, ⟨hc, hidle⟩, hctx, hexit, hjoin⟩ := hread
  refine ⟨s, ok_of_toOption hs, hm, hp, hready, hc, hidle, ?_, exit_waits hhalt hc hctx hexit hjoin hm⟩
  refine .free (k := .user) hc ?_ hexit
  rw [hctx]
  exact .exit none

end UthreadRuntime
