import UthreadRuntime.Ledger.Books
import UthreadRuntime.Placement.Partition
import Mathlib.Algebra.BigOperators.Group.Finset.Basic

/-! Counting uthreads.

`n_uthread` is raised in `uthread_create` before the record is filled in, and lowered when
the record is released; `_sched_run` calls `exit(0)` when it reads 0. The count is right as
long as no creation is given up half-way and no record is released twice. -/
namespace UthreadRuntime

open State Placement

/-- What a record counts for: the uthread itself, and the one it is creating. -/
def Uthread.counts (r : Uthread) : Nat :=
  (if r.life = .live then 1 else 0) + (if r.ctx.taken.isSome then 1 else 0)

/-- The uthreads created and not yet freed, those being created included. -/
def State.alive (s : State) : Nat := ∑ u ∈ Finset.range s.heap, (s.ut u).counts

/-- One term of the sum differs. -/
theorem sum_range_change {f g : Nat → Nat} {n u : Nat} (hu : u < n) (h : ∀ v < n, v ≠ u → g v = f v) :
    ∑ v ∈ Finset.range n, g v + f u = ∑ v ∈ Finset.range n, f v + g u := by
  have hmem := Finset.mem_range.mpr hu
  have hrest : ∑ v ∈ (Finset.range n).erase u, g v = ∑ v ∈ (Finset.range n).erase u, f v :=
    Finset.sum_congr rfl fun v hv =>
      h v (Finset.mem_range.mp (Finset.mem_of_mem_erase hv)) (Finset.ne_of_mem_erase hv)
  have hf := Finset.add_sum_erase (Finset.range n) f hmem
  have hg := Finset.add_sum_erase (Finset.range n) g hmem
  omega

/-- No allocation of the step fails. -/
def Allocates (s : State) (act : Act) : Prop :=
  ∀ a r u, act = .stmt a r → (s.sched a).curUthread = some u →
    (∃ c, (s.ut u).ctx = .createAlloc c) ∨ (∃ c id, (s.ut u).ctx = .create c (.stack id)) → r.ok = true

section Count

variable {s s' : State}

theorem counts_of_same {r r' : Uthread} (hl : r'.life = r.life) (ht : r'.ctx.taken = r.ctx.taken) :
    r'.counts = r.counts := by
  unfold Uthread.counts
  rw [hl, ht]

theorem alive_of_same (hheap : s'.heap = s.heap) (h : SameLives s s') : s'.alive = s.alive := by
  unfold State.alive
  rw [hheap]
  exact Finset.sum_congr rfl fun u hu =>
    counts_of_same (h u (Finset.mem_range.mp hu)).1 (h u (Finset.mem_range.mp hu)).2

theorem alive_of_but {u : UId} (hu : u < s.heap)
    (h : ∀ v < s.heap, v ≠ u → (s'.ut v).counts = (s.ut v).counts) :
    ∑ v ∈ Finset.range s.heap, (s'.ut v).counts + (s.ut u).counts = s.alive + (s'.ut u).counts :=
  sum_range_change (f := fun v => (s.ut v).counts) (g := fun v => (s'.ut v).counts) hu h

/-- A step keeps the count right. -/
theorem count_step {act : Act} (hsnd : Sound s) (hlive : ∀ {a u}, (s.sched a).curUthread = some u →
      (s.ut u).life = .live) (halloc : Allocates s act) (hs : step s act = .ok s')
    (h : s.nUthread = s.alive % 2 ^ 32) : s'.nUthread = s'.alive % 2 ^ 32 := by
  cases step_books hsnd hs with
  | same hb hl => rw [hb.count, alive_of_same hb.heap hl, h]
  | slot _ _ _ hn _ _ hheap hl => rw [hn, alive_of_same hheap hl, h]
  | @count a r u c hc hctx htaken hn _ _ hheap hl =>
    have hu := (hsnd.cur hc).1
    have hsum := alive_of_but hu fun v hv hvu => counts_of_same (hl v hv).1 ((hl v hv).2 hvu)
    have h0 : (s.ut u).counts = 1 := by
      unfold Uthread.counts
      rw [hlive hc, hctx]
      rfl
    have h1 : (s'.ut u).counts = 2 := by
      unfold Uthread.counts
      rw [(hl u hu).1, hlive hc, htaken]
      rfl
    have halive : s'.alive = s.alive + 1 := by
      unfold State.alive at hsum ⊢
      rw [hheap]
      omega
    rw [hn, halive, h]
    omega
  | @created a r u id hc ht ht' hn _ _ hheap hmarks hnewTaken hl =>
    have hu := (hsnd.cur hc).1
    have hsum := alive_of_but hu fun v hv hvu => counts_of_same (hl v hv).1 ((hl v hv).2 hvu)
    have h0 : (s.ut u).counts = 2 := by
      unfold Uthread.counts
      rw [hlive hc, ht]
      rfl
    have h1 : (s'.ut u).counts = 1 := by
      unfold Uthread.counts
      rw [(hl u hu).1, hlive hc, ht']
      rfl
    have hnew : (s'.ut s.heap).counts = 1 := by
      have hlife : (s'.ut s.heap).life = .live := congrArg Marks.life hmarks
      unfold Uthread.counts
      rw [hlife, hnewTaken]
      rfl
    have halive : s'.alive = s.alive := by
      unfold State.alive at hsum ⊢
      rw [hheap, Finset.sum_range_succ, hnew]
      omega
    rw [hn, halive, h]
  | @lost a r u c id hc hctx hr _ _ _ =>
    have hok := halloc a r u rfl hc (.inr ⟨c, id, hctx⟩)
    rw [hr] at hok
    cases hok
  | @freed _ u _ hc _ hfreed hn _ _ hheap hl =>
    have hu := (hsnd.cur hc).1
    have hsum := alive_of_but hu fun v hv hvu => counts_of_same ((hl v hv).1 hvu) (hl v hv).2
    have h0 : (s.ut u).counts = (s'.ut u).counts + 1 := by
      unfold Uthread.counts
      rw [hlive hc, hfreed, (hl u hu).2]
      simp only [if_true, reduceCtorEq, if_false]
      omega
    have halive : s'.alive + 1 = s.alive := by
      unfold State.alive at hsum ⊢
      rw [hheap]
      omega
    rw [hn, h, ← halive]
    omega

end Count

/-- All uthreads are done: each that was created has exited and been freed, none is being
created, and no p has one in its ready queue or in its trees. -/
structure AllDone (s : State) : Prop where
  exited : ∀ u < s.heap, (s.ut u).life = .freed ∧ (s.ut u).status.has .exited = true
  creating : ∀ u < s.heap, (s.ut u).ctx.taken = none
  ready : ∀ q, (s.p q).ready = []
  sleeping : ∀ q, (s.p q).sleeping = []
  waiting : ∀ q, (s.p q).waiting = []

theorem allDone_of_alive {s : State} (hsnd : Sound s) (hi : Inv s.board) (h : s.alive = 0) : AllDone s := by
  have hzero : ∀ u < s.heap, (s.ut u).counts = 0 := fun u hu =>
    Finset.sum_eq_zero_iff.mp h u (Finset.mem_range.mpr hu)
  have hdead : ∀ u, (s.ut u).life ≠ .live := by
    intro u hl
    have hu : u < s.heap := hsnd.lt_of_life (by rw [hl]; simp)
    have hc := hzero u hu
    unfold Uthread.counts at hc
    rw [hl, if_pos rfl] at hc
    omega
  refine ⟨fun u hu => ?_, fun u hu => ?_, fun q => ?_, fun q => ?_, fun q => ?_⟩
  · have hfreed : (s.ut u).life = .freed := by
      cases hl : (s.ut u).life with
      | fresh => exact absurd hl (hsnd.ut u hu).life
      | live => exact absurd hl (hdead u)
      | freed => rfl
    exact ⟨hfreed, hi.freed_exited (u := u) hfreed⟩
  · have hc := hzero u hu
    unfold Uthread.counts at hc
    cases ht : (s.ut u).ctx.taken with
    | none => rfl
    | some id =>
      rw [ht] at hc
      simp at hc
  · exact List.eq_nil_iff_forall_not_mem.mpr fun u hu => hdead u (hi.ready_mem (q := q) (u := u) hu).1
  · exact List.eq_nil_iff_forall_not_mem.mpr fun u hu =>
      hdead u (hi.sleeping_iff (q := q) (u := u).mp hu).1
  · exact List.eq_nil_iff_forall_not_mem.mpr fun u hu => hdead u (hi.waiting_mem (q := q) (u := u) hu).1

/-- **The count is right in calm runs**, and so the process ends only when all is done. -/
theorem ends_when_all_done {s : State} (h : Reaches (fun s act => Calm s act ∧ Allocates s act) s)
    (hfew : s.alive < 2 ^ 32) :
    s.nUthread = s.alive ∧ ∀ a r s', (s.sched a).pc = .done → step s (.sched a r) = .ok s' →
      s'.halted = true → AllDone s := by
  have hinv : Sound s ∧ Inv s.board ∧ s.nUthread = s.alive % 2 ^ 32 := by
    refine Sound.initial.invariant (I := fun s => Inv s.board ∧ s.nUthread = s.alive % 2 ^ 32) h
      ⟨inv_initial, by decide⟩ ?_
    rintro s act s' hsnd ⟨hi, hn⟩ ⟨hcalm, halloc⟩ hs
    exact ⟨inv_step hsnd hi hcalm hs,
      count_step hsnd (fun hc => hi.cur_live (b := s.board) hc) halloc hs hn⟩
  obtain ⟨hsnd, hi, hn⟩ := hinv
  rw [Nat.mod_eq_of_lt hfew] at hn
  refine ⟨hn, fun a r s' hpc hs hhalt => allDone_of_alive hsnd hi ?_⟩
  rw [← hn]
  by_contra hne
  have hnot := not_halted_of_step hs
  cases hc : (s.sched a).curUthread with
  | some u =>
    simp only [step, hnot, hc, Bool.false_eq_true, if_false] at hs
    cases hs
  | none =>
    simp only [step, hnot, hc, schedRun, hpc, hne, Bool.false_eq_true, if_false] at hs
    cases hs
    rw [show (setPc a .top s).halted = s.halted from rfl, hnot] at hhalt
    cases hhalt

/-- No allocation asked for in the run fails. -/
def grantsAll (_ : State) : Act → Bool
  | .stmt _ r => r.ok
  | _ => true

theorem allocates_of_grantsAll (s : State) (act : Act) (h : grantsAll s act = true) : Allocates s act := by
  rintro a r u rfl - -
  exact h

/-- Main ends, then the uthread it created. -/
def allEnd : List Act := boot ++ calls 0 .mainEnd 3 ++ scheds 0 8 ++ calls 0 .finish 3 ++ scheds 0 5

theorem allEnd_ends : ∃ s s', Reaches (fun s act => Calm s act ∧ Allocates s act) s ∧ s.heap = 2 ∧
    step s (.sched 0 {}) = .ok s' ∧ s'.halted = true ∧ s.nUthread = s.alive ∧ AllDone s := by
  have hread : (Run.checked step (fun s act => atomicCheck s act && grantsAll s act) init allEnd).bind
      (fun s => (step s (.sched 0 {})).toOption.map fun s' =>
        (s.heap, (s.sched 0).pc, s.alive, s'.halted)) = some (2, .done, 0, true) := by decide +kernel
  obtain ⟨s, hs, hread⟩ := Option.bind_eq_some_iff.mp hread
  obtain ⟨s', hs', hread⟩ := Option.map_eq_some_iff.mp hread
  simp only [Prod.mk.injEq] at hread
  obtain ⟨h1, h2, halive, h3⟩ := hread
  have hreach : Reaches (fun s act => Calm s act ∧ Allocates s act) s :=
    (calm_of_checks allocates_of_grantsAll hs).mono fun _ _ hC => ⟨hC.1.1, hC.2⟩
  have hend := ends_when_all_done hreach (by rw [halive]; decide)
  exact ⟨s, s', hreach, h1, ok_of_toOption hs', h3, hend.1, hend.2 0 {} s' h2 (ok_of_toOption hs') h3⟩

/-- Uthread 1 goes on without a p after a disk call, and exits while main, on the other
thread, has published its join of it and does not sleep yet. No uthread is preempted. -/
def exitMeetsJoin : List Act :=
  createdRuns ++ calls 0 .disk 4 ++ scheds 1 5 ++ calls 1 (.join 1 none) 5 ++ calls 0 .finish 3 ++
    stmts 1 7 ++ scheds 1 8 ++ stmts 1 3 ++ calls 1 .mainEnd 3 ++ scheds 0 2

/-- The process exits with main, long gone, still in the sleeping tree. -/
theorem exits_with_sleeper : ∃ s s', exec exitMeetsJoin = .ok s ∧ (s.sched 0).pc = .done ∧
    step s (.sched 0 {}) = .ok s' ∧ s'.halted = true ∧ (s.p 0).sleeping = [0] ∧ ¬AllDone s := by
  obtain ⟨s, hs, h1, h2, h3⟩ := exec_passes exitMeetsJoin (fun s => (s.sched 0).pc = .done ∧
    (s.p 0).sleeping = [0] ∧
    (step s (.sched 0 {})).toOption.map (fun t => t.halted) = some true) (by decide +kernel)
  obtain ⟨s', hs', h4⟩ := Option.map_eq_some_iff.mp h3
  refine ⟨s, s', hs, h1, ok_of_toOption hs', h4, h2, fun hd => ?_⟩
  have hnil := hd.sleeping 0
  rw [h2] at hnil
  cases hnil

/-! ### Creations that fail -/

/-- The allocations of `uthread_create`: the record, and the stack. -/
inductive Allocation where
  | calloc | posixMemalign
  deriving DecidableEq, Repr

/-- A call of `uthread_create` on the thread of `a`, up to the allocation that fails. -/
def createUpTo (a : SId) : Allocation → List Act
  | .calloc => [.call a .create, .stmt a {}, .stmt a {ok := false}]
  | .posixMemalign => .call a .create :: stmts a 5 ++ [.stmt a {ok := false}]

/-- What `uthread_create` counts with is as it was. -/
structure SameCounts (s s' : State) : Prop where
  count : s'.nUthread = s.nUthread
  bitmap : s'.bitmapUt = s.bitmapUt
  next : s'.nextUtId = s.nextUtId
  ready : ∀ q, (s'.p q).ready = (s.p q).ready

/-- The failing statement: `uthread_create` returns -1. -/
theorem fails_result (a : SId) (u : UId) (s : State) :
    ((returns a u (-1) s).ut u).ctx = .user ∧
    ((returns a u (-1) s).ut u).hist.result = some (-1, (s.sched a).errno) := by
  simp [returns]

/-- **A creation that fails has changed nothing exactly when it is the record that could not be
allocated**: when it is the stack, the uthread has been counted and its id is taken. -/
theorem createFails_sameCounts_iff {s : State} {a : SId} {u : UId} (hhalt : s.halted = false)
    (hc : (s.sched a).curUthread = some u) (hctx : (s.ut u).ctx = .user) (f : Allocation)
    (hmutex : f = .posixMemalign → s.mutex = none) :
    ∃ s', Run.run step s (createUpTo a f) = .ok s' ∧ (s'.ut u).ctx = .user ∧
      (s'.ut u).hist.result = some (-1, (s.sched a).errno) ∧ (SameCounts s s' ↔ f = .calloc) := by
  cases f with
  | calloc =>
    refine ⟨returns a u (-1) (goto u (.createAlloc a) (goto u .createGet
      (s.setUt u fun v => {v with hist := {call := some .create}}))), ?_, ?_⟩
    · simp [createUpTo, Run.run, step, hhalt, hc, hctx, enter, uthreadStmt, goto, State.setUt]
    · obtain ⟨hctx', hresult⟩ := fails_result a u (goto u (.createAlloc a) (goto u .createGet
        (s.setUt u fun v => {v with hist := {call := some .create}})))
      exact ⟨hctx', hresult, iff_of_true ⟨rfl, rfl, rfl, fun _ => rfl⟩ rfl⟩
  | posixMemalign =>
    -- the count goes up between the two allocations
    have hrun : ∃ s₁, Run.run step s (createUpTo a .posixMemalign) = .ok (returns a u (-1) s₁) ∧
        s₁.sched = s.sched ∧ s₁.nUthread = (s.nUthread + 1) % 2 ^ 32 := by
      refine ⟨{s with
        ut := Function.update s.ut u {s.ut u with
          ctx := .create a (.stack s.nextUtId), hist := {call := some .create}}
        nUthread := (s.nUthread + 1) % 2 ^ 32
        bitmapUt := Function.update s.bitmapUt s.nextUtId true
        nextUtId := nextId s.nextUtId}, ?_, rfl, rfl⟩
      simp [createUpTo, stmts, Run.run, step, hhalt, hc, hctx, enter, uthreadStmt, createStmt, goto,
        State.setUt, hmutex rfl]
    obtain ⟨s₁, hs₁, hsched, hcount⟩ := hrun
    obtain ⟨hctx', hresult⟩ := fails_result a u s₁
    rw [hsched] at hresult
    refine ⟨_, hs₁, hctx', hresult, iff_of_false (fun hsame => ?_) (by decide)⟩
    have hsame' : s₁.nUthread = s.nUthread := hsame.count
    omega

/-- Main creates another uthread, and there is no memory for its record. -/
theorem createFails_calloc : ∃ s s', exec boot = .ok s ∧
    Run.run step s (createUpTo 0 .calloc) = .ok s' ∧ SameCounts s s' := by
  obtain ⟨s, hs, hhalt, hc, hctx⟩ := exec_passes boot (fun s => s.halted = false ∧
    (s.sched 0).curUthread = some 0 ∧ (s.ut 0).ctx = .user) (by decide +kernel)
  obtain ⟨s', hs', -, -, hiff⟩ := createFails_sameCounts_iff hhalt hc hctx .calloc (fun h => nomatch h)
  exact ⟨s, s', hs, hs', hiff.mpr rfl⟩

/-- There is none for its stack: three uthreads are counted, and two exist. -/
theorem createFails_counts : ∃ s s', exec boot = .ok s ∧
    Run.run step s (createUpTo 0 .posixMemalign) = .ok s' ∧ s'.nUthread = 3 ∧ s'.alive = 2 ∧
    s'.bitmapUt 2 = true ∧ s.bitmapUt 2 = false ∧ ¬SameCounts s s' := by
  have hread : (exec boot).bind (fun s => (Run.run step s (createUpTo 0 .posixMemalign)).map fun s' =>
      (s.nUthread, s'.nUthread, s'.alive, s'.bitmapUt 2, s.bitmapUt 2)) = .ok (2, 3, 2, true, false) := by
    decide +kernel
  obtain ⟨s, hs, hread⟩ := bind_ok hread
  obtain ⟨s', hs', hread⟩ := map_ok hread
  simp only [Prod.mk.injEq] at hread
  obtain ⟨h1, h2, h3, h4, h5⟩ := hread
  refine ⟨s, s', hs, hs', h2, h3, h4, h5, fun hsame => ?_⟩
  have hcount := hsame.count
  rw [h1, h2] at hcount
  cases hcount

end UthreadRuntime
