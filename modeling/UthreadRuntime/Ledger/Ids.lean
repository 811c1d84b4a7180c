import UthreadRuntime.Ledger.Books

/-! The ids of uthreads.

`uthread_create` takes the counter as the id of the new uthread and moves the counter on,
modulo `MAX_COUNT_UTHREAD`. The loop that moves it looks at the counter and not at
`bitmap_ut`, so ids are unique until the counter comes round and no longer. -/
namespace UthreadRuntime

open State

/-- The action is the statement of `uthread_create` that assigns an id. -/
def assigns (s : State) : Act → Bool
  | .stmt a _ =>
    match (s.sched a).curUthread with
    | some u =>
      match (s.ut u).ctx with
      | .create _ .count => true
      | _ => false
    | none => false
  | _ => false

/-- How many ids `uthread_create` has assigned in a run; the id of main is not one of them. -/
def assigned (acts : List Act) : Nat :=
  Run.tally step (fun s act _ n => if assigns s act then n + 1 else n) init 0 acts

/-- After `n` assignments, with the counter not round yet: the ids in use are those up to
`n`, each held by one record or one creation in progress, and the slots above are free. -/
structure Numbered (s : State) (n : Nat) : Prop where
  next : n < maxCountUthread - 1 → s.nextUtId = n + 1
  free : ∀ i, n < i → s.bitmapUt i = false
  le : ∀ t < s.heap, (s.ut t).id ≤ n
  takenLe : ∀ u < s.heap, ∀ i, (s.ut u).ctx.taken = some i → i ≤ n
  ids : ∀ t < s.heap, ∀ t' < s.heap, (s.ut t).id = (s.ut t').id → t = t'
  apart : ∀ t < s.heap, ∀ u < s.heap, (s.ut u).ctx.taken ≠ some (s.ut t).id
  taken : ∀ u < s.heap, ∀ u' < s.heap, ∀ i, (s.ut u).ctx.taken = some i → (s.ut u').ctx.taken = some i →
    u = u'

theorem assigns_inv {s : State} {act : Act} (h : assigns s act = true) :
    ∃ a r u c, act = .stmt a r ∧ (s.sched a).curUthread = some u ∧ (s.ut u).ctx = .create c .count := by
  cases act with
  | stmt a r =>
    unfold assigns at h
    dsimp only at h
    split at h
    · rename_i u hu
      split at h
      · rename_i c hctx
        exact ⟨a, r, u, c, rfl, hu, hctx⟩
      · cases h
    · cases h
  | call a c => cases h
  | preempt a => cases h
  | sched a r => cases h

theorem assigns_of_ctx {s : State} {a : SId} {u : UId} {c : SId} (r : Reply)
    (hc : (s.sched a).curUthread = some u) (hctx : (s.ut u).ctx = .create c .count) :
    assigns s (.stmt a r) = true := by
  simp only [assigns, hc, hctx]

/-- What the assignment does. -/
def counted (u : UId) (c : SId) (s : State) : State :=
  goto u (.create c (.unlock s.nextUtId))
    {s with
      nUthread := (s.nUthread + 1) % 2 ^ 32
      bitmapUt := Function.update s.bitmapUt s.nextUtId true
      nextUtId := nextId s.nextUtId}

theorem step_count {s : State} {a : SId} {u : UId} {c : SId} (hhalt : s.halted = false)
    (hc : (s.sched a).curUthread = some u) (hctx : (s.ut u).ctx = .create c .count) (r : Reply) :
    step s (.stmt a r) = .ok (counted u c s) := by
  rw [step_stmt hhalt hc]
  simp only [uthreadStmt, hctx, createStmt, counted]

theorem nextId_of_lt {n : Nat} (h0 : 0 < n) (h : n + 1 < maxCountUthread) : nextId n = n + 1 := by
  have hmod : (n + 1) % maxCountUthread = n + 1 := Nat.mod_eq_of_lt h
  have hne : n + 1 ≠ 1 := by omega
  simp only [nextId, hmod, hne, if_false]

namespace Numbered

variable {s s' : State} {n : Nat}

theorem init : Numbered init 0 := by
  have hzero : ∀ t < UthreadRuntime.init.heap, t = 0 := fun t ht => Nat.lt_one_iff.mp ht
  have htaken : ∀ t < UthreadRuntime.init.heap, (UthreadRuntime.init.ut t).ctx.taken = none := by
    intro t ht
    rw [hzero t ht]
    rfl
  refine ⟨fun _ => rfl, fun i hi => ?_, fun t ht => ?_, fun u hu i hi => ?_, fun t ht t' ht' _ => ?_,
    fun t ht u hu hi => ?_, fun u hu u' hu' i hi _ => ?_⟩
  · show Function.update (fun _ => false) 0 true i = false
    rw [Function.update_of_ne (Nat.pos_iff_ne_zero.mp hi)]
  · rw [hzero t ht]
    exact Nat.le_refl 0
  · rw [htaken u hu] at hi
    cases hi
  · rw [hzero t ht, hzero t' ht']
  · rw [htaken u hu] at hi
    cases hi
  · rw [hzero u hu, hzero u' hu']

/-- Records that stay, and creations that stay or end: nothing new is numbered. -/
theorem keep (h : Numbered s n) (hheap : s'.heap = s.heap) (hnext : s'.nextUtId = s.nextUtId)
    (hfree : ∀ i, n < i → s'.bitmapUt i = false) (hid : ∀ t < s.heap, (s'.ut t).id = (s.ut t).id)
    (htaken : ∀ u < s.heap, ∀ i, (s'.ut u).ctx.taken = some i → (s.ut u).ctx.taken = some i) :
    Numbered s' n := by
  constructor
  · intro hn
    rw [hnext]
    exact h.next hn
  · exact hfree
  · intro t ht
    rw [hheap] at ht
    rw [hid t ht]
    exact h.le t ht
  · intro u hu i hi
    rw [hheap] at hu
    exact h.takenLe u hu i (htaken u hu i hi)
  · intro t ht t' ht' he
    rw [hheap] at ht ht'
    rw [hid t ht, hid t' ht'] at he
    exact h.ids t ht t' ht' he
  · intro t ht u hu hu'
    rw [hheap] at ht hu
    rw [hid t ht] at hu'
    exact h.apart t ht u hu (htaken u hu _ hu')
  · intro u hu u' hu' i hi hi'
    rw [hheap] at hu hu'
    exact h.taken u hu u' hu' i (htaken u hu i hi) (htaken u' hu' i hi')

/-- The next id is above all those in use. -/
theorem count (h : Numbered s n) (hn : n + 1 < maxCountUthread) {u : UId} {c : SId} :
    Numbered (counted u c s) (n + 1) := by
  have hnext : s.nextUtId = n + 1 := h.next (by omega)
  have hid : ∀ t, ((counted u c s).ut t).id = (s.ut t).id := fun t => by
    unfold counted goto
    exact setUt_keeps Uthread.id rfl t
  have htaken : ∀ v i, ((counted u c s).ut v).ctx.taken = some i →
      (v = u ∧ i = n + 1) ∨ (v ≠ u ∧ (s.ut v).ctx.taken = some i) := by
    intro v i hi
    unfold counted goto at hi
    rw [setUt_ut] at hi
    split at hi
    · rename_i hv
      rw [← hnext]
      exact .inl ⟨hv, (Option.some.inj hi).symm⟩
    · rename_i hv
      exact .inr ⟨hv, hi⟩
  constructor
  · intro hlt
    show nextId s.nextUtId = n + 1 + 1
    rw [hnext]
    exact nextId_of_lt (by omega) (by omega)
  · intro i hi
    show Function.update s.bitmapUt s.nextUtId true i = false
    rw [hnext, Function.update_of_ne (by omega)]
    exact h.free i (by omega)
  · intro t ht
    rw [hid]
    exact Nat.le_succ_of_le (h.le t ht)
  · intro v hv i hi
    rcases htaken v i hi with ⟨-, rfl⟩ | ⟨-, hi⟩
    · exact Nat.le_refl _
    · exact Nat.le_succ_of_le (h.takenLe v hv i hi)
  · intro t ht t' ht' he
    rw [hid, hid] at he
    exact h.ids t ht t' ht' he
  · intro t ht v hv hv'
    rw [hid] at hv'
    have hle := h.le t ht
    rcases htaken v _ hv' with ⟨-, he⟩ | ⟨-, hv'⟩
    · omega
    · exact h.apart t ht v hv hv'
  · intro v hv v' hv' i hi hi'
    rcases htaken v i hi with ⟨rfl, rfl⟩ | ⟨-, hi⟩
    · rcases htaken v' _ hi' with ⟨hv', -⟩ | ⟨-, hi'⟩
      · exact hv'.symm
      · have := h.takenLe v' hv' _ hi'
        omega
    · rcases htaken v' _ hi' with ⟨-, rfl⟩ | ⟨-, hi'⟩
      · have := h.takenLe v hv _ hi
        omega
      · exact h.taken v hv v' hv' i hi hi'

/-- The id of a creation goes to its record. -/
theorem create (h : Numbered s n) {u : UId} {id : Nat} (hu : u < s.heap)
    (htu : (s.ut u).ctx.taken = some id) (htu' : (s'.ut u).ctx.taken = none)
    (hslots : s'.bitmapUt = s.bitmapUt) (hnext : s'.nextUtId = s.nextUtId) (hheap : s'.heap = s.heap + 1)
    (hnew : (s'.ut s.heap).id = id) (hnewTaken : (s'.ut s.heap).ctx.taken = none)
    (hid : ∀ t < s.heap, (s'.ut t).id = (s.ut t).id)
    (hothers : ∀ v < s.heap, v ≠ u → (s'.ut v).ctx.taken = (s.ut v).ctx.taken) : Numbered s' n := by
  have hcases : ∀ t < s'.heap, t < s.heap ∨ t = s.heap := fun t ht => by
    rw [hheap] at ht
    exact Nat.lt_succ_iff_lt_or_eq.mp ht
  have htaken : ∀ v < s'.heap, ∀ i, (s'.ut v).ctx.taken = some i →
      v < s.heap ∧ v ≠ u ∧ (s.ut v).ctx.taken = some i := by
    intro v hv i hi
    rcases hcases v hv with hv | rfl
    · by_cases hvu : v = u
      · rw [hvu, htu'] at hi
        cases hi
      · rw [hothers v hv hvu] at hi
        exact ⟨hv, hvu, hi⟩
    · rw [hnewTaken] at hi
      cases hi
  constructor
  · intro hn
    rw [hnext]
    exact h.next hn
  · rw [hslots]
    exact h.free
  · intro t ht
    rcases hcases t ht with ht | rfl
    · rw [hid t ht]
      exact h.le t ht
    · rw [hnew]
      exact h.takenLe u hu id htu
  · intro v hv i hi
    obtain ⟨hv, -, hi⟩ := htaken v hv i hi
    exact h.takenLe v hv i hi
  · intro t ht t' ht' he
    rcases hcases t ht with ht | rfl
    · rcases hcases t' ht' with ht' | rfl
      · rw [hid t ht, hid t' ht'] at he
        exact h.ids t ht t' ht' he
      · rw [hid t ht, hnew] at he
        exact absurd (he ▸ htu) (h.apart t ht u hu)
    · rcases hcases t' ht' with ht' | rfl
      · rw [hid t' ht', hnew] at he
        exact absurd (he ▸ htu) (h.apart t' ht' u hu)
      · rfl
  · intro t ht v hv hi
    obtain ⟨hv, hvu, hi⟩ := htaken v hv _ hi
    rcases hcases t ht with ht | rfl
    · rw [hid t ht] at hi
      exact h.apart t ht v hv hi
    · rw [hnew] at hi
      exact hvu (h.taken v hv u hu id hi htu)
  · intro v hv v' hv' i hi hi'
    obtain ⟨hv, -, hi⟩ := htaken v hv i hi
    obtain ⟨hv', -, hi'⟩ := htaken v' hv' i hi'
    exact h.taken v hv v' hv' i hi hi'

/-- A step that assigns no id. -/
theorem step {act : Act} (h : Numbered s n) (hsnd : Sound s) (hno : assigns s act = false)
    (hs : step s act = .ok s') : Numbered s' n := by
  have hid : ∀ t < s.heap, (s'.ut t).id = (s.ut t).id := fun t ht => step_id hsnd hs ht
  cases step_books hsnd hs with
  | same hb hl =>
    refine h.keep hb.heap hb.next ?_ hid fun u hu i hi => by rwa [(hl u hu).2] at hi
    rw [hb.slots]
    exact h.free
  | count hc hctx _ _ _ _ _ _ =>
    rw [assigns_of_ctx _ hc hctx] at hno
    cases hno
  | @created _ _ u id hc htu htu' _ hslots hnext hheap hmarks hnewTaken hl =>
    exact h.create (hsnd.cur hc).1 htu htu' hslots hnext hheap (congrArg Marks.id hmarks) hnewTaken hid
      fun v hv hvu => (hl v hv).2 hvu
  | @lost _ _ u _ id hc _ _ htu' hb hl =>
    refine h.keep hb.heap hb.next ?_ hid fun v hv i hi => ?_
    · rw [hb.slots]
      exact h.free
    · by_cases hvu : v = u
      · rw [hvu, htu'] at hi
        cases hi
      · rwa [(hl v hv).2 hvu] at hi
  | @slot _ _ u t b hc hjoin _ hslots hnext hheap hl =>
    have htlt : t < s.heap := by
      obtain ⟨v, pc, hctx⟩ := hjoin
      exact hsnd.joinee_lt (hsnd.cur hc).1 hctx
    refine h.keep hheap hnext (fun i hi => ?_) hid fun u hu i hi => by rwa [(hl u hu).2] at hi
    have hle := h.le t htlt
    rw [hslots, Function.update_of_ne (by omega)]
    exact h.free i hi
  | @freed _ u _ hc _ _ _ hslots hnext hheap hl =>
    refine h.keep hheap hnext (fun i hi => ?_) hid fun u hu i hi => by rwa [(hl u hu).2] at hi
    have hle := h.le u (hsnd.cur hc).1
    rw [hslots]
    split
    · rw [Function.update_of_ne (by omega)]
      exact h.free i hi
    · exact h.free i hi

/-- **The ids of a run**, as long as the counter has not come round. -/
theorem of_exec {acts : List Act} (hrun : exec acts = .ok s) (hfew : assigned acts < maxCountUthread) :
    Numbered s (assigned acts) := by
  have hJ : Sound s ∧ (assigned acts < maxCountUthread → Numbered s (assigned acts)) := by
    refine Run.tally_invariant (J := fun s n => Sound s ∧ (n < maxCountUthread → Numbered s n)) hrun
      ⟨Sound.initial, fun _ => Numbered.init⟩ ?_
    rintro s act s' n ⟨hsnd, h⟩ hs
    refine ⟨hsnd.step hs, fun hn => ?_⟩
    by_cases hact : assigns s act
    · rw [if_pos hact] at hn ⊢
      obtain ⟨a, r, u, c, rfl, hc, hctx⟩ := assigns_inv hact
      rw [step_count (not_halted_of_step hs) hc hctx] at hs
      cases hs
      exact (h (Nat.lt_of_succ_lt hn)).count hn
    · rw [if_neg hact] at hn ⊢
      exact (h hn).step hsnd (by simpa using hact) hs
  exact hJ.2 hfew

end Numbered

/-- No two uthreads, and no two creations in progress, have one id. -/
structure DistinctIds (s : State) : Prop where
  ids : ∀ t < s.heap, ∀ t' < s.heap, (s.ut t).id = (s.ut t').id → t = t'
  apart : ∀ t < s.heap, ∀ u < s.heap, (s.ut u).ctx.taken ≠ some (s.ut t).id
  taken : ∀ u < s.heap, ∀ u' < s.heap, ∀ i, (s.ut u).ctx.taken = some i → (s.ut u').ctx.taken = some i →
    u = u'

/-- The id a `uthread_create` is about to assign is in range and its slot is free. -/
def AssignsFree (s : State) : Prop :=
  ∀ a u c r s', (s.sched a).curUthread = some u → (s.ut u).ctx = .create c .count →
    step s (.stmt a r) = .ok s' → ∃ id, (s'.ut u).ctx = .create c (.unlock id) ∧
      id < maxCountUthread ∧ s.bitmapUt id = false

/-- **Ids are unique until the counter comes round**: of the uthreads created in a run with
fewer than `MAX_COUNT_UTHREAD` assignments no two have one id, reclaimed or not, and an
assignment before the last of these finds its slot free. -/
theorem ids_unique_before_wrap {acts : List Act} {s : State} (hrun : exec acts = .ok s)
    (hfew : assigned acts < maxCountUthread) :
    DistinctIds s ∧ (assigned acts < maxCountUthread - 1 → AssignsFree s) := by
  have h := Numbered.of_exec hrun hfew
  refine ⟨⟨h.ids, h.apart, h.taken⟩, fun hlt a u c r s' hc hctx hs => ?_⟩
  have hnext := h.next hlt
  rw [step_count (not_halted_of_step hs) hc hctx] at hs
  cases hs
  refine ⟨s.nextUtId, goto_ctx _, ?_, ?_⟩
  · rw [hnext]
    omega
  · rw [hnext]
    exact h.free _ (Nat.lt_succ_self _)

/-- Main has created one uthread. -/
theorem boot_ids_unique : ∃ s, exec boot = .ok s ∧ s.heap = 2 ∧ assigned boot = 1 ∧ DistinctIds s ∧
    AssignsFree s := by
  obtain ⟨s, hs, h1⟩ := exec_passes boot (fun s => s.heap = 2) (by decide +kernel)
  have hone : assigned boot = 1 := by decide +kernel
  have hu := ids_unique_before_wrap hs (by rw [hone]; decide)
  exact ⟨s, hs, h1, hone, hu.1, hu.2 (by rw [hone]; decide)⟩

/-! ### The counter comes round -/

/-- Main is on the first thread at `k` and has not exited; the lock is `m`, the counter
stands at `n`, and `h` records have been made. -/
structure MainAt (k : Ctx) (m : Option UId) (n h : Nat) (s : State) : Prop where
  halted : s.halted = false
  cur : (s.sched 0).curUthread = some 0
  bound : (s.sched 0).p = some 0
  ctx : (s.ut 0).ctx = k
  mutex : s.mutex = m
  live : (s.ut 0).life = .live
  notExited : (s.ut 0).status.has .exited = false
  id : (s.ut 0).id = 0
  slot : s.bitmapUt 0 = true
  next : s.nextUtId = n
  heap : s.heap = h
  pos : 0 < h

namespace MainAt

variable {k : Ctx} {m : Option UId} {n h : Nat} {s : State}

theorem goto (hs : MainAt k m n h s) (k' : Ctx) : MainAt k' m n h (goto 0 k' s) := by
  refine ⟨hs.halted, hs.cur, hs.bound, goto_ctx _, hs.mutex, ?_, ?_, ?_, hs.slot, hs.next, hs.heap, hs.pos⟩
  · simpa [UthreadRuntime.goto] using hs.live
  · simpa [UthreadRuntime.goto] using hs.notExited
  · simpa [UthreadRuntime.goto] using hs.id

theorem setMutex (hs : MainAt k m n h s) (m' : Option UId) : MainAt k m' n h {s with mutex := m'} :=
  ⟨hs.halted, hs.cur, hs.bound, hs.ctx, rfl, hs.live, hs.notExited, hs.id, hs.slot, hs.next, hs.heap, hs.pos⟩

theorem call (hs : MainAt .user m n h s) : step s (.call 0 .create) = .ok (UthreadRuntime.goto 0 .createGet
    (entered 0 .create s)) := by
  simp only [step, hs.halted, hs.cur, hs.ctx, Bool.false_eq_true, if_false, if_true]
  rfl

theorem entered (hs : MainAt k m n h s) (c : Call) : MainAt k m n h (entered 0 c s) := by
  refine ⟨hs.halted, hs.cur, hs.bound, ?_, hs.mutex, ?_, ?_, ?_, hs.slot, hs.next, hs.heap, hs.pos⟩
  · simpa [UthreadRuntime.entered] using hs.ctx
  · simpa [UthreadRuntime.entered] using hs.live
  · simpa [UthreadRuntime.entered] using hs.notExited
  · simpa [UthreadRuntime.entered] using hs.id

theorem counted (hs : MainAt k m n h s) (c : SId) :
    MainAt (.create c (.unlock n)) m (nextId n) h (counted 0 c s) := by
  refine ⟨hs.halted, hs.cur, hs.bound, ?_, hs.mutex, ?_, ?_, ?_, ?_, ?_, hs.heap, hs.pos⟩
  · rw [← hs.next]
    exact goto_ctx _
  · simpa [UthreadRuntime.counted, UthreadRuntime.goto] using hs.live
  · simpa [UthreadRuntime.counted, UthreadRuntime.goto] using hs.notExited
  · simpa [UthreadRuntime.counted, UthreadRuntime.goto] using hs.id
  · show Function.update s.bitmapUt s.nextUtId true 0 = true
    rw [Function.update_apply]
    split
    · rfl
    · exact hs.slot
  · rw [← hs.next]
    rfl

/-- The new record is enqueued, and `uthread_create` returns. -/
theorem created (hs : MainAt k m n h s) (id : Nat) (p : Option PId) :
    MainAt .user m n (h + 1) (returns 0 0 0 (created 0 id p s)) ∧
      ((returns 0 0 0 (UthreadRuntime.created 0 id p s)).ut h).id = id ∧
      ((returns 0 0 0 (UthreadRuntime.created 0 id p s)).ut h).life = .live := by
  have hne : h ≠ 0 := Nat.pos_iff_ne_zero.mp hs.pos
  have hmain : (UthreadRuntime.created 0 id p s).ut 0 = s.ut 0 :=
    created_ut_of_lt (by rw [hs.heap]; exact hs.pos)
  have hnew : (returns 0 0 0 (UthreadRuntime.created 0 id p s)).ut h =
      {id := id, status := .only .new, p := p, fdWait := -1, isWatingYieldSignal := true, life := .live} := by
    unfold returns UthreadRuntime.created insertReady
    rw [setUt_ut, if_neg hne, setP_ut]
    simp [hs.heap]
  refine ⟨⟨hs.halted, hs.cur, hs.bound, returns_ctx _, hs.mutex, ?_, ?_, ?_, hs.slot, hs.next, ?_,
    Nat.succ_pos h⟩, ?_, ?_⟩
  · simpa [returns, hmain] using hs.live
  · simpa [returns, hmain] using hs.notExited
  · simpa [returns, hmain] using hs.id
  · show s.heap + 1 = h + 1
    rw [hs.heap]
  · rw [hnew]
  · rw [hnew]

/-- Main creates one more uthread. -/
theorem creates (hs : MainAt .user none n h s) : ∃ s', Run.run step s (calls 0 .create 8) = .ok s' ∧
    MainAt .user none (nextId n) (h + 1) s' ∧ (s'.ut h).id = n ∧ (s'.ut h).life = .live := by
  have hstmt : ∀ {k m n s s'}, MainAt k m n h s → uthreadStmt 0 0 {} s = .ok s' →
      step s (.stmt 0 {}) = .ok s' := by
    intro k m n s s' hm hu
    rw [step_stmt hm.halted hm.cur]
    exact hu
  have h0 := (hs.entered .create).goto .createGet
  have h1 := h0.goto (.createAlloc 0)
  have h2 := h1.goto (.create 0 .lock)
  have h3 := (h2.setMutex (some 0)).goto (.create 0 .count)
  have h4 := h3.counted 0
  have h5 := (h4.setMutex none).goto (.create 0 (.stack n))
  have h6 := h5.goto (.create 0 (.bind n))
  have h7 := h6.goto (.create 0 (.insert n (some 0)))
  have h8 := h7.created n (some 0)
  refine ⟨_, (Run.run_cons hs.call).trans <|
    (Run.run_cons (hstmt h0 ?_)).trans <| (Run.run_cons (hstmt h1 ?_)).trans <|
    (Run.run_cons (hstmt h2 ?_)).trans <| (Run.run_cons (hstmt h3 ?_)).trans <|
    (Run.run_cons (hstmt h4 ?_)).trans <| (Run.run_cons (hstmt h5 ?_)).trans <|
    (Run.run_cons (hstmt h6 ?_)).trans <| (Run.run_cons (hstmt h7 ?_)).trans rfl, h8.1, h8.2⟩
  · simp only [uthreadStmt, h0.ctx]
  · simp only [uthreadStmt, h1.ctx, if_true]
  · simp only [uthreadStmt, h2.ctx, createStmt, h2.mutex, Option.isSome_none, Bool.false_eq_true, if_false]
  · simp only [uthreadStmt, h3.ctx, createStmt]
    rfl
  · simp only [uthreadStmt, h4.ctx, createStmt]
  · simp only [uthreadStmt, h5.ctx, createStmt, if_true]
  · simp only [uthreadStmt, h6.ctx, createStmt, h6.bound]
  · simp only [uthreadStmt, h7.ctx, createStmt, State.bound, h7.bound]
    rfl

end MainAt

/-- Main creates its first uthread and `n` more. -/
def createsMany (n : Nat) : List Act := boot ++ (List.replicate n (calls 0 .create 8)).flatten

theorem boot_mainAt : ∃ s, exec boot = .ok s ∧ MainAt .user none 2 2 s := by
  obtain ⟨s, hs, h1, h2, h3, h4, h5, h6, h7, h8, h9, h10, h11⟩ := exec_passes boot
    (fun s => s.halted = false ∧ (s.sched 0).curUthread = some 0 ∧ (s.sched 0).p = some 0 ∧
      (s.ut 0).ctx = .user ∧ s.mutex = none ∧ (s.ut 0).life = .live ∧
      (s.ut 0).status.has .exited = false ∧ (s.ut 0).id = 0 ∧ s.bitmapUt 0 = true ∧ s.nextUtId = 2 ∧
      s.heap = 2) (by decide +kernel)
  exact ⟨s, hs, h1, h2, h3, h4, h5, h6, h7, h8, h9, h10, h11, Nat.zero_lt_two⟩

theorem creates_mainAt (n : Nat) {s : State} (hs : MainAt .user none 2 2 s)
    (hn : n + 2 < maxCountUthread) :
    ∃ s', Run.run step s (List.replicate n (calls 0 .create 8)).flatten = .ok s' ∧
      MainAt .user none (n + 2) (n + 2) s' := by
  induction n with
  | zero => exact ⟨s, rfl, hs⟩
  | succ n ih =>
    obtain ⟨s₁, hs₁, h₁⟩ := ih (by omega)
    obtain ⟨s₂, hs₂, h₂, -⟩ := h₁.creates
    rw [nextId_of_lt (by omega) (by omega)] at h₂
    exact ⟨s₂, Run.run_replicate_succ hs₁ hs₂, h₂⟩

/-- Main, which has the id 0, creates 9999999 uthreads: the counter is back at 0. The next
uthread it creates gets the id of main. -/
theorem id_of_main_reused : ∃ s s', exec (createsMany (maxCountUthread - 2)) = .ok s ∧
    s.nextUtId = 0 ∧ s.bitmapUt 0 = true ∧ (s.ut 0).life = .live ∧ (s.ut 0).status.has .exited = false ∧
    exec (createsMany (maxCountUthread - 1)) = .ok s' ∧ (s'.ut 0).life = .live ∧
    (s'.ut 0).status.has .exited = false ∧ (s'.ut maxCountUthread).life = .live ∧
    (s'.ut maxCountUthread).id = (s'.ut 0).id := by
  obtain ⟨s₀, hs₀, h₀⟩ := boot_mainAt
  obtain ⟨s₁, hs₁, h₁⟩ := creates_mainAt (maxCountUthread - 3) h₀ (by decide)
  obtain ⟨s, hs, h, -⟩ := h₁.creates
  obtain ⟨s', hs', h', hid, hlive⟩ := h.creates
  have hnext : nextId (maxCountUthread - 3 + 2) = 0 := by decide
  have hheap : maxCountUthread - 3 + 2 + 1 = maxCountUthread := by decide
  have hexec : ∀ {n t}, Run.run step s₀ (List.replicate n (calls 0 .create 8)).flatten = .ok t →
      exec (createsMany n) = .ok t := fun ht => (Run.run_append hs₀).trans ht
  have hrun := Run.run_replicate_succ hs₁ hs
  have hrun' := Run.run_replicate_succ hrun hs'
  rw [hnext] at h hid
  rw [hheap] at hid hlive
  refine ⟨s, s', hexec hrun, h.next, h.slot, h.live, h.notExited, hexec hrun', h'.live, h'.notExited, hlive, ?_⟩
  rw [hid, h'.id]

end UthreadRuntime
