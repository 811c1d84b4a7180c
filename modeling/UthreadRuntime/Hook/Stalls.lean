import UthreadRuntime.Hook.Streams

/-! Reading exactly, from a peer that stalls.

The inner call of `uthread_read_exact` is the hooked `read`, so it is `uthread_read`, which
waits for at most a second and then returns -2. The loop around it tests its result for 0,
for a count and for -1, and goes on. -/
namespace UthreadRuntime.Hook

/-- A call of `uthread_read_exact`, with the `uthread_read` it has called. -/
structure Nested where
  outer : Frame
  inner : Option Frame := none
  world : World
  deriving DecidableEq, Repr

namespace Nested

/-- The result of the inner call, as an answer to the outer one. -/
def result (v : Int) (w : World) : Answer :=
  {ret := v, errno := w.errno, fdeof := w.fdeof, expired := w.expired}

/-- A statement of the outer function. -/
def outerStep (s : Nested) (r : Answer) : Except End Nested :=
  match bodyStep uthreadReadExact (s.outer, s.world) r with
  | .ok (f, w) => .ok {outer := f, world := w}
  | .error e => .error e

/-- One statement: of `uthread_read` while it is called, else of `uthread_read_exact`. -/
def step (s : Nested) (r : Answer) : Except End Nested :=
  match s.inner with
  | some f =>
    match streamStep uthreadRead (f, s.world) r with
    | .ok (f, w) => .ok {s with inner := some f, world := w}
    | .error (.returned v w) => s.outerStep (result v w)
    | .error .aborted => .error .aborted
  | none =>
    if s.outer.pc = .call then
      .ok {s with inner := some (entered (uthreadReadExact.args s.outer) s.world).1}
    else s.outerStep r

/-- The call is made. -/
def start (a : Args) (w : World) : Nested := {outer := {args := a, pc := .head}, world := w}

/-- The next statement is the system's `read`. -/
def reading (s : Nested) : Bool :=
  match s.inner with
  | some f => f.pc == .call
  | none => false

/-- The inner `uthread_read` waits. -/
def innerWaits (s : Nested) : Bool :=
  match s.inner with
  | some f => f.pc == .register
  | none => false

/-- The outer function waits. -/
def outerWaits (s : Nested) : Bool := s.inner.isNone && s.outer.pc == .register

/-- A wait that the call has started expires. -/
def expires (s : Nested) (r : Answer) : Bool := r.expired && (s.innerWaits || s.outerWaits)

/-- The call returns -2 and reads no more. -/
structure GivesUp (s : Nested) : Prop where
  returns : ∃ n, ∀ rs : List Answer, rs.length = n → ∃ w, Run.run step s rs = .error (.returned (-2) w)
  noRead : ∀ rs t, Run.run step s rs = .ok t → t.reading = false

/-- The inner function is called from the loop, and the loop has something left to read. -/
structure Sane (s : Nested) : Prop where
  called : s.inner ≠ none → s.outer.pc = .call
  busy : s.outer.pc.busy = true → s.outer.done ≠ s.outer.args.length

variable {s s' : Nested} {r : Answer}

theorem outerStep_ok (h : s.outerStep r = .ok s') :
    s'.inner = none ∧ bodyStep uthreadReadExact (s.outer, s.world) r = .ok (s'.outer, s'.world) := by
  unfold outerStep at h
  split at h
  · rename_i f w hb
    cases h
    exact ⟨rfl, hb⟩
  · cases h

theorem Sane.outerStep (hs : Sane s) (h : s.outerStep r = .ok s') : Sane s' := by
  obtain ⟨hinner, hb⟩ := outerStep_ok h
  refine ⟨fun hne => absurd hinner hne, ?_⟩
  have hstep : streamStep uthreadReadExact (s.outer, s.world) r = .ok (s'.outer, s'.world) := hb
  generalize s'.outer = f' at hstep
  cases streamStep_ok uthreadReadExact_addsUp hstep with
  | goesOn _ hdone _ => exact fun _ => hdone
  | nonblock hpc => exact fun _ => hs.busy (by rw [hpc]; rfl)
  | calls hpc => exact fun _ => hs.busy (by rw [hpc]; rfl)
  | adds _ hk =>
    intro hbusy
    rcases hk with rfl | rfl <;> cases hbusy
  | waits hk =>
    intro hbusy
    rcases hk with ⟨-, rfl⟩ | ⟨-, rfl⟩ <;> cases hbusy

theorem Sane.step (hs : Sane s) (h : s.step r = .ok s') : Sane s' := by
  unfold Nested.step at h
  split at h
  · rename_i f hf
    split at h
    · cases h
      exact ⟨fun _ => hs.called (by rw [hf]; exact Option.some_ne_none f), hs.busy⟩
    · exact hs.outerStep h
    · cases h
  · split at h
    · rename_i hpc
      cases h
      exact ⟨fun _ => hpc, hs.busy⟩
    · exact hs.outerStep h

theorem Sane.start (a : Args) (w : World) : Sane (Nested.start a w) :=
  ⟨fun h => absurd rfl h, fun h => nomatch h⟩

/-! ### A wait that expires -/

/-- In the loop itself: it returns -2. -/
theorem givesUp_of_outerWaits (hw : s.outerWaits = true) (hr : r.expired = true) (h : s.step r = .ok s') :
    GivesUp s' := by
  obtain ⟨⟨args, done, idx, pc⟩, inner, w⟩ := s
  simp only [outerWaits, Bool.and_eq_true, Option.isNone_iff_eq_none, beq_iff_eq] at hw
  obtain ⟨rfl, rfl⟩ := hw
  cases h
  have hends : ∀ r', ∃ w', Nested.step {outer := ⟨args, done, idx, .after⟩, world := w.after r} r' =
      .error (.returned (-2) w') := by
    intro r'
    have hexp : (w.after r).expired = true := by
      unfold World.after
      rw [hr, Bool.or_true]
    refine ⟨{fdeof := (w.after r).fdeof, expired := true, errno := (w.after r).errno}, ?_⟩
    simp [Nested.step, Nested.outerStep, bodyStep, afterStmt, uthreadReadExact, hexp]
  refine ⟨⟨1, fun rs hlen => ?_⟩, fun rs t ht => ?_⟩
  · obtain ⟨r', rfl⟩ := List.length_eq_one_iff.mp hlen
    obtain ⟨w', hw'⟩ := hends r'
    exact ⟨w', Run.run_cons_error hw'⟩
  · cases rs with
    | nil =>
      cases ht
      rfl
    | cons r' rest =>
      obtain ⟨w', hw'⟩ := hends r'
      rw [Run.run_cons_error hw'] at ht
      cases ht

/-- In the inner `uthread_read`: the loop takes its -2 for nothing, and goes back to its head. -/
theorem runs_of_expired {f : Frame} {w : World} {outer : Frame} (hf : f.pc = .after) (ho : outer.pc = .call)
    (hw : w.expired = true) :
    Run.run step {outer := outer, inner := some f, world := w} [{}, {}] =
      .ok {outer := {outer with pc := .head}, world := w} := by
  obtain ⟨args, done, idx, pc⟩ := f
  obtain ⟨oargs, odone, oidx, opc⟩ := outer
  obtain ⟨fdeof, expired, errno⟩ := w
  dsimp only at hf ho hw
  subst hf ho hw
  simp [Run.run, step, streamStep, outerStep, result, bodyStep, afterStmt, uthreadRead, testStmt, answered,
    uthreadReadExact, countVerdict, World.after]

/-- From its head the loop reads again. -/
theorem runs_to_reading {o : Frame} {w : World} (ho : o.pc = .head)
    (hdone : o.done ≠ o.args.length) (hw : w.fdeof = false) :
    ∃ t, Run.run step {outer := o, world := w} [{}, {}, {}, {}] = .ok t ∧ t.reading = true := by
  obtain ⟨oargs, odone, oidx, opc⟩ := o
  obtain ⟨fdeof, expired, errno⟩ := w
  dsimp only at ho hdone hw
  subst ho hw
  refine ⟨{outer := ⟨oargs, odone, oidx, .call⟩
           inner := some ⟨restOf ⟨oargs, odone, oidx, .call⟩, 0, 0, .call⟩
           world := ⟨false, expired, errno⟩}, ?_, rfl⟩
  simp [Run.run, step, streamStep, outerStep, bodyStep, headStmt, uthreadRead, uthreadReadExact, entered, hdone]

/-- Or the end of file was seen, and it returns -1. -/
theorem returns_of_fdeof {o : Frame} {w : World} (ho : o.pc = .head)
    (hdone : o.done ≠ o.args.length) (hw : w.fdeof = true) :
    step {outer := o, world := w} {} = .error (.returned (-1) w) := by
  simp [step, outerStep, bodyStep, headStmt, uthreadReadExact, ho, hdone, hw]

/-- So a wait of the inner `uthread_read` that expires does not end the call. -/
theorem not_givesUp_of_innerWaits (hs : Sane s) (hw : s.innerWaits = true) (hr : r.expired = true)
    (h : s.step r = .ok s') : ¬GivesUp s' := by
  obtain ⟨outer, inner, w⟩ := s
  cases inner with
  | none => cases hw
  | some f =>
    have hpc : f.pc = .register := beq_iff_eq.mp hw
    have ho : outer.pc = .call := hs.called (Option.some_ne_none f)
    have hdone : outer.done ≠ outer.args.length := hs.busy (by dsimp only; rw [ho]; rfl)
    obtain ⟨w', hw', rfl⟩ : ∃ w' : World, w'.expired = true ∧
        s' = {outer := outer, inner := some {f with pc := .after}, world := w'} := by
      refine ⟨w.after {r with ret := uthreadRead.reads r.ret}, by simp [World.after, hr], ?_⟩
      simp only [Nested.step, streamStep, bodyStep, hpc] at h
      exact (Except.ok.inj h).symm
    have hhead := runs_of_expired (f := {f with pc := .after}) rfl ho hw'
    intro hgives
    cases hf : w'.fdeof with
    | false =>
      obtain ⟨t, ht, hreading⟩ := runs_to_reading (o := {outer with pc := .head}) rfl hdone hf
      rw [← Run.run_append hhead] at ht
      rw [hgives.noRead _ t ht] at hreading
      cases hreading
    | true =>
      have hends := returns_of_fdeof (o := {outer with pc := .head}) rfl hdone hf
      obtain ⟨n, hn⟩ := hgives.returns
      obtain ⟨s₁, hs₁, hs₂⟩ := Run.run_cons_ok hhead
      obtain ⟨w'', hrun⟩ := hn (List.replicate n {}) List.length_replicate
      match n with
      | 0 => cases hrun
      | 1 =>
        rw [show List.replicate 1 ({} : Answer) = [{}] from rfl, Run.run_cons hs₁] at hrun
        cases hrun
      | 2 =>
        rw [show List.replicate 2 ({} : Answer) = [{}, {}] from rfl, hhead] at hrun
        cases hrun
      | n + 3 =>
        rw [show List.replicate (n + 3) ({} : Answer) = [{}, {}] ++ {} :: List.replicate n {} from rfl,
          Run.run_append hhead, Run.run_cons_error hends] at hrun
        cases hrun

/-- **A call of `uthread_read_exact` gives up at every wait that expires exactly when none of them is
the wait of the inner `uthread_read`.** -/
theorem givesUp_iff (a : Args) (w : World) (rs : List Answer) :
    Run.each step (fun s r s' => s.expires r = true → GivesUp s') (start a w) rs ↔
      Run.each step (fun s r _ => r.expired = true → s.innerWaits = false) (start a w) rs := by
  refine Run.each_iff (Sane.start a w) (Run.each_of_forall (P := fun _ _ _ => True) (fun _ _ _ => trivial) _ _)
    (fun s r s' hs _ h => ?_) fun s r s' hs _ h _ => hs.step h
  unfold expires
  constructor
  · intro hgives hr
    by_contra hw
    rw [Bool.not_eq_false] at hw
    exact not_givesUp_of_innerWaits hs hw hr h (hgives (by rw [hr, hw]; rfl))
  · intro hinner hex
    rw [Bool.and_eq_true, Bool.or_eq_true] at hex
    rcases hex with ⟨hr, hw | hw⟩
    · rw [hinner hr] at hw
      cases hw
    · exact givesUp_of_outerWaits hw hr h

/-- Four bytes are asked for and one comes; the wait for the rest is about to end. -/
def oneOfFour : List Answer :=
  [{}, {}, {}, {}, {ret := 1}, {}, {}, {}, {}, {}, {}, {ret := -1, errno := .eagain}, {}]

/-- It expires, and the next thing the call does is to read again. -/
theorem oneOfFour_reads_again : ∃ s s' t, Run.run step (start {fd := 5, length := 4} {}) oneOfFour = .ok s ∧
    s.expires {expired := true} = true ∧ s.outer.done = 1 ∧ step s {expired := true} = .ok s' ∧
    Run.run step s' (List.replicate 6 {}) = .ok t ∧ t.reading = true ∧ ¬GivesUp s' := by
  refine ⟨{outer := {args := {fd := 5, length := 4}, done := 1, pc := .call}
           inner := some {args := {fd := 5, buf := 1, length := 3}, pc := .register}
           world := {errno := .eagain}},
    {outer := {args := {fd := 5, length := 4}, done := 1, pc := .call}
     inner := some {args := {fd := 5, buf := 1, length := 3}, pc := .after}
     world := {expired := true}},
    {outer := {args := {fd := 5, length := 4}, done := 1, pc := .call}
     inner := some {args := {fd := 5, buf := 1, length := 3}, pc := .call}
     world := {expired := true}}, rfl, rfl, rfl, rfl, rfl, rfl, fun hgives => ?_⟩
  have hno := hgives.noRead (List.replicate 6 {}) _ rfl
  cases hno

end Nested

end UthreadRuntime.Hook
