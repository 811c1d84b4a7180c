import UthreadRuntime.Hook.Wrappers
import Mathlib.Algebra.Group.Int.Defs

/-! The functions that add up what their inner calls have moved.

`uthread_write` and `uthread_send` offer the rest of a buffer until all of it is accepted,
`uthread_read_exact` and `uthread_recv_exact` ask for the rest until it is filled. The
bytes are followed through the calls: what each was passed and what it returned is kept
beside the run, and what was accepted or stored is read off it. -/
namespace UthreadRuntime.Hook

variable {α : Type}

def ssizeMax : Nat := 2 ^ 63 - 1

def intMax : Int := 2 ^ 31 - 1

/-- A result as the body reads it: the functions fetched with `dlsym` are declared to return
`int`, so that of a result the low 32 bits are left. -/
def Wrapper.reads (x : Wrapper) (n : Int) : Int :=
  match x.callee with
  | .libc _ => (n + 2 ^ 31) % 2 ^ 32 - 2 ^ 31
  | .plain _ => n

/-- The inner calls of a run, each with its result. -/
abbrev Trace := List (Args × Int)

/-- A body with the inner calls it has made. -/
abbrev Traced := (Frame × World) × Trace

/-- One statement of a body; what its inner call returns is read as the body reads it. -/
def streamStep (x : Wrapper) (s : Frame × World) (r : Answer) : Except End (Frame × World) :=
  bodyStep x s {r with ret := x.reads r.ret}

def noteCall (x : Wrapper) (s : Frame × World) (r : Answer) (_ : Frame × World) (t : Trace) : Trace :=
  if s.1.pc = .call then t ++ [(x.args s.1, r.ret)] else t

def tracedStep (x : Wrapper) : Traced → Answer → Except End Traced := Run.noted (streamStep x) (noteCall x)

def traced (a : Args) (w : World) : Traced := (entered a w, [])

/-- What the calls have moved, in bytes. -/
def moved : Trace → Nat
  | [] => 0
  | c :: t => c.2.toNat + moved t

/-- `sent` or `recvd`, with a result that has come back and is not added yet. -/
def Frame.counted (f : Frame) : Nat :=
  match f.pc with
  | .test ret => f.done + ret.toNat
  | _ => f.done

/-- Every call was passed the rest of the buffer, which was not empty: `k` bytes had been
moved before the first. -/
def Suffixes (a : Args) (k : Nat) : Trace → Prop
  | [] => True
  | c :: t => c.1.fd = a.fd ∧ c.1.buf = a.buf + k ∧ c.1.length = a.length - k ∧ k < a.length ∧
      Suffixes a (k + c.2.toNat) t

theorem moved_append (t t' : Trace) : moved (t ++ t') = moved t + moved t' := by
  induction t with
  | nil => exact (Nat.zero_add _).symm
  | cons c t ih =>
    rw [List.cons_append, moved, moved, ih, Nat.add_assoc]

theorem Suffixes.append {a : Args} {k : Nat} {t t' : Trace} (h : Suffixes a k t)
    (h' : Suffixes a (k + moved t) t') : Suffixes a k (t ++ t') := by
  induction t generalizing k with
  | nil => exact h'
  | cons c t ih =>
    obtain ⟨h1, h2, h3, h4, hrest⟩ := h
    refine ⟨h1, h2, h3, h4, ih hrest ?_⟩
    rw [moved, ← Nat.add_assoc] at h'
    exact h'

/-! ### Bytes -/

/-- `n` bytes from an address on. -/
def bytes (mem : Nat → α) (i n : Nat) : List α := (List.range n).map fun k => mem (i + k)

theorem bytes_length (mem : Nat → α) (i n : Nat) : (bytes mem i n).length = n := by
  simp [bytes]

theorem bytes_append (mem : Nat → α) (i n k : Nat) :
    bytes mem i n ++ bytes mem (i + n) k = bytes mem i (n + k) := by
  unfold bytes
  rw [List.range_add, List.map_append, List.map_map]
  simp only [Function.comp_def, Nat.add_assoc]

/-- What the calls of a sender have passed to the kernel and it has accepted. -/
def accepted (mem : Nat → α) (t : Trace) : List α := t.flatMap fun c => bytes mem c.1.buf c.2.toNat

theorem accepted_length (mem : Nat → α) (t : Trace) : (accepted mem t).length = moved t := by
  induction t with
  | nil => rfl
  | cons c t ih =>
    unfold accepted at ih ⊢
    rw [List.flatMap_cons, List.length_append, bytes_length, ih, moved]

/-- Calls that were each passed the rest have had the buffer accepted from the front. -/
theorem Suffixes.accepted {a : Args} {k : Nat} {t : Trace} (h : Suffixes a k t) (mem : Nat → α) :
    Hook.accepted mem t = bytes mem (a.buf + k) (moved t) := by
  induction t generalizing k with
  | nil => rfl
  | cons c t ih =>
    obtain ⟨-, hbuf, -, -, hrest⟩ := h
    have ht := ih hrest
    unfold Hook.accepted at ht ⊢
    rw [List.flatMap_cons, ht, hbuf, moved, ← bytes_append, Nat.add_assoc]

/-- What the calls of a receiver have stored: each writes the next bytes of the stream where
it was told to. -/
def stored (src : Nat → α) (k : Nat) (mem : Nat → α) : Trace → Nat → α
  | [] => mem
  | c :: t => stored src (k + c.2.toNat)
      (fun i => if c.1.buf ≤ i ∧ i < c.1.buf + c.2.toNat then src (k + (i - c.1.buf)) else mem i) t

/-- Calls that were each passed the rest have put the stream into the buffer, from the front,
and nothing anywhere else. -/
theorem Suffixes.stored {a : Args} {k : Nat} {t : Trace} (h : Suffixes a k t) (src mem : Nat → α) (i : Nat) :
    Hook.stored src k mem t i =
      if a.buf + k ≤ i ∧ i < a.buf + k + moved t then src (i - a.buf) else mem i := by
  induction t generalizing k mem with
  | nil =>
    rw [if_neg (by unfold moved; omega)]
    rfl
  | cons c t ih =>
    obtain ⟨-, hbuf, -, -, hrest⟩ := h
    unfold Hook.stored
    rw [ih hrest, hbuf, moved]
    by_cases hlow : i < a.buf + k
    · rw [if_neg (by omega), if_neg (by omega), if_neg (by omega)]
    · by_cases hmid : i < a.buf + k + c.2.toNat
      · rw [if_neg (by omega), if_pos (by omega), if_pos (by omega)]
        congr 1
        omega
      · rw [if_neg (c := a.buf + k ≤ i ∧ i < a.buf + k + c.2.toNat) (by omega)]
        simp only [Nat.add_assoc] at hmid ⊢
        by_cases hhigh : i < a.buf + (k + (c.2.toNat + moved t))
        · rw [if_pos (by omega), if_pos (by omega)]
        · rw [if_neg (by omega), if_neg (by omega)]

/-! ### The loops -/

/-- A function that adds up: its tests, and what it passes on. -/
structure AddsUp (x : Wrapper) : Prop where
  counted : x.counted = true
  verdict : x.verdict = countVerdict
  bottom : x.bottom = fun _ => none
  expired : ∀ v e, x.onExpired = some (v, e) → v < 0
  args : ∀ f, (x.args f).fd = f.args.fd ∧ (x.args f).buf = f.args.buf + f.done ∧
    (x.args f).length = f.args.length - f.done

theorem uthreadWrite_addsUp : AddsUp uthreadWrite :=
  ⟨rfl, rfl, rfl, (fun _ _ h => nomatch h), fun _ => ⟨rfl, rfl, rfl⟩⟩

theorem uthreadSend_addsUp : AddsUp uthreadSend :=
  ⟨rfl, rfl, rfl, (fun _ _ h => nomatch h), fun _ => ⟨rfl, rfl, rfl⟩⟩

theorem uthreadReadExact_addsUp : AddsUp uthreadReadExact := by
  refine ⟨rfl, rfl, rfl, fun v e h => ?_, fun _ => ⟨rfl, rfl, rfl⟩⟩
  cases h
  decide

theorem uthreadRecvExact_addsUp : AddsUp uthreadRecvExact := by
  refine ⟨rfl, rfl, rfl, fun v e h => ?_, fun _ => ⟨rfl, rfl, rfl⟩⟩
  cases h
  decide

/-- The loop has found something left to do. -/
def BodyAt.busy : BodyAt → Bool
  | .fcntl | .call | .test _ => true
  | _ => false

/-- What the loop keeps. -/
structure Counting (a : Args) (y : Traced) : Prop where
  args : y.1.1.args = a
  sum : moved y.2 = y.1.1.counted
  fits : y.1.1.counted ≤ a.length
  calls : Suffixes a 0 y.2
  busy : y.1.1.pc.busy = true → y.1.1.done < a.length
  last : ∀ ret, y.1.1.pc = .test ret → ∃ c, y.2.getLast? = some c ∧ c.2 = ret

theorem Counting.start (a : Args) (w : World) : Counting a (traced a w) :=
  ⟨rfl, rfl, Nat.zero_le _, trivial, (fun h => nomatch h), (fun _ h => nomatch h)⟩

section Loop

variable {x : Wrapper} {a : Args} {f f' : Frame} {w w' : World} {r : Answer}

/-- What a statement of the loop does to its variables. -/
inductive LoopStep (x : Wrapper) (r : Answer) (f : Frame) : Frame → Prop where
  | goesOn {k : BodyAt} : f.pc = .head → f.done ≠ f.args.length → (k = .fcntl ∨ k = .call) →
      LoopStep x r f {f with pc := k}
  | nonblock : f.pc = .fcntl → LoopStep x r f {f with pc := .call}
  | calls : f.pc = .call → LoopStep x r f {f with pc := .test (x.reads r.ret)}
  | adds {ret : Int} {k : BodyAt} : f.pc = .test ret → (k = .head ∨ k = .register) →
      LoopStep x r f {f with done := f.done + ret.toNat, pc := k}
  | waits {k : BodyAt} : (f.pc = .register ∧ k = .after ∨ f.pc = .after ∧ k = .head) →
      LoopStep x r f {f with pc := k}

/-- What the loop makes of a result. -/
theorem countVerdict_cases (f : Frame) (ret : Int) (e : Errno) :
    (ret = 0 ∧ countVerdict f ret e = .returns f.done) ∨ countVerdict f ret e = .returns (-1) ∨
    countVerdict f ret e = .again {f with done := f.done + ret.toNat} ∨
    (ret.toNat = 0 ∧ countVerdict f ret e = .waits) := by
  unfold countVerdict
  by_cases hzero : ret = 0
  · rw [if_pos hzero]
    exact .inl ⟨hzero, rfl⟩
  · rw [if_neg hzero]
    by_cases hpos : 0 < ret
    · rw [if_pos hpos]
      exact .inr (.inr (.inl rfl))
    · -- a negative result adds nothing
      have hnone : ret.toNat = 0 := Int.toNat_of_nonpos (Int.not_lt.mp hpos)
      rw [if_neg hpos]
      by_cases hother : ret = -1 ∧ e ≠ .eagain
      · rw [if_pos hother]
        exact .inr (.inl rfl)
      · rw [if_neg hother]
        by_cases hagain : ret = -1 ∧ e = .eagain
        · rw [if_pos hagain]
          exact .inr (.inr (.inr ⟨hnone, rfl⟩))
        · rw [if_neg hagain, hnone]
          exact .inr (.inr (.inl rfl))

theorem streamStep_ok (hx : AddsUp x) (h : streamStep x (f, w) r = .ok (f', w')) : LoopStep x r f f' := by
  unfold streamStep bodyStep at h
  dsimp only at h
  cases hpc : f.pc with
  | head =>
    rw [hpc] at h
    dsimp only [headStmt] at h
    split at h
    · cases h
    · rename_i hdone
      split at h
      · cases h
      · cases h
        refine .goesOn hpc (fun hd => hdone ⟨hx.counted, hd⟩) ?_
        cases x.setsNonblock with
        | true => exact .inl rfl
        | false => exact .inr rfl
  | fcntl =>
    rw [hpc] at h
    dsimp only at h
    split at h
    · cases h
      exact .nonblock hpc
    · cases h
  | call =>
    rw [hpc] at h
    cases h
    exact .calls hpc
  | test ret =>
    rw [hpc] at h
    dsimp only [testStmt] at h
    rw [hx.verdict] at h
    rcases countVerdict_cases f ret w.errno with ⟨-, hv⟩ | hv | hv | ⟨hnone, hv⟩
    · rw [hv] at h
      cases h
    · rw [hv] at h
      cases h
    · rw [hv] at h
      cases h
      exact .adds hpc (.inl rfl)
    · rw [hv] at h
      cases h
      have hadds := LoopStep.adds (x := x) (r := r) hpc (k := .register) (.inr rfl)
      rw [hnone] at hadds
      exact hadds
  | register =>
    rw [hpc] at h
    cases h
    exact .waits (.inl ⟨hpc, rfl⟩)
  | after =>
    rw [hpc] at h
    dsimp only [afterStmt] at h
    split at h
    · cases h
    · rw [hx.bottom] at h
      cases h
      exact .waits (.inr ⟨hpc, rfl⟩)

/-- Where the function returns a count. -/
theorem streamStep_returns {v : Int} (hx : AddsUp x) (h : streamStep x (f, w) r = .error (.returned v w'))
    (hv : 0 ≤ v) : v = f.done ∧ (f.pc = .head ∧ f.done = f.args.length ∨ f.pc = .test 0) := by
  unfold streamStep bodyStep at h
  dsimp only at h
  cases hpc : f.pc with
  | head =>
    rw [hpc] at h
    dsimp only [headStmt] at h
    split at h
    · rename_i hdone
      cases h
      exact ⟨rfl, .inl ⟨rfl, hdone.2⟩⟩
    · split at h
      · cases h
        exact absurd hv (by decide)
      · cases h
  | fcntl =>
    rw [hpc] at h
    dsimp only at h
    split at h <;> cases h
  | call =>
    rw [hpc] at h
    cases h
  | test ret =>
    rw [hpc] at h
    dsimp only [testStmt] at h
    rw [hx.verdict] at h
    rcases countVerdict_cases f ret w.errno with ⟨hzero, hv'⟩ | hv' | hv' | ⟨-, hv'⟩
    · rw [hv'] at h
      cases h
      rw [hzero]
      exact ⟨rfl, .inr rfl⟩
    · rw [hv'] at h
      cases h
      exact absurd hv (by decide)
    · rw [hv'] at h
      cases h
    · rw [hv'] at h
      cases h
  | register =>
    rw [hpc] at h
    cases h
  | after =>
    rw [hpc] at h
    dsimp only [afterStmt] at h
    split at h
    · rename_i hexp _
      cases h
      exact absurd (hx.expired _ _ hexp) (Int.not_lt.mpr hv)
    · rw [hx.bottom] at h
      cases h

variable {y y' : Traced}

theorem tracedStep_ok (h : tracedStep x y r = .ok y') :
    streamStep x y.1 r = .ok y'.1 ∧ y'.2 = noteCall x y.1 r y'.1 y.2 := by
  obtain ⟨s, t⟩ := y
  obtain ⟨s', t'⟩ := y'
  exact Run.noted_ok h

/-- **One statement keeps the loop's invariant**, when a call returns no more than was asked for
and its result is read as it is. -/
theorem Counting.step (hx : AddsUp x) (h : Counting a y)
    (hr : y.1.1.pc = .call → r.ret ≤ (x.args y.1.1).length ∧ x.reads r.ret = r.ret)
    (hs : tracedStep x y r = .ok y') : Counting a y' := by
  obtain ⟨hstep, htrace⟩ := tracedStep_ok hs
  obtain ⟨⟨f, w⟩, t⟩ := y
  obtain ⟨⟨f', w'⟩, t'⟩ := y'
  obtain ⟨hargs, hmoved, hfits, hcalls, hbusy, hlast⟩ := h
  dsimp only [noteCall] at hargs hmoved hfits hcalls hbusy hlast hstep htrace hr
  unfold Frame.counted at hmoved hfits
  cases streamStep_ok hx hstep with
  | @goesOn k hpc hdone hk =>
    rw [hpc] at htrace hmoved hfits
    rw [if_neg (by decide)] at htrace
    subst htrace
    have hlt : f.done < a.length := Nat.lt_of_le_of_ne hfits (hargs ▸ hdone)
    rcases hk with rfl | rfl
    · exact ⟨hargs, hmoved, hfits, hcalls, fun _ => hlt, (fun _ h => nomatch h)⟩
    · exact ⟨hargs, hmoved, hfits, hcalls, fun _ => hlt, (fun _ h => nomatch h)⟩
  | nonblock hpc =>
    rw [hpc] at htrace hmoved hfits hbusy
    rw [if_neg (by decide)] at htrace
    subst htrace
    exact ⟨hargs, hmoved, hfits, hcalls, fun _ => hbusy rfl, (fun _ h => nomatch h)⟩
  | calls hpc =>
    rw [hpc] at htrace hmoved hfits hbusy
    rw [if_pos rfl] at htrace
    subst htrace
    obtain ⟨hle, hreads⟩ := hr hpc
    obtain ⟨hfd, hbuf, hlen⟩ := hx.args f
    rw [hlen] at hle
    rw [hargs] at hfd hbuf hlen hle
    have hlt := hbusy rfl
    dsimp only at hmoved
    refine ⟨hargs, ?_, ?_, hcalls.append ?_, fun _ => hlt, fun ret hret => ?_⟩
    · rw [moved_append, hmoved]
      show f.done + (r.ret.toNat + 0) = f.done + (x.reads r.ret).toNat
      rw [hreads, Nat.add_zero]
    · show f.done + (x.reads r.ret).toNat ≤ a.length
      rw [hreads]
      omega
    · rw [hmoved, Nat.zero_add]
      exact ⟨hfd, hbuf, hlen, hlt, trivial⟩
    · cases hret
      exact ⟨_, List.getLast?_concat, hreads.symm⟩
  | @adds ret k hpc hk =>
    rw [hpc] at htrace hmoved hfits
    rw [if_neg (fun h => nomatch h)] at htrace
    subst htrace
    rcases hk with rfl | rfl
    · exact ⟨hargs, hmoved, hfits, hcalls, (fun h => nomatch h), (fun _ h => nomatch h)⟩
    · exact ⟨hargs, hmoved, hfits, hcalls, (fun h => nomatch h), (fun _ h => nomatch h)⟩
  | @waits k hpc =>
    rcases hpc with ⟨hpc, rfl⟩ | ⟨hpc, rfl⟩
    · rw [hpc] at htrace hmoved hfits
      rw [if_neg (by decide)] at htrace
      subst htrace
      exact ⟨hargs, hmoved, hfits, hcalls, (fun h => nomatch h), (fun _ h => nomatch h)⟩
    · rw [hpc] at htrace hmoved hfits
      rw [if_neg (by decide)] at htrace
      subst htrace
      exact ⟨hargs, hmoved, hfits, hcalls, (fun h => nomatch h), (fun _ h => nomatch h)⟩

/-- A count that is returned is what was moved; less than was asked for only after a call
that returned 0. -/
theorem Counting.returns {v : Int} (hx : AddsUp x) (h : Counting a y)
    (hs : streamStep x y.1 r = .error (.returned v w')) (hv : 0 ≤ v) :
    v = moved y.2 ∧ (v = a.length ∨ ∃ c, y.2.getLast? = some c ∧ c.2 = 0) := by
  obtain ⟨⟨f, w⟩, t⟩ := y
  have hmoved := h.sum
  unfold Frame.counted at hmoved
  dsimp only at hmoved
  obtain ⟨rfl, ⟨hpc, hdone⟩ | hpc⟩ := streamStep_returns hx hs hv
  · rw [hpc] at hmoved
    rw [hmoved]
    refine ⟨rfl, .inl ?_⟩
    rw [hdone, show f.args = a from h.args]
  · rw [hpc] at hmoved
    rw [hmoved]
    exact ⟨rfl, .inr (h.last 0 hpc)⟩

end Loop

/-! ### Sending -/

/-- What a system call may return: a count up to what it was asked for, or -1. -/
def SysResult (x : Wrapper) (y : Traced) (r : Answer) (_ : Traced) : Prop :=
  y.1.1.pc = .call → -1 ≤ r.ret ∧ r.ret ≤ (x.args y.1.1).length

instance (x : Wrapper) (y : Traced) (r : Answer) (y' : Traced) : Decidable (SysResult x y r y') :=
  inferInstanceAs (Decidable (y.1.1.pc = .call → -1 ≤ r.ret ∧ r.ret ≤ (x.args y.1.1).length))

/-- The stream is sent exactly so far. -/
structure Exact (x : Wrapper) (a : Args) (mem : Nat → α) (y : Traced) : Prop where
  /-- The kernel has accepted the first `sent` bytes of the buffer. -/
  inOrder : accepted mem y.2 = bytes mem a.buf y.1.1.counted
  /-- `sent` is a `ssize_t`, and comparing it with the length is exact. -/
  fits : y.1.1.counted ≤ a.length ∧ a.length ≤ ssizeMax
  calls : Suffixes a 0 y.2
  returns : ∀ r v w, streamStep x y.1 r = .error (.returned v w) → 0 ≤ v →
    v = (accepted mem y.2).length ∧ (v = a.length ∨ ∃ c ∈ y.2, c.2 = 0)

theorem Counting.exact {x : Wrapper} {a : Args} {y : Traced} (hx : AddsUp x) (h : Counting a y)
    (hlen : a.length ≤ ssizeMax) (mem : Nat → α) : Exact x a mem y := by
  refine ⟨?_, ⟨h.fits, hlen⟩, h.calls, fun r v w hs hv => ?_⟩
  · rw [h.calls.accepted, h.sum, Nat.add_zero]
  · obtain ⟨hmoved, hall | ⟨c, hc, hzero⟩⟩ := h.returns hx hs hv
    · exact ⟨by rw [accepted_length, hmoved], .inl hall⟩
    · exact ⟨by rw [accepted_length, hmoved], .inr ⟨c, List.mem_of_getLast? hc, hzero⟩⟩

theorem reads_of_le {x : Wrapper} {n : Int} (hlow : -1 ≤ n) (hhigh : n ≤ intMax) : x.reads n = n := by
  unfold intMax at hhigh
  unfold Wrapper.reads
  split
  · omega
  · rfl

/-- After a call the kernel has what the call returned, and an exact loop counts with it. -/
theorem Exact.after_call {x : Wrapper} {a : Args} {mem : Nat → α} {y y' : Traced} {r : Answer} (hx : AddsUp x)
    (hy' : Exact x a mem y') (h : Counting a y) (hpc : y.1.1.pc = .call) (hs : tracedStep x y r = .ok y') :
    r.ret.toNat = (x.reads r.ret).toNat := by
  obtain ⟨hstep, htrace⟩ := tracedStep_ok hs
  obtain ⟨⟨f, w⟩, t⟩ := y
  obtain ⟨⟨f', w'⟩, t'⟩ := y'
  have hlen : moved t' = f'.counted := by
    rw [← accepted_length mem, hy'.inOrder, bytes_length]
  have hsum := h.sum
  unfold Frame.counted at hsum
  dsimp only [noteCall] at hpc htrace hstep hsum
  rw [hpc] at hsum
  rw [if_pos hpc] at htrace
  rw [htrace, moved_append, hsum] at hlen
  cases streamStep_ok hx hstep with
  | calls _ => exact Nat.add_left_cancel hlen
  | goesOn hpc' _ _ | nonblock hpc' | adds hpc' _ =>
    rw [hpc] at hpc'
    cases hpc'
  | waits hpc' =>
    rw [hpc] at hpc'
    rcases hpc' with ⟨hpc', -⟩ | ⟨hpc', -⟩ <;> cases hpc'

/-- What is sent stays exact as long as the results are read as they are, and no longer. -/
theorem exact_iff_reads {x : Wrapper} (hx : AddsUp x) (a : Args) (hlen : a.length ≤ ssizeMax) (w : World)
    (mem : Nat → α) (rs : List Answer) (hsys : Run.each (tracedStep x) (SysResult x) (traced a w) rs) :
    Run.each (tracedStep x) (fun _ _ y => Exact x a mem y) (traced a w) rs ↔
      Run.each (tracedStep x) (fun y r _ => y.1.1.pc = .call → x.reads r.ret = r.ret) (traced a w) rs := by
  have hkeep : ∀ y r y', Counting a y → SysResult x y r y' → tracedStep x y r = .ok y' →
      (y.1.1.pc = .call → x.reads r.ret = r.ret) → Counting a y' := by
    intro y r y' h hsys hs hreads
    exact h.step hx (fun hpc => ⟨(hsys hpc).2, hreads hpc⟩) hs
  refine Run.each_iff (Counting.start a w) hsys (fun y r y' h hsys hs => ⟨fun hexact hpc => ?_,
    fun hreads => (hkeep y r y' h hsys hs hreads).exact hx hlen mem⟩) hkeep
  -- the call has moved what it returned, and the loop goes on with what it read
  by_cases hpos : 0 < r.ret
  · have hsame := hexact.after_call hx h hpc hs
    omega
  · exact reads_of_le (hsys hpc).1 (Int.le_trans (Int.not_lt.mp hpos) (by decide))

/-- **`uthread_send` transmits exactly the buffer; `uthread_write` does exactly as long as no call
returns a count that does not fit an `int`.** -/
theorem sent_exactly (a : Args) (hlen : a.length ≤ ssizeMax) (w : World) (mem : Nat → α) (rs : List Answer) :
    (Exact uthreadSend a mem (traced a w) ∧
      (Run.each (tracedStep uthreadSend) (SysResult uthreadSend) (traced a w) rs →
        Run.each (tracedStep uthreadSend) (fun _ _ y => Exact uthreadSend a mem y) (traced a w) rs)) ∧
    Exact uthreadWrite a mem (traced a w) ∧
      (Run.each (tracedStep uthreadWrite) (SysResult uthreadWrite) (traced a w) rs →
        (Run.each (tracedStep uthreadWrite) (fun _ _ y => Exact uthreadWrite a mem y) (traced a w) rs ↔
          Run.each (tracedStep uthreadWrite) (fun y r _ => y.1.1.pc = .call → r.ret ≤ intMax)
            (traced a w) rs)) := by
  refine ⟨⟨(Counting.start a w).exact uthreadSend_addsUp hlen mem, fun hsys => ?_⟩,
    (Counting.start a w).exact uthreadWrite_addsUp hlen mem, fun hsys => ?_⟩
  · rw [exact_iff_reads uthreadSend_addsUp a hlen w mem rs hsys]
    exact Run.each_of_forall (fun _ _ _ _ => rfl) _ _
  · rw [exact_iff_reads uthreadWrite_addsUp a hlen w mem rs hsys]
    refine Run.each_iff (I := fun _ => True) trivial hsys (fun y r y' _ hsys _ => ?_) fun _ _ _ _ _ _ _ => trivial
    refine ⟨fun h hpc => ?_, fun h hpc => reads_of_le (hsys hpc).1 (h hpc)⟩
    have hreads : (r.ret + 2 ^ 31) % 2 ^ 32 - 2 ^ 31 = r.ret := h hpc
    unfold intMax
    omega

/-- Three bytes: two are accepted, the next call would block, and after the wait the third is. -/
def shortWrite : List Answer :=
  [{}, {ret := 2}, {}, {}, {ret := -1, errno := .eagain}, {}, {}, {}, {}, {ret := 1}, {}]

theorem shortWrite_exact :
    Run.each (tracedStep uthreadWrite) (fun _ _ y => Exact uthreadWrite {fd := 5, buf := 100, length := 3} id y)
      (traced {fd := 5, buf := 100, length := 3} {}) shortWrite ∧
    (Run.run (tracedStep uthreadWrite) (traced {fd := 5, buf := 100, length := 3} {}) shortWrite).map
      (fun y => accepted id y.2) = .ok [100, 101, 102] := by
  have hsent := (sent_exactly {fd := 5, buf := 100, length := 3} (by decide) {} id shortWrite).2.2
  exact ⟨(hsent (by decide)).mpr (by decide), by decide⟩

/-- One call accepts 2 GiB: the result is read as a negative number, and the same bytes are
offered again. -/
theorem longWrite_repeats : ∃ y,
    Run.each (tracedStep uthreadWrite) (SysResult uthreadWrite) (traced {length := 2 ^ 31} {})
      [{}, {ret := 2 ^ 31}, {}, {}] ∧
    Run.run (tracedStep uthreadWrite) (traced {length := 2 ^ 31} {}) [{}, {ret := 2 ^ 31}, {}, {}] = .ok y ∧
    y.1.1.pc = .call ∧ uthreadWrite.args y.1.1 = {length := 2 ^ 31} ∧ moved y.2 = 2 ^ 31 ∧
    ¬Run.each (tracedStep uthreadWrite) (fun _ _ y => Exact uthreadWrite {length := 2 ^ 31} id y)
      (traced {length := 2 ^ 31} {}) [{}, {ret := 2 ^ 31}, {}, {}] := by
  refine ⟨(({args := {length := 2 ^ 31}, pc := .call}, {}), [({length := 2 ^ 31}, 2 ^ 31)]),
    by decide, rfl, rfl, rfl, rfl, fun h => ?_⟩
  have hlength := congrArg List.length h.2.1.inOrder
  rw [accepted_length, bytes_length] at hlength
  exact absurd hlength (by decide)

/-! ### Receiving -/

/-- What the hooked `read` and `recv` may return: a count up to what was asked for, -1, or -2. -/
def HookResult (x : Wrapper) (y : Traced) (r : Answer) (_ : Traced) : Prop :=
  y.1.1.pc = .call → -2 ≤ r.ret ∧ r.ret ≤ (x.args y.1.1).length

instance (x : Wrapper) (y : Traced) (r : Answer) (y' : Traced) : Decidable (HookResult x y r y') :=
  inferInstanceAs (Decidable (y.1.1.pc = .call → -2 ≤ r.ret ∧ r.ret ≤ (x.args y.1.1).length))

/-- The stream is in the buffer so far. -/
structure Reassembled (x : Wrapper) (a : Args) (src mem : Nat → α) (y : Traced) : Prop where
  /-- The first `recvd` bytes of the buffer are those that were delivered. -/
  held : bytes (stored src 0 mem y.2) a.buf y.1.1.counted = bytes src 0 (moved y.2)
  /-- Nothing else was written, so nothing past the length. -/
  outside : ∀ i, i < a.buf ∨ a.buf + y.1.1.counted ≤ i → stored src 0 mem y.2 i = mem i
  fits : y.1.1.counted ≤ a.length ∧ a.length ≤ ssizeMax
  /-- Each call writes behind what was delivered before it. -/
  calls : Suffixes a 0 y.2
  returns : ∀ r v w, streamStep x y.1 r = .error (.returned v w) → 0 ≤ v →
    v = moved y.2 ∧ (v < a.length → ∃ c, y.2.getLast? = some c ∧ c.2 = 0)

theorem Counting.reassembled {x : Wrapper} {a : Args} {y : Traced} (hx : AddsUp x) (h : Counting a y)
    (hlen : a.length ≤ ssizeMax) (src mem : Nat → α) : Reassembled x a src mem y := by
  have hstored := h.calls.stored src mem
  rw [h.sum, Nat.add_zero] at hstored
  refine ⟨?_, fun i hi => ?_, ⟨h.fits, hlen⟩, h.calls, fun r v w hs hv => ?_⟩
  · rw [h.sum]
    refine List.map_congr_left fun i hi => ?_
    have hlt := List.mem_range.mp hi
    rw [hstored, if_pos (by omega), Nat.add_sub_cancel_left, Nat.zero_add]
  · rw [hstored, if_neg (by omega)]
  · obtain ⟨hmoved, hall | hzero⟩ := h.returns hx hs hv
    · exact ⟨hmoved, fun hlt => absurd hall (Int.ne_of_lt hlt)⟩
    · exact ⟨hmoved, fun _ => hzero⟩

/-- **Exact reads reassemble the stream**, whatever the inner call returns. -/
theorem read_exactly {x : Wrapper} (hx : x = uthreadReadExact ∨ x = uthreadRecvExact) (a : Args)
    (hlen : a.length ≤ ssizeMax) (w : World) (src mem : Nat → α) (rs : List Answer)
    (hres : Run.each (tracedStep x) (HookResult x) (traced a w) rs) :
    Reassembled x a src mem (traced a w) ∧
      Run.each (tracedStep x) (fun _ _ y => Reassembled x a src mem y) (traced a w) rs := by
  have hadds : AddsUp x := by
    rcases hx with rfl | rfl
    · exact uthreadReadExact_addsUp
    · exact uthreadRecvExact_addsUp
  have hreads : ∀ n, x.reads n = n := by
    rcases hx with rfl | rfl <;> exact fun _ => rfl
  refine ⟨(Counting.start a w).reassembled hadds hlen src mem,
    Run.each_of_invariant (Counting.start a w) hres fun y r y' h hr hs => ?_⟩
  have h' := h.step hadds (fun hpc => ⟨(hr hpc).2, hreads r.ret⟩) hs
  exact ⟨h', h'.reassembled hadds hlen src mem⟩

/-- Four bytes are asked for: one comes, a wait expires below, two come, and the stream ends. -/
def endsEarly : List Answer :=
  [{}, {ret := 1}, {}, {}, {ret := -2, expired := true}, {}, {}, {ret := 2}, {}, {}, {ret := 0}]

theorem endsEarly_reassembled :
    Run.each (tracedStep uthreadReadExact)
      (fun _ _ y => Reassembled uthreadReadExact {buf := 100, length := 4} id (fun _ => 7) y)
      (traced {buf := 100, length := 4} {}) endsEarly ∧
    (Run.run (tracedStep uthreadReadExact) (traced {buf := 100, length := 4} {}) endsEarly).map
      (fun y => bytes (stored id 0 (fun _ => 7) y.2) 99 6) = .ok [7, 0, 1, 2, 7, 7] :=
  ⟨(read_exactly (.inl rfl) {buf := 100, length := 4} (by decide) {} id (fun _ => 7) endsEarly (by decide)).2,
    by decide⟩

end UthreadRuntime.Hook
