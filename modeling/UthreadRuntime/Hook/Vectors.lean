import UthreadRuntime.Hook.Streams

/-! Writing a vector of buffers.

`uthread_writev` writes the entries of a vector one after the other. After each call it goes
over the entries that were written and trims the one that was written in part, and it ends
when its index has passed the last. The index stops at the entry where the bytes ran out: it
does not pass entries of length 0 that come behind, and the call that is then made for them
alone returns 0. -/
namespace UthreadRuntime.Hook

variable {α : Type}

/-- The bytes of the entries. -/
def gather (mem : Nat → α) (l : List Iovec) : List α := l.flatMap fun v => bytes mem v.base v.len

def total : List Iovec → Nat
  | [] => 0
  | v :: l => v.len + total l

/-- The last entry, if there is one, has a byte. -/
def EndsFull (l : List Iovec) : Prop := ∀ v, l.getLast? = some v → v.len ≠ 0

/-- What the calls have passed to the kernel and it has accepted. -/
def acceptedOf (mem : Nat → α) (t : Trace) : List α := t.flatMap fun c => (gather mem c.1.iov).take c.2.toNat

theorem gather_cons (mem : Nat → α) (v : Iovec) (l : List Iovec) :
    gather mem (v :: l) = bytes mem v.base v.len ++ gather mem l := rfl

theorem gather_length (mem : Nat → α) (l : List Iovec) : (gather mem l).length = total l := by
  induction l with
  | nil => rfl
  | cons v l ih => rw [gather_cons, List.length_append, bytes_length, ih, total]

theorem bytes_drop (mem : Nat → α) (i : Nat) {n k : Nat} (h : n ≤ k) :
    bytes mem (i + n) (k - n) = (bytes mem i k).drop n := by
  have happ := bytes_append mem i n (k - n)
  rw [Nat.add_sub_cancel' h] at happ
  rw [← happ, List.drop_append_of_le_length (Nat.le_of_eq (bytes_length mem i n).symm),
    List.drop_of_length_le (Nat.le_of_eq (bytes_length mem i n)), List.nil_append]

theorem EndsFull.cons {v : Iovec} {l : List Iovec} (hl : l ≠ []) : EndsFull (v :: l) ↔ EndsFull l := by
  unfold EndsFull
  rw [List.getLast?_cons_of_ne_nil hl]

theorem EndsFull.append {l l' : List Iovec} (hl : l' ≠ []) : EndsFull (l ++ l') ↔ EndsFull l' := by
  unfold EndsFull
  rw [List.getLast?_append_of_ne_nil _ hl]

theorem EndsFull.single (v : Iovec) : EndsFull [v] ↔ v.len ≠ 0 :=
  ⟨fun h => h v rfl, fun h _ hu => Option.some.inj hu ▸ h⟩

/-- A vector that ends full has something to write. -/
theorem EndsFull.total_pos {l : List Iovec} (h : EndsFull l) (hl : l ≠ []) : 0 < total l := by
  induction l with
  | nil => exact absurd rfl hl
  | cons v rest ih =>
    unfold total
    by_cases hrest : rest = []
    · subst hrest
      exact Nat.lt_of_lt_of_le (Nat.pos_of_ne_zero ((EndsFull.single v).mp h)) (Nat.le_add_right _ _)
    · exact Nat.lt_of_lt_of_le (ih ((EndsFull.cons hrest).mp h) hrest) (Nat.le_add_left _ _)

/-! ### Going over what was written -/

theorem consume_zero (l : List Iovec) : consume 0 l = (l, 0) := by
  cases l <;> rfl

theorem consume_length (n : Nat) (l : List Iovec) : (consume n l).1.length = l.length := by
  induction l generalizing n with
  | nil => rfl
  | cons v rest ih =>
    unfold consume
    split
    · rfl
    · split
      · rfl
      · exact congrArg (· + 1) (ih (n - v.len))

/-- The entries that are left stand for the bytes that are left. -/
theorem consume_left (mem : Nat → α) (n : Nat) (l : List Iovec) (h : n ≤ total l) :
    (consume n l).2 ≤ l.length ∧
      gather mem ((consume n l).1.drop (consume n l).2) = (gather mem l).drop n := by
  induction l generalizing n with
  | nil =>
    obtain rfl : n = 0 := Nat.le_zero.mp h
    exact ⟨Nat.le_refl _, rfl⟩
  | cons v rest ih =>
    unfold consume
    by_cases hzero : n = 0
    · subst hzero
      rw [if_pos rfl]
      exact ⟨Nat.zero_le _, rfl⟩
    · rw [if_neg hzero]
      by_cases hlt : n < v.len
      · rw [if_pos hlt]
        refine ⟨Nat.zero_le _, ?_⟩
        rw [List.drop_zero, gather_cons, gather_cons, bytes_drop mem v.base (Nat.le_of_lt hlt),
          List.drop_append_of_le_length (by rw [bytes_length]; omega)]
      · rw [if_neg hlt]
        obtain ⟨hk, hleft⟩ := ih (n - v.len) (by unfold total at h; omega)
        have hpassed : (bytes mem v.base v.len).drop n = [] :=
          List.drop_of_length_le (by rw [bytes_length]; omega)
        refine ⟨Nat.succ_le_succ hk, ?_⟩
        rw [List.drop_succ_cons, hleft, gather_cons, List.drop_append, bytes_length, hpassed, List.nil_append]

/-- An entry is trimmed to something, never to nothing. -/
theorem consume_endsFull (n : Nat) (l : List Iovec) : EndsFull (consume n l).1 ↔ EndsFull l := by
  induction l generalizing n with
  | nil => exact Iff.rfl
  | cons v rest ih =>
    unfold consume
    by_cases hzero : n = 0
    · rw [if_pos hzero]
    · rw [if_neg hzero]
      by_cases hlt : n < v.len
      · rw [if_pos hlt]
        by_cases hrest : rest = []
        · subst hrest
          rw [EndsFull.single, EndsFull.single]
          dsimp only
          omega
        · rw [EndsFull.cons hrest, EndsFull.cons hrest]
      · rw [if_neg hlt]
        dsimp only
        have hlen := consume_length (n - v.len) rest
        by_cases hrest : rest = []
        · subst hrest
          exact Iff.rfl
        · have hrest' : (consume (n - v.len) rest).1 ≠ [] := by
            intro hnil
            rw [hnil] at hlen
            exact hrest (List.length_eq_zero_iff.mp hlen.symm)
          rw [EndsFull.cons hrest', EndsFull.cons hrest, ih]

/-- All entries are passed only when the last one had bytes to write. -/
theorem consume_all {n : Nat} {l : List Iovec} (h : n ≤ total l) (hn : n ≠ 0)
    (hall : (consume n l).2 = l.length) : EndsFull l := by
  induction l generalizing n with
  | nil => exact absurd (Nat.le_zero.mp h) hn
  | cons v rest ih =>
    unfold consume at hall
    rw [if_neg hn] at hall
    by_cases hlt : n < v.len
    · rw [if_pos hlt] at hall
      cases hall
    · rw [if_neg hlt] at hall
      have hall' : (consume (n - v.len) rest).2 = rest.length := Nat.succ.inj hall
      by_cases hzero : n - v.len = 0
      · -- the bytes ran out at `v`, so there is nothing behind it
        rw [hzero, consume_zero] at hall'
        obtain rfl : rest = [] := List.length_eq_zero_iff.mp hall'.symm
        rw [EndsFull.single]
        omega
      · have hle : n - v.len ≤ total rest := by
          unfold total at h
          omega
        have hrest : rest ≠ [] := by
          rintro rfl
          exact hzero (Nat.le_zero.mp hle)
        exact (EndsFull.cons hrest).mpr (ih hle hzero hall')

/-! ### The loop -/

/-- The frame after `n` bytes were written. -/
def advanced (f : Frame) (n : Nat) : Frame :=
  let (left, k) := consume n (f.args.iov.drop f.iovIndex)
  {f with
    args := {f.args with iov := f.args.iov.take f.iovIndex ++ left}
    done := f.done + n
    iovIndex := f.iovIndex + k}

/-- What a statement of `uthread_writev` does to its variables. -/
inductive VectorStep (r : Answer) (f : Frame) : Frame → Prop where
  | goesOn {k : BodyAt} : (f.pc = .head ∨ f.pc = .fcntl) ∧ k = .call ∨ f.pc = .register ∧ k = .after ∨
      f.pc = .after ∧ k = .head → VectorStep r f {f with pc := k}
  | calls : f.pc = .call → VectorStep r f {f with pc := .test r.ret}
  | adds {n : Int} : f.pc = .test n → 0 < n →
      (advanced f n.toNat).iovIndex < (advanced f n.toNat).args.iov.length →
      VectorStep r f {advanced f n.toNat with pc := .head}
  | waits : f.pc = .test (-1) → VectorStep r f {f with pc := .register}

section Writev

variable {f f' : Frame} {w w' : World} {r : Answer}

theorem writevVerdict_pos {n : Int} (h : 0 < n) (e : Errno) : writevVerdict f n e =
    match writevBottom (advanced f n.toNat) with
    | none => .again (advanced f n.toNat)
    | some v => .returns v := by
  unfold writevVerdict
  rw [if_pos h]
  rfl

theorem writevBottom_none : writevBottom f = none ↔ f.iovIndex < f.args.iov.length := by
  unfold writevBottom
  split
  · exact iff_of_true rfl ‹_›
  · exact iff_of_false (fun h => nomatch h) ‹_›

theorem vectorStep_ok (h : streamStep uthreadWritev (f, w) r = .ok (f', w')) : VectorStep r f f' := by
  unfold streamStep bodyStep at h
  dsimp only at h
  cases hpc : f.pc with
  | head =>
    rw [hpc] at h
    cases h
    exact .goesOn (.inl ⟨.inl hpc, rfl⟩)
  | fcntl =>
    rw [hpc] at h
    dsimp only at h
    split at h
    · cases h
      exact .goesOn (.inl ⟨.inr hpc, rfl⟩)
    · cases h
  | call =>
    rw [hpc] at h
    cases h
    exact .calls hpc
  | test n =>
    rw [hpc] at h
    dsimp only [testStmt, uthreadWritev] at h
    by_cases hpos : 0 < n
    · rw [writevVerdict_pos hpos] at h
      cases hb : writevBottom (advanced f n.toNat) with
      | none =>
        rw [hb] at h
        cases h
        exact .adds hpc hpos (writevBottom_none.mp hb)
      | some v =>
        rw [hb] at h
        cases h
    · unfold writevVerdict at h
      rw [if_neg hpos] at h
      by_cases hagain : n = -1 ∧ w.errno = .eagain
      · rw [if_pos hagain] at h
        cases h
        exact .waits (hagain.1 ▸ hpc)
      · rw [if_neg hagain] at h
        cases h
  | register =>
    rw [hpc] at h
    cases h
    exact .goesOn (.inr (.inl ⟨hpc, rfl⟩))
  | after =>
    rw [hpc] at h
    dsimp only [afterStmt, uthreadWritev] at h
    cases hb : writevBottom f with
    | none =>
      rw [hb] at h
      cases h
      exact .goesOn (.inr (.inr ⟨hpc, rfl⟩))
    | some v =>
      rw [hb] at h
      cases h

/-- Where `uthread_writev` returns a count. -/
theorem vectorStep_returns {v : Int} (h : streamStep uthreadWritev (f, w) r = .error (.returned v w'))
    (hv : 0 ≤ v) :
    (∃ n, f.pc = .test n ∧ 0 < n ∧ v = (advanced f n.toNat).done ∧
      (advanced f n.toNat).args.iov.length ≤ (advanced f n.toNat).iovIndex) ∨
    (f.pc = .test 0 ∧ v = 0) ∨ (f.pc = .after ∧ v = f.done ∧ f.args.iov.length ≤ f.iovIndex) := by
  have hbottom : ∀ {g : Frame} {v : Int}, writevBottom g = some v →
      v = g.done ∧ g.args.iov.length ≤ g.iovIndex := by
    intro g v hg
    unfold writevBottom at hg
    split at hg
    · cases hg
    · exact ⟨(Option.some.inj hg).symm, Nat.not_lt.mp ‹_›⟩
  unfold streamStep bodyStep at h
  dsimp only at h
  cases hpc : f.pc with
  | head | call | register =>
    rw [hpc] at h
    cases h
  | fcntl =>
    rw [hpc] at h
    dsimp only at h
    split at h <;> cases h
  | test n =>
    rw [hpc] at h
    dsimp only [testStmt, uthreadWritev] at h
    by_cases hpos : 0 < n
    · rw [writevVerdict_pos hpos] at h
      cases hb : writevBottom (advanced f n.toNat) with
      | none =>
        rw [hb] at h
        cases h
      | some u =>
        rw [hb] at h
        cases h
        exact .inl ⟨n, rfl, hpos, hbottom hb⟩
    · unfold writevVerdict at h
      rw [if_neg hpos] at h
      by_cases hagain : n = -1 ∧ w.errno = .eagain
      · rw [if_pos hagain] at h
        cases h
      · rw [if_neg hagain] at h
        have hvn : n = v := by
          cases h
          rfl
        obtain rfl : n = 0 := by omega
        exact .inr (.inl ⟨rfl, hvn.symm⟩)
  | after =>
    rw [hpc] at h
    dsimp only [afterStmt, uthreadWritev] at h
    cases hb : writevBottom f with
    | none =>
      rw [hb] at h
      cases h
    | some u =>
      rw [hb] at h
      cases h
      exact .inr (.inr ⟨rfl, hbottom hb⟩)

end Writev

/-- What `writev` may return: -1, 0 when there is nothing to write, or a count up to the total. A
total that is no `ssize_t` is refused. -/
def VectorResult (y : Traced) (r : Answer) (_ : Traced) : Prop :=
  y.1.1.pc = .call → r.ret = -1 ∨ (r.ret = 0 ∧ total (uthreadWritev.args y.1.1).iov = 0) ∨
    (1 ≤ r.ret ∧ r.ret ≤ total (uthreadWritev.args y.1.1).iov ∧
      total (uthreadWritev.args y.1.1).iov ≤ ssizeMax)

instance (y : Traced) (r : Answer) (y' : Traced) : Decidable (VectorResult y r y') :=
  inferInstanceAs (Decidable (y.1.1.pc = .call → r.ret = -1 ∨
    (r.ret = 0 ∧ total (uthreadWritev.args y.1.1).iov = 0) ∨ (1 ≤ r.ret ∧
      r.ret ≤ total (uthreadWritev.args y.1.1).iov ∧ total (uthreadWritev.args y.1.1).iov ≤ ssizeMax)))

/-- What the loop of `uthread_writev` keeps. -/
structure Vectored (a : Args) (mem : Nat → α) (y : Traced) : Prop where
  taken : acceptedOf mem y.2 = (gather mem a.iov).take y.1.1.counted
  left : gather mem (y.1.1.args.iov.drop y.1.1.iovIndex) = (gather mem a.iov).drop y.1.1.done
  fits : y.1.1.counted ≤ total a.iov
  ssize : y.1.1.counted ≠ 0 → total a.iov ≤ ssizeMax
  index : y.1.1.iovIndex < y.1.1.args.iov.length ∨ a.iov = [] ∧ y.1.1.args.iov = []
  ends : EndsFull y.1.1.args.iov ↔ EndsFull a.iov
  zero : y.1.1.pc = .test 0 → total a.iov ≤ y.1.1.done

section Invariant

variable {a : Args} {mem : Nat → α} {y y' : Traced} {r : Answer}

theorem Vectored.start (a : Args) (w : World) (mem : Nat → α) : Vectored a mem (traced a w) := by
  refine ⟨rfl, rfl, Nat.zero_le _, fun h => absurd rfl h, ?_, Iff.rfl, (fun h => nomatch h)⟩
  by_cases hnil : a.iov = []
  · exact .inr ⟨hnil, hnil⟩
  · exact .inl (List.length_pos_iff.mpr hnil)

/-- What is left to write, in bytes. -/
theorem Vectored.total_left (h : Vectored a mem y) :
    total (y.1.1.args.iov.drop y.1.1.iovIndex) = total a.iov - y.1.1.done := by
  rw [← gather_length mem, h.left, List.length_drop, gather_length]

/-- The loop goes over what the last call has written. -/
theorem Vectored.advances {f : Frame} {w : World} {t : Trace} {n : Int} (h : Vectored a mem ((f, w), t))
    (hpc : f.pc = .test n) (hpos : 0 < n) :
    gather mem ((advanced f n.toNat).args.iov.drop (advanced f n.toNat).iovIndex) =
      (gather mem a.iov).drop (f.done + n.toNat) ∧
    (EndsFull (advanced f n.toNat).args.iov ↔ EndsFull a.iov) ∧
    ((advanced f n.toNat).args.iov.length ≤ (advanced f n.toNat).iovIndex → EndsFull a.iov) := by
  have hfits := h.fits
  have hleft := h.total_left
  have hends := h.ends
  unfold Frame.counted at hfits
  rw [show ((f, w), t).1.1.pc = .test n from hpc] at hfits
  dsimp only at hfits hleft hends
  have hidx : f.iovIndex < f.args.iov.length := by
    rcases h.index with hidx | ⟨hnil, -⟩
    · exact hidx
    · rw [hnil] at hfits
      unfold total at hfits
      omega
  have hne : f.args.iov.drop f.iovIndex ≠ [] := by
    rw [Ne, List.drop_eq_nil_iff]
    omega
  have hn : n.toNat ≤ total (f.args.iov.drop f.iovIndex) := by omega
  obtain ⟨hk, hgather⟩ := consume_left mem n.toNat (f.args.iov.drop f.iovIndex) hn
  have hlen := consume_length n.toNat (f.args.iov.drop f.iovIndex)
  have hne' : (consume n.toNat (f.args.iov.drop f.iovIndex)).1 ≠ [] := by
    intro hnil
    rw [hnil] at hlen
    exact hne (List.length_eq_zero_iff.mp hlen.symm)
  have htake : (f.args.iov.take f.iovIndex).length = f.iovIndex := by
    rw [List.length_take]
    omega
  have hfull : EndsFull (f.args.iov.drop f.iovIndex) ↔ EndsFull a.iov := by
    rw [← hends, ← EndsFull.append (l := f.args.iov.take f.iovIndex) hne, List.take_append_drop]
  unfold advanced
  dsimp only
  refine ⟨?_, ?_, fun hpassed => ?_⟩
  · rw [List.drop_append, htake, Nat.add_sub_cancel_left,
      List.drop_of_length_le (by rw [htake]; exact Nat.le_add_right _ _), List.nil_append, hgather,
      show gather mem (f.args.iov.drop f.iovIndex) = (gather mem a.iov).drop f.done from h.left, List.drop_drop]
  · rw [EndsFull.append hne', consume_endsFull, hfull]
  · rw [List.length_append, htake, hlen] at hpassed
    exact hfull.mp (consume_all hn (by omega) (by omega))

theorem acceptedOf_append (mem : Nat → α) (t : Trace) (c : Args × Int) :
    acceptedOf mem (t ++ [c]) = acceptedOf mem t ++ (gather mem c.1.iov).take c.2.toNat := by
  unfold acceptedOf
  rw [List.flatMap_append, List.flatMap_singleton]

/-- The call has accepted the front of what was left. -/
theorem Vectored.called {f : Frame} {w w' : World} {t : Trace} (h : Vectored a mem ((f, w), t))
    (hpc : f.pc = .call) (hr : VectorResult ((f, w), t) r y') :
    Vectored a mem (({f with pc := .test r.ret}, w'), t ++ [(uthreadWritev.args f, r.ret)]) := by
  have hleft := h.total_left
  have hcounted : f.counted = f.done := by
    unfold Frame.counted
    rw [hpc]
  have htaken : acceptedOf mem t = (gather mem a.iov).take f.done := hcounted ▸ h.taken
  have hfits : f.done ≤ total a.iov := hcounted ▸ h.fits
  have hssize : f.done ≠ 0 → total a.iov ≤ ssizeMax := hcounted ▸ h.ssize
  have hres : r.ret = -1 ∨ (r.ret = 0 ∧ total a.iov - f.done = 0) ∨
      (1 ≤ r.ret ∧ r.ret ≤ (total a.iov - f.done : Nat) ∧ total a.iov - f.done ≤ ssizeMax) := by
    rw [← hleft]
    exact hr hpc
  refine ⟨?_, h.left, ?_, fun hne => ?_, h.index, h.ends, fun hzero => ?_⟩
  · show acceptedOf mem (t ++ [(uthreadWritev.args f, r.ret)]) =
      (gather mem a.iov).take (f.done + r.ret.toNat)
    have hargs : gather mem (uthreadWritev.args f).iov = (gather mem a.iov).drop f.done := h.left
    rw [acceptedOf_append, htaken, hargs, List.take_add]
  · show f.done + r.ret.toNat ≤ total a.iov
    omega
  · have hne' : f.done + r.ret.toNat ≠ 0 := hne
    by_cases hd : f.done = 0
    · omega
    · exact hssize hd
  · have hret : r.ret = 0 := BodyAt.test.inj hzero
    show total a.iov ≤ f.done
    omega

/-- A statement that calls nothing: what is counted stays. -/
theorem Vectored.keep {f f' : Frame} {w w' : World} {t : Trace} (h : Vectored a mem ((f, w), t))
    (hcounted : f'.counted = f.counted)
    (hleft : gather mem (f'.args.iov.drop f'.iovIndex) = (gather mem a.iov).drop f'.done)
    (hindex : f'.iovIndex < f'.args.iov.length ∨ a.iov = [] ∧ f'.args.iov = [])
    (hends : EndsFull f'.args.iov ↔ EndsFull a.iov) (hpc : f'.pc ≠ .test 0) :
    Vectored a mem ((f', w'), t) := by
  refine ⟨?_, hleft, ?_, fun hne => ?_, hindex, hends, fun hz => absurd hz hpc⟩
  · dsimp only
    rw [hcounted]
    exact h.taken
  · dsimp only
    rw [hcounted]
    exact h.fits
  · dsimp only at hne
    rw [hcounted] at hne
    exact h.ssize hne

/-- **One statement keeps the invariant of `uthread_writev`.** -/
theorem Vectored.step (h : Vectored a mem y) (hr : VectorResult y r y')
    (hs : tracedStep uthreadWritev y r = .ok y') : Vectored a mem y' := by
  obtain ⟨hstep, htrace⟩ := tracedStep_ok hs
  obtain ⟨⟨f, w⟩, t⟩ := y
  obtain ⟨⟨f', w'⟩, t'⟩ := y'
  dsimp only [noteCall] at hstep htrace
  cases vectorStep_ok hstep with
  | calls hpc =>
    rw [if_pos hpc] at htrace
    subst htrace
    exact h.called hpc hr
  | @goesOn k hpc =>
    have hpcs : f.pc ≠ .call ∧ ({f with pc := k} : Frame).counted = f.counted ∧ k ≠ .test 0 := by
      unfold Frame.counted
      rcases hpc with ⟨hpc | hpc, rfl⟩ | ⟨hpc, rfl⟩ | ⟨hpc, rfl⟩ <;> rw [hpc] <;> simp
    rw [if_neg hpcs.1] at htrace
    subst htrace
    exact h.keep hpcs.2.1 h.left h.index h.ends hpcs.2.2
  | @adds n hpc hpos hidx =>
    rw [if_neg (by rw [hpc]; exact fun h => nomatch h)] at htrace
    subst htrace
    have hcounted : f.counted = f.done + n.toNat := by
      unfold Frame.counted
      rw [hpc]
    obtain ⟨hleft, hends, -⟩ := h.advances hpc hpos
    exact h.keep hcounted.symm hleft (.inl hidx) hends (fun hz => nomatch hz)
  | waits hpc =>
    rw [if_neg (by rw [hpc]; exact fun h => nomatch h)] at htrace
    subst htrace
    have hcounted : f.counted = f.done := by
      unfold Frame.counted
      rw [hpc]
      rfl
    exact h.keep hcounted.symm h.left h.index h.ends (fun hz => nomatch hz)

/-- A count that is returned is the total exactly when the vector is empty or ends full. -/
theorem Vectored.returns {v : Int} {w' : World} (h : Vectored a mem y)
    (hs : streamStep uthreadWritev y.1 r = .error (.returned v w')) (hv : 0 ≤ v) :
    (v = (acceptedOf mem y.2).length ∧ v = total a.iov) ↔ total a.iov = 0 ∨ EndsFull a.iov := by
  obtain ⟨⟨f, w⟩, t⟩ := y
  have hlen : (acceptedOf mem t).length = f.counted := by
    rw [show acceptedOf mem t = _ from h.taken, List.length_take, gather_length]
    exact Nat.min_eq_left h.fits
  have hfits : f.counted ≤ total a.iov := h.fits
  dsimp only
  rw [hlen]
  rcases vectorStep_returns hs hv with ⟨n, hpc, hpos, rfl, hpassed⟩ | ⟨hpc, rfl⟩ | ⟨hpc, rfl, hpassed⟩
  · obtain ⟨hleft, -, hfull⟩ := h.advances hpc hpos
    have hcounted : f.counted = f.done + n.toNat := by
      unfold Frame.counted
      rw [hpc]
    rw [List.drop_of_length_le hpassed] at hleft
    have hall : total a.iov ≤ f.done + n.toNat := by
      rw [← gather_length mem]
      exact List.drop_eq_nil_iff.mp hleft.symm
    refine iff_of_true ⟨congrArg Int.ofNat hcounted.symm, ?_⟩ (.inr (hfull hpassed))
    exact congrArg Int.ofNat (show f.done + n.toNat = total a.iov by omega)
  · -- everything was written before, and the index has not passed the end
    have hcounted : f.counted = f.done := by
      unfold Frame.counted
      rw [hpc]
      rfl
    have hall : total a.iov ≤ f.done := h.zero hpc
    constructor
    · rintro ⟨-, htotal⟩
      exact .inl (by omega)
    · rintro (hz | hfull)
      · omega
      · rcases h.index with hidx | ⟨hnil, -⟩
        · have hne : f.args.iov.drop f.iovIndex ≠ [] := by
            rw [Ne, List.drop_eq_nil_iff]
            exact Nat.not_le.mpr hidx
          have hfull' : EndsFull (f.args.iov.drop f.iovIndex) := by
            rw [← EndsFull.append (l := f.args.iov.take f.iovIndex) hne, List.take_append_drop]
            exact h.ends.mpr hfull
          have hpos := hfull'.total_pos hne
          rw [show total (f.args.iov.drop f.iovIndex) = total a.iov - f.done from h.total_left] at hpos
          omega
        · rw [hnil] at hall hfits ⊢
          unfold total at hfits ⊢
          omega
  · rcases h.index with hidx | ⟨hnil, -⟩
    · exact absurd hpassed (Nat.not_le.mpr hidx)
    · have hcounted : f.counted = f.done := by
        unfold Frame.counted
        rw [hpc]
      rw [hnil] at hfits ⊢
      unfold total at hfits ⊢
      refine iff_of_true ⟨?_, ?_⟩ (.inl rfl) <;> omega

end Invariant

/-- The bytes of the vector are accounted for so far. -/
structure Accounted (a : Args) (mem : Nat → α) (y : Traced) : Prop where
  /-- The kernel has accepted the front of the concatenated buffers. -/
  inOrder : acceptedOf mem y.2 = (gather mem a.iov).take y.1.1.counted
  /-- The index and the entries stand for the rest. -/
  denotes : gather mem (y.1.1.args.iov.drop y.1.1.iovIndex) = (gather mem a.iov).drop y.1.1.done
  /-- `total` is a `ssize_t`. -/
  fits : y.1.1.counted ≤ total a.iov ∧ y.1.1.counted ≤ ssizeMax

theorem Vectored.accounted {a : Args} {mem : Nat → α} {y : Traced} (h : Vectored a mem y) :
    Accounted a mem y := by
  refine ⟨h.taken, h.left, h.fits, ?_⟩
  by_cases hz : y.1.1.counted = 0
  · rw [hz]
    exact Nat.zero_le _
  · exact Nat.le_trans h.fits (h.ssize hz)

/-- **`uthread_writev` accounts for every byte until it returns; the count it returns is the total
exactly when there was nothing to write or the last entry is not empty.** -/
theorem writev_accounts (a : Args) (w : World) (mem : Nat → α) (rs : List Answer)
    (hres : Run.each (tracedStep uthreadWritev) VectorResult (traced a w) rs) :
    Accounted a mem (traced a w) ∧
      Run.each (tracedStep uthreadWritev) (fun _ _ y => Accounted a mem y ∧
        ∀ r v w', streamStep uthreadWritev y.1 r = .error (.returned v w') → 0 ≤ v →
          ((v = (acceptedOf mem y.2).length ∧ v = total a.iov) ↔ total a.iov = 0 ∨ EndsFull a.iov))
        (traced a w) rs := by
  refine ⟨(Vectored.start a w mem).accounted,
    Run.each_of_invariant (Vectored.start a w mem) hres fun y r y' h hr hs => ?_⟩
  have h' := h.step hr hs
  exact ⟨h', h'.accounted, fun r v w' hret hv => h'.returns hret hv⟩

/-- Two bytes, none, and three: the second call takes up in the middle of the last entry. -/
def threeEntries : Args := {iov := [⟨10, 2⟩, ⟨0, 0⟩, ⟨20, 3⟩]}

theorem threeEntries_accounted :
    Run.each (tracedStep uthreadWritev) (fun _ _ y => Accounted threeEntries id y ∧
      ∀ r v w', streamStep uthreadWritev y.1 r = .error (.returned v w') → 0 ≤ v →
        ((v = (acceptedOf id y.2).length ∧ v = total threeEntries.iov) ↔
          total threeEntries.iov = 0 ∨ EndsFull threeEntries.iov))
      (traced threeEntries {}) [{}, {ret := 3}, {}, {}, {ret := 2}] ∧
    (Run.run (tracedStep uthreadWritev) (traced threeEntries {}) [{}, {ret := 3}, {}, {}, {ret := 2}]).map
      (fun y => acceptedOf id y.2) = .ok [10, 11, 20, 21, 22] :=
  ⟨(writev_accounts threeEntries {} id [{}, {ret := 3}, {}, {}, {ret := 2}] (by decide)).2, by decide⟩

/-- Five bytes and an empty entry: all five are accepted, and the function returns 0. -/
theorem emptyTail_returns_zero : ∃ y,
    Run.each (tracedStep uthreadWritev) VectorResult (traced {iov := [⟨10, 5⟩, ⟨0, 0⟩]} {})
      [{}, {ret := 5}, {}, {}, {ret := 0}] ∧
    Run.run (tracedStep uthreadWritev) (traced {iov := [⟨10, 5⟩, ⟨0, 0⟩]} {})
      [{}, {ret := 5}, {}, {}, {ret := 0}] = .ok y ∧
    (acceptedOf id y.2).length = 5 ∧ total [⟨10, 5⟩, ⟨0, 0⟩] = 5 ∧
    streamStep uthreadWritev y.1 {} = .error (.returned 0 {}) :=
  ⟨(({args := {iov := [⟨10, 5⟩, ⟨0, 0⟩]}, done := 5, iovIndex := 1, pc := .test 0}, {}),
    [({iov := [⟨10, 5⟩, ⟨0, 0⟩]}, 5), ({iov := [⟨0, 0⟩]}, 0)]), by decide, rfl, rfl, rfl, rfl⟩

end UthreadRuntime.Hook
