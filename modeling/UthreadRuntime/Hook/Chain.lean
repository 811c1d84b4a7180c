import UthreadRuntime.Hook.Wrappers
import Mathlib.Logic.Relation
import Mathlib.Order.WellFounded

/-! Where the hooked calls end.

Inside the library the plain name of a hooked function is that of the definition in
`myhook.c`, which calls the function of `uthread_socket.c`; `dlsym(RTLD_NEXT, ...)` gives
the C library's. A function that names itself plainly is its own inner call. -/
namespace UthreadRuntime.Hook

/-- The functions of the library on the way of a request. -/
inductive Fn where
  | hook (e : Entry)
  | uthread (e : Entry)
  deriving DecidableEq, Repr

/-- A call of one of them. -/
structure Activation where
  fn : Fn
  args : Args
  world : World
  deriving DecidableEq, Repr

/-- The states of a body under any answers. -/
def Runs (e : Entry) (a : Args) (w : World) (s : Frame × World) : Prop :=
  Run.Reaches (bodyStep e.wrapper) (fun _ _ => True) (entered a w) s

/-- One call is made inside another: the entry of `myhook.c` calls its function, and the
function, in any of its turns and whatever was answered so far, calls the plain name. -/
inductive Nests : Activation → Activation → Prop where
  | hook (e : Entry) (a : Args) (w : World) : Nests ⟨.hook e, a, w⟩ ⟨.uthread e, a, w⟩
  | plain {e e' : Entry} {a : Args} {w : World} {s : Frame × World} : Runs e a w s → s.1.pc = .call →
      e.wrapper.callee = .plain e' → Nests ⟨.uthread e, a, w⟩ ⟨.hook e', e.wrapper.args s.1, s.2⟩

/-- The body after `n` answers. -/
def bodyAfter (e : Entry) (a : Args) (w : World) (answers : Nat → Answer) (n : Nat) :
    Except End (Frame × World) :=
  Run.run (bodyStep e.wrapper) (entered a w) ((List.range n).map answers)

/-- Whatever is answered, the call gets to the C library, returns before any inner call, or
its assertion fails. -/
def Ends (x : Activation) : Prop :=
  match x.fn with
  | .hook _ => False
  | .uthread e => ∀ answers, ∃ n, match bodyAfter e x.args x.world answers n with
    | .ok s => s.1.pc = .call ∧ ∃ e', e.wrapper.callee = .libc e'
    | .error _ => True

/-- Every chain of nested calls is finite, and its last call gets to the C library or returns. -/
structure BottomsOut (x : Activation) : Prop where
  finite : Acc (fun y x => Nests x y) x
  ends : ∀ y, Relation.ReflTransGen Nests x y → (∃ z, Nests y z) ∨ Ends y

/-! ### The first statements of a body -/

/-- The body returns before it calls anything: nothing to count, or the end of file was seen. -/
def returnsAtOnce (x : Wrapper) (a : Args) (w : World) : Bool :=
  (x.counted && a.length == 0) || (x.testsEof && w.fdeof)

section Body

variable {x : Wrapper} {e : Entry} {a : Args} {w : World}

theorem head_returns (h : returnsAtOnce x a w = true) (r : Answer) :
    ∃ v, bodyStep x (entered a w) r = .error (.returned v w) := by
  show ∃ v, headStmt x {args := a, pc := .head} w = .error (.returned v w)
  unfold headStmt
  split
  · exact ⟨_, rfl⟩
  · rename_i hcount
    split
    · exact ⟨_, rfl⟩
    · rename_i heof
      simp only [returnsAtOnce, Bool.or_eq_true, Bool.and_eq_true, beq_iff_eq] at h
      rcases h with h | h
      · exact absurd ⟨h.1, h.2.symm⟩ hcount
      · exact absurd h heof

theorem head_goes (h : returnsAtOnce x a w = false) (r : Answer) :
    bodyStep x (entered a w) r =
      .ok ({args := a, pc := if x.setsNonblock then .fcntl else .call}, w) := by
  simp only [returnsAtOnce, Bool.or_eq_false_iff] at h
  show headStmt x {args := a, pc := .head} w = _
  unfold headStmt
  rw [if_neg, if_neg]
  · rintro ⟨h1, h2⟩
    simp [h1, h2] at h
  · rintro ⟨h1, h2⟩
    have h2' : a.length = 0 := h2.symm
    simp [h1, h2'] at h

/-- A body that returns at once gets nowhere else. -/
theorem Runs.stays {s : Frame × World} (h : returnsAtOnce e.wrapper a w = true) (hr : Runs e a w s) :
    s = entered a w := by
  refine Run.Reaches.invariant (I := fun s => s = entered a w) hr rfl ?_
  rintro s r s' rfl - hs
  obtain ⟨v, hv⟩ := head_returns h r
  rw [hv] at hs
  cases hs

/-- Any other gets to its inner call, with its own arguments. -/
theorem Runs.calls (h : returnsAtOnce e.wrapper a w = false) :
    Runs e a w ({args := a, pc := .call}, w) := by
  have hhead := head_goes h {}
  cases hb : e.wrapper.setsNonblock with
  | false =>
    rw [hb] at hhead
    exact .next .start trivial hhead
  | true =>
    rw [hb] at hhead
    exact .next (.next .start trivial hhead) (a := {}) trivial rfl

/-- Under any answers the body makes its inner call within two statements, or has ended. -/
theorem calls_or_ends (answers : Nat → Answer) :
    (∃ n z, bodyAfter e a w answers n = .error z) ∨
    ∃ n, bodyAfter e a w answers n = .ok ({args := a, pc := .call}, w) := by
  cases h : returnsAtOnce e.wrapper a w with
  | true =>
    obtain ⟨v, hv⟩ := head_returns h (answers 0)
    refine .inl ⟨1, .returned v w, ?_⟩
    simp [bodyAfter, Run.run, hv]
  | false =>
    have hhead := head_goes h (answers 0)
    cases hb : e.wrapper.setsNonblock with
    | false =>
      refine .inr ⟨1, ?_⟩
      simp [bodyAfter, Run.run, hhead, hb]
    | true =>
      rw [hb, if_pos rfl] at hhead
      have htwo : bodyAfter e a w answers 2 =
          if (answers 1).ok then .ok ({args := a, pc := .call}, w) else .error .aborted := by
        have hfcntl : bodyStep e.wrapper ({args := a, pc := .fcntl}, w) (answers 1) =
            if (answers 1).ok then .ok ({args := a, pc := .call}, w) else .error .aborted := rfl
        simp only [bodyAfter, show (List.range 2).map answers = [answers 0, answers 1] from rfl, Run.run,
          hhead, hfcntl]
        cases (answers 1).ok <;> rfl
      cases hok : (answers 1).ok with
      | false =>
        rw [hok] at htwo
        exact .inl ⟨2, .aborted, htwo⟩
      | true =>
        rw [hok] at htwo
        exact .inr ⟨2, htwo⟩

end Body

/-- A call makes another, gets to the C library or returns. -/
theorem nests_or_ends (x : Activation) : (∃ z, Nests x z) ∨ Ends x := by
  obtain ⟨fn, a, w⟩ := x
  cases fn with
  | hook e => exact .inl ⟨_, .hook e a w⟩
  | uthread e =>
    cases hc : e.wrapper.callee with
    | libc e' =>
      refine .inr fun answers => ?_
      rcases calls_or_ends (e := e) (a := a) (w := w) answers with ⟨n, z, hn⟩ | ⟨n, hn⟩
      · exact ⟨n, by rw [hn]; trivial⟩
      · exact ⟨n, by rw [hn]; exact ⟨rfl, e', hc⟩⟩
    | plain e' =>
      cases h : returnsAtOnce e.wrapper a w with
      | false => exact .inl ⟨_, .plain (Runs.calls h) rfl hc⟩
      | true =>
        refine .inr fun answers => ⟨1, ?_⟩
        obtain ⟨v, hv⟩ := head_returns h (answers 0)
        have hone : bodyAfter e a w answers 1 = .error (.returned v w) := by
          simp [bodyAfter, Run.run, hv]
        rw [hone]
        trivial

/-! ### The chains -/

/-- The functions that reach the C library by `dlsym`, themselves or through `read`. -/
def Entry.direct : Entry → Bool
  | .connect | .accept | .read | .write | .readExact => true
  | _ => false

section Chain

variable {e : Entry} {a : Args} {w : World}

theorem acc_hook (h : Acc (fun y x => Nests x y) ⟨.uthread e, a, w⟩) :
    Acc (fun y x => Nests x y) ⟨.hook e, a, w⟩ := by
  refine .intro _ fun y hy => ?_
  cases hy with
  | hook => exact h

theorem acc_of_libc {e' : Entry} (h : e.wrapper.callee = .libc e') :
    Acc (fun y x => Nests x y) ⟨.uthread e, a, w⟩ := by
  refine .intro _ fun y hy => ?_
  cases hy with
  | plain _ _ hc =>
    rw [h] at hc
    cases hc

theorem acc_of_returns (h : returnsAtOnce e.wrapper a w = true) :
    Acc (fun y x => Nests x y) ⟨.uthread e, a, w⟩ := by
  refine .intro _ fun y hy => ?_
  cases hy with
  | plain hr hpc _ =>
    rw [hr.stays h] at hpc
    cases hpc

theorem acc_of_direct (h : e.direct = true) : Acc (fun y x => Nests x y) ⟨.uthread e, a, w⟩ := by
  cases e with
  | connect => exact acc_of_libc rfl
  | accept => exact acc_of_libc rfl
  | read => exact acc_of_libc rfl
  | write => exact acc_of_libc rfl
  | readExact =>
    -- its inner `read` is hooked, and that one is direct
    refine .intro _ fun y hy => ?_
    cases hy with
    | plain _ _ hc =>
      cases hc
      exact acc_hook (acc_of_libc rfl)
  | _ => cases h

/-- The call is of a function that names itself, or the next of the kind, and gets to do so. -/
def NamesAgain (x : Activation) : Prop :=
  ∃ e, (x.fn = .hook e ∨ x.fn = .uthread e) ∧ e.direct = false ∧
    returnsAtOnce e.wrapper x.args x.world = false

theorem NamesAgain.nests {x : Activation} (h : NamesAgain x) : ∃ y, Nests x y ∧ NamesAgain y := by
  obtain ⟨fn, a, w⟩ := x
  obtain ⟨e, hfn, hdir, hret⟩ := h
  rcases hfn with hfn | hfn
  · cases hfn
    exact ⟨_, .hook e a w, e, .inr rfl, hdir, hret⟩
  · cases hfn
    have hcall := Runs.calls hret
    cases e with
    | connect => cases hdir
    | accept => cases hdir
    | read => cases hdir
    | write => cases hdir
    | readExact => cases hdir
    | recvExact =>
      refine ⟨_, .plain hcall rfl rfl, .recv, .inl rfl, rfl, ?_⟩
      simp only [returnsAtOnce, Bool.or_eq_false_iff] at hret ⊢
      exact ⟨rfl, hret.2⟩
    | _ => exact ⟨_, .plain hcall rfl rfl, _, .inl rfl, rfl, hret⟩

theorem NamesAgain.not_acc {x : Activation} (h : NamesAgain x) : ¬Acc (fun y x => Nests x y) x := by
  intro hacc
  induction hacc with
  | intro x _ ih =>
    obtain ⟨y, hy, hagain⟩ := h.nests
    exact ih y hy hagain

/-- When the functions that name themselves return at once. -/
theorem returnsAtOnce_iff (hdir : e.direct = false) : returnsAtOnce e.wrapper a w = true ↔
    (w.fdeof = true ∧ e ≠ .writev) ∨ (a.length = 0 ∧ (e = .send ∨ e = .recvExact)) := by
  cases e with
  | connect => cases hdir
  | accept => cases hdir
  | read => cases hdir
  | write => cases hdir
  | readExact => cases hdir
  | recvExact => simp [returnsAtOnce, Entry.wrapper, uthreadRecvExact, or_comm]
  | send => simp [returnsAtOnce, Entry.wrapper, uthreadSend, or_comm]
  | recv => simp [returnsAtOnce, Entry.wrapper, uthreadRecv]
  | recvmsg => simp [returnsAtOnce, Entry.wrapper, uthreadRecvmsg, uthreadRecv]
  | recvfrom => simp [returnsAtOnce, Entry.wrapper, uthreadRecvfrom, uthreadRecv]
  | sendmsg => simp [returnsAtOnce, Entry.wrapper, uthreadSendmsg]
  | sendto => simp [returnsAtOnce, Entry.wrapper, uthreadSendto, uthreadSendmsg]
  | writev => simp [returnsAtOnce, Entry.wrapper, uthreadWritev]

/-- **A hooked call bottoms out exactly when its function goes to the C library by `dlsym`, or
returns before its inner call**: on the end of file, which `writev` does not look at, or with
nothing to count. -/
theorem bottomsOut_iff (e : Entry) (a : Args) (w : World) : BottomsOut ⟨.hook e, a, w⟩ ↔
    e.direct = true ∨ (w.fdeof = true ∧ e ≠ .writev) ∨
      (a.length = 0 ∧ (e = .send ∨ e = .recvExact)) := by
  cases hdir : e.direct with
  | true =>
    refine iff_of_true ⟨acc_hook (acc_of_direct hdir), fun y _ => nests_or_ends y⟩ (.inl rfl)
  | false =>
    rw [← returnsAtOnce_iff (a := a) (w := w) hdir]
    cases hret : returnsAtOnce e.wrapper a w with
    | true =>
      exact iff_of_true ⟨acc_hook (acc_of_returns hret), fun y _ => nests_or_ends y⟩ (.inr rfl)
    | false =>
      have hagain : NamesAgain ⟨.hook e, a, w⟩ := ⟨e, .inl rfl, hdir, hret⟩
      exact iff_of_false (fun h => hagain.not_acc h.finite) (by simp)

/-- A `recv` on an open connection never gets to the C library. -/
theorem recv_calls_itself : ¬BottomsOut ⟨.hook .recv, {fd := 5, length := 1}, {}⟩ ∧
    ∃ f : Nat → Activation, f 0 = ⟨.hook .recv, {fd := 5, length := 1}, {}⟩ ∧
      ∀ n, Nests (f n) (f (n + 1)) := by
  have hagain : NamesAgain ⟨.hook .recv, {fd := 5, length := 1}, {}⟩ := ⟨.recv, .inl rfl, rfl, rfl⟩
  exact ⟨fun h => hagain.not_acc h.finite, not_acc_iff_exists_descending_chain.mp hagain.not_acc⟩

end Chain

end UthreadRuntime.Hook
