import UthreadRuntime.Model.Descriptors
import UthreadRuntime.Model.Inversion

/-! Whether a socket call can block its thread.

`uthread_socket` sets `O_NONBLOCK` on what it returns and `uthread_read` before every read;
`uthread_accept` returns a descriptor as the kernel made it, and `uthread_accept`,
`uthread_connect` and `uthread_write` take the mode as they find it. So the first call on an
accepted descriptor decides. -/
namespace UthreadRuntime

/-- The modes of the descriptors that user code has obtained, by their history. -/
structure ModesOk (x : Filed) : Prop where
  mode_iff : ∀ fd o, x.2.origin fd = some o → (x.1.mode fd = .nonblocking ↔ o = .socket ∨ x.2.read fd = true)

section Step

variable {mode : Int → FdMode} {g : Obtained}

theorem FdOp.apply_mode_iff {op : FdOp}
    (h : ∀ fd o, g.origin fd = some o → (mode fd = .nonblocking ↔ o = .socket ∨ g.read fd = true)) (fd : Int)
    (o : Origin) (ho : (op.note g).origin fd = some o) :
    op.apply mode fd = .nonblocking ↔ o = .socket ∨ (op.note g).read fd = true := by
  cases op with
  | noOp => exact h fd o ho
  | made fd' | close fd' =>
    by_cases hfd : fd = fd'
    · subst hfd
      simp [FdOp.note] at ho
    · simp only [FdOp.note, FdOp.apply, Function.update_of_ne hfd] at ho ⊢
      exact h fd o ho
  | socket fd' =>
    by_cases hfd : fd = fd'
    · subst hfd
      simp only [FdOp.note, Function.update_self] at ho
      cases ho
      simp [FdOp.apply]
    · simp only [FdOp.note, FdOp.apply, Function.update_of_ne hfd] at ho ⊢
      exact h fd o ho
  | accepted fd' =>
    by_cases hfd : fd = fd'
    · subst hfd
      simp only [FdOp.note, Function.update_self] at ho
      cases ho
      simp [FdOp.apply, FdOp.note]
    · simp only [FdOp.note, FdOp.apply, Function.update_of_ne hfd] at ho ⊢
      exact h fd o ho
  | read fd' =>
    by_cases hfd : fd = fd'
    · subst hfd
      simp [FdOp.apply, FdOp.note]
    · simp only [FdOp.note, FdOp.apply, Function.update_of_ne hfd] at ho ⊢
      exact h fd o ho

theorem filesStep_mode {x y : Files} {act : FileAct} (h : filesStep x act = .ok y) :
    y.mode = (x.op act).apply x.mode := by
  obtain ⟨z, -, h⟩ := bind_ok h
  split at h
  · cases h
    rfl
  · cases h

theorem ModesOk.step {x y : Filed} {act : FileAct} (h : ModesOk x)
    (hstep : Run.noted filesStep noteFile x act = .ok y) : ModesOk y := by
  obtain ⟨x, g⟩ := x
  obtain ⟨y, g'⟩ := y
  obtain ⟨hs, rfl⟩ := Run.noted_ok hstep
  refine ⟨fun fd o ho => ?_⟩
  rw [filesStep_mode hs]
  exact FdOp.apply_mode_iff h.mode_iff fd o ho

theorem ModesOk.of_reaches {x : Filed} (h : Filed.Reaches mode x) : ModesOk x := by
  refine Run.Reaches.invariant h ⟨fun fd o ho => ?_⟩ fun _ _ _ hok _ hs => hok.step hs
  cases ho

end Step

/-- **A system call finds a descriptor of the library in non-blocking mode exactly when it was
made by `uthread_socket`, or `uthread_read` has been called on it before.** -/
theorem issued_nonblocking_iff {mode : Int → FdMode} {x : Filed} (h : Filed.Reaches mode x) (a : SId) (c : IoCall) :
    (x.1.Issues a c → x.2.origin c.fd ≠ none → x.1.mode c.fd = .nonblocking) ↔
      (x.1.Issues a c → x.2.origin c.fd = some .accept → x.2.read c.fd = true) := by
  have hok := ModesOk.of_reaches h
  constructor
  · intro hmode hissue ho
    have hread := (hok.mode_iff c.fd .accept ho).mp (hmode hissue (by rw [ho]; simp))
    exact hread.resolve_left (by decide)
  · intro hread hissue ho
    cases horigin : x.2.origin c.fd with
    | none => exact absurd horigin ho
    | some o =>
      refine (hok.mode_iff c.fd o horigin).mpr ?_
      cases o with
      | socket => exact .inl rfl
      | accept => exact .inr (hread hissue horigin)

/-- Main makes a socket and accepts a connection on it. -/
def acceptsFive : List FileAct :=
  boot.map .run ++ [.socket 0 {ret := 4}, .setNonblock 0 {}] ++
    (calls 0 (.io ⟨.accept, 4, 0, 0⟩) 1 ++ [Act.stmt 0 {ret := 5}, Act.stmt 0 {}]).map .run

def readsFive : List FileAct :=
  (calls 0 (.io ⟨.read, 5, 1, 0⟩) 2 ++ [Act.stmt 0 {ret := 1}] ++ stmts 0 2).map .run

/-- Main is about to write to the connection. -/
def writesFive : List FileAct := (calls 0 (.io ⟨.write, 5, 1, 0⟩) 1).map .run

/-- The order of the echo test: read, then write. -/
theorem readFirst_nonblocking : ∃ x, Filed.Reaches (fun _ => .closed) x ∧ x.1.Issues 0 ⟨.write, 5, 1, 0⟩ ∧
    x.2.origin 5 = some .accept ∧ x.1.mode 5 = .nonblocking := by
  have hread : ((Run.run (Run.noted filesStep noteFile) ({mode := fun _ => .closed}, {})
      (acceptsFive ++ readsFive ++ writesFive)).toOption.map fun x =>
        (decide ((x.1.rt.sched 0).curUthread = some 0 ∧ (x.1.rt.ut 0).ctx = .io ⟨.write, 5, 1, 0⟩ .sys),
          decide (x.2.origin 5 = some .accept ∧ x.2.read 5 = true))) = some (true, true) := by decide +kernel
  obtain ⟨x, hx, hread⟩ := Option.map_eq_some_iff.mp hread
  simp only [Prod.mk.injEq, decide_eq_true_eq] at hread
  obtain ⟨hissue, ho, hfive⟩ := hread
  have hreach : Filed.Reaches (fun _ => .closed) x := Run.reaches_of_run (ok_of_toOption hx)
  refine ⟨x, hreach, ⟨0, hissue⟩, ho, ?_⟩
  exact (issued_nonblocking_iff hreach 0 ⟨.write, 5, 1, 0⟩).mpr (fun _ _ => hfive) ⟨0, hissue⟩ (by rw [ho]; simp)

/-- Written to first, the connection is in the mode `accept` left it in. -/
theorem writeFirst_blocking : ∃ x, Filed.Reaches (fun _ => .closed) x ∧ x.1.Issues 0 ⟨.write, 5, 1, 0⟩ ∧
    x.2.origin 5 = some .accept ∧ x.1.mode 5 = .blocking := by
  have hread : ((Run.run (Run.noted filesStep noteFile) ({mode := fun _ => .closed}, {})
      (acceptsFive ++ writesFive)).toOption.map fun x =>
        (decide ((x.1.rt.sched 0).curUthread = some 0 ∧ (x.1.rt.ut 0).ctx = .io ⟨.write, 5, 1, 0⟩ .sys),
          decide (x.2.origin 5 = some .accept ∧ x.1.mode 5 = .blocking))) = some (true, true) := by
    decide +kernel
  obtain ⟨x, hx, hread⟩ := Option.map_eq_some_iff.mp hread
  simp only [Prod.mk.injEq, decide_eq_true_eq] at hread
  obtain ⟨hissue, ho, hmode⟩ := hread
  exact ⟨x, Run.reaches_of_run (ok_of_toOption hx), ⟨0, hissue⟩, ho, hmode⟩

end UthreadRuntime
