import UthreadRuntime.Safety.Records
import UthreadRuntime.Safety.Solo

/-! Whose error a socket call sees.

`errno` belongs to the thread, and a socket call looks at it in statements of their own after
the system call. A uthread that is preempted between the two finds what the others and the
scheduler have left there. The error of each call is kept as a history; where the call and its
tests are not parted, they see it. -/
namespace UthreadRuntime

open State

/-- The statement looks at the `errno` of a system call that returned `-1`. -/
def Ctx.testsErrno : Ctx → Bool
  | .io _ (.test ret) | .io _ (.retest ret) => ret == -1
  | _ => false

/-- Where a call goes on after its system call failed with the error; `user` is its return. -/
def IoCall.onError (c : IoCall) (e : Errno) : Ctx :=
  match c.kind with
  | .accept =>
    if e = .eagain ∨ e = .enfile ∨ e = .emfile then .register c .ctl
    else if e = .econnaborted then .io c .sys
    else .user
  | .connect => if e = .eagain ∨ e = .einprogress then .register c .ctl else .user
  | .read | .write => if e = .eagain then .register c .ctl else .user

/-- The action is a system call of a socket call, and fails: whose it is, and the error. -/
def failedCall (s : State) : Act → Option (UId × Errno)
  | .stmt a r =>
    match (s.sched a).curUthread with
    | none => none
    | some u =>
      match (s.ut u).ctx with
      | .io _ .sys => if r.ret = -1 then some (u, r.errno) else none
      | _ => none
  | _ => none

/-- History: the error of the last system call of each uthread that failed. -/
def noteError (s : State) (act : Act) (_ : State) (errors : UId → Errno) : UId → Errno :=
  match failedCall s act with
  | none => errors
  | some x => Function.update errors x.1 x.2

/-- The timer does not part a system call that failed from the tests of its error, and no
uthread is resumed while a thread runs it. -/
structure Unparted (s : State) (act : Act) : Prop where
  preempts : ∀ a u, act = .preempt a → (s.sched a).curUthread = some u → (s.ut u).ctx.testsErrno = false
  resumes : ResumesSuspended s act

/-! ### Statements -/

section Statements

variable {s s' : State} {a : SId} {u : UId} {c : IoCall} {r : Reply}

theorem Flow.testsErrno {k k' : Ctx} (h : Flow k k') (ht : k'.testsErrno = true) : ∃ c pc, k = .io c pc := by
  cases h with
  | io _ => exact ⟨_, _, rfl⟩
  | own hown =>
    cases hown with
    | wake w => cases w <;> cases ht
    | exitMark v => cases v <;> cases ht
    | _ => cases ht
  | moves hm => cases hm <;> cases ht
  | switch hk => cases hk <;> cases ht
  | _ => cases ht

/-- The first look at the error: it takes the branch of it, or leads to the second look. -/
theorem ioTestStmt_ctx (a : SId) (u : UId) (c : IoCall) (s : State) :
    ((ioTestStmt a u c (-1) s).ut u).ctx = c.onError (s.sched a).errno ∨
    (((ioTestStmt a u c (-1) s).ut u).ctx = .io c (.retest (-1)) ∧ (s.sched a).errno = .eagain) := by
  unfold ioTestStmt IoCall.onError
  cases c.kind with
  | accept =>
    left
    dsimp only
    rw [if_pos rfl]
    split
    · exact goto_ctx _
    · split
      · exact goto_ctx _
      · exact returns_ctx _
  | connect =>
    left
    dsimp only
    rw [if_pos rfl]
    split
    · exact goto_ctx _
    · exact returns_ctx _
  | read =>
    dsimp only
    by_cases he : (s.sched a).errno = .eagain
    · rw [if_neg (fun hn => hn.2 he)]
      exact .inr ⟨goto_ctx _, he⟩
    · rw [if_pos ⟨rfl, he⟩, if_neg he]
      exact .inl (returns_ctx _)
  | write =>
    dsimp only
    rw [if_neg (by decide), if_neg (by decide)]
    by_cases he : (s.sched a).errno = .eagain
    · rw [if_neg (fun hn => hn.2 he)]
      exact .inr ⟨goto_ctx _, he⟩
    · rw [if_pos ⟨rfl, he⟩, if_neg he]
      exact .inl (returns_ctx _)

theorem ioTestStmt_sched (a : SId) (u : UId) (c : IoCall) (ret : Int) (s : State) :
    (ioTestStmt a u c ret s).sched = s.sched := by
  unfold ioTestStmt
  dsimp only
  repeat' split
  all_goals rfl

theorem IoCall.onError_eagain (c : IoCall) : c.onError .eagain = .register c .ctl := by
  unfold IoCall.onError
  cases c.kind <;> simp

/-- The second look, at an error that the first let pass. -/
theorem ioRetestStmt_ctx (he : (s.sched a).errno = .eagain) :
    ((ioRetestStmt a u c (-1) s).ut u).ctx = c.onError .eagain := by
  unfold ioRetestStmt
  rw [if_pos ⟨rfl, he⟩, goto_ctx, c.onError_eagain]

theorem IoCall.onError_testsErrno (c : IoCall) (e : Errno) : (c.onError e).testsErrno = false := by
  unfold IoCall.onError
  split
  · split
    · rfl
    · split <;> rfl
  · split <;> rfl
  · split <;> rfl
  · split <;> rfl

theorem IoCall.loop_testsErrno (c : IoCall) : c.loop.testsErrno = false := by
  unfold IoCall.loop
  split <;> rfl

/-- The other statements of a call lead to no test of an error. -/
theorem ioHeadStmt_testsErrno (a : SId) (u : UId) (c : IoCall) (s : State) :
    ((ioHeadStmt a u c s).ut u).ctx.testsErrno = false := by
  have hgoto : ∀ {k : Ctx}, k.testsErrno = false → ((goto u k s).ut u).ctx.testsErrno = false := by
    intro k hk
    rw [goto_ctx]
    exact hk
  have hret : ∀ v, ((returns a u v s).ut u).ctx.testsErrno = false := by
    intro v
    rw [returns_ctx]
    rfl
  unfold ioHeadStmt
  split
  · exact hgoto rfl
  · exact hgoto rfl
  · split
    · exact hret _
    · exact hgoto rfl
  · split
    · exact hret _
    · split
      · exact hret _
      · exact hgoto rfl

theorem ioTestStmt_testsErrno {ret : Int} (hret : ret ≠ -1) :
    ((ioTestStmt a u c ret s).ut u).ctx.testsErrno = false := by
  have hretest : ((goto u (.io c (.retest ret)) s).ut u).ctx.testsErrno = false := by
    rw [goto_ctx]
    simpa [Ctx.testsErrno] using hret
  have huser : ∀ v, ((returns a u v s).ut u).ctx.testsErrno = false := by
    intro v
    rw [returns_ctx]
    rfl
  unfold ioTestStmt
  dsimp only
  split
  · rw [if_neg hret]
    exact huser _
  · rw [if_neg hret]
    exact huser _
  · rw [if_neg fun hn => hret hn.1]
    exact hretest
  · split
    · exact huser _
    · split
      · rw [goto_ctx]
        rfl
      · rw [if_neg fun hn => hret hn.1]
        exact hretest

theorem ioRetestStmt_testsErrno (a : SId) (u : UId) (c : IoCall) (ret : Int) (s : State) :
    ((ioRetestStmt a u c ret s).ut u).ctx.testsErrno = false := by
  unfold ioRetestStmt
  split
  · rw [goto_ctx]
    rfl
  · split
    · rw [returns_ctx]
      rfl
    · rw [goto_ctx]
      exact c.loop_testsErrno

theorem ioAfterStmt_testsErrno (a : SId) (u : UId) (c : IoCall) (s : State) :
    ((ioAfterStmt a u c s).ut u).ctx.testsErrno = false := by
  have hloop : ((goto u c.loop s).ut u).ctx.testsErrno = false := by
    rw [goto_ctx]
    exact c.loop_testsErrno
  have huser : ∀ {v : Int} {s₀ : State}, ((returns a u v s₀).ut u).ctx.testsErrno = false := by
    intro v s₀
    rw [returns_ctx]
    rfl
  unfold ioAfterStmt
  split
  · exact hloop
  · exact hloop
  · split
    · exact huser
    · exact hloop
  · split
    · exact huser
    · exact hloop

/-- What leads to a test: the system call, or the first test of the two. -/
theorem ioStmt_testsErrno {pc : IoAt} (h : ioStmt a u c pc r s = .ok s')
    (ht : (s'.ut u).ctx.testsErrno = true) :
    (pc = .sys ∧ r.ret = -1 ∧ (s'.sched a).errno = r.errno ∧ (s'.ut u).ctx = .io c (.test (-1))) ∨
    (pc = .test (-1) ∧ s'.sched = s.sched ∧ (s'.ut u).ctx = .io c (.retest (-1)) ∧
      (s.sched a).errno = .eagain) := by
  have hnot : ∀ {k : Ctx}, k.testsErrno = false → k.testsErrno ≠ true := by
    intro k hk
    rw [hk]
    simp
  cases pc with
  | head =>
    cases h
    exact absurd ht (hnot (ioHeadStmt_testsErrno a u c s))
  | fcntl =>
    unfold ioStmt at h
    dsimp only at h
    split at h
    · cases h
      rw [goto_ctx] at ht
      cases ht
    · cases h
  | sys =>
    cases h
    rw [goto_ctx] at ht
    have hret : r.ret = -1 := by simpa [Ctx.testsErrno] using ht
    left
    refine ⟨rfl, hret, ?_, ?_⟩
    · rw [if_pos hret]
      simp [goto, setErrno]
    · rw [goto_ctx, hret]
  | test ret =>
    cases h
    by_cases hret : ret = -1
    · subst hret
      rcases ioTestStmt_ctx a u c s with hk | ⟨hk, he⟩
      · rw [hk] at ht
        exact absurd ht (hnot (c.onError_testsErrno _))
      · exact .inr ⟨rfl, ioTestStmt_sched a u c (-1) s, hk, he⟩
    · exact absurd ht (hnot (ioTestStmt_testsErrno hret))
  | retest ret =>
    cases h
    exact absurd ht (hnot (ioRetestStmt_testsErrno a u c ret s))
  | after =>
    cases h
    exact absurd ht (hnot (ioAfterStmt_testsErrno a u c s))

end Statements

/-! ### Runs -/

/-- The runtime with the errors of its uthreads. -/
abbrev Erring := State × (UId → Errno)

/-- The states reached by actions that meet `C`. -/
abbrev Erring.Reaches (C : State → Act → Prop) : Erring → Prop :=
  Run.Reaches (Run.noted step noteError) (fun x => C x.1) (init, fun _ => .ok)

/-- A uthread that is about to test an error runs, and the error is that of its call. -/
structure ErrorsOk (x : Erring) : Prop where
  sound : Sound x.1
  solo : Solo x.1
  runs : ∀ u < x.1.heap, (x.1.ut u).ctx.testsErrno = true → ∃ a, (x.1.sched a).curUthread = some u ∧
    (x.1.sched a).errno = x.2 u
  again : ∀ u < x.1.heap, ∀ c, (x.1.ut u).ctx = .io c (.retest (-1)) → x.2 u = .eagain

section Runs

variable {s s' : State} {a : SId} {u : UId} {errors : UId → Errno}

theorem ErrorsOk.sees (h : ErrorsOk (s, errors)) (hc : (s.sched a).curUthread = some u)
    (ht : (s.ut u).ctx.testsErrno = true) : (s.sched a).errno = errors u := by
  obtain ⟨b, hb, he⟩ := h.runs u (h.sound.cur hc).1 ht
  rw [h.solo a b u hc hb]
  exact he

theorem failedCall_some {act : Act} {e : Errno} (h : failedCall s act = some (u, e)) :
    ∃ a r c, act = .stmt a r ∧ (s.sched a).curUthread = some u ∧ (s.ut u).ctx = .io c .sys := by
  unfold failedCall at h
  split at h
  · rename_i a r
    split at h
    · cases h
    · rename_i v hv
      split at h
      · rename_i c hctx
        split at h
        · cases h
          exact ⟨a, r, c, rfl, hv, hctx⟩
        · cases h
      · cases h
  · cases h

/-- The history of a uthread is written by its own system calls. -/
theorem noteError_of_ne {act : Act} (hne : ∀ a r c, act = .stmt a r → (s.sched a).curUthread = some u →
    (s.ut u).ctx ≠ .io c .sys) : noteError s act s' errors u = errors u := by
  unfold noteError
  cases hcall : failedCall s act with
  | none => rfl
  | some x =>
    dsimp only
    rw [Function.update_of_ne]
    rintro rfl
    obtain ⟨a, r, c, hact, hc, hctx⟩ := failedCall_some hcall
    exact hne a r c hact hc hctx

theorem noteError_self {r : Reply} {c : IoCall} (hc : (s.sched a).curUthread = some u)
    (hctx : (s.ut u).ctx = .io c .sys) (hret : r.ret = -1) :
    noteError s (.stmt a r) s' errors u = r.errno := by
  have hcall : failedCall s (.stmt a r) = some (u, r.errno) := by
    simp only [failedCall, hc, hctx, hret, if_true]
  unfold noteError
  rw [hcall]
  exact Function.update_self _ _ _

/-- A statement of a socket call leaves its uthread on the thread. -/
theorem ioStmt_cur {c : IoCall} {pc : IoAt} {r : Reply} (h : ioStmt a u c pc r s = .ok s') (d : SId) :
    (s'.sched d).curUthread = (s.sched d).curUthread := by
  obtain ⟨s₀, h₀, hs'⟩ := ioStmt_ok h
  have hcur : (s₀.sched d).curUthread = (s.sched d).curUthread := by
    rcases h₀ with rfl | ⟨e, rfl⟩
    · rfl
    · unfold setErrno
      exact setSched_keeps Sched.curUthread rfl d
  rcases hs' with ⟨k, -, rfl⟩ | ⟨v, rfl⟩
  · exact hcur
  · exact hcur

/-- A uthread that is about to test an error and does not: its thread does nothing else. -/
theorem ErrorsOk.stays (h : ErrorsOk (s, errors)) {act : Act} (hun : Unparted s act)
    (hs : step s act = .ok s') (hu : u < s.heap)
    (hno : ∀ a r, act = .stmt a r → (s.sched a).curUthread ≠ some u)
    (ht : (s.ut u).ctx.testsErrno = true) : ∃ a, (s'.sched a).curUthread = some u ∧
      (s'.sched a).errno = errors u := by
  obtain ⟨a, hc, he⟩ := h.runs u hu ht
  have hne : a ≠ act.thread := by
    rintro rfl
    cases act with
    | call b c =>
      cases step_ok hs with
      | call hc' hctx _ =>
        cases hc.symm.trans hc'
        rw [hctx] at ht
        cases ht
    | stmt b r => exact hno b r rfl hc
    | preempt b =>
      rw [hun.preempts b u rfl hc] at ht
      cases ht
    | sched b r =>
      cases step_ok hs with
      | sched hc' _ => cases hc.symm.trans hc'
  refine ⟨a, (step_cur hs hne).trans hc, (step_errno hs hne).trans he⟩

/-- The statement of a socket call that leads to a test. -/
theorem ErrorsOk.tests (h : ErrorsOk (s, errors)) {r : Reply} (hhalt : s.halted = false)
    (hc : (s.sched a).curUthread = some u) (hs : step s (.stmt a r) = .ok s')
    (ht : (s'.ut u).ctx.testsErrno = true) :
    (s'.sched a).curUthread = some u ∧
      (s'.sched a).errno = noteError s (.stmt a r) s' errors u ∧
      ∀ c, (s'.ut u).ctx = .io c (.retest (-1)) → noteError s (.stmt a r) s' errors u = .eagain := by
  rw [step_stmt hhalt hc] at hs
  obtain ⟨c, pc, hctx⟩ := (uthreadStmt_ok hs).flow.testsErrno ht
  have hio : ioStmt a u c pc r s = .ok s' := by simpa only [uthreadStmt, hctx] using hs
  refine ⟨(ioStmt_cur hio a).trans hc, ?_⟩
  rcases ioStmt_testsErrno hio ht with ⟨rfl, hret, he, hk⟩ | ⟨rfl, hsched, hk, he⟩
  · rw [noteError_self hc hctx hret]
    refine ⟨he, fun c' hc' => ?_⟩
    rw [hk] at hc'
    cases hc'
  · have hsees := h.sees hc (by rw [hctx]; rfl)
    rw [noteError_of_ne fun a r c' _ _ => by rw [hctx]; simp, hsched]
    exact ⟨hsees, fun _ _ => hsees.symm.trans he⟩

theorem ErrorsOk.step {x y : Erring} {act : Act} (h : ErrorsOk x) (hun : Unparted x.1 act)
    (hstep : Run.noted UthreadRuntime.step noteError x act = .ok y) : ErrorsOk y := by
  obtain ⟨s, errors⟩ := x
  obtain ⟨s', errors'⟩ := y
  obtain ⟨hs, rfl⟩ := Run.noted_ok hstep
  dsimp only at hun
  have hall : ∀ v < s'.heap, (s'.ut v).ctx.testsErrno = true →
      (∃ a, (s'.sched a).curUthread = some v ∧ (s'.sched a).errno = noteError s act s' errors v) ∧
      ∀ c, (s'.ut v).ctx = .io c (.retest (-1)) → noteError s act s' errors v = .eagain := by
    intro v hv ht
    have hlt : v < s.heap := by
      refine (step_born h.sound hs hv).resolve_right fun hu => ?_
      rw [hu.1] at ht
      cases ht
    by_cases hown : ∃ a r, act = .stmt a r ∧ (s.sched a).curUthread = some v
    · obtain ⟨a, r, rfl, hc⟩ := hown
      obtain ⟨h1, h2, h3⟩ := h.tests (not_halted_of_step hs) hc hs ht
      exact ⟨⟨a, h1, h2⟩, h3⟩
    · have hno : ∀ a r, act = .stmt a r → (s.sched a).curUthread ≠ some v :=
        fun a r hact hc => hown ⟨a, r, hact, hc⟩
      have hsame : (s'.ut v).ctx = (s.ut v).ctx := by
        rcases step_ctx h.sound hs hlt with hsame | ⟨b, c, -, -, hhead⟩ | ⟨a, r, hact, hc, -⟩
        · exact hsame
        · rw [hhead] at ht
          cases c <;> cases ht
        · exact absurd hc (hno a r hact)
      rw [noteError_of_ne fun a r c hact hc => absurd hc (hno a r hact)]
      rw [hsame] at ht ⊢
      exact ⟨h.stays hun hs hlt hno ht, h.again v hlt⟩
  refine ⟨h.sound.step hs, h.solo.step hun.resumes hs, fun v hv ht => (hall v hv ht).1, fun v hv c hctx => ?_⟩
  have hctx' : (s'.ut v).ctx = .io c (.retest (-1)) := hctx
  exact (hall v hv (by rw [hctx']; rfl)).2 c hctx'

theorem ErrorsOk.initial : ErrorsOk (init, fun _ => .ok) := by
  have hmain : ∀ u < init.heap, (init.ut u).ctx.testsErrno = false := by
    intro u hu
    rw [Nat.lt_one_iff.mp hu]
    rfl
  refine ⟨Sound.initial, Solo.initial, fun u hu ht => ?_, fun u hu c hctx => ?_⟩
  · rw [hmain u hu] at ht
    cases ht
  · have hfalse := hmain u hu
    have hctx' : (init.ut u).ctx = .io c (.retest (-1)) := hctx
    rw [hctx'] at hfalse
    cases hfalse

theorem ErrorsOk.of_reaches {x : Erring} (h : Erring.Reaches Unparted x) : ErrorsOk x :=
  Run.Reaches.invariant h ErrorsOk.initial fun _ _ _ hok hun hs => hok.step hun hs

end Runs

/-- **A socket call takes the branch of its own error** in runs in which no uthread is preempted
between a system call that failed and the tests of its error, and none is resumed while it
runs. -/
theorem error_is_own {x : Erring} (h : Erring.Reaches Unparted x) {s' : State} {a : SId} {u : UId} {c : IoCall}
    {pc : IoAt} {r : Reply} (hc : (x.1.sched a).curUthread = some u) (hctx : (x.1.ut u).ctx = .io c pc)
    (hpc : pc = .test (-1) ∨ pc = .retest (-1)) (hs : step x.1 (.stmt a r) = .ok s') :
    (x.1.sched a).errno = x.2 u ∧
    ((s'.ut u).ctx = c.onError (x.2 u) ∨ ((s'.ut u).ctx = .io c (.retest (-1)) ∧ x.2 u = .eagain)) := by
  have hok := ErrorsOk.of_reaches h
  have hsees : (x.1.sched a).errno = x.2 u := by
    refine hok.sees hc ?_
    rw [hctx]
    rcases hpc with rfl | rfl <;> rfl
  refine ⟨hsees, ?_⟩
  rw [step_stmt (not_halted_of_step hs) hc] at hs
  have hio : ioStmt a u c pc r x.1 = .ok s' := by simpa only [uthreadStmt, hctx] using hs
  rcases hpc with rfl | rfl
  · cases hio
    rw [← hsees]
    exact ioTestStmt_ctx a u c x.1
  · cases hio
    have hagain : x.2 u = .eagain := hok.again u (hok.sound.cur hc).1 c hctx
    rw [hagain] at hsees ⊢
    exact .inl (ioRetestStmt_ctx hsees)

def unpartedCheck (s : State) (act : Act) : Bool :=
  resumesSuspendedCheck s act &&
    match act with
    | .preempt a =>
      match (s.sched a).curUthread with
      | none => true
      | some u => !(s.ut u).ctx.testsErrno
    | _ => true

theorem unparted_of_check {s : State} {act : Act} (hfew : Few s) (h : unpartedCheck s act = true) :
    Unparted s act := by
  obtain ⟨hres, hpre⟩ := Bool.and_eq_true_iff.mp h
  refine ⟨?_, resumesSuspended_of_check hfew hres⟩
  rintro a u rfl hc
  simpa [hc] using hpre

theorem reaches_of_unpartedChecks {acts : List Act} {x : Erring}
    (h : Run.checked (Run.noted step noteError) (fun x => unpartedCheck x.1) (init, fun _ => .ok) acts = some x) :
    Erring.Reaches Unparted x := by
  refine Run.reaches_of_checked (I := fun x => Sound x.1 ∧ Few x.1) h ⟨Sound.initial, Few.initial⟩ ?_ ?_
  · rintro ⟨s, g⟩ act ⟨s', g'⟩ ⟨hsnd, hfew⟩ - hstep
    obtain ⟨hs, -⟩ := Run.noted_ok hstep
    exact ⟨hsnd.step hs, hfew.step hsnd hs⟩
  · rintro ⟨s, g⟩ act ⟨-, hfew⟩ hcheck
    exact unparted_of_check hfew hcheck

/-- Main is preempted, and the uthread it created fails to join itself. -/
def othersFail : List Act := [.preempt 0] ++ scheds 0 8 ++ calls 0 (.join 1 none) 1 ++ calls 0 .yield 2 ++ scheds 0 2

/-- Main is about to read from a descriptor that has nothing to read. -/
def aboutToRead : List Act := boot ++ calls 0 (.io ⟨.read, 5, 1, 0⟩) 2

def readLate : List Act := aboutToRead ++ othersFail ++ [.stmt 0 {ret := -1, errno := .eagain}]

def readEarly : List Act := aboutToRead ++ [.stmt 0 {ret := -1, errno := .eagain}] ++ othersFail

theorem readLate_sees_eagain : ∃ x s', Erring.Reaches Unparted x ∧ (x.1.sched 0).curUthread = some 0 ∧
    (x.1.ut 0).ctx = .io ⟨.read, 5, 1, 0⟩ (.test (-1)) ∧ step x.1 (.stmt 0 {}) = .ok s' ∧
    (x.1.sched 0).errno = x.2 0 ∧
    ((s'.ut 0).ctx = IoCall.onError ⟨.read, 5, 1, 0⟩ (x.2 0) ∨
      ((s'.ut 0).ctx = .io ⟨.read, 5, 1, 0⟩ (.retest (-1)) ∧ x.2 0 = .eagain)) := by
  have hread : ((Run.checked (Run.noted step noteError) (fun x => unpartedCheck x.1) (init, fun _ => .ok)
      readLate).bind fun x => (step x.1 (.stmt 0 {})).toOption.map fun _ =>
        ((x.1.sched 0).curUthread, (x.1.ut 0).ctx)) =
      some (some 0, .io ⟨.read, 5, 1, 0⟩ (.test (-1))) := by decide +kernel
  obtain ⟨x, hx, hread⟩ := Option.bind_eq_some_iff.mp hread
  obtain ⟨s', hs', hread⟩ := Option.map_eq_some_iff.mp hread
  simp only [Prod.mk.injEq] at hread
  obtain ⟨hc, hctx⟩ := hread
  have hreach := reaches_of_unpartedChecks hx
  have hs := ok_of_toOption hs'
  exact ⟨x, s', hreach, hc, hctx, hs, error_is_own hreach hc hctx (.inl rfl) hs⟩

/-- Preempted after the call, main finds the error of the other uthread, and gives up. -/
theorem readEarly_sees_edeadlk : ∃ x s', Run.run (Run.noted step noteError) (init, fun _ => .ok) readEarly = .ok x ∧
    (x.1.sched 0).curUthread = some 0 ∧ (x.1.ut 0).ctx = .io ⟨.read, 5, 1, 0⟩ (.test (-1)) ∧
    step x.1 (.stmt 0 {}) = .ok s' ∧ x.2 0 = .eagain ∧ (x.1.sched 0).errno = .edeadlk ∧
    (s'.ut 0).ctx = .user ∧ IoCall.onError ⟨.read, 5, 1, 0⟩ .eagain = .register ⟨.read, 5, 1, 0⟩ .ctl := by
  have hread : ((Run.run (Run.noted step noteError) (init, fun _ => .ok) readEarly).toOption.bind fun x =>
        (step x.1 (.stmt 0 {})).toOption.map fun s' =>
        (decide ((x.1.sched 0).curUthread = some 0 ∧ (x.1.ut 0).ctx = .io ⟨.read, 5, 1, 0⟩ (.test (-1))),
          decide (x.2 0 = .eagain ∧ (x.1.sched 0).errno = .edeadlk ∧ (s'.ut 0).ctx = .user))) =
      some (true, true) := by decide +kernel
  obtain ⟨x, hx, hread⟩ := Option.bind_eq_some_iff.mp hread
  obtain ⟨s', hs', hread⟩ := Option.map_eq_some_iff.mp hread
  simp only [Prod.mk.injEq, decide_eq_true_eq] at hread
  obtain ⟨⟨hc, hctx⟩, he, he', huser⟩ := hread
  exact ⟨x, s', ok_of_toOption hx, hc, hctx, ok_of_toOption hs', he, he', huser, rfl⟩

end UthreadRuntime
