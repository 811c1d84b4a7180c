import UthreadRuntime.Hook.OneShot
import UthreadRuntime.Placement.Partition
import UthreadRuntime.Safety.Errors
import UthreadRuntime.Safety.Marks

/-! The socket calls of the runtime are runs of their bodies.

`uthread_accept`, `uthread_connect`, `uthread_read` and `uthread_write` are here twice: as
statements of a uthread that is preempted, put to sleep and woken among others, and as bodies that
run alone on given answers. A uthread that makes such a call does what the body does when the
kernel answers it as it answered the uthread, a wait being one statement. What is known of the
bodies is then known of the calls in any run. -/
namespace UthreadRuntime

open State Placement

def IoKind.entry : IoKind → Hook.Entry
  | .accept => .accept
  | .connect => .connect
  | .read => .read
  | .write => .write

/-- The body of the call. -/
def IoKind.body (k : IoKind) : Hook.Wrapper := k.entry.wrapper

def IoCall.args (c : IoCall) : Hook.Args := {fd := c.fd, length := c.length}

/-- The activation of the body. -/
def IoCall.frame (c : IoCall) (pc : Hook.BodyAt) : Hook.Frame := {args := c.args, done := c.sent, pc := pc}

/-- The statement of its body at which a uthread stands; both looks at an error are one of them,
and so is a wait. -/
def Ctx.bodyAt : Ctx → Option (IoCall × Hook.BodyAt)
  | .io c .head => some (c, .head)
  | .io c .fcntl => some (c, .fcntl)
  | .io c .sys => some (c, .call)
  | .io c (.test ret) => some (c, .test ret)
  | .io c (.retest ret) => some (c, .test ret)
  | .io c .after => some (c, .after)
  | .register c _ => some (c, .register)
  | .sleep (.event c) _ => some (c, .register)
  | _ => none

/-- The uthread stands where the body does, which sees the marks it will find. -/
structure Stands (s : State) (u : UId) (c : IoCall) (pc : Hook.BodyAt) (w : Hook.World) : Prop where
  ctx : (s.ut u).ctx.bodyAt = some (c, pc)
  seen : pc ≠ .register → w.fdeof = (s.ut u).marks.fdeof ∧ w.expired = (s.ut u).marks.expired
  kept : (w.fdeof = true → (s.ut u).marks.fdeof = true) ∧ (w.expired = true → (s.ut u).marks.expired = true)
  error : (s.ut u).ctx.testsErrno = true → ∃ a, (s.sched a).curUthread = some u ∧ (s.sched a).errno = w.errno
  twice : ∀ ret, (s.ut u).ctx = .io c (.retest ret) → (c.kind = .read ∨ c.kind = .write ∧ ret < 0) ∧
    (ret = -1 → w.errno = .eagain)

/-- What the kernel may return to the call. -/
def IoCall.Returns (c : IoCall) (n : Int) : Prop :=
  -1 ≤ n ∧ n ≤ Hook.intMax ∧ (c.kind = .write → n ≤ ((c.length - c.sent : Nat) : Int))

instance (c : IoCall) (n : Int) : Decidable (c.Returns n) :=
  inferInstanceAs (Decidable (-1 ≤ n ∧ n ≤ Hook.intMax ∧ (c.kind = .write → n ≤ ((c.length - c.sent : Nat) : Int))))

/-- The runs in which the calls can be told from their bodies: no wait is disturbed while it is
published, no failed call parted from the tests of its error, and the kernel returns what it may. -/
structure Steady (s : State) (act : Act) : Prop where
  calm : Calm s act
  preempts : ∀ a u, act = .preempt a → (s.sched a).curUthread = some u → (s.ut u).ctx.testsErrno = false
  returns : ∀ a u c r, act = .stmt a r → (s.sched a).curUthread = some u → (s.ut u).ctx = .io c .sys →
    c.Returns r.ret

/-! ### What the others do -/

section Others

variable {s s' : State} {a : SId} {u v : UId} {c : IoCall} {pc : Hook.BodyAt} {w : Hook.World} {r : Reply}

theorem Ctx.mode_of_bodyAt {k : Ctx} (h : k.bodyAt = some (c, pc)) (hpc : pc ≠ .register) : k.mode = .free := by
  cases k with
  | io c pc => rfl
  | register c' k' =>
    cases h
    exact absurd rfl hpc
  | sleep w k' =>
    cases w with
    | event c' =>
      cases h
      exact absurd rfl hpc
    | join t r => cases h
  | _ => cases h

/-- A uthread in a tree waits. -/
theorem Placement.Inv.register_of_linked (h : Inv s.board) {q : PId}
    (hm : u ∈ (s.p q).sleeping ∨ u ∈ (s.p q).waiting) (hat : (s.ut u).ctx.bodyAt = some (c, pc)) :
    pc = .register := by
  by_contra hpc
  have hmode : (s.board.task u).mode = .free := Ctx.mode_of_bodyAt hat hpc
  rcases hm with hm | hm
  · obtain ⟨hlive, -, hin | ⟨g, hin⟩⟩ := h.sleeping_iff.mp hm
    · have hwf := h.wf hlive
      simp only [Task.Wf, hmode] at hwf
      rw [hwf.1] at hin
      cases hin
    · rw [hmode] at hin
      cases hin
  · obtain ⟨-, -, fd, e, hw⟩ := h.waiting_mem hm
    simp [Task.WaitsFor, hmode] at hw

theorem handleEvent_resumed_linked {fd : Int} {ev : UthreadEvent} {eof : Bool} {k : SchedAt}
    (hs : handleEvent a fd ev eof k s = .ok s') (hc : (s.sched a).curUthread = none)
    (hcur : (s'.sched a).curUthread = some u) : ∃ q, u ∈ (s.p q).waiting := by
  rcases handleEvent_ok hs with ⟨s₁, hd, rfl⟩ | ⟨u', s₁, s₂, hd, -, -, rfl⟩
  · unfold setPc at hcur
    rw [setSched_sched_self, (Aside.deschedEvent hd).sched, hc] at hcur
    cases hcur
  · rw [uthreadResume_cur] at hcur
    cases hcur
    obtain ⟨q, -, hfound, -⟩ := uthreadDeschedEvent_ok hd
    exact ⟨q, (Tree.find_eq_some hfound).1⟩

/-- The scheduler marks those it takes out of a tree. -/
theorem SchedStep.linked_of_marked (h : Sound s) (hs : SchedStep a r s s') (hc : (s.sched a).curUthread = none)
    (hnew : (s.ut v).marks.new = false) (hne : (s'.ut v).marks ≠ (s.ut v).marks) :
    ∃ q, v ∈ (s.p q).sleeping ∨ v ∈ (s.p q).waiting := by
  have hevent : ∀ {t : State} {fd : Int} {ev : UthreadEvent} {eof : Bool} {k : SchedAt}, Sound t →
      t.ut = s.ut → (t.sched a).curUthread = none → (∀ q, (t.p q).waiting = (s.p q).waiting) →
      handleEvent a fd ev eof k t = .ok s' → ∃ q, v ∈ (s.p q).sleeping ∨ v ∈ (s.p q).waiting := by
    intro t fd ev eof k ht hut hct hp hhandle
    rcases handleEvent_marks ht hhandle with ⟨hm, -⟩ | ⟨u, hcur, -, hm⟩
    · refine absurd ?_ hne
      rw [hm v, hut]
    · by_cases hv : v = u
      · subst hv
        obtain ⟨q, hq⟩ := handleEvent_resumed_linked hhandle hct hcur
        rw [hp] at hq
        exact ⟨q, .inr hq⟩
      · refine absurd ?_ hne
        rw [hm v, if_neg hv, hut]
  cases hs with
  | goes _ | noPoll _ _ | polled _ _ _ | halted _ | another _ _ => exact absurd rfl hne
  | @expired q u s₁ s₂ _ _ hmin _ hcancel hsl =>
    by_cases hv : v = u
    · subst hv
      exact ⟨q, .inl (Tree.min_mem hmin)⟩
    · refine absurd ?_ hne
      rw [uthreadResume_marks, if_neg hv, ← (SameMarks.cancelEvent hcancel).trans (SameMarks.deschedSleep hsl) v]
      unfold notedExpiry
      rw [setUt_ut, if_neg hv]
  | @ready q u rest last _ hq hr =>
    refine absurd ?_ hne
    rw [uthreadResume_marks]
    split
    · rename_i hv
      subst hv
      exact Marks.resumed_of_run hnew
    · rfl
  | @took q e _ _ hq _ _ he =>
    refine hevent (h.tookEvent (h.busy_of_p hq) q e).1 (tookEvent_ut a q e s) ?_ (fun q' => ?_) he
    · rw [tookEvent_cur, hc]
    · have hset : ((s.setP q fun v => {v with numNewEvents := v.numNewEvents - 1, taken := v.taken ++ [e]}).p
          q').waiting = (s.p q').waiting := setP_keeps P.waiting rfl q'
      unfold tookEvent markConsumed
      dsimp only
      split <;> exact hset
  | handled _ he => exact hevent h rfl hc (fun _ => rfl) he

end Others

/-! ### What the uthread does -/

/-- History of the socket call of a uthread: the marks and the error it began with, and what the
kernel has returned to it since. -/
structure Doing where
  world : Hook.World := {}
  results : List Int := []

def worldOf (s : State) (a : SId) (u : UId) : Hook.World where
  fdeof := (s.ut u).marks.fdeof
  expired := (s.ut u).marks.expired
  errno := (s.sched a).errno

/-- The kernel returns to the body what it may return to the call. -/
def IoKind.Answers (k : IoKind) (y : Hook.Traced) (r : Hook.Answer) : Prop :=
  y.1.1.pc = .call → -1 ≤ r.ret ∧ r.ret ≤ Hook.intMax ∧ (k = .write → r.ret ≤ (k.body.args y.1.1).length)

/-- A run of the body of the call, alone, that has got the results of `d`. -/
def IoCall.Does (c : IoCall) (d : Doing) (y : Hook.Traced) : Prop :=
  Run.Reaches (Hook.tracedStep c.kind.body) c.kind.Answers (Hook.traced c.args d.world) y ∧
    y.2.map Prod.snd = d.results

/-- The uthread is inside the call, where a run of the body stands. -/
def Inside (s : State) (u : UId) (c : IoCall) (d : Doing) : Prop :=
  ∃ n pc w t, c.Does d ((({c with sent := n} : IoCall).frame pc, w), t) ∧ Stands s u {c with sent := n} pc w

/-- The call has returned what a run of the body returns. -/
def Outside (s : State) (u : UId) (c : IoCall) (d : Doing) : Prop :=
  (s.ut u).ctx = .user ∧ ∃ y r v w' e, c.Does d y ∧
    Hook.tracedStep c.kind.body y r = .error (.returned v w') ∧ (s.ut u).hist.result = some (v, e)

section Body

variable {x : Hook.Wrapper} {c : IoCall} {d : Doing} {f f' : Hook.Frame} {w w' : Hook.World} {t : Hook.Trace}
  {r : Hook.Answer} {v : Int}

/-- A statement of the body that is no inner call. -/
theorem quiet_step (hpc : f.pc ≠ .call)
    (h : Hook.bodyStep x (f, w) {r with ret := x.reads r.ret} = .ok (f', w')) :
    Hook.tracedStep x ((f, w), t) r = .ok ((f', w'), t) := by
  simp [Hook.tracedStep, Run.noted, Hook.streamStep, Hook.noteCall, h, hpc]

theorem last_step (h : Hook.bodyStep x (f, w) {r with ret := x.reads r.ret} = .error (.returned v w')) :
    Hook.tracedStep x ((f, w), t) r = .error (.returned v w') := by
  simp [Hook.tracedStep, Run.noted, Hook.streamStep, h]

theorem IoCall.Does.quiet {pc : Hook.BodyAt} {n : Nat} (h : c.Does d ((({c with sent := n} : IoCall).frame pc, w), t))
    (hpc : pc ≠ .call) (hs : Hook.bodyStep c.kind.body (({c with sent := n} : IoCall).frame pc, w)
      {r with ret := c.kind.body.reads r.ret} = .ok (f', w')) : c.Does d ((f', w'), t) :=
  ⟨.next h.1 (fun hcall => absurd hcall hpc) (quiet_step hpc hs), h.2⟩

end Body

theorem IoKind.body_read : IoKind.read.body = Hook.uthreadRead := rfl

theorem IoKind.body_write : IoKind.write.body = Hook.uthreadWrite := rfl

theorem IoKind.verdict_accept : IoKind.accept.body.verdict = Hook.acceptVerdict := rfl

theorem IoKind.verdict_connect : IoKind.connect.body.verdict = Hook.connectVerdict := rfl

theorem IoKind.verdict_read : IoKind.read.body.verdict = Hook.readVerdict := rfl

theorem IoKind.verdict_write : IoKind.write.body.verdict = Hook.countVerdict := rfl

section Statements

variable {s s' s₀ : State} {a : SId} {u : UId} {c : IoCall} {d : Doing} {pc pc' : Hook.BodyAt} {w w' : Hook.World}
  {t : Hook.Trace} {k : Ctx} {r : Reply} {n : Nat}

/-- The uthread goes on, and so does the body, which sees the same marks. -/
theorem Stands.goto (h : Stands s u c pc w) (hpc : pc ≠ .register) (hut : s₀.ut = s.ut)
    (hk : k.bodyAt = some ({c with sent := n}, pc')) (hw : w'.fdeof = w.fdeof ∧ w'.expired = w.expired)
    (herr : k.testsErrno = true → ∃ a, (s₀.sched a).curUthread = some u ∧ (s₀.sched a).errno = w'.errno)
    (htwice : ∀ ret, k = .io {c with sent := n} (.retest ret) →
      (c.kind = .read ∨ c.kind = .write ∧ ret < 0) ∧ (ret = -1 → w'.errno = .eagain)) :
    Stands (goto u k s₀) u {c with sent := n} pc' w' := by
  have hmarks : ((UthreadRuntime.goto u k s₀).ut u).marks = (s.ut u).marks := by
    rw [SameMarks.goto u k s₀ u, hut]
  obtain ⟨hf, he⟩ := h.seen hpc
  refine ⟨by rwa [goto_ctx], fun _ => ?_, ?_, fun ht => ?_, fun ret hret => ?_⟩
  · rw [hmarks, hw.1, hw.2]
    exact ⟨hf, he⟩
  · rw [hmarks, hw.1, hw.2, hf, he]
    exact ⟨id, id⟩
  · rw [goto_ctx] at ht
    exact herr ht
  · rw [goto_ctx] at hret
    exact htwice ret hret

theorem Outside.returns {y : Hook.Traced} {q : Hook.Answer} {v : Int} (hdoes : c.Does d y)
    (hend : Hook.tracedStep c.kind.body y q = .error (.returned v w')) :
    Outside (returns a u v s₀) u c d := by
  refine ⟨returns_ctx v, y, q, v, w', (s₀.sched a).errno, hdoes, hend, ?_⟩
  unfold UthreadRuntime.returns
  rw [setUt_ut_self]

theorem Ctx.bodyAt_of_testsErrno (h : k.testsErrno = true) : ∃ c ret, k.bodyAt = some (c, .test ret) := by
  cases k with
  | io c pc =>
    cases pc with
    | test ret | retest ret => exact ⟨c, ret, rfl⟩
    | _ => cases h
  | _ => cases h

/-- The uthread goes on to no test of a result. -/
theorem Stands.goes (h : Stands s u c pc w) (hpc : pc ≠ .register) (hut : s₀.ut = s.ut)
    (hk : k.bodyAt = some ({c with sent := n}, pc')) (hpc' : ∀ ret, pc' ≠ .test ret)
    (hw : w'.fdeof = w.fdeof ∧ w'.expired = w.expired) : Stands (UthreadRuntime.goto u k s₀) u {c with sent := n} pc' w' := by
  refine h.goto hpc hut hk hw (fun ht => ?_) fun ret hret => ?_
  · obtain ⟨c', ret, hat⟩ := Ctx.bodyAt_of_testsErrno ht
    cases hk.symm.trans hat
    exact absurd rfl (hpc' ret)
  · rw [hret] at hk
    cases hk
    exact absurd rfl (hpc' ret)

/-- The head of the loop. -/
theorem Inside.head (h : Stands s u c .head w) (hdoes : c.Does d ((c.frame .head, w), t)) :
    Inside (ioHeadStmt a u c s) u c d ∨ Outside (ioHeadStmt a u c s) u c d := by
  have hfd : w.fdeof = (s.ut u).status.has .fdeof := (h.seen nofun).1
  have hgoes : ∀ {k pc'}, k.bodyAt = some (c, pc') → (∀ ret, pc' ≠ .test ret) →
      Hook.bodyStep c.kind.body (c.frame .head, w) {} = .ok (c.frame pc', w) → Inside (goto u k s) u c d :=
    fun hk hpc hbody => ⟨c.sent, _, w, t, hdoes.quiet (r := {}) nofun hbody, h.goes nofun rfl hk hpc ⟨rfl, rfl⟩⟩
  have hends : ∀ {v : Int}, Hook.bodyStep c.kind.body (c.frame .head, w) {} = .error (.returned v w) →
      Outside (returns a u v s) u c d := fun hbody => Outside.returns (q := {}) hdoes (last_step hbody)
  obtain ⟨kind, fd, length, sent⟩ := c
  unfold ioHeadStmt
  cases kind with
  | accept | connect => exact .inl (hgoes rfl nofun rfl)
  | read =>
    dsimp only
    split
    · rename_i hf
      exact .inr (hends (by simp [Hook.bodyStep, Hook.headStmt, IoCall.frame, IoKind.body_read, Hook.uthreadRead, hfd, hf]))
    · rename_i hf
      exact .inl (hgoes rfl nofun (by simp [Hook.bodyStep, Hook.headStmt, IoCall.frame, IoKind.body_read, Hook.uthreadRead, hfd, hf]))
  | write =>
    dsimp only
    split
    · rename_i hall
      exact .inr (hends (by simp [Hook.bodyStep, Hook.headStmt, IoCall.frame, IoCall.args, IoKind.body_write, Hook.uthreadWrite, hall]))
    · rename_i hmore
      split
      · rename_i hf
        exact .inr (hends (by simp [Hook.bodyStep, Hook.headStmt, IoCall.frame, IoCall.args, IoKind.body_write, Hook.uthreadWrite, hmore, hfd, hf]))
      · rename_i hf
        exact .inl (hgoes rfl nofun
          (by simp [Hook.bodyStep, Hook.headStmt, IoCall.frame, IoCall.args, IoKind.body_write, Hook.uthreadWrite, hmore, hfd, hf]))

/-- The system call: the body is told what it has returned, and reads it as it is. -/
theorem Inside.sys (h : Stands s u c .call w) (hdoes : c.Does d ((c.frame .call, w), t))
    (hc : (s.sched a).curUthread = some u) (hret : c.Returns r.ret) :
    Inside (goto u (.io c (.test r.ret)) (if r.ret = -1 then setErrno a r.errno s else s)) u c
      {d with results := d.results ++ [r.ret]} := by
  obtain ⟨hlow, hhigh, hlen⟩ := hret
  have hreads : c.kind.body.reads r.ret = r.ret := Hook.reads_of_le hlow hhigh
  have hanswered : Hook.answered c.kind.body w {ret := r.ret, errno := r.errno} =
      if r.ret = -1 then {w with errno := r.errno} else w := by
    cases c.kind <;> rfl
  have hrest : c.kind = .write → (c.kind.body.args (c.frame .call)).length = c.length - c.sent := by
    intro hk
    rw [hk]
    rfl
  have hw : (if r.ret = -1 then {w with errno := r.errno} else w).fdeof = w.fdeof ∧
      (if r.ret = -1 then {w with errno := r.errno} else w).expired = w.expired := by
    split <;> exact ⟨rfl, rfl⟩
  refine ⟨c.sent, .test r.ret, if r.ret = -1 then {w with errno := r.errno} else w,
    t ++ [(c.kind.body.args (c.frame .call), r.ret)], ⟨.next hdoes.1 (a := {ret := r.ret, errno := r.errno})
      (fun _ => ⟨hlow, hhigh, fun hk => ?_⟩) ?_, ?_⟩, h.goto nofun ?_ rfl hw (fun ht => ⟨a, ?_⟩) nofun⟩
  · dsimp only
    rw [hrest hk]
    exact hlen hk
  · unfold Hook.tracedStep Run.noted Hook.streamStep Hook.noteCall Hook.bodyStep
    dsimp only [IoCall.frame]
    rw [hreads, hanswered]
    rfl
  · rw [List.map_append, hdoes.2]
    rfl
  · split <;> rfl
  · have hret : r.ret = -1 := by simpa [Ctx.testsErrno] using ht
    rw [if_pos hret, if_pos hret]
    simp [setErrno, hc]

/-- The descriptor of a read is made non-blocking. -/
theorem Inside.fcntl (h : Stands s u c .fcntl w) (hdoes : c.Does d ((c.frame .fcntl, w), t)) :
    Inside (goto u (.io c .sys) s) u c d :=
  ⟨c.sent, .call, w, t, hdoes.quiet (r := {}) nofun rfl, h.goes nofun rfl rfl nofun ⟨rfl, rfl⟩⟩

/-- The next turn of the loop: for `uthread_accept` and `uthread_connect` its head has nothing to do. -/
theorem Inside.loop (h : Stands s u c pc w) (hpc : pc ≠ .register) (hdoes : c.Does d ((c.frame .head, w), t)) :
    Inside (goto u c.loop s) u c d := by
  obtain ⟨kind, fd, length, sent⟩ := c
  cases kind with
  | accept | connect =>
    exact ⟨sent, .call, w, t, hdoes.quiet (r := {}) nofun rfl, h.goes hpc rfl rfl nofun ⟨rfl, rfl⟩⟩
  | read | write => exact ⟨sent, .head, w, t, hdoes, h.goes hpc rfl rfl nofun ⟨rfl, rfl⟩⟩

/-- What the tests of a result lead to, on both sides. -/
theorem Inside.verdict {ret : Int} (h : Stands s u c (.test ret) w)
    (hdoes : c.Does d ((c.frame (.test ret), w), t)) :
    (∀ v, c.kind.body.verdict (c.frame (.test ret)) ret w.errno = .returns v → Outside (returns a u v s) u c d) ∧
    (c.kind.body.verdict (c.frame (.test ret)) ret w.errno = .waits → Inside (goto u (.register c .ctl) s) u c d) ∧
    (c.kind.body.verdict (c.frame (.test ret)) ret w.errno = .again (c.frame (.test ret)) →
      Inside (goto u c.loop s) u c d) ∧
    ∀ m, c.kind.body.verdict (c.frame (.test ret)) ret w.errno = .again (({c with sent := m} : IoCall).frame (.test ret)) →
      Inside (goto u (.io {c with sent := m} .head) s) u c d := by
  have hbody : ∀ {y}, Hook.testStmt c.kind.body (c.frame (.test ret)) ret w = y →
      Hook.bodyStep c.kind.body (c.frame (.test ret), w) {} = y := id
  unfold Hook.testStmt at hbody
  refine ⟨fun v hv => ?_, fun hv => ?_, fun hv => ?_, fun m hv => ?_⟩
  · exact Outside.returns (q := {}) hdoes (last_step (hbody (by rw [hv])))
  · exact ⟨c.sent, .register, w, t, hdoes.quiet (r := {}) nofun (hbody (by rw [hv]; rfl)),
      h.goes nofun rfl rfl nofun ⟨rfl, rfl⟩⟩
  · exact Inside.loop h nofun (hdoes.quiet (r := {}) nofun (hbody (by rw [hv]; rfl)))
  · exact ⟨m, .head, w, t, hdoes.quiet (r := {}) nofun (hbody (by rw [hv]; rfl)),
      h.goes nofun rfl rfl nofun ⟨rfl, rfl⟩⟩

/-- The tests of a result, up to the first look at `errno`. -/
theorem Inside.test {ret : Int} (h : Stands s u c (.test ret) w) (hdoes : c.Does d ((c.frame (.test ret), w), t))
    (hc : (s.sched a).curUthread = some u) (he : ret = -1 → (s.sched a).errno = w.errno) :
    Inside (ioTestStmt a u c ret s) u c d ∨ Outside (ioTestStmt a u c ret s) u c d := by
  obtain ⟨hreturns, hwaits, hagain, hmoved⟩ := Inside.verdict (a := a) h hdoes
  have hretest : (c.kind = .read ∨ c.kind = .write ∧ ret < 0) → (ret = -1 → (s.sched a).errno = .eagain) →
      Inside (goto u (.io c (.retest ret)) s) u c d := by
    intro hk hagain
    refine ⟨c.sent, .test ret, w, t, hdoes, h.goto nofun rfl rfl ⟨rfl, rfl⟩ (fun ht => ?_) fun ret' hret => ?_⟩
    · have hret : ret = -1 := by simpa [Ctx.testsErrno] using ht
      exact ⟨a, hc, he hret⟩
    · cases hret
      exact ⟨hk, fun hret => (he hret).symm.trans (hagain hret)⟩
  obtain ⟨kind, fd, length, sent⟩ := c
  unfold ioTestStmt
  cases kind with
  | accept =>
    rw [IoKind.verdict_accept] at hreturns hwaits hagain
    unfold Hook.acceptVerdict at hreturns hwaits hagain
    dsimp only
    split
    · rename_i hret
      rw [he hret]
      split
      · rename_i hwait
        exact .inl (hwaits (by rw [if_pos hret, if_pos hwait]))
      · rename_i hwait
        split
        · rename_i habort
          exact .inl (hagain (by rw [if_pos hret, if_neg hwait, if_pos habort]))
        · rename_i habort
          exact .inr (hreturns _ (by rw [if_pos hret, if_neg hwait, if_neg habort]))
    · rename_i hret
      exact .inr (hreturns _ (by rw [if_neg hret]))
  | connect =>
    rw [IoKind.verdict_connect] at hreturns hwaits
    unfold Hook.connectVerdict at hreturns hwaits
    dsimp only
    split
    · rename_i hret
      rw [he hret]
      split
      · rename_i hwait
        exact .inl (hwaits (by rw [if_pos hret, if_pos hwait]))
      · rename_i hwait
        exact .inr (hreturns _ (by rw [if_pos hret, if_neg hwait]))
    · rename_i hret
      exact .inr (hreturns _ (by rw [if_neg hret]))
  | read =>
    rw [IoKind.verdict_read] at hreturns
    unfold Hook.readVerdict at hreturns
    dsimp only
    split
    · rename_i hfail
      have hfail' : ret = -1 ∧ w.errno ≠ .eagain := ⟨hfail.1, he hfail.1 ▸ hfail.2⟩
      exact .inr (hreturns _ (by rw [if_pos hfail']))
    · rename_i hno
      exact .inl (hretest (.inl rfl) fun hret => not_not.mp fun hne => hno ⟨hret, hne⟩)
  | write =>
    rw [IoKind.verdict_write] at hreturns hmoved
    unfold Hook.countVerdict at hreturns hmoved
    dsimp only
    split
    · rename_i hzero
      exact .inr (hreturns _ (by rw [if_pos hzero]; rfl))
    · rename_i hzero
      split
      · rename_i hpos
        exact .inl (hmoved _ (by rw [if_neg hzero, if_pos hpos]; rfl))
      · rename_i hpos
        split
        · rename_i hfail
          have hfail' : ret = -1 ∧ w.errno ≠ .eagain := ⟨hfail.1, he hfail.1 ▸ hfail.2⟩
          exact .inr (hreturns _ (by rw [if_neg hzero, if_neg hpos, if_pos hfail']))
        · rename_i hno
          exact .inl (hretest (.inr ⟨rfl, by omega⟩) fun hret => not_not.mp fun hne => hno ⟨hret, hne⟩)

/-- The second look at `errno`. The body has looked once for both. -/
theorem Inside.retest {ret : Int} (h : Stands s u c (.test ret) w) (hat : (s.ut u).ctx = .io c (.retest ret))
    (hdoes : c.Does d ((c.frame (.test ret), w), t)) (he : ret = -1 → (s.sched a).errno = w.errno) :
    Inside (ioRetestStmt a u c ret s) u c d ∨ Outside (ioRetestStmt a u c ret s) u c d := by
  obtain ⟨hreturns, hwaits, hagain, -⟩ := Inside.verdict (a := a) h hdoes
  obtain ⟨hkind, heagain⟩ := h.twice ret hat
  obtain ⟨kind, fd, length, sent⟩ := c
  have hfails : ¬(ret = -1 ∧ w.errno ≠ .eagain) := fun hf => hf.2 (heagain hf.1)
  have hother : ¬(ret = -1 ∧ (s.sched a).errno = .eagain) → ¬(ret = -1 ∧ w.errno = .eagain) :=
    fun hno hr => hno ⟨hr.1, (he hr.1).trans hr.2⟩
  unfold ioRetestStmt
  rcases hkind with hkind | ⟨hkind, hneg⟩ <;> cases hkind
  · rw [IoKind.verdict_read] at hreturns hwaits hagain
    unfold Hook.readVerdict at hreturns hwaits hagain
    split
    · rename_i hwait
      have hw : ret = -1 ∧ w.errno = .eagain := ⟨hwait.1, heagain hwait.1⟩
      exact .inl (hwaits (by rw [if_neg hfails, if_pos hw]))
    · rename_i hno
      have hw := hother hno
      split
      · rename_i hok
        exact .inr (hreturns _ (by rw [if_neg hfails, if_neg hw, if_pos hok.2]))
      · rename_i hbad
        have hneg : ¬0 ≤ ret := fun hr => hbad ⟨rfl, hr⟩
        exact .inl (hagain (by rw [if_neg hfails, if_neg hw, if_neg hneg]))
  · rw [IoKind.verdict_write] at hwaits hagain
    unfold Hook.countVerdict at hwaits hagain
    have hzero : ¬ret = 0 := by omega
    have hpos : ¬0 < ret := by omega
    split
    · rename_i hwait
      have hw : ret = -1 ∧ w.errno = .eagain := ⟨hwait.1, heagain hwait.1⟩
      exact .inl (hwaits (by rw [if_neg hzero, if_neg hpos, if_neg hfails, if_pos hw]))
    · rename_i hno
      rw [if_neg (fun hr => nomatch hr.1)]
      exact .inl (hagain (by rw [if_neg hzero, if_neg hpos, if_neg hfails, if_neg (hother hno)]))

/-- After the wait. -/
theorem Inside.after (h : Stands s u c .after w) (hdoes : c.Does d ((c.frame .after, w), t)) :
    Inside (ioAfterStmt a u c s) u c d ∨ Outside (ioAfterStmt a u c s) u c d := by
  have hexp : w.expired = (s.ut u).status.has .expired := (h.seen nofun).2
  have hloop : Hook.afterStmt c.kind.body (c.frame .after) w = .ok (c.frame .head, w) → Inside (goto u c.loop s) u c d :=
    fun hbody => Inside.loop h nofun (hdoes.quiet (r := {}) nofun hbody)
  have hends : ∀ {v w' s₀}, Hook.afterStmt c.kind.body (c.frame .after) w = .error (.returned v w') →
      Outside (returns a u v s₀) u c d := fun hbody => Outside.returns (q := {}) hdoes (last_step hbody)
  obtain ⟨kind, fd, length, sent⟩ := c
  unfold ioAfterStmt
  cases kind with
  | accept | write => exact .inl (hloop rfl)
  | connect | read =>
    dsimp only
    unfold Hook.afterStmt at hloop hends
    rw [← hexp]
    cases hw : w.expired with
    | true =>
      rw [hw] at hends
      exact .inr (hends rfl)
    | false =>
      rw [hw] at hloop
      exact .inl (hloop rfl)

/-- The uthread goes on in its wait. -/
theorem Stands.waits (h : Stands s u c .register w) (hk : (s'.ut u).ctx.bodyAt = some (c, .register))
    (hfd : (s.ut u).marks.fdeof = true → (s'.ut u).marks.fdeof = true)
    (hexp : (s.ut u).marks.expired = true → (s'.ut u).marks.expired = true) : Stands s' u c .register w := by
  refine ⟨hk, fun hne => absurd rfl hne, ⟨fun hw => hfd (h.kept.1 hw), fun hw => hexp (h.kept.2 hw)⟩,
    fun ht => ?_, fun ret hret => ?_⟩
  · obtain ⟨c', ret, hat⟩ := Ctx.bodyAt_of_testsErrno ht
    cases hk.symm.trans hat
  · rw [hret] at hk
    cases hk

/-- The wait is over: the body is told what the uthread finds marked. -/
theorem Inside.waited (h : Stands s u c .register w) (hdoes : c.Does d ((c.frame .register, w), t))
    (hk : (s'.ut u).ctx = .io c .after) (hfd : (s'.ut u).marks.fdeof = (s.ut u).marks.fdeof)
    (hexp : (s'.ut u).marks.expired = (s.ut u).marks.expired) : Inside s' u c d := by
  have hor : ∀ {x y : Bool}, (x = true → y = true) → (x || y) = y := by
    intro x y hxy
    cases x with
    | false => rfl
    | true => rw [hxy rfl]; rfl
  refine ⟨c.sent, .after, w.after {fdeof := (s.ut u).marks.fdeof, expired := (s.ut u).marks.expired}, t,
    hdoes.quiet (r := {fdeof := (s.ut u).marks.fdeof, expired := (s.ut u).marks.expired}) nofun rfl,
    ⟨by rw [hk]; rfl, fun _ => ?_, ?_, fun ht => ?_, fun ret hret => ?_⟩⟩
  · unfold Hook.World.after
    rw [hfd, hexp]
    exact ⟨hor h.kept.1, hor h.kept.2⟩
  · unfold Hook.World.after
    rw [hfd, hexp]
    dsimp only
    rw [hor h.kept.1, hor h.kept.2]
    exact ⟨id, id⟩
  · rw [hk] at ht
    cases ht
  · rw [hk] at hret
    cases hret

/-- A statement of a wait leads to the next one of it, or out of it. -/
theorem Stmt.of_register (hs : Stmt a u r s s') (hat : (s.ut u).ctx.bodyAt = some (c, .register)) :
    (s'.ut u).ctx.bodyAt = some (c, .register) ∨ (s'.ut u).ctx = .io c .after := by
  cases hs with
  | @own k k' f hctx hown =>
    rw [goto_ctx]
    rw [hctx] at hat
    cases hown with
    | wake w =>
      cases w with
      | event c' => exact .inl hat
      | join t v => cases hat
    | unstatus c' =>
      cases hat
      exact .inr rfl
    | status | key | unkey => exact .inl hat
    | clock w | mark w | flag w | sleepYield w => cases w <;> exact .inl hat
    | yieldFlag | exitMark | exitYield => cases hat
  | @linkSleeping w q t hctx _ _ =>
    rw [goto_ctx]
    rw [hctx] at hat
    cases w <;> exact .inl hat
  | watch hctx _ _ | linkWaiting hctx _ =>
    rw [goto_ctx]
    rw [hctx] at hat
    exact .inl hat
  | @switch k k' s' hctx hsw hswitched =>
    rw [(AllSeen.switched hswitched u).ctx, goto_ctx]
    rw [hctx] at hat
    cases hsw with
    | sleep w => cases w <;> exact .inl hat
    | yield | exit => cases hat
  | moves hm =>
    generalize (s.ut u).ctx = k at hm hat
    cases hm <;> cases hat
  | @io c' pc k' s₀ hctx _ _ | @ioReturns c' pc v s₀ hctx _ =>
    rw [hctx] at hat
    cases pc <;> cases hat
  | joinFails hctx | joinExited hctx _ | publish hctx | setRetval hctx | unpublish hctx | resetRetval hctx
  | joinFree hctx | store hctx | lock hctx _ | count hctx | unlock hctx | created hctx _ | diskFlag hctx _
  | handOff hctx _ _ _ | diskCall hctx _ =>
    rw [hctx] at hat
    cases hat
  | allocFails hctx _ =>
    rcases hctx with ⟨_, hctx⟩ | ⟨_, _, hctx⟩ <;> rw [hctx] at hat <;> cases hat

end Statements

end UthreadRuntime
