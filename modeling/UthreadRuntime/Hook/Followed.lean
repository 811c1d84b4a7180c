import UthreadRuntime.Hook.Calls

/-! The socket calls in runs.

A uthread in a socket call stands where the body does after its own statements, as each of them is
one of the body or none, and while others act, as none of them marks it unless it waits. What a
call returns to its uthread is then read off the bodies. -/
namespace UthreadRuntime

open State Placement

/-! ### Steps -/

section Steps

variable {s s' : State} {act : Act} {u v : UId} {c : IoCall} {d : Doing} {pc : Hook.BodyAt} {w : Hook.World}

/-- Only the scheduler marks what a socket call looks at. -/
theorem step_flags (h : Sound s) (hs : step s act = .ok s') (hv : v < s.heap) (hns : ∀ a r, act ≠ .sched a r) :
    (s'.ut v).marks.fdeof = (s.ut v).marks.fdeof ∧ (s'.ut v).marks.expired = (s.ut v).marks.expired := by
  have hm := step_marks h hs hv
  generalize (s'.ut v).marks = m at hm ⊢
  cases hm with
  | resumed | expired | event => exact absurd rfl (hns _ _)
  | _ => exact ⟨rfl, rfl⟩

/-- It takes back no mark of a uthread that has run. -/
theorem step_flags_kept (h : Sound s) (hs : step s act = .ok s') (hv : v < s.heap) (hnew : (s.ut v).marks.new = false) :
    ((s.ut v).marks.fdeof = true → (s'.ut v).marks.fdeof = true) ∧
      ((s.ut v).marks.expired = true → (s'.ut v).marks.expired = true) := by
  have hm := step_marks h hs hv
  generalize (s'.ut v).marks = m at hm ⊢
  cases hm with
  | resumed =>
    rw [Marks.resumed_of_run hnew]
    exact ⟨id, id⟩
  | expired _ _ => exact ⟨id, fun _ => rfl⟩
  | event _ _ _ => exact ⟨fun hf => by simp [hf], id⟩
  | _ => exact ⟨id, id⟩

theorem Sound.run_of_bodyAt (h : Sound s) (hv : v < s.heap) (hat : (s.ut v).ctx.bodyAt = some (c, pc)) :
    (s.ut v).marks.new = false := by
  rw [Bool.eq_false_iff]
  intro hnew
  rw [((h.ut v hv).new hnew).1] at hat
  cases hat

/-- A uthread that is about to test an error keeps its thread, which does nothing else. -/
theorem Steady.other_thread (h : Steady s act) (hs : step s act = .ok s') {a : SId}
    (hc : (s.sched a).curUthread = some v) (ht : (s.ut v).ctx.testsErrno = true)
    (hno : ∀ a r, act = .stmt a r → (s.sched a).curUthread ≠ some v) : a ≠ act.thread := by
  rintro rfl
  cases act with
  | call b k =>
    cases step_ok hs with
    | call hc' huser _ =>
      cases hc.symm.trans hc'
      rw [huser] at ht
      cases ht
  | stmt b r => exact hno b r rfl hc
  | preempt b =>
    rw [h.preempts b v rfl hc] at ht
    cases ht
  | sched b r =>
    cases step_ok hs with
    | sched hc' _ => cases hc.symm.trans hc'

/-- While others act, a uthread in a socket call stands where it stood. -/
theorem Stands.others (h : Stands s v c pc w) (hsnd : Sound s) (hinv : Inv s.board) (hsteady : Steady s act)
    (hs : step s act = .ok s') (hv : v < s.heap)
    (hno : ∀ a r, act = .stmt a r → (s.sched a).curUthread ≠ some v) (hsame : SameCall (s.ut v) (s'.ut v)) :
    Stands s' v c pc w := by
  have hnew := hsnd.run_of_bodyAt hv h.ctx
  obtain ⟨hfd, hexp⟩ := step_flags_kept hsnd hs hv hnew
  refine ⟨hsame.ctx ▸ h.ctx, fun hpc => ?_, ⟨fun hw => hfd (h.kept.1 hw), fun hw => hexp (h.kept.2 hw)⟩,
    fun ht => ?_, fun ret hret => h.twice ret (hsame.ctx ▸ hret)⟩
  · have hkeeps : (s'.ut v).marks.fdeof = (s.ut v).marks.fdeof ∧ (s'.ut v).marks.expired = (s.ut v).marks.expired := by
      by_cases hsched : ∃ a r, act = .sched a r
      · obtain ⟨a, r, rfl⟩ := hsched
        cases step_ok hs with
        | sched hc hsched =>
          by_cases hm : (s'.ut v).marks = (s.ut v).marks
          · rw [hm]
            exact ⟨rfl, rfl⟩
          · obtain ⟨q, hq⟩ := hsched.linked_of_marked hsnd hc hnew hm
            exact absurd (hinv.register_of_linked hq h.ctx) hpc
      · exact step_flags hsnd hs hv fun a r hact => hsched ⟨a, r, hact⟩
    rw [hkeeps.1, hkeeps.2]
    exact h.seen hpc
  · rw [hsame.ctx] at ht
    obtain ⟨a, hc, he⟩ := h.error ht
    have hne := hsteady.other_thread hs hc ht hno
    exact ⟨a, (step_cur hs hne).trans hc, (step_errno hs hne).trans he⟩

/-- What the action adds to the history of the uthread that takes it. -/
def Doing.news (s : State) (g : UId → Doing) : Act → Option (UId × Doing)
  | .call a (.io _) => (s.sched a).curUthread.map fun u => (u, {world := worldOf s a u})
  | .stmt a r => (s.sched a).curUthread.bind fun u =>
    match (s.ut u).ctx with
    | .io _ .sys => some (u, {g u with results := (g u).results ++ [r.ret]})
    | _ => none
  | _ => none

/-- History: what each uthread has been answered since its last socket call began. -/
def noteDoing (s : State) (act : Act) (_ : State) (g : UId → Doing) : UId → Doing :=
  match Doing.news s g act with
  | none => g
  | some x => Function.update g x.1 x.2

theorem noteDoing_of_ne {g : UId → Doing}
    (hcall : ∀ a k, act = .call a (.io k) → (s.sched a).curUthread ≠ some v)
    (hstmt : ∀ a r k, act = .stmt a r → (s.ut v).ctx = .io k .sys → (s.sched a).curUthread ≠ some v) :
    noteDoing s act s' g v = g v := by
  have hnews : ∀ x, Doing.news s g act = some x → v ≠ x.1 := by
    rintro x hx rfl
    unfold Doing.news at hx
    split at hx
    · obtain ⟨u, hc, rfl⟩ := Option.map_eq_some_iff.mp hx
      exact hcall _ _ rfl hc
    · obtain ⟨u, hc, hx⟩ := Option.bind_eq_some_iff.mp hx
      split at hx
      · rename_i k hk
        cases hx
        exact hstmt _ _ k rfl hk hc
      · cases hx
    · cases hx
  unfold noteDoing
  cases hn : Doing.news s g act with
  | none => rfl
  | some x => exact Function.update_of_ne (hnews x hn) _ _

/-- The statement of a uthread that is inside a socket call. -/
theorem Inside.stmt {a : SId} {r : Reply} {g : UId → Doing} (h : Inside s u c (g u)) (hsnd : Sound s) (hinv : Inv s.board)
    (hsteady : Steady s (.stmt a r)) (hc : (s.sched a).curUthread = some u) (hs : step s (.stmt a r) = .ok s') :
    Inside s' u c (noteDoing s (.stmt a r) s' g u) ∨ Outside s' u c (noteDoing s (.stmt a r) s' g u) := by
  have hu := (hsnd.cur hc).1
  obtain ⟨n, pc, w, t, hdoes, hst⟩ := h
  have hrun := hs
  rw [step_stmt (not_halted_of_step hs) hc] at hrun
  have hat := hst.ctx
  have hother : (∀ k, (s.ut u).ctx ≠ .io k .sys) → noteDoing s (.stmt a r) s' g u = g u :=
    fun hne => noteDoing_of_ne (fun _ _ hact => nomatch hact) fun _ _ k _ hk => absurd hk (hne k)
  have herr : ∀ ret, ((s.ut u).ctx = .io {c with sent := n} (.test ret) ∨
      (s.ut u).ctx = .io {c with sent := n} (.retest ret)) → ret = -1 → (s.sched a).errno = w.errno := by
    rintro ret hk rfl
    obtain ⟨b, hb, he⟩ := hst.error (by rcases hk with hk | hk <;> rw [hk] <;> rfl)
    rw [hinv.cur_inj (b := s.board) hc hb]
    exact he
  have hnews : ∀ k, (s.ut u).ctx = .io k .sys →
      noteDoing s (.stmt a r) s' g u = {g u with results := (g u).results ++ [r.ret]} := by
    intro k hk
    simp [noteDoing, Doing.news, hc, hk]
  by_cases hpc : pc = .register
  · subst hpc
    have hne : ∀ k, (s.ut u).ctx ≠ .io k .sys := by
      intro k hk
      rw [hk] at hat
      cases hat
    obtain ⟨hfd, hexp⟩ := step_flags hsnd hs hu fun _ _ hact => nomatch hact
    rw [hother hne]
    rcases (uthreadStmt_ok hrun).of_register hat with hat' | hat'
    · exact .inl ⟨n, .register, w, t, hdoes, hst.waits hat' (fun hf => hfd.trans hf) fun he => hexp.trans he⟩
    · exact .inl (Inside.waited (c := {c with sent := n}) hst hdoes hat' hfd hexp)
  cases hctx : (s.ut u).ctx with
  | io k at' =>
    have hio : ioStmt a u k at' r s = .ok s' := by simpa only [uthreadStmt, hctx] using hrun
    rw [hctx] at hat
    cases at' with
    | sys =>
      cases hat
      rw [hnews _ hctx]
      cases hio
      exact .inl (Inside.sys hst hdoes hc (hsteady.returns a u _ r rfl hc hctx))
    | head =>
      cases hat
      rw [hother (by simp [hctx])]
      cases hio
      exact Inside.head hst hdoes
    | fcntl =>
      cases hat
      rw [hother (by simp [hctx])]
      unfold ioStmt at hio
      dsimp only at hio
      split at hio
      · cases hio
        exact .inl (Inside.fcntl hst hdoes)
      · cases hio
    | test ret =>
      cases hat
      rw [hother (by simp [hctx])]
      cases hio
      exact Inside.test hst hdoes hc (herr ret (.inl hctx))
    | retest ret =>
      cases hat
      rw [hother (by simp [hctx])]
      cases hio
      exact Inside.retest hst hctx hdoes (herr ret (.inr hctx))
    | after =>
      cases hat
      rw [hother (by simp [hctx])]
      cases hio
      exact Inside.after hst hdoes
  | register k at' =>
    rw [hctx] at hat
    cases hat
    exact absurd rfl hpc
  | sleep w' at' =>
    rw [hctx] at hat
    cases w' with
    | event k =>
      cases hat
      exact absurd rfl hpc
    | join t v => cases hat
  | _ =>
    rw [hctx] at hat
    cases hat

/-- What the call has returned stays with a uthread that does nothing. -/
theorem Outside.others (h : Outside s v c d) (hsame : SameCall (s.ut v) (s'.ut v)) : Outside s' v c d := by
  obtain ⟨huser, y, r, x, w', e, hdoes, hend, hres⟩ := h
  exact ⟨hsame.ctx.trans huser, y, r, x, w', e, hdoes, hend, hsame.result.trans hres⟩

theorem step_call_io {a : SId} (hs : step s (.call a (.io c)) = .ok s') (hc : (s.sched a).curUthread = some u) :
    c.sent = 0 ∧ s' = goto u (.io c .head) (entered u (.io c) s) := by
  have hhalt := not_halted_of_step hs
  simp only [step, hhalt, hc, Bool.false_eq_true, if_false] at hs
  split at hs
  · unfold enter at hs
    dsimp only at hs
    split at hs
    · rename_i hzero
      cases hs
      exact ⟨hzero, rfl⟩
    · cases hs
  · cases hs

theorem Entered.call {a : SId} {k : Call} (hs : Entered a u s k s') : (s'.ut u).hist.call = some k := by
  have hent : ((entered u k s).ut u).hist.call = some k := by
    unfold entered
    rw [setUt_ut_self]
  have hret : ∀ {x : Int} {s₀ : State}, (s₀.ut u).hist.call = some k → ((returns a u x s₀).ut u).hist.call = some k := by
    intro x s₀ h₀
    unfold returns
    rw [setUt_ut_self]
    exact h₀
  cases hs with
  | goes _ _ _ =>
    unfold goto
    rw [setUt_ut_self]
    exact hent
  | detach _ =>
    refine hret ?_
    rw [setUt_keeps (fun r => r.hist.call) rfl]
    exact hent
  | close => exact hret hent

/-- A socket call begins where its body does. -/
theorem Inside.start {a : SId} {g : UId → Doing} (hsnd : Sound s) (hs : step s (.call a (.io c)) = .ok s')
    (hc : (s.sched a).curUthread = some u) : Inside s' u c (noteDoing s (.call a (.io c)) s' g u) := by
  obtain ⟨hzero, hs'⟩ := step_call_io hs hc
  obtain ⟨hfd, hexp⟩ := step_flags hsnd hs (hsnd.cur hc).1 fun _ _ hact => nomatch hact
  have hctx : (s'.ut u).ctx = .io c .head := by rw [hs', goto_ctx]
  have hnews : noteDoing s (.call a (.io c)) s' g u = {world := worldOf s a u} := by
    simp [noteDoing, Doing.news, hc]
  rw [hnews]
  obtain ⟨kind, fd, length, sent⟩ := c
  cases hzero
  refine ⟨0, .head, worldOf s a u, [], ⟨.start, rfl⟩, ⟨by rw [hctx]; rfl, fun _ => ⟨hfd.symm, hexp.symm⟩,
    ⟨fun hw => hfd.trans hw, fun hw => hexp.trans hw⟩, fun ht => ?_, fun ret hret => ?_⟩⟩
  · rw [hctx] at ht
    cases ht
  · rw [hctx] at hret
    cases hret

/-- A uthread that a statement has made has made no call. -/
theorem Stmt.born_hist {a : SId} {r : Reply} (hs : Stmt a u r s s') (hu : u < s.heap) (hv : v < s'.heap) :
    v < s.heap ∨ (s'.ut v).hist = {} := by
  cases hs with
  | @created c id p q _ _ =>
    rcases Nat.lt_succ_iff_lt_or_eq.mp hv with hlt | rfl
    · exact .inl hlt
    · right
      rw [returns_ut_of_ne (Nat.ne_of_gt hu), show (UthreadRuntime.created q id p s).ut s.heap = _ from
        Function.update_self ..]
  | io _ h₀ _ | ioReturns _ h₀ | diskCall _ h₀ =>
    left
    rcases h₀ with rfl | ⟨e, rfl⟩ <;> exact hv
  | switch _ _ hsw =>
    left
    rw [switched_heap hsw] at hv
    exact hv
  | store _ =>
    left
    rw [storeRetval_eq] at hv
    exact hv
  | _ => exact .inl hv

/-- A new uthread has made no call. -/
theorem step_born_hist (h : Sound s) (hs : step s act = .ok s') (hv : v < s'.heap) :
    v < s.heap ∨ (s'.ut v).hist = {} := by
  cases act with
  | stmt a r =>
    cases step_ok hs with
    | stmt hc hstmt => exact hstmt.born_hist (h.cur hc).1 hv
  | call a k =>
    left
    cases step_ok hs with
    | call _ _ hent => cases hent <;> exact hv
  | preempt a =>
    left
    cases step_ok hs with
    | preempt _ _ hsw =>
      rw [switched_heap hsw] at hv
      exact hv
  | sched a r =>
    left
    cases step_ok hs with
    | sched _ hsched =>
      have hheap : s'.heap = s.heap := SameHeap.transparent.schedStep hsched
      rwa [hheap] at hv

end Steps

/-! ### Runs -/

/-- The runtime with what its socket calls have been answered. -/
abbrev Tracked := State × (UId → Doing)

/-- The states reached by actions that meet `C`. -/
abbrev Tracked.Reaches (C : State → Act → Prop) : Tracked → Prop :=
  Run.Reaches (Run.noted step noteDoing) (fun x => C x.1) (init, fun _ => {})

/-- Every socket call follows its body. -/
structure Follows (x : Tracked) : Prop where
  sound : Sound x.1
  inv : Inv x.1.board
  calls : ∀ u < x.1.heap, ∀ c, (x.1.ut u).hist.call = some (.io c) → Inside x.1 u c (x.2 u) ∨ Outside x.1 u c (x.2 u)

theorem Follows.step {x y : Tracked} {act : Act} (h : Follows x) (hsteady : Steady x.1 act)
    (hstep : Run.noted UthreadRuntime.step noteDoing x act = .ok y) : Follows y := by
  obtain ⟨s, g⟩ := x
  obtain ⟨s', g'⟩ := y
  obtain ⟨hs, rfl⟩ := Run.noted_ok hstep
  obtain ⟨hsnd, hinv, hcalls⟩ := h
  dsimp only at hsteady hsnd hinv hcalls
  refine ⟨hsnd.step hs, inv_step hsnd hinv hsteady.calm hs, fun v hv c hcall => ?_⟩
  dsimp only at hv hcall ⊢
  have hlt : v < s.heap := by
    refine (step_born_hist hsnd hs hv).resolve_right fun hnone => ?_
    rw [hnone] at hcall
    cases hcall
  by_cases hno : NoCallOf v s act
  · by_cases hown : ∃ a r, act = .stmt a r ∧ (s.sched a).curUthread = some v
    · obtain ⟨a, r, rfl, hc⟩ := hown
      have hstmt := uthreadStmt_ok ((step_stmt (not_halted_of_step hs) hc r).symm.trans hs)
      rw [hstmt.call hlt] at hcall
      rcases hcalls v hlt c hcall with hin | hout
      · exact hin.stmt hsnd hinv hsteady hc hs
      · rw [step_stmt (not_halted_of_step hs) hc, uthreadStmt, hout.1] at hs
        cases hs
    · have hsame : SameCall (s.ut v) (s'.ut v) := by
        refine (step_call hsnd hs hlt hno).resolve_right ?_
        rintro ⟨a, r, hact, hc, -⟩
        exact hown ⟨a, r, hact, hc⟩
      have hnews : noteDoing s act s' g v = g v :=
        noteDoing_of_ne (fun a k hact => hno a _ hact) fun a r _ hact _ hc => hown ⟨a, r, hact, hc⟩
      rw [hnews]
      rw [hsame.call] at hcall
      rcases hcalls v hlt c hcall with ⟨n, pc, w, t, hdoes, hst⟩ | hout
      · exact .inl ⟨n, pc, w, t, hdoes, hst.others hsnd hinv hsteady hs hlt (fun a r hact hc => hown ⟨a, r, hact, hc⟩) hsame⟩
      · exact .inr (hout.others hsame)
  · unfold NoCallOf at hno
    push Not at hno
    obtain ⟨a, k, rfl, hc⟩ := hno
    cases step_ok hs with
    | call hc' _ hent =>
      cases hc.symm.trans hc'
      cases hent.call.symm.trans hcall
      exact .inl (Inside.start hsnd hs hc)

theorem Follows.initial : Follows (init, fun _ => {}) := by
  refine ⟨Sound.initial, inv_initial, fun u hu c hcall => ?_⟩
  obtain rfl := Nat.lt_one_iff.mp hu
  cases hcall

theorem Follows.of_reaches {x : Tracked} (h : Tracked.Reaches Steady x) : Follows x :=
  Run.Reaches.invariant h Follows.initial fun _ _ _ hf hsteady hs => hf.step hsteady hs

/-- **A socket call follows its body.** In runs in which no wait is disturbed while it is published
and no failed call parted from the tests of its error, whatever else the threads do: a uthread that
is inside `uthread_accept`, `uthread_connect`, `uthread_read` or `uthread_write` stands where its
body stands when it runs alone and is answered the same, and what the call returns is what the body
returns. -/
theorem call_follows_body {x : Tracked} (h : Tracked.Reaches Steady x) {u : UId} {c : IoCall} (hu : u < x.1.heap)
    (hcall : (x.1.ut u).hist.call = some (.io c)) : Inside x.1 u c (x.2 u) ∨ Outside x.1 u c (x.2 u) :=
  (Follows.of_reaches h).calls u hu c hcall

def returnsCheck (s : State) : Act → Bool
  | .stmt a r =>
    match (s.sched a).curUthread with
    | none => true
    | some u =>
      match (s.ut u).ctx with
      | .io c .sys => decide (c.Returns r.ret)
      | _ => true
  | _ => true

def steadyCheck (s : State) (act : Act) : Bool := atomicCheck s act && returnsCheck s act

theorem Ctx.not_outside_of_testsErrno {k : Ctx} (h : k.testsErrno = true) : k.outside = false := by
  cases k with
  | io c pc => rfl
  | _ => cases h

theorem steady_of_check {s : State} {act : Act} (hf : Few s) (hi : Inv s.board) (h : steadyCheck s act = true) :
    Steady s act := by
  obtain ⟨hcheck, hreturns⟩ := Bool.and_eq_true_iff.mp h
  have hatomic := (atomic_of_check hf hcheck).1
  refine ⟨hatomic.calm hi, ?_, ?_⟩
  · rintro a u rfl hc
    rw [Bool.eq_false_iff]
    intro ht
    obtain ⟨r, hr⟩ := hatomic a u hc (Ctx.not_outside_of_testsErrno ht)
    cases hr
  · rintro a u c r rfl hc hctx
    simpa [returnsCheck, hc, hctx] using hreturns

theorem Tracked.reaches_of_check {acts : List Act} {x : Tracked}
    (h : Run.checked (Run.noted step noteDoing) (fun x => steadyCheck x.1) (init, fun _ => {}) acts = some x) :
    Tracked.Reaches Steady x := by
  refine Run.reaches_of_checked (I := fun x => Sound x.1 ∧ Few x.1 ∧ Inv x.1.board) h
    ⟨Sound.initial, Few.initial, inv_initial⟩ ?_ ?_
  · rintro ⟨s, g⟩ act ⟨s', g'⟩ ⟨hs, hf, hi⟩ hsteady hstep
    obtain ⟨hstep, -⟩ := Run.noted_ok hstep
    exact ⟨hs.step hstep, hf.step hs hstep, inv_step hs hi hsteady.calm hstep⟩
  · rintro ⟨s, g⟩ act ⟨hs, hf, hi⟩ hcheck
    exact steady_of_check hf hi hcheck

/-- Main waits in a read, the other uthread runs and ends, and main is resumed and reads a byte. -/
def readOnce : List Act :=
  blockedRead 10 ++ scheds 0 8 ++ calls 0 .finish 3 ++ scheds 0 2 ++
    [.sched 0 {events := [⟨5, false⟩]}] ++ scheds 0 1 ++ stmts 0 6 ++ [.stmt 0 {ret := 1}] ++ stmts 0 2

theorem readOnce_follows : ∃ x, Tracked.Reaches Steady x ∧ (x.1.ut 0).hist.call = some (.io ⟨.read, 5, 1, 0⟩) ∧
    (x.1.ut 0).hist.result = some (1, .eagain) ∧ (x.2 0).results = [-1, 1] ∧
    (Inside x.1 0 ⟨.read, 5, 1, 0⟩ (x.2 0) ∨ Outside x.1 0 ⟨.read, 5, 1, 0⟩ (x.2 0)) := by
  have hread : (Run.checked (Run.noted step noteDoing) (fun x => steadyCheck x.1) (init, fun _ => {}) readOnce).map
      (fun x => decide (0 < x.1.heap ∧ (x.1.ut 0).hist.call = some (.io ⟨.read, 5, 1, 0⟩) ∧
        (x.1.ut 0).hist.result = some (1, .eagain) ∧ (x.2 0).results = [-1, 1])) = some true := by decide +kernel
  obtain ⟨x, hx, hread⟩ := Option.map_eq_some_iff.mp hread
  obtain ⟨hu, hcall, hres, hd⟩ := of_decide_eq_true hread
  have hreach := Tracked.reaches_of_check hx
  exact ⟨x, hreach, hcall, hres, hd, call_follows_body hreach hu hcall⟩

/-! ### What a call returns -/

section Results

variable {c : IoCall} {d : Doing} {y : Hook.Traced} {r : Hook.Answer} {v : Int} {w : Hook.World}

/-- The kernel's results are read as they are, and none is below `-1`. -/
theorem IoCall.Does.bounded (h : c.Does d y) : ∀ e ∈ y.2, -1 ≤ e.2 ∧ c.kind.body.reads e.2 = e.2 := by
  refine h.1.invariant (I := fun y => ∀ e ∈ y.2, -1 ≤ e.2 ∧ c.kind.body.reads e.2 = e.2) nofun ?_
  intro y r y' hall hr hs
  obtain ⟨-, htrace⟩ := Hook.tracedStep_ok hs
  rw [htrace]
  unfold Hook.noteCall
  split
  · rename_i hpc
    obtain ⟨hlow, hhigh, -⟩ := hr hpc
    intro e he
    rcases List.mem_append.mp he with he | he
    · exact hall e he
    · rw [List.mem_singleton.mp he]
      exact ⟨hlow, Hook.reads_of_le hlow hhigh⟩
  · exact hall

theorem IoKind.handsOn {k : IoKind} (hk : k ≠ .write) : Hook.HandsOn k.body := by
  refine Hook.Entry.handsOn_wrapper ?_
  cases k with
  | write => exact absurd rfl hk
  | _ => rfl

theorem IoCall.Does.asking (h : c.Does d y) (hk : c.kind ≠ .write) : Hook.Asking c.kind.body c.args y :=
  h.1.invariant (Hook.Asking.start _ _ _) fun _ _ _ hI _ hs => hI.step (IoKind.handsOn hk) hs

theorem IoCall.Does.counting (h : c.Does d y) (hk : c.kind = .write) : Hook.Counting c.args y := by
  refine h.1.invariant (Hook.Counting.start _ _) fun y r y' hI hr hs => ?_
  have hx : Hook.AddsUp c.kind.body := by
    rw [hk]
    exact Hook.uthreadWrite_addsUp
  refine hI.step hx (fun hpc => ?_) hs
  obtain ⟨hlow, hhigh, hlen⟩ := hr hpc
  exact ⟨hlen hk, Hook.reads_of_le hlow hhigh⟩

/-- The single calls: the last result is handed on, the others were failures. -/
theorem IoCall.Does.hands_on (h : c.Does d y) (hk : c.kind ≠ .write)
    (hend : Hook.tracedStep c.kind.body y r = .error (.returned v w)) :
    (∃ fails, d.results = fails ++ [v] ∧ ∀ n ∈ fails, n = -1) ∨ v < 0 ∧ ∀ n ∈ d.results, n = -1 := by
  have hfailed : ∀ t, (∀ e ∈ t, -1 ≤ e.2 ∧ c.kind.body.reads e.2 = e.2) → Hook.Failed c.kind.body t →
      ∀ n ∈ t.map Prod.snd, n = -1 := by
    intro t hb hf n hn
    obtain ⟨e, he, rfl⟩ := List.mem_map.mp hn
    have hneg := hf e he
    rw [(hb e he).2] at hneg
    have hlow := (hb e he).1
    omega
  have hb := h.bounded
  rw [← h.2]
  rcases (h.asking hk).returns (IoKind.handsOn hk) hend with ⟨t, e, ht, hv, hf⟩ | ⟨hneg, hf⟩
  · rw [ht] at hb ⊢
    refine .inl ⟨t.map Prod.snd, ?_, hfailed t (fun e he => hb e (List.mem_append_left _ he)) hf⟩
    rw [List.map_append, ← hv, (hb e (List.mem_append_right _ List.mem_cons_self)).2]
    rfl
  · exact .inr ⟨hneg, hfailed _ hb hf⟩

/-- The bytes that the results count. -/
def transferred : List Int → Nat
  | [] => 0
  | n :: rest => n.toNat + transferred rest

theorem transferred_results (t : Hook.Trace) : transferred (t.map Prod.snd) = Hook.moved t := by
  induction t with
  | nil => rfl
  | cons e t ih => exact congrArg (e.2.toNat + ·) ih

/-- A write that returns a count: that of all its calls. -/
theorem IoCall.Does.adds_up (h : c.Does d y) (hk : c.kind = .write) (hv : 0 ≤ v)
    (hend : Hook.tracedStep c.kind.body y r = .error (.returned v w)) :
    v = transferred d.results ∧ (v = c.length ∨ d.results.getLast? = some 0) := by
  have hx : Hook.AddsUp c.kind.body := by
    rw [hk]
    exact Hook.uthreadWrite_addsUp
  obtain ⟨hsum, hall⟩ := (h.counting hk).returns hx (Run.noted_error hend) hv
  rw [← transferred_results, h.2] at hsum
  refine ⟨hsum, hall.imp id ?_⟩
  rintro ⟨e, he, hzero⟩
  rw [← h.2, List.getLast?_map, he]
  exact congrArg some hzero

end Results

/-- **What a socket call returns is what the kernel has answered**, among any others and however often it has
waited. A read, accept or connect hands on the last result, all before it being `-1`; it fails when
there is none but `-1`. A write that returns a count has added up all of its results, and has less
than it was asked for only after a result of 0. -/
theorem socket_call_returns {x : Tracked} (h : Tracked.Reaches Steady x) {u : UId} {c : IoCall} (hu : u < x.1.heap)
    (hcall : (x.1.ut u).hist.call = some (.io c)) (hback : (x.1.ut u).ctx = .user) :
    ∃ v e, (x.1.ut u).hist.result = some (v, e) ∧
      (c.kind ≠ .write → (∃ fails, (x.2 u).results = fails ++ [v] ∧ ∀ n ∈ fails, n = -1) ∨
        v < 0 ∧ ∀ n ∈ (x.2 u).results, n = -1) ∧
      (c.kind = .write → 0 ≤ v → v = transferred (x.2 u).results ∧
        (v = c.length ∨ (x.2 u).results.getLast? = some 0)) := by
  rcases (Follows.of_reaches h).calls u hu c hcall with ⟨n, pc, w, t, -, hst⟩ | ⟨-, y, r, v, w', e, hdoes, hend, hres⟩
  · have hat := hst.ctx
    rw [hback] at hat
    cases hat
  · exact ⟨v, e, hres, fun hk => hdoes.hands_on hk hend, fun hk hv => hdoes.adds_up hk hv hend⟩

/-- Main writes three bytes: two are taken, it waits while the other uthread runs, and the third is. -/
def writeTwice : List Act :=
  boot ++ calls 0 (.io ⟨.write, 5, 3, 0⟩) 1 ++ [.stmt 0 {ret := 2}] ++ stmts 0 2 ++
    [.stmt 0 {ret := -1, errno := .eagain}] ++ stmts 0 12 ++ scheds 0 8 ++ calls 0 .finish 3 ++ scheds 0 2 ++
    [.sched 0 {events := [⟨5, false⟩]}] ++ scheds 0 2 ++ stmts 0 5 ++ [.stmt 0 {ret := 1}] ++ stmts 0 2

theorem writeTwice_returns : ∃ x, Tracked.Reaches Steady x ∧ (x.1.ut 0).hist.call = some (.io ⟨.write, 5, 3, 0⟩) ∧
    (x.2 0).results = [2, -1, 1] ∧ ∃ v e, (x.1.ut 0).hist.result = some (v, e) ∧
      (IoKind.write ≠ .write → (∃ fails, (x.2 0).results = fails ++ [v] ∧ ∀ n ∈ fails, n = -1) ∨
        v < 0 ∧ ∀ n ∈ (x.2 0).results, n = -1) ∧
      (IoKind.write = .write → 0 ≤ v → v = transferred (x.2 0).results ∧
        (v = (3 : Nat) ∨ (x.2 0).results.getLast? = some 0)) := by
  have hread : (Run.checked (Run.noted step noteDoing) (fun x => steadyCheck x.1) (init, fun _ => {}) writeTwice).map
      (fun x => decide (0 < x.1.heap ∧ (x.1.ut 0).hist.call = some (.io ⟨.write, 5, 3, 0⟩) ∧
        (x.1.ut 0).ctx = .user ∧ (x.2 0).results = [2, -1, 1])) = some true := by decide +kernel
  obtain ⟨x, hx, hread⟩ := Option.map_eq_some_iff.mp hread
  obtain ⟨hu, hcall, hback, hd⟩ := of_decide_eq_true hread
  have hreach := Tracked.reaches_of_check hx
  exact ⟨x, hreach, hcall, hd, socket_call_returns hreach hu hcall hback⟩

end UthreadRuntime
