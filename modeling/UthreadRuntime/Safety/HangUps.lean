import UthreadRuntime.Ledger.Books

/-! Hang-ups.

`handle_event` marks the uthread it resumes for a descriptor that was hung up, and no
statement takes the mark back. `uthread_read` and `uthread_write` look at the mark before
they issue the system call, whatever descriptor they were called for. -/
namespace UthreadRuntime

open State

/-- The descriptors of which `epoll_wait` has reported a hang-up to each uthread. -/
abbrev HangUps := UId → List Int

/-- The loop resumes a uthread with a hang-up in hand. -/
def noteHangUp (s : State) (act : Act) (s' : State) (g : HangUps) : HangUps :=
  match act with
  | .sched a _ =>
    match s.inHand a, (s'.sched a).curUthread with
    | some (fd, true), some u => Function.update g u (fd :: g u)
    | _, _ => g
  | _ => g

def hangUps (acts : List Act) : HangUps := Run.tally step noteHangUp init (fun _ => []) acts

/-- The mark is set exactly in the uthreads that were told of a hang-up. -/
structure HungUp (s : State) (g : HangUps) : Prop where
  sound : Sound s
  marked : ∀ v < s.heap, (s.ut v).marks.fdeof = true ↔ g v ≠ []
  new : ∀ v < s.heap, (s.ut v).marks.new = true → (s.ut v).marks.fdeof = false
  fresh : ∀ v, s.heap ≤ v → g v = []

theorem noteHangUp_eq (s : State) (act : Act) (s' : State) (g : HangUps) (v : UId) :
    (∃ a r fd, act = .sched a r ∧ s.inHand a = some (fd, true) ∧ (s'.sched a).curUthread = some v ∧
      noteHangUp s act s' g v = fd :: g v) ∨
    (noteHangUp s act s' g v = g v ∧
      ∀ a r fd, act = .sched a r → s.inHand a = some (fd, true) → (s'.sched a).curUthread ≠ some v) := by
  cases act with
  | sched a r =>
    cases hin : s.inHand a with
    | none =>
      refine .inr ⟨by simp only [noteHangUp, hin], fun b r' fd hb hin' => ?_⟩
      cases hb
      rw [hin] at hin'
      cases hin'
    | some e =>
      obtain ⟨fd, _ | _⟩ := e
      · refine .inr ⟨by simp only [noteHangUp, hin], fun b r' fd' hb hin' => ?_⟩
        cases hb
        rw [hin] at hin'
        cases hin'
      · cases hcur : (s'.sched a).curUthread with
        | none =>
          refine .inr ⟨by simp only [noteHangUp, hin, hcur], fun b r' fd' hb _ hcur' => ?_⟩
          cases hb
          rw [hcur] at hcur'
          cases hcur'
        | some u =>
          by_cases hv : v = u
          · subst hv
            refine .inl ⟨a, r, fd, rfl, hin, hcur, ?_⟩
            simp only [noteHangUp, hin, hcur, Function.update_self]
          · refine .inr ⟨?_, fun b r' fd' hb _ hcur' => ?_⟩
            · simp only [noteHangUp, hin, hcur, Function.update_apply, if_neg hv]
            · cases hb
              exact hv (Option.some.inj (hcur'.symm.trans hcur))
  | _ => exact .inr ⟨rfl, fun _ _ _ hb => by cases hb⟩

section Step

variable {s s' : State} {act : Act} {g : HangUps} {v : UId}

/-- The hang-up that a step notes is a mark of the uthread it resumes, and no other mark comes or goes. -/
theorem HungUp.step_old (h : HungUp s g) (hs : step s act = .ok s') (hv : v < s.heap) :
    ((s'.ut v).marks.fdeof = true ↔ noteHangUp s act s' g v ≠ []) ∧
      ((s'.ut v).marks.new = true → (s'.ut v).marks.fdeof = false) := by
  have hm := step_marks h.sound hs hv
  rcases noteHangUp_eq s act s' g v with ⟨a, r, fd, rfl, hin, hcur, hnote⟩ | ⟨hnote, hnot⟩
  · cases step_ok hs with
    | sched hc hsched =>
      obtain ⟨hnew, hfdeof⟩ := hsched.event_marks h.sound hc hin hcur
      have hnew' : (s'.ut v).marks.new = false := by
        have hkeep : ∀ {m}, MarkStep s s' v (.sched a r) m → m.new = false := by
          intro m hm
          cases hm with
          | resumed _ _ _ => rw [Marks.resumed_of_run hnew]; exact hnew
          | _ => exact hnew
        exact hkeep hm
      rw [hnote, hfdeof, hnew']
      simp
  · rw [hnote]
    have hcase : ∀ {m}, MarkStep s s' v act m → (m.fdeof = true ↔ g v ≠ []) ∧
        (m.new = true → m.fdeof = false) := by
      intro m hm
      cases hm with
      | resumed _ _ _ =>
        cases hnew : (s.ut v).marks.new with
        | false =>
          rw [Marks.resumed_of_run hnew]
          exact ⟨h.marked v hv, h.new v hv⟩
        | true =>
          have hmarked := h.marked v hv
          rw [h.new v hv hnew] at hmarked
          unfold Marks.resumed
          rw [hnew]
          exact ⟨hmarked, fun _ => rfl⟩
      | @event a r fd eof hin hcur hnew =>
        cases eof with
        | true => exact absurd hcur (hnot a r fd rfl hin)
        | false => exact ⟨h.marked v hv, h.new v hv⟩
      | _ => exact ⟨h.marked v hv, h.new v hv⟩
    exact hcase hm

/-- Whom a hang-up is noted for was there. -/
theorem HungUp.step_fresh (h : HungUp s g) (hs : step s act = .ok s') (hv : s.heap ≤ v) :
    noteHangUp s act s' g v = [] := by
  rcases noteHangUp_eq s act s' g v with ⟨a, r, fd, rfl, hin, hcur, -⟩ | ⟨hnote, -⟩
  · have hlt := ((h.sound.step hs).cur hcur).1
    cases step_ok hs with
    | sched hc hsched =>
      rw [(SameBooks.transparent.schedStep hsched).heap] at hlt
      exact absurd hlt (Nat.not_lt.mpr hv)
  · rw [hnote]
    exact h.fresh v hv

theorem HungUp.step (h : HungUp s g) (hs : step s act = .ok s') : HungUp s' (noteHangUp s act s' g) := by
  have hmade : ∀ v, ¬v < s.heap → v < s'.heap → (s'.ut v).marks.fdeof = false := by
    intro v hlt hv
    obtain ⟨-, id, hmarks⟩ := step_new h.sound hs hv hlt
    rw [hmarks]
    rfl
  refine ⟨h.sound.step hs, fun v hv => ?_, fun v hv => ?_, fun v hv => ?_⟩
  · by_cases hlt : v < s.heap
    · exact (h.step_old hs hlt).1
    · rw [hmade v hlt hv, h.step_fresh hs (Nat.le_of_not_lt hlt)]
      simp
  · by_cases hlt : v < s.heap
    · exact (h.step_old hs hlt).2
    · exact fun _ => hmade v hlt hv
  · exact h.step_fresh hs (Nat.le_trans (step_heap_le h.sound hs) hv)

end Step

theorem HungUp.initial : HungUp init fun _ => [] := by
  have hmain : ∀ v < init.heap, (init.ut v).marks.fdeof = false := by
    intro v hv
    obtain rfl : v = 0 := Nat.lt_one_iff.mp hv
    decide
  refine ⟨Sound.initial, fun v hv => ?_, fun v hv _ => hmain v hv, fun _ _ => rfl⟩
  rw [hmain v hv]
  simp

/-- **The mark tells that a hang-up was reported, not of which descriptor.** -/
theorem fdeof_iff {acts : List Act} {s : State} (h : exec acts = .ok s) {u : UId} (hu : u < s.heap) :
    (s.ut u).status.has .fdeof = true ↔ hangUps acts u ≠ [] := by
  have hall : HungUp s (hangUps acts) :=
    Run.tally_invariant (J := HungUp) h HungUp.initial fun _ _ _ _ hJ hs => hJ.step hs
  exact hall.marked u hu

/-- The next statement of the call ends it with `-1`. -/
def FailsUnissued (s : State) (a : SId) (u : UId) : Prop :=
  ∃ r s', step s (.stmt a r) = .ok s' ∧ (s'.ut u).ctx = .user ∧ ∃ e, (s'.ut u).hist.result = some (-1, e)

/-- Before its system call a read or a write fails by the mark alone. -/
theorem failsUnissued_iff {s : State} {a : SId} {u : UId} {c : IoCall} (hhalt : s.halted = false)
    (hc : (s.sched a).curUthread = some u) (hctx : (s.ut u).ctx = .io c .head)
    (hk : c.kind = .read ∨ c.kind = .write) :
    FailsUnissued s a u ↔
      ((s.ut u).status.has .fdeof = true ∧ ¬(c.kind = .write ∧ c.sent = c.length)) := by
  have hstep : ∀ r, step s (.stmt a r) = .ok (ioHeadStmt a u c s) := by
    intro r
    simp only [step, hhalt, hc, uthreadStmt, hctx, ioStmt, Bool.false_eq_true, if_false]
  have hgoto : ∀ k : Ctx, k ≠ .user → ioHeadStmt a u c s = goto u k s → ¬FailsUnissued s a u := by
    rintro k hku hhead ⟨r, s', hs', huser, -⟩
    rw [hstep r, hhead] at hs'
    cases hs'
    rw [goto_ctx] at huser
    exact hku huser
  have hret : ∀ x : Int, ioHeadStmt a u c s = returns a u x s → (FailsUnissued s a u ↔ x = -1) := by
    intro x hhead
    constructor
    · rintro ⟨r, s', hs', -, e, he⟩
      rw [hstep r, hhead] at hs'
      cases hs'
      simp only [returns, setUt_ut_self, Option.some.injEq, Prod.mk.injEq] at he
      exact he.1
    · rintro rfl
      refine ⟨{}, _, (hstep {}).trans (congrArg _ hhead), returns_ctx _, (s.sched a).errno, ?_⟩
      simp [returns]
  rcases hk with hk | hk
  · cases hf : (s.ut u).status.has .fdeof with
    | false =>
      have hno := hgoto (.io c .fcntl) (by simp) (by simp [ioHeadStmt, hk, hf])
      exact iff_of_false hno (by simp)
    | true =>
      rw [hret (-1) (by simp [ioHeadStmt, hk, hf])]
      simp [hk]
  · by_cases hsent : c.sent = c.length
    · rw [hret c.sent (by simp [ioHeadStmt, hk, hsent])]
      refine iff_of_false (by omega) ?_
      rintro ⟨-, hno⟩
      exact hno ⟨hk, hsent⟩
    · cases hf : (s.ut u).status.has .fdeof with
      | false =>
        have hno := hgoto (.io c .sys) (by simp) (by simp [ioHeadStmt, hk, hsent, hf])
        exact iff_of_false hno (by simp)
      | true =>
        rw [hret (-1) (by simp [ioHeadStmt, hk, hsent, hf])]
        simp [hsent]

/-- **A call fails only by a hang-up of its own descriptor exactly when** none was reported to
the uthread before, or one of that descriptor was, or there is nothing left to write. -/
theorem hangUp_stays_iff {acts : List Act} {s : State} {a : SId} {u : UId} {c : IoCall}
    (hrun : exec acts = .ok s) (hhalt : s.halted = false) (hc : (s.sched a).curUthread = some u)
    (hctx : (s.ut u).ctx = .io c .head) (hk : c.kind = .read ∨ c.kind = .write) :
    (FailsUnissued s a u → c.fd ∈ hangUps acts u) ↔
      (hangUps acts u = [] ∨ c.fd ∈ hangUps acts u ∨ (c.kind = .write ∧ c.sent = c.length)) := by
  have hsnd := Sound.of_reaches (Run.reaches_of_run hrun)
  rw [failsUnissued_iff hhalt hc hctx hk, fdeof_iff hrun (hsnd.cur hc).1]
  constructor
  · intro h
    by_cases hnil : hangUps acts u = []
    · exact .inl hnil
    · by_cases hdone : c.kind = .write ∧ c.sent = c.length
      · exact .inr (.inr hdone)
      · exact .inr (.inl (h ⟨hnil, hdone⟩))
  · rintro (hnil | hfd | hdone) ⟨hne, hnot⟩
    · exact absurd hnil hne
    · exact hfd
    · exact absurd hdone hnot

/-- Main sleeps in a read of descriptor 5, which is hung up; its read has returned. -/
def hungUpRead : List Act :=
  blockedRead 10 ++ scheds 0 8 ++ calls 0 .finish 3 ++ scheds 0 2 ++
    [.sched 0 {events := [⟨5, true⟩]}] ++ scheds 0 1 ++ stmts 0 5

/-- The read itself finds the mark before it tries again. -/
theorem hungUpRead_fails_by_its_own : ∃ s, exec (hungUpRead.dropLast) = .ok s ∧ FailsUnissued s 0 0 ∧
    5 ∈ hangUps hungUpRead.dropLast 0 := by
  obtain ⟨s, hs, h1, h2, h3, h4⟩ := exec_passes hungUpRead.dropLast
    (fun s => s.halted = false ∧ (s.sched 0).curUthread = some 0 ∧
      (s.ut 0).ctx = .io ⟨.read, 5, 1, 0⟩ .head ∧ (s.ut 0).status.has .fdeof = true)
    (by decide +kernel)
  have hfails : FailsUnissued s 0 0 := (failsUnissued_iff h1 h2 h3 (.inl rfl)).mpr ⟨h4, by simp⟩
  have hmem : 5 ∈ hangUps hungUpRead.dropLast 0 := by decide +kernel
  exact ⟨s, hs, hfails, (hangUp_stays_iff hs h1 h2 h3 (.inl rfl)).mpr (.inr (.inl hmem)) hfails⟩

/-- A later read of descriptor 6 fails by the hang-up of descriptor 5. -/
theorem hungUpRead_fails_others : ∃ s, exec (hungUpRead ++ [.call 0 (.io ⟨.read, 6, 1, 0⟩)]) = .ok s ∧
    (s.ut 0).ctx = .io ⟨.read, 6, 1, 0⟩ .head ∧
    hangUps (hungUpRead ++ [.call 0 (.io ⟨.read, 6, 1, 0⟩)]) 0 = [5] ∧
    ¬(FailsUnissued s 0 0 → 6 ∈ hangUps (hungUpRead ++ [.call 0 (.io ⟨.read, 6, 1, 0⟩)]) 0) := by
  obtain ⟨s, hs, h1, h2, h3, h4⟩ := exec_passes (hungUpRead ++ [.call 0 (.io ⟨.read, 6, 1, 0⟩)])
    (fun s => s.halted = false ∧ (s.sched 0).curUthread = some 0 ∧
      (s.ut 0).ctx = .io ⟨.read, 6, 1, 0⟩ .head ∧ (s.ut 0).status.has .fdeof = true)
    (by decide +kernel)
  have hups : hangUps (hungUpRead ++ [.call 0 (.io ⟨.read, 6, 1, 0⟩)]) 0 = [5] := by decide +kernel
  have hfails : FailsUnissued s 0 0 := (failsUnissued_iff h1 h2 h3 (.inl rfl)).mpr ⟨h4, by simp⟩
  refine ⟨s, hs, h3, hups, fun himp => ?_⟩
  have hmem := himp hfails
  rw [hups] at hmem
  simp at hmem

end UthreadRuntime
