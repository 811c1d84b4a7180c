import UthreadRuntime.Placement.Partition
import UthreadRuntime.Safety.Events
import UthreadRuntime.Safety.Records

/-! Blocking and waking under preemption.

A wait is published in several statements: `uthread_join` makes itself the target's
joiner, `_register_event` puts the descriptor in the interest set and itself in the
waiting tree, and only then the uthread is linked and marked asleep. Runs in which
nothing comes between these statements (`Calm`) lose no wake-up and double none. -/
namespace UthreadRuntime

namespace Placement

open Board

theorem life_setTask {b : Board} {u : UId} {t : Task} (h : t.life = (b.task u).life) (v : UId) :
    ((b.setTask u t).task v).life = (b.task v).life := by
  by_cases hv : v = u
  · rw [hv, setTask_self, h]
  · rw [setTask_other b t hv]

theorem life_desched (b : Board) (u v : UId) : ((b.desched u).task v).life = (b.task v).life := by
  unfold desched
  split
  · split
    · refine (life_setTask ?_ v : _ = ((b.unlinkSleeping _ u).task v).life)
      rfl
    · rfl
  · rfl

theorem life_deschedFound (b : Board) (q : PId) (o : Option UId) (v : UId) :
    ((b.deschedFound q o).task v).life = (b.task v).life := by
  cases o with
  | none => rfl
  | some w => exact life_desched (b.unlinkWaiting q w) w v

/-- A uthread is freed by its own switch, after it has exited. -/
theorem Move.frees {a : SId} {b b' : Board} {t : UId} (h : Move a b b') (hlive : b.live t)
    (hfreed : (b'.task t).life = .freed) :
    b.cur a = some t ∧ (b.task t).exited = true ∧
      (∀ j, (b.task t).joined = some j → (b.task j).home ≠ none) ∧
      ∃ m, b' = (((b.setMode t m).setCur a none).wakeJoiner t).setLife t .freed := by
  have hsame : (b'.task t).life ≠ (b.task t).life := by
    rw [hfreed, hlive]
    simp
  cases h with
  | @create n q hf =>
    refine absurd ?_ hsame
    have hne : t ≠ n := by
      rintro rfl
      rw [hlive] at hf
      cases hf
    exact congrArg Task.life (setTask_other _ _ hne)
  | publish _ _ _ =>
    refine absurd ((life_setTask ?_ t).trans (life_setTask ?_ t)) hsame <;> rfl
  | @switchFree u m hc he hh =>
    have htu : t = u := by
      by_contra htu
      refine hsame ?_
      have h1 : ∀ c : Board, ((c.wakeJoiner u).task t).life = (c.task t).life := by
        intro c
        unfold wakeJoiner
        split
        · rfl
        · split
          · rfl
          · exact life_desched c _ t
      rw [setLife, setTask_other _ _ htu, h1]
      exact congrArg Task.life (setTask_other _ _ htu)
    subst htu
    exact ⟨hc, he, hh, m, rfl⟩
  | handOff _ _ _ => exact absurd rfl hsame
  | resume _ _ _ => exact absurd rfl hsame
  | expire _ _ _ _ _ _ _ =>
    refine absurd ?_ hsame
    show ((desched _ _).task t).life = _
    rw [life_desched]
    refine (life_setTask ?_ t).trans (life_deschedFound _ _ _ t)
    rfl
  | event _ _ _ _ _ => exact absurd (life_deschedFound b _ _ t) hsame
  | _ =>
    refine absurd (life_setTask ?_ t) hsame
    rfl

end Placement

open State Placement

/-! ### Waking the joiner -/

/-- Freeing `t` makes its joiner ready, once, and not a second time. -/
def WakesJoinerOnce (s s' : State) : Prop :=
  ∀ t j, (s.ut t).life = .live → (s'.ut t).life = .freed → (s.ut t).utJoined = some j →
    ∃ q, (s.ut j).p = some q ∧ (∀ r, j ∉ (s.p r).ready) ∧ (s'.p q).ready = (s.p q).ready ++ [j] ∧
      ∀ r, r ≠ q → (s'.p r).ready = (s.p r).ready

/-- Nobody sleeps in a join of a uthread that is gone, and nobody is queued twice. -/
structure JoinsLive (s : State) : Prop where
  awake : ∀ j t r pc, (s.ut j).life = .live → (s.ut j).ctx = .sleep (.join t r) pc →
    (s.ut t).life = .freed → (s.ut j).status.has .sleeping = false ∧ ¬s.InSleeping j
  once : ∀ q, (s.p q).ready.Nodup

theorem JoinsLive.of_inv {s : State} (hi : Inv s.board) : JoinsLive s := by
  constructor
  case once => exact hi.ready_nodup
  case awake =>
    intro j t r pc hj hctx ht
    have hnot : ¬(s.board.task j).WaitsFor (.join t) := by
      intro hw
      have hlive : (s.ut t).life = .live := hi.waits_live hj hw
      rw [hlive] at ht
      cases ht
    have hmode : (s.board.task j).mode = (Ctx.sleep (.join t r) pc).mode := by
      rw [← hctx]
      rfl
    have hna : (s.ut j).status.has .sleeping = false := by
      rw [Bool.eq_false_iff]
      intro ha
      obtain ⟨g, hg, -⟩ := (hi.wf (u := j) hj).of_asleep ha
      rw [hmode] at hg
      refine hnot (.inr (.inr ⟨ha, ?_⟩))
      rw [hmode]
      cases pc <;> rcases hg with hg | hg <;> cases hg
      · exact .inl rfl
      · exact .inl rfl
      · exact .inl rfl
      · exact .inr rfl
    refine ⟨hna, ?_⟩
    rintro ⟨q, hq⟩
    obtain ⟨-, -, htree⟩ := hi.sleeping_iff.mp hq
    rcases htree with ha | ⟨g, hg⟩
    · have ha' : (s.ut j).status.has .sleeping = true := ha
      rw [hna] at ha'
      cases ha'
    · refine hnot (.inr (.inl ?_))
      rw [hmode] at hg ⊢
      cases pc <;> cases hg
      rfl

theorem wakesJoinerOnce_of_move {s s' : State} {act : Act} (hs : Sound s) (hi : Inv s.board)
    (hcalm : Calm s act) (hstep : step s act = .ok s') : WakesJoinerOnce s s' := by
  intro t j ht hf hj
  have hboard : Move act.thread s.board s'.board := by
    have hne : (s'.board.task t).life ≠ (s.board.task t).life := by
      show (s'.ut t).life ≠ (s.ut t).life
      rw [ht, hf]
      simp
    rcases refines_step hs hi hcalm hstep with ⟨a, fd, -, hb⟩ | hb | hm
    · rw [hb] at hne
      exact absurd rfl hne
    · rw [hb] at hne
      exact absurd rfl hne
    · exact hm
  obtain ⟨hc, he, hh, m, heq⟩ := hboard.frees ht hf
  have hal := hcalm.alone
  obtain ⟨-, -, hja, -, -, -⟩ := hi.joiner hal hc he hj
  rcases hi.freed_board hal hc he hh heq with ⟨hn, -⟩ | ⟨j', q, b₁, hj', hq, hr, hb⟩
  · have hj' : (s.board.task t).joined = some j := hj
    rw [hn] at hj'
    cases hj'
  · have hjj : j' = j := Option.some.inj (hj'.symm.trans hj)
    subst hjj
    have hready : ∀ r, (s'.p r).ready = if r = q then (s.p q).ready ++ [j'] else (s.p r).ready := by
      intro r
      have h1 := congrArg (fun b => b.ready r) hb
      simp only [setReady_ready, hr.ready] at h1
      exact h1
    refine ⟨q, hq, fun r hmem => ?_, ?_, fun r hne => ?_⟩
    · have hna := (hi.ready_mem hmem).2.2.1
      rw [hja] at hna
      cases hna
    · rw [hready, if_pos rfl]
    · rw [hready, if_neg hne]

/-- **A join is woken exactly once**, in every run that keeps the publishing of a wait whole. -/
theorem joiner_woken_once {s : State} (h : Reaches Calm s) :
    JoinsLive s ∧ ∀ act s', Calm s act → step s act = .ok s' → WakesJoinerOnce s s' :=
  ⟨.of_inv (inv_of_reaches h), fun _ _ hcalm hstep =>
    wakesJoinerOnce_of_move (Sound.of_reaches h) (inv_of_reaches h) hcalm hstep⟩

/-- Main sleeps in its join; the uthread it joined is about to switch away for good. -/
def joinedExit : List Act := joinedRun ++ calls 0 .finish 2

theorem joinedExit_woken_once : ∃ s s', Reaches Calm s ∧ step s (.stmt 0 {}) = .ok s' ∧
    (s.ut 1).utJoined = some 0 ∧ (s.ut 1).life = .live ∧ (s'.ut 1).life = .freed ∧
    (s'.p 0).ready = [2, 0] ∧ WakesJoinerOnce s s' := by
  have hread : (Run.checked step atomicCheck init joinedExit).bind (fun s =>
      (step s (.stmt 0 {})).toOption.map fun s' => ((s.ut 1).utJoined, (s.ut 1).life,
        (s'.ut 1).life, (s'.p 0).ready, atomicCheck s (.stmt 0 {}))) =
      some (some 0, .live, .freed, [2, 0], true) := by decide +kernel
  obtain ⟨s, hs, hread⟩ := Option.bind_eq_some_iff.mp hread
  obtain ⟨s', hs', hread⟩ := Option.map_eq_some_iff.mp hread
  simp only [Prod.mk.injEq] at hread
  obtain ⟨h1, h2, h3, h4, h5⟩ := hread
  have hreach := calm_of_atomic (reaches_of_atomicCheck hs)
  have hcalm := hreach.mono fun _ _ hc => hc.1
  have hact : Calm s (.stmt 0 {}) :=
    (atomic_of_check (Few.of_reaches hreach) h5).1.calm (inv_of_reaches hcalm)
  have hstep := ok_of_toOption hs'
  exact ⟨s, s', hcalm, hstep, h1, h2, h3, h4, (joiner_woken_once hcalm).2 _ _ hact hstep⟩

/-- Main is preempted inside its join, after it has become the joiner and before it sleeps;
the uthread it joins runs to its end. -/
def preemptedJoin : List Act :=
  boot ++ calls 0 (.join 1 none) 5 ++ [.preempt 0] ++ scheds 0 8 ++ calls 0 .finish 2

/-- Main is queued twice, and then sleeps for a uthread that is gone. -/
theorem preemptedJoin_woken_twice :
    (∃ s s', exec preemptedJoin = .ok s ∧ step s (.stmt 0 {}) = .ok s' ∧ ¬WakesJoinerOnce s s') ∧
    ∃ s, exec (preemptedJoin ++ stmts 0 1 ++ scheds 0 2 ++ stmts 0 7) = .ok s ∧ ¬JoinsLive s := by
  constructor
  · have hread : (exec preemptedJoin).bind (fun s => (step s (.stmt 0 {})).map fun s' =>
        ((s.ut 1).life, (s'.ut 1).life, (s.ut 1).utJoined, (s.p 0).ready)) =
        .ok (.live, .freed, some 0, [0]) := by decide +kernel
    obtain ⟨s, hs, hread⟩ := bind_ok hread
    obtain ⟨s', hs', hread⟩ := map_ok hread
    simp only [Prod.mk.injEq] at hread
    obtain ⟨h1, h2, h3, h4⟩ := hread
    refine ⟨s, s', hs, hs', fun hw => ?_⟩
    obtain ⟨q, -, hnot, -⟩ := hw 1 0 h1 h2 h3
    refine hnot 0 ?_
    rw [h4]
    simp
  · have hread : (exec (preemptedJoin ++ stmts 0 1 ++ scheds 0 2 ++ stmts 0 7)).map (fun s =>
        ((s.ut 0).life, (s.ut 0).ctx, (s.ut 1).life, (s.ut 0).status.has .sleeping)) =
        .ok (.live, .sleep (.join 1 none) .wake, .freed, true) := by decide +kernel
    obtain ⟨s, hs, hread⟩ := map_ok hread
    simp only [Prod.mk.injEq] at hread
    obtain ⟨h1, h2, h3, h4⟩ := hread
    refine ⟨s, hs, fun hj => ?_⟩
    have hna := (hj.awake 0 1 none .wake h1 h2 h3).1
    rw [h4] at hna
    cases hna

/-! ### Hearing an event -/

/-- The event a uthread waits for resumes it. -/
theorem handleEvent_resumes {s s' : State} {a : SId} {u : UId} {q : PId} {fd : Int} {ev : UthreadEvent}
    {isEof : Bool} {k : SchedAt} (hi : Inv s.board) (hq : (s.sched a).p = some q)
    (hw : u ∈ (s.p q).waiting) (hk : (s.ut u).fdWait = waitKey fd ev)
    (hs : handleEvent a fd ev isEof k s = .ok s') : (s'.sched a).curUthread = some u := by
  refine WaitsFor.resumes ⟨hw, hk, fun v hv hkv => ?_⟩ hq hs
  exact hi.waiting_inj (b := s.board) hv hw (hkv.trans hk.symm)

/-- The scheduler that took the event has still to look for a uthread that waits to write;
the uthread, marked asleep, has been preempted before its own switch. -/
def InHand (s : State) (u : UId) (fd : Int) : Prop :=
  (s.ut u).ctx.mode = .parking (.event fd .wr) ∧ ¬s.OnCpu u ∧
  ∃ a eof, (s.sched a).pc = .handleWr fd eof ∧ (s.sched a).curUthread = none ∧
    ((s.sched a).p = none ∨ (s.sched a).p = (s.ut u).p)

/-- No event that a registered descriptor has waited for is lost. -/
def Heard (s : State) : Prop :=
  ∀ u fd, (s.ut u).life = .live → s.consumed u = true → (s.board.task u).Holds fd → InHand s u fd

/-- The scheds stay where they are, as far as an event in hand is concerned. -/
theorem InHand.keep {s s' : State} {u : UId} {fd : Int} (h : InHand s u fd)
    (hmode : (s'.ut u).ctx.mode = (s.ut u).ctx.mode) (hp : (s'.ut u).p = (s.ut u).p)
    (hcur : ∀ c, (s'.sched c).curUthread = some u → (s.sched c).curUthread = some u)
    (hsched : ∀ c eof, (s.sched c).pc = .handleWr fd eof → (s.sched c).curUthread = none →
      (s'.sched c).pc = (s.sched c).pc ∧ (s'.sched c).curUthread = none ∧
      ((s'.sched c).p = none ∨ (s'.sched c).p = (s.sched c).p)) : InHand s' u fd := by
  obtain ⟨hm, hoff, c, eof, hpc, hc, hb⟩ := h
  obtain ⟨h1, h2, h3⟩ := hsched c eof hpc hc
  refine ⟨hmode.trans hm, ?_, c, eof, h1.trans hpc, h2, ?_⟩
  · rintro ⟨d, hd⟩
    exact hoff ⟨d, hcur d hd⟩
  · rw [hp]
    rcases h3 with h3 | h3
    · exact .inl h3
    · rw [h3]
      exact hb

theorem Ctx.registered_of_mode {c : Ctx} {fd : Int} {e : UthreadEvent} (h : c.mode = .registered fd e) :
    c.registered = true := by
  cases c with
  | register c pc =>
    cases pc with
    | status => rfl
    | key => rfl
    | _ => cases h
  | join t r pc => cases pc <;> cases h
  | sleep w pc => cases pc <;> cases h
  | exit v pc => cases pc <;> cases h
  | _ => cases h

theorem Ctx.mode_of_registered {c : Ctx} (h : c.registered = true) : ∃ fd e, c.mode = .registered fd e := by
  cases c with
  | register c pc =>
    cases pc with
    | status => exact ⟨_, _, rfl⟩
    | key => exact ⟨_, _, rfl⟩
    | _ => cases h
  | _ => cases h

theorem Ctx.registering_cases {c : Ctx} {fd : Int} (h : c.registering fd = true) :
    c.publishing = true ∨ ∃ e, c.mode = .parking (.event fd e) := by
  cases c with
  | register c pc =>
    cases pc with
    | status => exact .inl rfl
    | key => exact .inl rfl
    | insert => exact .inl rfl
    | _ => cases h
  | sleep w pc =>
    cases w with
    | join t r => cases pc <;> cases h
    | event c =>
      cases pc with
      | clock => exact .inl rfl
      | insert => exact .inl rfl
      | mark => exact .inl rfl
      | wake => cases h
      | _ =>
        have hfd : c.fd = fd := by simpa [Ctx.registering] using h
        exact .inr ⟨c.event, by rw [← hfd]; rfl⟩
  | _ => cases h

/-- A uthread that has just registered a descriptor has missed no event of it. -/
theorem registered_step {s s' : State} {act : Act} {u : UId} (hstep : step s act = .ok s')
    (hc : (s.sched act.thread).curUthread = some u) (hreg : (s'.ut u).ctx.registered = true) :
    (s.ut u).ctx.registered = true ∨ s'.consumed u = false := by
  unfold step at hstep
  split at hstep
  · exact absurd hstep stepHalted_ne_ok
  · cases act with
    | call a k =>
      have hc' : (s.sched a).curUthread = some u := hc
      simp only [hc'] at hstep
      split at hstep
      · rename_i hctx
        have hb := refines_enter hctx hstep
        have htask : s'.board.task u = s.board.task u := by
          rcases hb with hb | ⟨fd, -, hb⟩
          · rw [hb]
          · rw [hb]
            rfl
        have hmode : (s'.ut u).ctx.mode = (s.ut u).ctx.mode := congrArg Task.mode htask
        rw [hctx] at hmode
        cases hx : (s'.ut u).ctx with
        | register c pc =>
          rw [hx] at hmode hreg
          cases pc with
          | status => cases hmode
          | key => cases hmode
          | _ => cases hreg
        | _ => rw [hx] at hreg; cases hreg
      · cases hstep
    | stmt a r =>
      have hc' : (s.sched a).curUthread = some u := hc
      simp only [hc'] at hstep
      exact uthreadStmt_registers hstep hreg
    | preempt a =>
      have hc' : (s.sched a).curUthread = some u := hc
      simp only [hc'] at hstep
      split at hstep
      · left
        have hseen := AllSeen.switched hstep u
        have hset : ((s.setUt u fun v => {v with isWatingYieldSignal := false}).ut u).ctx = (s.ut u).ctx := by
          rw [setUt_ut_self]
        rw [← hset, ← hseen.ctx]
        exact hreg
      · cases hstep
    | sched a r =>
      have hc' : (s.sched a).curUthread = some u := hc
      simp only [hc'] at hstep
      cases hstep

/-- The writing half of an event finds the uthread that holds it in hand. -/
theorem heard_found {s s' : State} {a : SId} {r : Reply} {u : UId} {fd : Int} {eof : Bool}
    (hi : Inv s.board) (hcov : Cover s.board) (hl : (s.ut u).life = .live)
    (hh : (s.board.task u).Holds fd) (hm : (s.ut u).ctx.mode = .parking (.event fd .wr))
    (hb : (s.sched a).p = none ∨ (s.sched a).p = (s.ut u).p) (hpc : (s.sched a).pc = .handleWr fd eof)
    (hrun : schedRun a r s = .ok s') : (s'.sched a).curUthread = some u := by
  unfold schedRun at hrun
  rw [hpc] at hrun
  dsimp only at hrun
  have hq : ∃ q, (s.sched a).p = some q := by
    rcases handleEvent_ok hrun with ⟨s₁, hd, -⟩ | ⟨v, s₁, s₂, hd, -⟩ <;>
      obtain ⟨q, hq, -⟩ := uthreadDeschedEvent_ok hd <;> exact ⟨q, hq⟩
  obtain ⟨q, hq⟩ := hq
  have hp : (s.ut u).p = some q := by
    rw [hq] at hb
    exact (hb.resolve_left (by simp)).symm
  have hm' : (s.board.task u).mode = .parking (.event fd .wr) := hm
  have ha : (s.board.task u).asleep = true := by
    simp only [Task.Holds, Task.WaitsFor, hm'] at hh
    simpa using hh
  have hw : (s.board.task u).WaitsFor (.event fd .wr) := .inr (.inr ⟨ha, .inl hm'⟩)
  exact handleEvent_resumes hi hq (hcov.queued (b := s.board) hl hp hw) (hw.key_eq (hi.wf (u := u) hl)).1 hrun

section Step

variable {s s' : State} {act : Act} (hs : Sound s) (hi : Inv s.board) (hcov : Cover s.board)
  (hcalm : Calm s act) (hkeep : KeepsWatched s act) (hstep : step s act = .ok s')
include hs hi hcov hcalm hkeep hstep

/-- Who holds a descriptor and did not act stands where it stood. -/
theorem holds_other {u : UId} {fd : Int} (hc : (s.sched act.thread).curUthread ≠ some u)
    (hh : (s'.board.task u).Holds fd) :
    (∃ j, s'.board.task u = {s.board.task u with joined := j}) ∧
      (s'.sched act.thread).curUthread ≠ some u := by
  rcases refines_step hs hi hcalm hstep with ⟨a, f, hact, hb⟩ | hb | hm
  · rw [closed_unwatched (hkeep a f hact)] at hb
    have hcur : s'.board.cur act.thread ≠ some u := by
      rw [hb]
      exact hc
    exact ⟨⟨_, by rw [hb]⟩, hcur⟩
  · have hcur : s'.board.cur act.thread ≠ some u := by
      rw [hb]
      exact hc
    exact ⟨⟨_, by rw [hb]⟩, hcur⟩
  · exact hm.holds_other hi hcov hcalm.alone hc hh

omit hcov in
/-- Who acts and holds a descriptor has held one, unless no event was taken since. -/
theorem holds_own {u : UId} {fd : Int} (hc : (s.sched act.thread).curUthread = some u)
    (hl : (s'.ut u).life = .live) (hcons : s'.consumed u = true) (hh : (s'.board.task u).Holds fd) :
    ∃ f, (s.board.task u).Holds f := by
  rcases refines_step hs hi hcalm hstep with ⟨a, f, hact, hb⟩ | hb | hm
  · rw [closed_unwatched (hkeep a f hact)] at hb
    exact ⟨fd, hb ▸ hh⟩
  · exact ⟨fd, hb ▸ hh⟩
  · rcases hm.holds_own hi hc hl hh with hh | ⟨e, he⟩
    · exact ⟨fd, hh⟩
    · rcases registered_step hstep hc (Ctx.registered_of_mode he) with hreg | hn
      · obtain ⟨f, e', hf⟩ := Ctx.mode_of_registered hreg
        exact ⟨f, .inl ⟨e', .inl hf⟩⟩
      · rw [hn] at hcons
        cases hcons

omit hs hkeep in
/-- The event being handled is that of a descriptor which a preempted sleeper holds. -/
theorem heard_taken {a : SId} {r : Reply} {q : PId} {e : EpollEvent} {u : UId} {fd : Int}
    (hact : act = .sched a r) (hc : (s.sched a).curUthread = none) (hq : (s.sched a).p = some q)
    (hrun : handleEvent a e.fd .rd e.hup (.handleWr e.fd e.hup) (tookEvent a q e s) = .ok s')
    (hl : (s.ut u).life = .live) (hp : (s.ut u).p = some q)
    (hreg : (s.ut u).ctx.registering e.fd = true) (hh : (s.board.task u).Holds fd)
    (hcur' : (s'.sched a).curUthread ≠ some u) :
    (s.ut u).ctx.mode = .parking (.event fd .wr) ∧ ¬s.OnCpu u ∧
      (s'.sched a).pc = .handleWr fd e.hup ∧ (s'.sched a).curUthread = none := by
  have hwf := hi.wf (u := u) hl
  have hnotpub : (s.ut u).ctx.publishing ≠ true := by
    intro hpub
    obtain ⟨c, hcu⟩ := hwf.onCpu_of_publishing ((Ctx.publishing_mode _).trans hpub)
    obtain ⟨r', hr'⟩ := (hcalm c u hcu).1 hpub
    rw [hact] at hr'
    cases hr'
  obtain ⟨ev, hm⟩ := (Ctx.registering_cases hreg).resolve_left hnotpub
  have hm' : (s.board.task u).mode = .parking (.event e.fd ev) := hm
  obtain ⟨rfl, ha⟩ : e.fd = fd ∧ (s.board.task u).asleep = true := by
    simp only [Task.Holds, Task.WaitsFor, hm'] at hh
    simpa [and_comm] using hh
  have hw : (s.board.task u).WaitsFor (.event e.fd ev) := .inr (.inr ⟨ha, .inl hm'⟩)
  have hwait : u ∈ (s.p q).waiting := hcov.queued (b := s.board) hl hp hw
  have hkey : (s.ut u).fdWait = waitKey e.fd ev := (hw.key_eq hwf).1
  have hoff : ¬s.OnCpu u := by
    rintro ⟨c, hcu⟩
    rcases (hcalm c u hcu).2 ha with ⟨r', hr'⟩ | hr' <;> rw [hact] at hr' <;> cases hr'
  have hb := board_tookEvent s a q e
  have hT : (tookEvent a q e s).ut = s.ut ∧ ((tookEvent a q e s).p q).waiting = (s.p q).waiting := by
    unfold tookEvent
    dsimp only
    split <;> exact ⟨rfl, by simp [markConsumed]⟩
  have hqT : ((tookEvent a q e s).sched a).p = some q := ((tookEvent_local a q e s).bound a).trans hq
  have hcT : ((tookEvent a q e s).sched a).curUthread = none :=
    (congrArg (fun b => b.cur a) hb).trans hc
  have hev : ev = .wr := by
    cases ev with
    | wr => rfl
    | rd =>
      refine absurd (handleEvent_resumes (u := u) (by rw [hb]; exact hi) hqT ?_ ?_ hrun) hcur'
      · rw [hT.2]
        exact hwait
      · rw [hT.1]
        exact hkey
  subst hev
  refine ⟨hm, hoff, ?_⟩
  rcases handleEvent_ok hrun with ⟨s₁, hd, rfl⟩ | ⟨v, s₁, s₂, hd, -, -, rfl⟩
  · have hside := Aside.deschedEvent hd
    unfold setPc
    rw [setSched_sched_self, hside.sched]
    exact ⟨rfl, hcT⟩
  · -- the uthread found holds the same descriptor
    exfalso
    obtain ⟨q', hq', hf, -⟩ := uthreadDeschedEvent_ok hd
    obtain rfl : q' = q := Option.some.inj (hq'.symm.trans hqT)
    obtain ⟨hv, hkv⟩ := Tree.find_eq_some hf
    rw [hT.2] at hv
    rw [hT.1] at hkv
    obtain ⟨hvl, hvp, f, e', hvw⟩ := hi.waiting_mem (b := s.board) hv
    obtain ⟨rfl, -⟩ := waitKey_inj ((hvw.key_eq (hi.wf hvl)).1.symm.trans hkv)
    have hvu : v = u := hcov.one_each hvl hl hvp hp (.inr ⟨e', hvw⟩) hh
    rw [hvu] at hcur'
    exact hcur' (uthreadResume_cur a u _ _)

/-- The uthread did not act: then it stands where it stood, and so does an event in its hand. -/
theorem Heard.stays {u : UId} {fd : Int} (h : Heard s) (hl' : (s'.ut u).life = .live)
    (hh' : (s'.board.task u).Holds fd) (hc : (s.sched act.thread).curUthread ≠ some u)
    (hcons : s.consumed u = true)
    (hcur : ∀ c, c ≠ act.thread → (s'.sched c).curUthread = (s.sched c).curUthread)
    (hsched : ∀ c eof, (s.sched c).pc = .handleWr fd eof → (s.sched c).curUthread = none →
      (s'.sched c).pc = (s.sched c).pc ∧ (s'.sched c).curUthread = none ∧
      ((s'.sched c).p = none ∨ (s'.sched c).p = (s.sched c).p)) : InHand s' u fd := by
  obtain ⟨⟨j, htask⟩, hcur'⟩ := holds_other hs hi hcov hcalm hkeep hstep hc hh'
  have hlife : (s'.ut u).life = (s.ut u).life := congrArg Task.life htask
  have hh : (s.board.task u).Holds fd := by
    rw [htask] at hh'
    exact hh'
  refine (h u fd (hlife.symm.trans hl') hcons hh).keep (congrArg Task.mode htask)
    (congrArg Task.home htask) (fun c hcu => ?_) hsched
  by_cases hca : c = act.thread
  · rw [hca] at hcu
    exact absurd hcu hcur'
  · rwa [hcur c hca] at hcu

omit hcov in
/-- It acted: it was on a sched, so no event was in its hand. -/
theorem Heard.not_acted {u : UId} {fd : Int} (h : Heard s) (hl' : (s'.ut u).life = .live)
    (hcons' : s'.consumed u = true) (hh' : (s'.board.task u).Holds fd)
    (hc : (s.sched act.thread).curUthread = some u) : s.consumed u = false := by
  rw [Bool.eq_false_iff]
  intro hcons
  obtain ⟨f, hf⟩ := holds_own hs hi hcalm hkeep hstep hc hl' hcons' hh'
  exact (h u f (hi.cur_live (b := s.board) hc) hcons hf).2.1 ⟨_, hc⟩

/-- A scheduler took its turn: an event was in hand before it, or is the one that it has taken. -/
theorem Heard.turn {a : SId} {r : Reply} {u : UId} {fd : Int} (h : Heard s) (hact : act = .sched a r)
    (hc : (s.sched a).curUthread = none) (hrun : schedRun a r s = .ok s') (hl' : (s'.ut u).life = .live)
    (hcons' : s'.consumed u = true) (hh' : (s'.board.task u).Holds fd) : InHand s' u fd := by
  have hthread : act.thread = a := by rw [hact]; rfl
  have hlocal := schedRun_local hrun
  have hcu : (s.sched act.thread).curUthread ≠ some u := by
    rw [hthread, hc]
    simp
  obtain ⟨⟨j, htask⟩, hcur'⟩ := holds_other hs hi hcov hcalm hkeep hstep hcu hh'
  rw [hthread] at hcur'
  have hl : (s.ut u).life = .live := (congrArg Task.life htask).symm.trans hl'
  have hh : (s.board.task u).Holds fd := by
    rw [htask] at hh'
    exact hh'
  have hoff' : ¬s.OnCpu u → ¬s'.OnCpu u := by
    rintro hoff ⟨c, hcc⟩
    by_cases hca : c = a
    · rw [hca] at hcc
      exact hcur' hcc
    · rw [hlocal.cur c hca] at hcc
      exact hoff ⟨c, hcc⟩
  have hheld : s.consumed u = true → InHand s' u fd := by
    intro hcons
    obtain ⟨hm, hoff, c, eof, hpc, hcc, hb⟩ := h u fd hl hcons hh
    have hca : c ≠ a := by
      rintro rfl
      exact hcur' (heard_found hi hcov hl hh hm hb hpc hrun)
    refine ⟨(congrArg Task.mode htask).trans hm, hoff' hoff, c, eof, (hlocal.pc c hca).trans hpc,
      (hlocal.cur c hca).trans hcc, ?_⟩
    rw [hlocal.bound c, show (s'.ut u).p = (s.ut u).p from congrArg Task.home htask]
    exact hb
  rcases schedRun_consumed hrun with hsame | ⟨q, e, hpc, hq, hev, hmark⟩
  · rw [hsame] at hcons'
    exact hheld hcons'
  · by_cases hcons : s.consumed u = true
    · exact hheld hcons
    · have hnew : (s.ut u).p = some q ∧ (s.ut u).ctx.registering e.fd = true := by
        rw [hmark] at hcons'
        simpa [hcons] using hcons'
      obtain ⟨hm, hoff, hpc', hc'⟩ := heard_taken hi hcov hcalm hstep hact hc hq hev hl
        hnew.1 hnew.2 hh hcur'
      refine ⟨(congrArg Task.mode htask).trans hm, hoff' hoff, a, e.hup, hpc', hc', .inr ?_⟩
      rw [hlocal.bound a, hq]
      exact hnew.1.symm.trans (congrArg Task.home htask).symm

theorem Heard.step (h : Heard s) : Heard s' := by
  intro u fd hl' hcons' hh'
  have hstays := h.stays hs hi hcov hcalm hkeep hstep hl' hh'
  have hacted := h.not_acted hs hi hcalm hkeep hstep hl' hcons' hh'
  rcases step_frame hstep with ⟨a, r, hact, hc, hrun⟩ | ⟨-, hstill⟩ |
      ⟨a, r, w, hact, hc, c, q, n, rest, -, hq, -, hidle, rfl⟩
  · exact h.turn hs hi hcov hcalm hkeep hstep hact hc hrun hl' hcons' hh'
  · have hcons := hstill.consumed u hcons'
    have hcu : (s.sched act.thread).curUthread ≠ some u := by
      intro hcu
      rw [hacted hcu] at hcons
      cases hcons
    refine hstays hcu hcons hstill.cur fun c eof hpc hcc => ⟨hstill.pc c, ?_, .inr (hstill.bound c)⟩
    by_cases hca : c = act.thread
    · rw [hca] at hcc ⊢
      rcases hstill.self with hself | hself
      · rw [hself]
        exact hcc
      · exact hself
    · rw [hstill.cur c hca]
      exact hcc
  · have hcons : s.consumed u = true := hcons'
    have hcu : (s.sched act.thread).curUthread ≠ some u := by
      intro hcu
      rw [hacted hcu] at hcons
      cases hcons
    obtain ⟨hn, hnc, -⟩ := hs.idle_ne hq hidle
    refine hstays hcu hcons (fun d _ => handedOff_cur d) fun d eof hpc hcd => ?_
    have hdn : d ≠ n := by
      rintro rfl
      rw [(hs.idle d hn).2.2] at hpc
      cases hpc
    show ((handedOff c n q rest s).sched d).pc = _ ∧ ((handedOff c n q rest s).sched d).curUthread = none ∧
      (((handedOff c n q rest s).sched d).p = none ∨ ((handedOff c n q rest s).sched d).p = _)
    rw [handedOff_sched hnc, if_neg hdn]
    split
    · rename_i hdc
      rw [hdc] at hcd ⊢
      exact ⟨rfl, hcd, .inl rfl⟩
    · exact ⟨rfl, hcd, .inr rfl⟩

end Step

theorem heard_of_reaches {s : State} (h : Reaches (fun s act => Calm s act ∧ KeepsWatched s act) s) :
    Heard s := by
  have hall : Sound s ∧ Inv s.board ∧ Cover s.board ∧ Heard s := by
    refine Sound.initial.invariant (I := fun s => Inv s.board ∧ Cover s.board ∧ Heard s) h
      ⟨inv_initial, cover_initial, fun _ _ _ hc => by cases hc⟩ ?_
    rintro s act s' hs ⟨hi, hcov, hheard⟩ ⟨hcalm, hkeep⟩ hstep
    obtain ⟨hi', hcov'⟩ := cover_step hs hi hcov hcalm hkeep hstep
    exact ⟨hi', hcov', hheard.step hs hi hcov hcalm hkeep hstep⟩
  exact hall.2.2.2

/-! ### Blocking on a descriptor -/

/-- Nobody is at once queued and linked; and who sleeps for an event which was taken before
it had yielded is about to be found by the scheduler that took it. -/
structure BlocksWhole (s : State) : Prop where
  apart : ∀ u, s.InReady u → ¬s.InSleeping u ∧ ¬s.InWaiting u
  heard : ∀ u c pc, (s.ut u).life = .live → (s.ut u).ctx = .sleep (.event c) pc →
    (s.ut u).status.has .sleeping = true → s.consumed u = true →
    pc ≠ .wake ∧ c.event = .wr ∧
      ∃ a eof, (s.sched a).pc = .handleWr c.fd eof ∧ (s.sched a).curUthread = none

theorem apart_of_inv {s : State} (hi : Inv s.board) {u : UId} (hr : s.InReady u) :
    ¬s.InSleeping u ∧ ¬s.InWaiting u := by
  obtain ⟨q, hq⟩ := hr
  obtain ⟨hl, -, hna, hoff⟩ := hi.ready_mem hq
  have hwf := hi.wf hl
  have hnotpub : ¬(s.board.task u).mode.publishing = true := fun hp => hoff (hwf.onCpu_of_publishing hp)
  constructor
  · rintro ⟨r, hr⟩
    rcases (hi.sleeping_iff.mp hr).2.2 with ha | ⟨g, hg⟩
    · rw [hna] at ha
      cases ha
    · exact hnotpub (by rw [hg]; rfl)
  · rintro ⟨r, hr⟩
    obtain ⟨-, -, fd, e, hm | hm | hm⟩ := hi.waiting_mem hr
    · exact hnotpub (by rw [hm]; rfl)
    · exact hnotpub (by rw [hm]; rfl)
    · have ha := hm.1
      rw [hna] at ha
      cases ha

/-- **Blocking is whole**, in every run that keeps the publishing of a wait whole and closes
no descriptor that is waited for. -/
theorem blocking_is_whole {s : State}
    (h : Reaches (fun s act => Calm s act ∧ KeepsWatched s act) s) : BlocksWhole s := by
  have hi := inv_of_reaches (h.mono fun _ _ hc => hc.1)
  refine ⟨fun u hr => apart_of_inv hi hr, fun u c pc hl hctx ha hcons => ?_⟩
  have hmode : (s.board.task u).mode = (Ctx.sleep (.event c) pc).mode := by
    rw [← hctx]
    rfl
  have hw : (s.board.task u).WaitsFor (.event c.fd c.event) := by
    obtain ⟨g, hg, -⟩ := (hi.wf (u := u) hl).of_asleep ha
    refine .inr (.inr ⟨ha, ?_⟩)
    rw [hmode] at hg ⊢
    cases pc with
    | flag => exact .inl rfl
    | yieldFlag => exact .inl rfl
    | switch => exact .inl rfl
    | wake => exact .inr rfl
    | _ => rcases hg with hg | hg <;> cases hg
  obtain ⟨hm, -, a, eof, hpc, hc, -⟩ := heard_of_reaches h u c.fd hl hcons (.inr ⟨_, hw⟩)
  have hm' : (Ctx.sleep (.event c) pc).mode = .parking (.event c.fd .wr) := hmode.symm.trans hm
  refine ⟨?_, ?_, a, eof, hpc, hc⟩
  · rintro rfl
    cases hm'
  · cases pc with
    | flag =>
      injection hm' with hg
      injection hg
    | yieldFlag =>
      injection hm' with hg
      injection hg
    | switch =>
      injection hm' with hg
      injection hg
    | _ => cases hm'

theorem blockedRead_is_whole : ∃ s, Reaches (fun s act => Calm s act ∧ KeepsWatched s act) s ∧
    BlocksWhole s ∧ (s.p 0).ready = [1] ∧ (s.p 0).sleeping = [0] ∧ (s.p 0).waiting = [0] := by
  have hread : (Run.checked step atomicCheck init (blockedRead 10)).map (fun s =>
      ((s.p 0).ready, (s.p 0).sleeping, (s.p 0).waiting)) = some ([1], [0], [0]) := by decide +kernel
  obtain ⟨s, hs, hread⟩ := Option.map_eq_some_iff.mp hread
  simp only [Prod.mk.injEq] at hread
  have hreach := calm_of_atomic (reaches_of_atomicCheck hs)
  exact ⟨s, hreach, blocking_is_whole hreach, hread⟩

/-- Main is preempted between linking itself and marking itself asleep: it is queued and linked. -/
theorem preemptedRead_in_both : ∃ s, exec (blockedRead 6 ++ [.preempt 0]) = .ok s ∧ ¬BlocksWhole s ∧
    0 ∈ (s.p 0).ready ∧ 0 ∈ (s.p 0).sleeping ∧ 0 ∈ (s.p 0).waiting := by
  have hread : (exec (blockedRead 6 ++ [.preempt 0])).map (fun s =>
      ((s.p 0).ready, (s.p 0).sleeping, (s.p 0).waiting)) = .ok ([1, 0], [0], [0]) := by decide +kernel
  obtain ⟨s, hs, hread⟩ := map_ok hread
  simp only [Prod.mk.injEq] at hread
  obtain ⟨h1, h2, h3⟩ := hread
  have hready : 0 ∈ (s.p 0).ready := by simp [h1]
  have hsleeping : 0 ∈ (s.p 0).sleeping := by simp [h2]
  exact ⟨s, hs, fun hb => (hb.apart 0 ⟨0, hready⟩).1 ⟨0, hsleeping⟩, hready, hsleeping, by simp [h3]⟩

end UthreadRuntime
