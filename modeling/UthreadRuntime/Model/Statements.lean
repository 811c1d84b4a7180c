import UthreadRuntime.Model.Inversion

/-! The statements of library code, by what they write.

`Stmt` lists every statement with the state it makes: most write the record of the uthread
that executes them and move on, a few write another record, a tree, the lock, the id slots
or the memory of a joiner. `Step` is the same for an action of the machine. An invariant of
the runs is proved by cases on these, and unfolds no function. -/
namespace UthreadRuntime

open State

/-- Statements that write a field of the uthread's own record. -/
inductive Own (now : Nat) : Ctx → (Uthread → Uthread) → Ctx → Prop where
  | yieldFlag : Own now .yieldFlag (fun v => {v with isWatingYieldSignal := false}) .yieldSwitch
  | clock (w : Wait) : Own now (.sleep w .clock)
      (fun v => {v with wakeupTimeUsec := wakeupTime now w.mescs}) (.sleep w .insert)
  | mark (w : Wait) : Own now (.sleep w .mark) (fun v => {v with status := v.status.add .sleeping})
      (.sleep w .flag)
  | flag (w : Wait) : Own now (.sleep w .flag) (fun v => {v with isWatingYieldSignal := false})
      (.sleep w .yieldFlag)
  | sleepYield (w : Wait) : Own now (.sleep w .yieldFlag)
      (fun v => {v with isWatingYieldSignal := false}) (.sleep w .switch)
  | wake (w : Wait) : Own now (.sleep w .wake) (fun v => {v with status := v.status.del .sleeping})
      w.return
  | status (c : IoCall) : Own now (.register c .status)
      (fun v => {v with status := v.status.add c.event.waitSt}) (.register c .key)
  | key (c : IoCall) : Own now (.register c .key)
      (fun v => {v with fdWait := fdKey c.fd c.event.toNat}) (.register c .insert)
  | unkey (c : IoCall) : Own now (.register c .unkey) (fun v => {v with fdWait := -1})
      (.register c .unstatus)
  | unstatus (c : IoCall) : Own now (.register c .unstatus)
      (fun v => {v with status := v.status.del c.event.waitSt}) (.io c .after)
  | exitMark (v : Option Val) : Own now (.exit v .mark)
      (fun r => {r with status := r.status.add .exited})
      (.exit v (if v.isSome then .store else .yieldFlag))
  | exitYield (v : Option Val) : Own now (.exit v .yieldFlag)
      (fun r => {r with isWatingYieldSignal := false}) (.exit v .switch)

/-- Statements that only test and fetch. -/
inductive Moves (a : SId) (u : UId) (r : Reply) (s : State) : Ctx → Ctx → Prop where
  | notSelf {t : UId} {v : Option Addr} : t ≠ u → Moves a u r s (.join t v .self) (.join t v .detached)
  | notDetached {t : UId} {v : Option Addr} : (s.ut t).status.has .detached = false →
      Moves a u r s (.join t v .detached) (.join t v .taken)
  | notTaken {t : UId} {v : Option Addr} : (s.ut t).utJoined = none →
      Moves a u r s (.join t v .taken) (.join t v .exited)
  | notExited {t : UId} {v : Option Addr} : (s.ut t).status.has .exited = false →
      Moves a u r s (.join t v .exited) (.join t v .publish)
  | expired {t : UId} {v : Option Addr} : (s.ut u).status.has .expired = true →
      Moves a u r s (.join t v .expired) (.join t v .unpublish)
  | woken {t : UId} {v : Option Addr} : (s.ut u).status.has .expired = false →
      Moves a u r s (.join t v .expired) (.join t v .free)
  | createGet : Moves a u r s .createGet (.createAlloc a)
  | alloc {c : SId} : r.ok = true → Moves a u r s (.createAlloc c) (.create c .lock)
  | stack {c : SId} {id : Nat} : r.ok = true → Moves a u r s (.create c (.stack id)) (.create c (.bind id))
  | bind {c : SId} {id : Nat} : Moves a u r s (.create c (.bind id)) (.create c (.insert id (s.sched c).p))
  | diskGet : Moves a u r s .diskGet (.diskFlag a)
  | noHandOff {c : SId} : handsOff c s = false → Moves a u r s (.diskHandOff c) .diskCall

/-- Statements that switch to the scheduler, and where the uthread will go on. -/
inductive Switches : Ctx → Ctx → Prop where
  | yield : Switches .yieldSwitch .user
  | sleep (w : Wait) : Switches (.sleep w .switch) (.sleep w .wake)
  | exit (v : Option Val) : Switches (.exit v .switch) .user

/-- What the next library statement of `u` does, on the thread of `a`. -/
inductive Stmt (a : SId) (u : UId) (r : Reply) (s : State) : State → Prop where
  | own {k k' : Ctx} {f : Uthread → Uthread} : (s.ut u).ctx = k → Own r.now k f k' →
      Stmt a u r s (goto u k' (s.setUt u f))
  | moves {k' : Ctx} : Moves a u r s (s.ut u).ctx k' → Stmt a u r s (goto u k' s)
  | io {c : IoCall} {pc : IoAt} {k' : Ctx} {s₀ : State} : (s.ut u).ctx = .io c pc →
      (s₀ = s ∨ ∃ e, s₀ = setErrno a e s) → k'.AtIo → Stmt a u r s (goto u k' s₀)
  | ioReturns {c : IoCall} {pc : IoAt} {v : Int} {s₀ : State} : (s.ut u).ctx = .io c pc →
      (s₀ = s ∨ ∃ e, s₀ = setErrno a e s) → Stmt a u r s (returns a u v s₀)
  | linkSleeping {w : Wait} {q : PId} {t : List UId} : (s.ut u).ctx = .sleep w .insert →
      (s.ut u).p = some q → insertSleeping s u (s.p q).sleeping = some t →
      Stmt a u r s (goto u (.sleep w .mark) (s.setP q fun v => {v with sleeping := t}))
  | watch {c : IoCall} {q : PId} {l : List Interest} : (s.ut u).ctx = .register c .ctl →
      (s.sched a).p = some q → epollCtlAdd c.fd c.event (s.p q).interest = some l →
      Stmt a u r s (goto u (.register c .status)
        (State.setP q (fun v => {v with interest := l})
          {s with consumed := Function.update s.consumed u false}))
  | linkWaiting {c : IoCall} {q : PId} : (s.ut u).ctx = .register c .insert → (s.ut u).p = some q →
      Stmt a u r s (goto u (.sleep (.event c) .clock) (s.setP q fun v =>
        {v with waiting := (insertWaiting s u (s.p q).waiting).getD (s.p q).waiting}))
  | joinFails {t : UId} {v : Option Addr} {pc : JoinAt} {e : Errno} : (s.ut u).ctx = .join t v pc →
      Stmt a u r s (returns a u (-1) (setErrno a e s))
  | joinExited {t : UId} {v : Option Addr} : (s.ut u).ctx = .join t v .exited →
      (s.ut t).status.has .exited = true →
      Stmt a u r s (returns a u 0 {s with bitmapUt := Function.update s.bitmapUt (s.ut t).id true})
  | publish {t : UId} {v : Option Addr} : (s.ut u).ctx = .join t v .publish →
      Stmt a u r s (goto u (.join t v .setRetval) (s.setUt t fun x => {x with utJoined := some u}))
  | setRetval {t : UId} {v : Option Addr} : (s.ut u).ctx = .join t v .setRetval →
      Stmt a u r s (goto u (.sleep (.join t v) .clock) (s.setUt t fun x => {x with retval := v}))
  | unpublish {t : UId} {v : Option Addr} : (s.ut u).ctx = .join t v .unpublish →
      Stmt a u r s (goto u (.join t v .resetRetval) (s.setUt t fun x => {x with utJoined := none}))
  | resetRetval {t : UId} {v : Option Addr} : (s.ut u).ctx = .join t v .resetRetval →
      Stmt a u r s (returns a u 1 (s.setUt t fun x => {x with retval := v}))
  | joinFree {t : UId} {v : Option Addr} : (s.ut u).ctx = .join t v .free →
      Stmt a u r s (returns a u 0 {s with bitmapUt := Function.update s.bitmapUt (s.ut t).id false})
  | store {v : Option Val} : (s.ut u).ctx = .exit v .store →
      Stmt a u r s (goto u (.exit v .yieldFlag) (storeRetval u (v.getD 0) s))
  | switch {k k' : Ctx} {s' : State} : (s.ut u).ctx = k → Switches k k' →
      uthreadSwitched a u (goto u k' s) = .ok s' → Stmt a u r s s'
  | allocFails : (∃ c, (s.ut u).ctx = .createAlloc c) ∨ (∃ c id, (s.ut u).ctx = .create c (.stack id)) →
      r.ok = false → Stmt a u r s (returns a u (-1) s)
  | lock {c : SId} : (s.ut u).ctx = .create c .lock → s.mutex = none →
      Stmt a u r s (goto u (.create c .count) {s with mutex := some u})
  | count {c : SId} : (s.ut u).ctx = .create c .count →
      Stmt a u r s (goto u (.create c (.unlock s.nextUtId))
        {s with
          nUthread := (s.nUthread + 1) % 2 ^ 32
          bitmapUt := Function.update s.bitmapUt s.nextUtId true
          nextUtId := nextId s.nextUtId})
  | unlock {c : SId} {id : Nat} : (s.ut u).ctx = .create c (.unlock id) →
      Stmt a u r s (goto u (.create c (.stack id)) {s with mutex := none})
  | created {c : SId} {id : Nat} {p : Option PId} {q : PId} : (s.ut u).ctx = .create c (.insert id p) →
      (s.sched c).p = some q → Stmt a u r s (returns a u 0 (created q id p s))
  | diskFlag {c : SId} {v : UId} : (s.ut u).ctx = .diskFlag c → (s.sched c).curUthread = some v →
      Stmt a u r s (goto u (.diskHandOff c) (s.setUt v fun x => {x with isWatingYieldSignal := false}))
  | handOff {c n : SId} {q : PId} {rest : List SId} : (s.ut u).ctx = .diskHandOff c →
      (s.sched c).p = some q → (s.p q).ready ≠ [] → s.schedIdle = n :: rest →
      Stmt a u r s (goto u .diskCall (handedOff c n q rest s))
  | diskCall {s₀ : State} : (s.ut u).ctx = .diskCall → (s₀ = s ∨ ∃ e, s₀ = setErrno a e s) →
      Stmt a u r s (returns a u r.ret s₀)

section Inversion

variable {s s' : State} {a : SId} {u : UId} {r : Reply}

theorem schedSleepStmt_ok {w : Wait} {pc : SleepAt} (hctx : (s.ut u).ctx = .sleep w pc)
    (h : schedSleepStmt a u w pc r s = .ok s') : Stmt a u r s s' := by
  cases pc with
  | insert =>
    obtain ⟨q, hq, h⟩ := bind_ok h
    split at h
    · cases h
    · rename_i t ht
      cases h
      exact .linkSleeping hctx (home_ok hq) ht
  | switch => exact .switch hctx (.sleep w) h
  | clock => cases h; exact .own hctx (.clock w)
  | mark => cases h; exact .own hctx (.mark w)
  | flag => cases h; exact .own hctx (.flag w)
  | yieldFlag => cases h; exact .own hctx (.sleepYield w)
  | wake => cases h; exact .own hctx (.wake w)

theorem registerStmt_ok {c : IoCall} {pc : RegisterAt} (hctx : (s.ut u).ctx = .register c pc)
    (h : registerStmt a u c pc s = .ok s') : Stmt a u r s s' := by
  cases pc with
  | ctl =>
    obtain ⟨q, hq, h⟩ := bind_ok h
    split at h
    · cases h
    · rename_i l hl
      cases h
      exact .watch hctx (bound_ok hq) hl
  | insert =>
    obtain ⟨q, hq, h⟩ := bind_ok h
    cases h
    exact .linkWaiting hctx (home_ok hq)
  | status => cases h; exact .own hctx (.status c)
  | key => cases h; exact .own hctx (.key c)
  | unkey => cases h; exact .own hctx (.unkey c)
  | unstatus => cases h; exact .own hctx (.unstatus c)

theorem joinStmt_ok {t : UId} {v : Option Addr} {pc : JoinAt} (hctx : (s.ut u).ctx = .join t v pc) :
    Stmt a u r s (joinStmt a u t v pc s) := by
  have hmoves : ∀ {k'}, Moves a u r s (.join t v pc) k' → Stmt a u r s (goto u k' s) := by
    intro k' hk
    rw [← hctx] at hk
    exact .moves hk
  cases pc with
  | self =>
    unfold joinStmt
    dsimp only
    split
    · exact .joinFails hctx
    · rename_i ht
      exact hmoves (.notSelf ht)
  | detached =>
    unfold joinStmt
    dsimp only
    split
    · exact .joinFails hctx
    · rename_i hd
      exact hmoves (.notDetached (by simpa using hd))
  | taken =>
    unfold joinStmt
    dsimp only
    split
    · exact .joinFails hctx
    · rename_i hj
      exact hmoves (.notTaken (by simpa using hj))
  | exited =>
    unfold joinStmt
    dsimp only
    split
    · rename_i he
      exact .joinExited hctx he
    · rename_i he
      exact hmoves (.notExited (by simpa using he))
  | publish => exact .publish hctx
  | setRetval => exact .setRetval hctx
  | expired =>
    unfold joinStmt
    dsimp only
    split
    · rename_i he
      exact hmoves (.expired he)
    · rename_i he
      exact hmoves (.woken (by simpa using he))
  | unpublish => exact .unpublish hctx
  | resetRetval => exact .resetRetval hctx
  | free => exact .joinFree hctx

theorem exitStmt_ok {v : Option Val} {pc : ExitAt} (hctx : (s.ut u).ctx = .exit v pc)
    (h : exitStmt a u v pc s = .ok s') : Stmt a u r s s' := by
  cases pc with
  | mark => cases h; exact .own hctx (.exitMark v)
  | store => cases h; exact .store hctx
  | yieldFlag => cases h; exact .own hctx (.exitYield v)
  | switch => exact .switch hctx (.exit v) h

theorem createStmt_stmt {c : SId} {pc : CreateAt} (hctx : (s.ut u).ctx = .create c pc)
    (h : createStmt a u c pc r s = .ok s') : Stmt a u r s s' := by
  cases pc with
  | lock =>
    unfold createStmt at h
    dsimp only at h
    split at h
    · cases h
    · rename_i hm
      cases h
      exact .lock hctx (by simpa using hm)
  | count => cases h; exact .count hctx
  | unlock id => cases h; exact .unlock hctx
  | stack id =>
    unfold createStmt at h
    dsimp only at h
    split at h
    · rename_i hr
      cases h
      refine .moves ?_
      rw [hctx]
      exact .stack hr
    · rename_i hr
      cases h
      exact .allocFails (.inr ⟨c, id, hctx⟩) (by simpa using hr)
  | bind id =>
    cases h
    refine .moves ?_
    rw [hctx]
    exact .bind
  | insert id p =>
    obtain ⟨q, hq, h⟩ := bind_ok h
    cases h
    exact .created hctx (bound_ok hq)

theorem diskHandOffStmt_stmt {c : SId} (hctx : (s.ut u).ctx = .diskHandOff c)
    (h : diskHandOffStmt u c r s = .ok s') : Stmt a u r s s' := by
  rcases diskHandOffStmt_ok h with ⟨hno, rfl⟩ | ⟨q, n, rest, hq, hr, hidle, rfl⟩
  · refine .moves ?_
    rw [hctx]
    exact .noHandOff hno
  · exact .handOff hctx hq hr hidle

/-- **Every statement that succeeds is one of the list.** -/
theorem uthreadStmt_ok (h : uthreadStmt a u r s = .ok s') : Stmt a u r s s' := by
  unfold uthreadStmt at h
  cases hctx : (s.ut u).ctx with
  | user => rw [hctx] at h; cases h
  | yieldFlag => rw [hctx] at h; cases h; exact .own hctx .yieldFlag
  | yieldSwitch => rw [hctx] at h; exact .switch hctx .yield h
  | sleep w pc => rw [hctx] at h; exact schedSleepStmt_ok hctx h
  | register c pc => rw [hctx] at h; exact registerStmt_ok hctx h
  | io c pc =>
    rw [hctx] at h
    obtain ⟨s₀, hs₀, ⟨k, hk, rfl⟩ | ⟨v, rfl⟩⟩ := ioStmt_ok h
    · exact .io hctx hs₀ hk
    · exact .ioReturns hctx hs₀
  | join t v pc => rw [hctx] at h; cases h; exact joinStmt_ok hctx
  | exit v pc => rw [hctx] at h; exact exitStmt_ok hctx h
  | createGet =>
    rw [hctx] at h
    cases h
    refine .moves ?_
    rw [hctx]
    exact .createGet
  | createAlloc c =>
    rw [hctx] at h
    dsimp only at h
    split at h
    · rename_i hr
      cases h
      refine .moves ?_
      rw [hctx]
      exact .alloc hr
    · rename_i hr
      cases h
      exact .allocFails (.inl ⟨c, hctx⟩) (by simpa using hr)
  | create c pc => rw [hctx] at h; exact createStmt_stmt hctx h
  | diskGet =>
    rw [hctx] at h
    cases h
    refine .moves ?_
    rw [hctx]
    exact .diskGet
  | diskFlag c =>
    rw [hctx] at h
    dsimp only at h
    unfold diskFlagStmt at h
    split at h
    · cases h
    · rename_i v hv
      cases h
      exact .diskFlag hctx hv
  | diskHandOff c => rw [hctx] at h; exact diskHandOffStmt_stmt hctx h
  | diskCall =>
    rw [hctx] at h
    cases h
    unfold diskCallStmt
    split
    · exact .diskCall hctx (.inr ⟨_, rfl⟩)
    · exact .diskCall hctx (.inl rfl)

theorem Stmt.not_user (h : Stmt a u r s s') : (s.ut u).ctx ≠ .user := by
  intro hu
  cases h with
  | own hctx hown =>
    rw [hu] at hctx
    subst hctx
    cases hown
  | moves hm =>
    rw [hu] at hm
    cases hm
  | switch hctx hk _ =>
    rw [hu] at hctx
    subst hctx
    cases hk
  | allocFails hctx _ =>
    rw [hu] at hctx
    rcases hctx with ⟨c, hctx⟩ | ⟨c, id, hctx⟩ <;> cases hctx
  | io hctx _ _ | ioReturns hctx _ | linkSleeping hctx _ _ | watch hctx _ _ | linkWaiting hctx _
  | joinFails hctx | joinExited hctx _ | publish hctx | setRetval hctx | unpublish hctx
  | resetRetval hctx | joinFree hctx | store hctx | lock hctx _ | count hctx | unlock hctx
  | created hctx _ | diskFlag hctx _ | handOff hctx _ _ _ | diskCall hctx _ =>
    rw [hu] at hctx
    cases hctx

end Inversion

/-! ### Calls and actions -/

/-- The record of a uthread that makes a call. -/
def entered (u : UId) (c : Call) (s : State) : State := s.setUt u fun v => {v with hist := {call := some c}}

/-- The first statement of a call. -/
def Call.head : Call → Ctx
  | .yield => .yieldFlag
  | .create => .createGet
  | .join t r => .join t r .self
  | .exit v => .exit (some v) .mark
  | .finish | .mainEnd => .exit none .mark
  | .disk => .diskGet
  | .io c => .io c .head
  | .detach _ | .close _ => .user

/-- What a call of user code does at once. -/
inductive Entered (a : SId) (u : UId) (s : State) : Call → State → Prop where
  | goes {c : Call} : (∀ t, c ≠ .detach t) → (∀ fd, c ≠ .close fd) →
      (∀ t r, c = .join t r → (s.ut t).life ≠ .fresh) →
      Entered a u s c (goto u c.head (entered u c s))
  | detach {t : UId} : (s.ut t).life ≠ .fresh →
      Entered a u s (.detach t) (returns a u 0
        ((entered u (.detach t) s).setUt t fun v => {v with status := v.status.add .detached}))
  | close {fd : Int} : Entered a u s (.close fd) (returns a u 0 (closeFd fd (entered u (.close fd) s)))

theorem entered_life (u : UId) (c : Call) (s : State) (v : UId) :
    ((entered u c s).ut v).life = (s.ut v).life := by
  unfold entered
  exact setUt_keeps Uthread.life rfl v

theorem enter_ok {a : SId} {u : UId} {c : Call} {s s' : State} (h : enter a u c s = .ok s') :
    Entered a u s c s' := by
  unfold enter at h
  cases c with
  | yield => cases h; exact .goes (by simp) (by simp) (by simp)
  | create => cases h; exact .goes (by simp) (by simp) (by simp)
  | join t r =>
    dsimp only at h
    split at h
    · cases h
    · rename_i hl
      cases h
      refine .goes (by simp) (by simp) fun t' r' he => ?_
      cases he
      rw [← entered_life u (.join t r) s t]
      exact hl
  | exit v => cases h; exact .goes (by simp) (by simp) (by simp)
  | finish =>
    dsimp only at h
    split at h
    · cases h
    · cases h
      exact .goes (by simp) (by simp) (by simp)
  | mainEnd => cases h; exact .goes (by simp) (by simp) (by simp)
  | detach t =>
    dsimp only at h
    split at h
    · cases h
    · rename_i hl
      cases h
      refine .detach ?_
      rw [← entered_life u (.detach t) s t]
      exact hl
  | disk => cases h; exact .goes (by simp) (by simp) (by simp)
  | io c =>
    dsimp only at h
    split at h
    · cases h
      exact .goes (by simp) (by simp) (by simp)
    · cases h
  | close fd => cases h; exact .close

/-- What an action does. -/
inductive Step (s : State) : Act → State → Prop where
  | call {a : SId} {c : Call} {u : UId} {s' : State} : (s.sched a).curUthread = some u →
      (s.ut u).ctx = .user → Entered a u s c s' → Step s (.call a c) s'
  | stmt {a : SId} {r : Reply} {u : UId} {s' : State} : (s.sched a).curUthread = some u →
      Stmt a u r s s' → Step s (.stmt a r) s'
  | preempt {a : SId} {u : UId} {s' : State} : (s.sched a).curUthread = some u →
      (s.ut u).isWatingYieldSignal = true →
      uthreadSwitched a u (s.setUt u fun v => {v with isWatingYieldSignal := false}) = .ok s' →
      Step s (.preempt a) s'
  | sched {a : SId} {r : Reply} {s' : State} : (s.sched a).curUthread = none →
      SchedStep a r s s' → Step s (.sched a r) s'

/-- No action is taken after `free_source()`. -/
theorem stepHalted_ne_ok {s : State} {act : Act} : stepHalted act ≠ .ok s := by
  unfold stepHalted
  split <;> exact nofun

theorem not_halted_of_step {s s' : State} {act : Act} (hs : step s act = .ok s') : s.halted = false := by
  cases hh : s.halted with
  | false => rfl
  | true =>
    simp only [step, hh, if_true] at hs
    exact absurd hs stepHalted_ne_ok

/-- The thread of a uthread executes its next statement. -/
theorem step_stmt {s : State} {a : SId} {u : UId} (hhalt : s.halted = false)
    (hc : (s.sched a).curUthread = some u) (r : Reply) : step s (.stmt a r) = uthreadStmt a u r s := by
  simp only [step, hhalt, hc, Bool.false_eq_true, if_false]

theorem step_ok {s s' : State} {act : Act} (h : step s act = .ok s') : Step s act s' := by
  unfold step at h
  split at h
  · exact absurd h stepHalted_ne_ok
  · cases act with
    | call a c =>
      dsimp only at h
      split at h
      · cases h
      · rename_i u hc
        split at h
        · rename_i hu
          exact .call hc hu (enter_ok h)
        · cases h
    | stmt a r =>
      dsimp only at h
      split at h
      · cases h
      · rename_i u hc
        exact .stmt hc (uthreadStmt_ok h)
    | preempt a =>
      dsimp only at h
      split at h
      · cases h
      · rename_i u hc
        split at h
        · rename_i hf
          exact .preempt hc hf h
        · cases h
    | sched a r =>
      dsimp only at h
      split at h
      · rename_i hc
        exact .sched hc (schedRun_ok h)
      · cases h

end UthreadRuntime
