import UthreadRuntime.Placement.Mirror
import UthreadRuntime.Safety.Events
import UthreadRuntime.Safety.Marks

/-! Registrations and the events reported for them.

A uthread that waits for a descriptor has registered it with the poller, `epoll_wait` reports the
registration, and `handle_event` ends the wait and drops it. The entries of a batch are handled
one after the other, and the uthreads they resume may register descriptors while the batch lasts.
The history kept here tells for each descriptor whose registration it has and whether
`epoll_wait` has reported that registration. -/
namespace UthreadRuntime

open State Placement

/-- A descriptor in the interest set: who registered it, for what, and whether it was reported since. -/
structure Registration where
  owner : UId
  event : UthreadEvent
  reported : Bool
  deriving DecidableEq

abbrev Registrations := PId → Int → Option Registration

/-- The events that `epoll_wait` has reported in a step. -/
def reports (s s' : State) (q : PId) : List EpollEvent := (s'.p q).posted.drop (s.p q).posted.length

/-- The registrations after a step. What has left the interest set is none, what has come into it
is the registration of the uthread that acted, and what was reported is marked. -/
def noteRegistration (s : State) (act : Act) (s' : State) (g : Registrations) : Registrations := fun q fd =>
  match (s'.p q).interest.find? fun i => i.fd == fd with
  | none => none
  | some i =>
    if fd ∈ (s.p q).interest.map Interest.fd then
      (g q fd).map fun x =>
        {x with reported := x.reported || decide (fd ∈ (reports s s' q).map EpollEvent.fd)}
    else (s.sched act.thread).curUthread.map fun u => ⟨u, i.event, false⟩

/-- Runs with the history of the registrations. -/
def Polling.Reaches (C : State → Act → Prop) : State × Registrations → Prop :=
  Run.Reaches (Run.noted step noteRegistration) (fun x => C x.1) (init, fun _ _ => none)

/-- The call whose descriptor the action registers. -/
def registers (s : State) : Act → Option IoCall
  | .stmt a _ =>
    match (s.sched a).curUthread with
    | none => none
    | some u =>
      match (s.ut u).ctx with
      | .register c .ctl => some c
      | _ => none
  | _ => none

/-- No uthread registers for writing a descriptor whose event the loop below it has in hand. -/
def HandClear (s : State) (act : Act) : Prop :=
  ∀ c ∈ registers s act, c.event = .wr → ∀ eof, (s.sched act.thread).pc ≠ .handleWr c.fd eof

instance (s : State) (act : Act) : Decidable (HandClear s act) :=
  inferInstanceAs (Decidable (∀ c ∈ registers s act, c.event = .wr →
    ∀ eof, (s.sched act.thread).pc ≠ .handleWr c.fd eof))

/-! ### Who has registered -/

/-- The call whose wait has been registered. -/
def Ctx.registration : Ctx → Option IoCall
  | .register c .status | .register c .key | .register c .insert | .sleep (.event c) _ => some c
  | _ => none

/-- The uthread has registered the descriptor of the call, and the wait is not over. -/
def Uthread.Registered (r : Uthread) (c : IoCall) : Prop :=
  r.ctx.registration = some c ∧ (r.ctx.publishing = true ∨ r.status.has .sleeping = true)

theorem Fades.registered {r r' : Uthread} {c : IoCall} (h : Fades r r') (hr : r'.Registered c) :
    r.Registered c := by
  obtain ⟨hreg, hset⟩ := hr
  rw [h.ctx] at hreg hset
  refine ⟨hreg, ?_⟩
  rcases hset with hp | hs
  · exact .inl hp
  · exact .inr (h.kept hs).1

theorem Own.registered {now : Nat} {k k' : Ctx} {f : Uthread → Uthread} (h : Own now k f k') {x : Uthread}
    (hx : x.ctx = k) {c : IoCall} (hr : Uthread.Registered {f x with ctx := k'} c) : x.Registered c := by
  obtain ⟨hreg, hset⟩ := hr
  unfold Uthread.Registered
  rw [hx]
  cases h with
  | clock w | mark w =>
    cases w with
    | join t v => cases hreg
    | event d => exact ⟨hreg, .inl rfl⟩
  | flag w | sleepYield w =>
    cases w with
    | join t v => cases hreg
    | event d => exact ⟨hreg, hset⟩
  | wake w => cases w <;> cases hreg
  | status d | key d => exact ⟨hreg, .inl rfl⟩
  | exitMark v => cases v <;> cases hreg
  | _ => cases hreg

theorem Switches.registered {k k' : Ctx} (h : Switches k k') {x : Uthread} (hx : x.ctx = k) {c : IoCall}
    (hr : Uthread.Registered {x with ctx := k'} c) : x.Registered c := by
  obtain ⟨hreg, hset⟩ := hr
  unfold Uthread.Registered
  rw [hx]
  cases h with
  | yield | exit v => cases hreg
  | sleep w =>
    cases w with
    | join t v => cases hreg
    | event d => exact ⟨hreg, hset⟩

theorem Call.head_registration (c : Call) : c.head.registration = none := by
  cases c <;> rfl

section Statements

variable {s s' : State} {a : SId} {u v : UId}

theorem Moves.registration {r : Reply} {k k' : Ctx} (h : Moves a u r s k k') : k'.registration = none := by
  cases h <;> rfl

/-- The uthread adds the descriptor of the call to the interest set of its sched. -/
def Adds (a : SId) (u : UId) (c : IoCall) (s s' : State) : Prop :=
  ∃ q, (s.ut u).ctx = .register c .ctl ∧ (s.sched a).p = some q ∧ c.fd ∉ (s.p q).interest.map Interest.fd ∧
    ∀ q', (s'.p q').interest =
      if q' = q then ⟨c.fd, c.event, true⟩ :: (s.p q).interest else (s.p q').interest

theorem adds_of_watch {c : IoCall} {k : Ctx} {q : PId} {l : List Interest} (hctx : (s.ut u).ctx = .register c .ctl)
    (hq : (s.sched a).p = some q) (hl : epollCtlAdd c.fd c.event (s.p q).interest = some l) :
    Adds a u c s (goto u k (State.setP q (fun v => {v with interest := l})
      {s with consumed := Function.update s.consumed u false})) := by
  obtain ⟨-, hfd, rfl⟩ := epollCtlAdd_some hl
  refine ⟨q, hctx, hq, hfd, fun q' => ?_⟩
  unfold goto
  rw [setUt_p, setP_p]
  split <;> rfl

/-- A uthread registers in one statement. -/
theorem Stmt.registered {r : Reply} {c : IoCall} (hs : Stmt a u r s s') (hr : (s'.ut u).Registered c) :
    (s.ut u).Registered c ∨ Adds a u c s s' := by
  have hgoto : ∀ {k : Ctx} {s₀ : State}, (goto u k s₀).ut u = {s₀.ut u with ctx := k} := by
    intro k s₀
    unfold goto
    rw [setUt_ut_self]
  have hleft : ∀ {k : Ctx} {s₀ : State}, k.registration = none → ¬((goto u k s₀).ut u).Registered c := by
    intro k s₀ hk hr
    rw [hgoto] at hr
    exact absurd (hk.symm.trans hr.1) (by simp)
  have hret : ∀ {x : Int} {s₀ : State}, ¬((returns a u x s₀).ut u).Registered c := by
    intro x s₀ hr
    unfold returns at hr
    rw [setUt_ut_self] at hr
    cases hr.1
  cases hs with
  | own hctx hown =>
    rw [hgoto, setUt_ut_self] at hr
    exact .inl (hown.registered hctx hr)
  | moves hm => exact absurd hr (hleft hm.registration)
  | io _ _ hk' =>
    refine absurd hr (hleft ?_)
    rcases hk' with ⟨d, pc, rfl⟩ | ⟨d, rfl⟩ <;> rfl
  | @linkSleeping w q t hctx _ _ =>
    rw [hgoto] at hr
    left
    unfold Uthread.Registered
    rw [hctx]
    cases w with
    | join t v => cases hr.1
    | event d => exact ⟨hr.1, .inl rfl⟩
  | watch hctx hq hl =>
    rw [hgoto] at hr
    cases hr.1
    exact .inr (adds_of_watch hctx hq hl)
  | linkWaiting hctx _ =>
    rw [hgoto] at hr
    left
    unfold Uthread.Registered
    rw [hctx]
    exact ⟨hr.1, .inl rfl⟩
  | switch hctx hk hsw =>
    have hr' := (AllFade.switched hsw u).registered hr
    rw [hgoto] at hr'
    exact .inl (hk.registered hctx hr')
  | publish _ | setRetval _ | unpublish _ | diskFlag _ _ | store _ | lock _ _ | count _ | unlock _
  | handOff _ _ _ _ => exact absurd hr (hleft rfl)
  | ioReturns _ _ | diskCall _ _ | joinFails _ | joinExited _ _ | joinFree _ | resetRetval _
  | allocFails _ _ | created _ _ => exact absurd hr hret

/-- **Only its own registration makes a uthread registered.** -/
theorem step_registered {act : Act} {c : IoCall} (h : Sound s) (hs : step s act = .ok s') (hv : v < s.heap)
    (hr : (s'.ut v).Registered c) : (s.ut v).Registered c ∨
      ∃ a r, act = .stmt a r ∧ (s.sched a).curUthread = some v ∧ Adds a v c s s' := by
  rcases step_fades h hs hv with hf | ⟨b, d, -, -, hent⟩ | ⟨b, r, rfl, hc, hstmt⟩
  · exact .inl (hf.registered hr)
  · have hnone := hr.1
    rw [hent.ctx, d.head_registration] at hnone
    cases hnone
  · rcases hstmt.registered hr with hreg | hadds
    · exact .inl hreg
    · exact .inr ⟨b, r, rfl, hc, hadds⟩

end Statements

section Holding

variable {s : State} {u : UId} {c : IoCall}

theorem Uthread.Registered.holds (h : (s.ut u).Registered c) : (s.board.task u).Holds c.fd := by
  obtain ⟨hreg, hset⟩ := h
  have hmode : (s.board.task u).mode = (s.ut u).ctx.mode := rfl
  have hasleep : (s.board.task u).asleep = (s.ut u).status.has .sleeping := rfl
  unfold Task.Holds Task.WaitsFor
  rw [hmode, hasleep]
  cases hctx : (s.ut u).ctx with
  | register d pc =>
    rw [hctx] at hreg
    cases pc with
    | status | key =>
      cases hreg
      exact .inl ⟨c.event, .inl rfl⟩
    | insert =>
      cases hreg
      exact .inl ⟨c.event, .inr rfl⟩
    | _ => cases hreg
  | sleep w pc =>
    rw [hctx] at hreg hset
    cases w with
    | join t r => cases hreg
    | event d =>
      cases hreg
      refine .inr ⟨c.event, ?_⟩
      cases pc with
      | clock | insert => exact .inl rfl
      | mark => exact .inr (.inl rfl)
      | flag | yieldFlag | switch => exact .inr (.inr ⟨hset.resolve_left (by simp [Ctx.publishing]), .inl rfl⟩)
      | wake => exact .inr (.inr ⟨hset.resolve_left (by simp [Ctx.publishing]), .inr rfl⟩)
  | _ =>
    rw [hctx] at hreg
    cases hreg

/-- Who waits has registered what it waits for. -/
theorem registered_of_waits {fd : Int} {e : UthreadEvent} (hw : (s.board.task u).WaitsFor (.event fd e)) :
    ∃ c, (s.ut u).Registered c ∧ c.fd = fd ∧ c.event = e := by
  have hpub := Ctx.publishing_mode (s.ut u).ctx
  have hmode : (s.ut u).ctx.mode = .arming (.event fd e) ∨ (s.ut u).ctx.mode = .linked (.event fd e) ∨
      (s.ut u).ctx.mode = .parking (.event fd e) ∨ (s.ut u).ctx.mode = .parked (.event fd e) := by
    rcases hw with hm | hm | ⟨-, hm | hm⟩
    · exact .inl hm
    · exact .inr (.inl hm)
    · exact .inr (.inr (.inl hm))
    · exact .inr (.inr (.inr hm))
  obtain ⟨c, pc, hctx, hfd, he⟩ := Ctx.sleep_of_waits hmode
  refine ⟨c, ⟨by rw [hctx]; rfl, ?_⟩, hfd, he⟩
  rcases hw with hm | hm | ⟨ha, -⟩
  · rw [show (s.ut u).ctx.mode = _ from hm] at hpub
    exact .inl hpub.symm
  · rw [show (s.ut u).ctx.mode = _ from hm] at hpub
    exact .inl hpub.symm
  · exact .inr ha

end Holding

/-! ### The interest sets -/

def SameInterest (s s' : State) : Prop := ∀ q, (s'.p q).interest = (s.p q).interest

namespace SameInterest

variable {s s' s'' : State} {a : SId} {u : UId} {q : PId}

theorem of_eq (h : s'.p = s.p) : SameInterest s s' := by
  intro q
  rw [h]

theorem trans (h : SameInterest s s') (h' : SameInterest s' s'') : SameInterest s s'' :=
  fun q => (h' q).trans (h q)

theorem setP {g : P → P} (h : (g (s.p q)).interest = (s.p q).interest) : SameInterest s (s.setP q g) :=
  setP_keeps P.interest h

theorem insertReady (q : PId) (u : UId) (s : State) : SameInterest s (insertReady q u s) := setP rfl

theorem deschedSleep (h : uthreadDeschedSleep u s = .ok s') : SameInterest s s' := by
  rcases uthreadDeschedSleep_ok h with ⟨-, rfl⟩ | ⟨-, q, -, rfl⟩
  · exact of_eq rfl
  · have hp : SameInterest s (s.setP q fun v => {v with sleeping := Tree.remove u v.sleeping}) := setP rfl
    exact hp.trans (of_eq rfl)

theorem deschedEvent {fd e : Int} {found : Option UId}
    (h : uthreadDeschedEvent a fd e s = .ok (found, s')) : SameInterest s s' := by
  obtain ⟨q, -, -, ⟨-, rfl⟩ | ⟨v, -, hv⟩⟩ := uthreadDeschedEvent_ok h
  · exact of_eq rfl
  · exact (setP rfl : SameInterest s (s.setP q _)).trans (deschedSleep hv)

theorem wakeJoined (h : wakeJoined u s = .ok s') : SameInterest s s' := by
  rcases wakeJoined_ok h with ⟨-, rfl⟩ | ⟨j, q, s₁, -, hd, -, rfl⟩
  · exact of_eq rfl
  · have hnote : SameInterest s₁ (s₁.setUt j fun v =>
        {v with hist := {v.hist with waits := .joined :: v.hist.waits}}) := of_eq rfl
    exact (deschedSleep hd).trans (hnote.trans (insertReady q j _))

theorem switched (h : uthreadSwitched a u s = .ok s') : SameInterest s s' := by
  rcases uthreadSwitched_ok h with ⟨-, s₁, hw, -, rfl⟩ | ⟨-, -, rfl⟩ | ⟨-, -, q, -, rfl⟩
  · exact (of_eq rfl : SameInterest s (idleCpu a s)).trans ((wakeJoined hw).trans (of_eq rfl))
  · exact of_eq rfl
  · exact (of_eq rfl : SameInterest s (idleCpu a s)).trans (insertReady q u _)

theorem handedOff (c n : SId) (q : PId) (rest : List SId) (s : State) :
    SameInterest s (handedOff c n q rest s) := by
  intro r
  rw [handedOff_p]
  split
  · rename_i hr
    rw [hr]
  · rfl

end SameInterest

section Interest

variable {s s' : State} {a : SId} {u : UId}

/-- A registration is the one statement that changes an interest set. -/
theorem Stmt.interest {r : Reply} (hs : Stmt a u r s s') : SameInterest s s' ∨ ∃ c, Adds a u c s s' := by
  have hgoto : ∀ {k : Ctx} {s₀ : State}, SameInterest s s₀ → SameInterest s (goto u k s₀) :=
    fun h => h.trans (.of_eq rfl)
  cases hs with
  | linkSleeping _ _ _ | linkWaiting _ _ => exact .inl (hgoto (.setP rfl))
  | watch hctx hq hl => exact .inr ⟨_, adds_of_watch hctx hq hl⟩
  | switch _ _ hsw => exact .inl ((SameInterest.of_eq rfl : SameInterest s (goto u _ s)).trans (.switched hsw))
  | @created _ id p q _ _ =>
    have hnew : SameInterest s {s with
        ut := Function.update s.ut s.heap
          {id := id, status := .only .new, p := p, fdWait := -1, isWatingYieldSignal := true, life := .live}
        heap := s.heap + 1} := .of_eq rfl
    exact .inl ((hnew.trans (.insertReady q s.heap _)).trans (.of_eq rfl))
  | handOff _ _ _ _ => exact .inl (hgoto (.handedOff _ _ _ _ s))
  | store _ =>
    rw [storeRetval_eq]
    exact .inl (hgoto (.of_eq rfl))
  | io _ h₀ _ =>
    refine .inl (hgoto ?_)
    rcases h₀ with rfl | ⟨e, rfl⟩ <;> exact .of_eq rfl
  | ioReturns _ h₀ | diskCall _ h₀ =>
    rcases h₀ with rfl | ⟨e, rfl⟩ <;> exact .inl (.of_eq rfl)
  | _ => exact .inl (.of_eq rfl)

/-- What `handle_event` drops is the descriptor it is given. -/
theorem handleEvent_interest {fd : Int} {ev : UthreadEvent} {isEof : Bool} {k : SchedAt}
    (hs : handleEvent a fd ev isEof k s = .ok s') (q : PId) :
    (s'.p q).interest = (s.p q).interest ∨
      (s'.p q).interest = (s.p q).interest.filter fun i => i.fd != fd := by
  rcases handleEvent_ok hs with ⟨s₁, hd, rfl⟩ | ⟨u, s₁, s₂, hd, -, hdel, rfl⟩
  · exact .inl (SameInterest.deschedEvent hd q)
  · obtain ⟨q', -, -, rfl⟩ := epollDel_ok hdel
    have hsame := SameInterest.deschedEvent hd q
    rw [(uthreadResume_p a u k _).1]
    unfold notedEvent dropInterest
    rw [setUt_p, setP_p, ← hsame]
    split
    · rename_i hq
      rw [hq]
      exact .inr rfl
    · exact .inl rfl

end Interest

/-! ### The history of a step -/

section History

variable {s s' : State} {act : Act} {g : Registrations} {q : PId} {fd : Int}

theorem mem_interest_of_find {l : List Interest} {i : Interest} (h : l.find? (fun j => j.fd == fd) = some i) :
    i ∈ l ∧ i.fd = fd := ⟨List.mem_of_find?_eq_some h, by simpa using List.find?_some h⟩

/-- A registration that stays is marked when it is reported. -/
theorem noteRegistration_stays (hin : fd ∈ (s.p q).interest.map Interest.fd)
    (hin' : fd ∈ (s'.p q).interest.map Interest.fd) :
    noteRegistration s act s' g q fd = (g q fd).map fun x =>
      {x with reported := x.reported || decide (fd ∈ (reports s s' q).map EpollEvent.fd)} := by
  unfold noteRegistration
  split
  · rename_i hnone
    obtain ⟨i, hi, hfd⟩ := List.mem_map.mp hin'
    exact absurd (List.find?_eq_none.mp hnone i hi) (by simp [hfd])
  · rw [if_pos hin]

/-- A registration after a step was there, or the step has made it. -/
theorem noteRegistration_some {y : Registration} (h : noteRegistration s act s' g q fd = some y) :
    (fd ∈ (s.p q).interest.map Interest.fd ∧ ∃ x, g q fd = some x ∧
      y = {x with reported := x.reported || decide (fd ∈ (reports s s' q).map EpollEvent.fd)}) ∨
    (fd ∉ (s.p q).interest.map Interest.fd ∧ ∃ i ∈ (s'.p q).interest, i.fd = fd ∧ y.event = i.event) := by
  unfold noteRegistration at h
  split at h
  · cases h
  · rename_i i hi
    split at h
    · rename_i hin
      obtain ⟨x, hx, rfl⟩ := Option.map_eq_some_iff.mp h
      exact .inl ⟨hin, x, hx, rfl⟩
    · rename_i hin
      obtain ⟨u, -, rfl⟩ := Option.map_eq_some_iff.mp h
      obtain ⟨hmem, hfd⟩ := mem_interest_of_find hi
      exact .inr ⟨hin, i, hmem, hfd, rfl⟩

/-- What was reported stays so as long as it is registered. -/
theorem reported_stays (hin : fd ∈ (s.p q).interest.map Interest.fd)
    (h : ∀ x, g q fd = some x → x.reported = true) {y : Registration}
    (hy : noteRegistration s act s' g q fd = some y) : y.reported = true := by
  rcases noteRegistration_some hy with ⟨-, x, hx, rfl⟩ | ⟨hout, -⟩
  · simp [h x hx]
  · exact absurd hin hout

end History

/-! ### Runs -/

/-- The entries that the loop has still to take, and the one it has in hand, were reported for the
registrations that are there. -/
structure LoopOk (s : State) (g : Registrations) : Prop where
  entries : ((s.p 0).eventlist.map EpollEvent.fd).Nodup
  batch : ∀ a, (s.sched a).p = some 0 → (s.sched a).pc.inBatch = true →
    ∀ fd ∈ (s.p 0).unread.map EpollEvent.fd, fd ∈ (s.p 0).interest.map Interest.fd ∧
      ∀ y, g 0 fd = some y → y.reported = true
  hand : ∀ a fd eof, (s.sched a).p = some 0 → (s.sched a).pc = .handleWr fd eof →
    fd ∉ (s.p 0).unread.map EpollEvent.fd ∧ ∀ y, g 0 fd = some y → y.event = .wr → y.reported = true

/-- Whose the registrations are, and which of them were reported. -/
structure RegistrationsOk (x : State × Registrations) : Prop where
  mirror : MirrorInv x.1
  owned : ∀ u < x.1.heap, (x.1.ut u).life = .live → ∀ c, (x.1.ut u).Registered c →
    ∃ b, x.2 0 c.fd = some ⟨u, c.event, b⟩
  loop : LoopOk x.1 x.2

section Runs

variable {s s' : State} {act : Act} {g : Registrations}

theorem RegistrationsOk.step_owned (h : RegistrationsOk (s, g)) (hm' : MirrorInv s')
    (hs : step s act = .ok s') {u : UId} (hu : u < s'.heap) (hl : (s'.ut u).life = .live) {c : IoCall}
    (hr : (s'.ut u).Registered c) : ∃ b, noteRegistration s act s' g 0 c.fd = some ⟨u, c.event, b⟩ := by
  have hsnd : Sound s := h.mirror.sound
  have hin' : c.fd ∈ (s'.p 0).interest.map Interest.fd :=
    hm'.cover.watched (b := s'.board) hl (hm'.sound.ut u hu).home hr.holds
  rcases step_born hsnd hs hu with hlt | ⟨huser, -⟩
  · have hlive : (s.ut u).life = .live := by
      rcases step_life hsnd hs hlt with hlife | ⟨hf, -⟩
      · rw [← hlife]
        exact hl
      · rw [hf] at hl
        cases hl
    rcases step_registered hsnd hs hlt hr with hr₀ | ⟨a, r, rfl, hc, q, -, hq, hfd, hint⟩
    · have hin : c.fd ∈ (s.p 0).interest.map Interest.fd :=
        h.mirror.cover.watched (b := s.board) hlive (hsnd.ut u hlt).home hr₀.holds
      obtain ⟨b, hb⟩ := h.owned u hlt hlive c hr₀
      have hb' : g 0 c.fd = some ⟨u, c.event, b⟩ := hb
      rw [noteRegistration_stays hin hin', hb']
      exact ⟨_, rfl⟩
    · obtain rfl := hsnd.one hq
      have hint0 := hint 0
      rw [if_pos rfl] at hint0
      refine ⟨false, ?_⟩
      unfold noteRegistration
      rw [hint0, List.find?_cons_of_pos (by simp)]
      simp only [if_neg hfd, Act.thread, hc, Option.map_some]
  · have hreg := hr.1
    rw [huser] at hreg
    cases hreg

end Runs

section Loop

variable {s s' : State} {act : Act} {g : Registrations} {a : SId}

/-- The loops are where they were, nothing has left the interest set, and what has come into it
is not for writing on a descriptor in hand. -/
theorem LoopOk.keep (h : LoopOk s g) (hlist : (s'.p 0).eventlist = (s.p 0).eventlist)
    (hnum : (s'.p 0).numNewEvents = (s.p 0).numNewEvents)
    (hloop : ∀ a, (s'.sched a).p = some 0 → (s'.sched a).pc.inBatch = true →
      (s.sched a).p = some 0 ∧ (s'.sched a).pc = (s.sched a).pc)
    (hin : ∀ fd ∈ (s.p 0).interest.map Interest.fd, fd ∈ (s'.p 0).interest.map Interest.fd)
    (hnew : ∀ a fd eof, (s.sched a).p = some 0 → (s.sched a).pc = .handleWr fd eof →
      fd ∉ (s.p 0).interest.map Interest.fd → ∀ i ∈ (s'.p 0).interest, i.fd = fd → i.event ≠ .wr) :
    LoopOk s' (noteRegistration s act s' g) := by
  have hunread : (s'.p 0).unread = (s.p 0).unread := by
    unfold P.unread
    rw [hlist, hnum]
  refine ⟨by rw [hlist]; exact h.entries, fun a ha hpc fd hfd => ?_, fun a fd eof ha hpc => ?_⟩
  · obtain ⟨ha', hpc'⟩ := hloop a ha hpc
    rw [hpc'] at hpc
    rw [hunread] at hfd
    obtain ⟨hmem, hrep⟩ := h.batch a ha' hpc fd hfd
    exact ⟨hin fd hmem, fun y hy => reported_stays hmem hrep hy⟩
  · obtain ⟨ha', hpc'⟩ := hloop a ha (by rw [hpc]; rfl)
    rw [hpc'] at hpc
    obtain ⟨hout, hrep⟩ := h.hand a fd eof ha' hpc
    rw [hunread]
    refine ⟨hout, fun y hy hwr => ?_⟩
    rcases noteRegistration_some hy with ⟨-, x, hx, rfl⟩ | ⟨hnot, i, hi, hfd, hev⟩
    · simp [hrep x hx hwr]
    · exact absurd (hev.symm.trans hwr) (hnew a fd eof ha' hpc hnot i hi hfd)

/-- Every other descriptor stays in the interest set. -/
theorem handleEvent_watched {fd : Int} {ev : UthreadEvent} {isEof : Bool} {k : SchedAt} {t : State}
    (hint : SameInterest s t) (hs : handleEvent a fd ev isEof k t = .ok s')
    {f : Int} (hne : f ≠ fd) (hf : f ∈ (s.p 0).interest.map Interest.fd) :
    f ∈ (s'.p 0).interest.map Interest.fd := by
  rcases handleEvent_interest hs 0 with hi | hi
  · rw [hi, hint 0]
    exact hf
  · obtain ⟨i, hmem, hfi⟩ := List.mem_map.mp hf
    rw [hi, hint 0]
    refine List.mem_map.mpr ⟨i, List.mem_filter.mpr ⟨hmem, ?_⟩, hfi⟩
    rw [hfi]
    simpa using hne

theorem LoopOk.took {r : Reply} {e : EpollEvent} (h : LoopOk s g) (hpc : (s.sched a).pc = .events)
    (hq : (s.sched a).p = some 0) (hn : (s.p 0).numNewEvents ≠ 0)
    (he : (s.p 0).eventlist[(s.p 0).numNewEvents - 1]? = some e)
    (hs : handleEvent a e.fd .rd e.hup (.handleWr e.fd e.hup) (tookEvent a 0 e s) = .ok s')
    (hown : ∀ c, (s'.sched c).p = some 0 → c = a) : LoopOk s' (noteRegistration s (.sched a r) s' g) := by
  have hlist : (s'.p 0).eventlist = (s.p 0).eventlist := by
    rw [((handleEvent_events hs).2 0).1, tookEvent_p]
    rfl
  have hleft : (s'.p 0).unread = (s.p 0).eventlist.take ((s.p 0).numNewEvents - 1) := by
    unfold P.unread
    rw [hlist, ((handleEvent_events hs).2 0).2.1, tookEvent_p]
    rfl
  have hunread := P.unread_took hn he
  have hnodup : ((s.p 0).unread.map EpollEvent.fd).Nodup :=
    h.entries.sublist (List.Sublist.map _ (List.take_sublist _ _))
  have hbatch : ∀ fd ∈ (s.p 0).unread.map EpollEvent.fd, _ :=
    h.batch a hq (by rw [hpc]; rfl)
  rw [hunread, List.map_append] at hnodup hbatch
  have hout : e.fd ∉ ((s.p 0).eventlist.take ((s.p 0).numNewEvents - 1)).map EpollEvent.fd := by
    intro hmem
    exact (List.nodup_append.mp hnodup).2.2 _ hmem _ (by simp) rfl
  have hsame : SameInterest s (tookEvent a 0 e s) := by
    intro q
    rw [tookEvent_p]
    split
    · rename_i hq0
      rw [hq0]
    · rfl
  refine ⟨by rw [hlist]; exact h.entries, fun c hc _ fd hfd => ?_, fun c fd eof hc hpc' => ?_⟩
  · rw [hleft] at hfd
    obtain ⟨hmem, hrep⟩ := hbatch fd (List.mem_append_left _ hfd)
    refine ⟨handleEvent_watched hsame hs ?_ hmem, fun y hy => reported_stays hmem hrep hy⟩
    rintro rfl
    exact hout hfd
  · obtain rfl := hown c hc
    rw [handleEvent_pc hs] at hpc'
    cases hpc'
    rw [hleft]
    refine ⟨hout, fun y hy _ => ?_⟩
    obtain ⟨hmem, hrep⟩ := hbatch e.fd (List.mem_append_right _ (by simp))
    exact reported_stays hmem hrep hy

theorem LoopOk.wrote {r : Reply} {fd : Int} {eof : Bool} (h : LoopOk s g) (hpc : (s.sched a).pc = .handleWr fd eof)
    (hq : (s.sched a).p = some 0) (hs : handleEvent a fd .wr eof .events s = .ok s')
    (hown : ∀ c, (s'.sched c).p = some 0 → c = a) : LoopOk s' (noteRegistration s (.sched a r) s' g) := by
  obtain ⟨hlist, hnum, -⟩ := (handleEvent_events hs).2 0
  have hunread : (s'.p 0).unread = (s.p 0).unread := by
    unfold P.unread
    rw [hlist, hnum]
  refine ⟨by rw [hlist]; exact h.entries, fun c hc _ f hf => ?_, fun c f eof' hc hpc' => ?_⟩
  · rw [hunread] at hf
    obtain ⟨hmem, hrep⟩ := h.batch a hq (by rw [hpc]; rfl) f hf
    refine ⟨handleEvent_watched (fun _ => rfl) hs ?_ hmem, fun y hy => reported_stays hmem hrep hy⟩
    rintro rfl
    exact (h.hand a f eof hq hpc).1 hf
  · obtain rfl := hown c hc
    rw [handleEvent_pc hs] at hpc'
    cases hpc'

theorem LoopOk.polled {r : Reply} (hpoll : pollable (s.p 0).interest r.events = true)
    (hs' : s' = setPc a .events (polled 0 r.events (s.setP 0 fun v => {v with numNewEvents := 0})))
    (hown : ∀ c, (s'.sched c).p = some 0 → c = a) : LoopOk s' (noteRegistration s (.sched a r) s' g) := by
  have hp : s'.p 0 = {s.p 0 with
      interest := disarm r.events (s.p 0).interest
      eventlist := r.events
      numNewEvents := r.events.length
      posted := (s.p 0).posted ++ r.events} := by
    rw [hs']
    simp [setPc, UthreadRuntime.polled, State.setP]
  have hunread : (s'.p 0).unread = r.events := by
    rw [hp]
    exact List.take_length
  have hwatched : (s'.p 0).interest.map Interest.fd = (s.p 0).interest.map Interest.fd := by
    rw [hp]
    unfold disarm
    rw [List.map_map]
    refine List.map_congr_left fun i _ => ?_
    dsimp only [Function.comp_apply]
    split <;> rfl
  unfold pollable at hpoll
  simp only [Bool.and_eq_true, decide_eq_true_eq, List.all_eq_true, List.any_eq_true, beq_iff_eq] at hpoll
  obtain ⟨⟨-, hnodup⟩, harmed⟩ := hpoll
  refine ⟨by rw [hp]; exact hnodup, fun c _ _ fd hfd => ?_, fun c f eof hc hpc => ?_⟩
  · rw [hunread] at hfd
    have hmem : fd ∈ (s.p 0).interest.map Interest.fd := by
      obtain ⟨e, he, rfl⟩ := List.mem_map.mp hfd
      obtain ⟨i, hi, hif, -⟩ := harmed e he
      exact List.mem_map.mpr ⟨i, hi, hif⟩
    rw [hwatched]
    refine ⟨hmem, fun y hy => ?_⟩
    have hreports : reports s s' 0 = r.events := by
      unfold reports
      rw [hp]
      exact List.drop_left
    rw [noteRegistration_stays hmem (by rw [hwatched]; exact hmem), hreports] at hy
    obtain ⟨x, -, rfl⟩ := Option.map_eq_some_iff.mp hy
    simp only [decide_eq_true hfd, Bool.or_true]
  · obtain rfl := hown c hc
    rw [hs'] at hpc
    simp [setPc] at hpc

theorem LoopOk.sched {r : Reply} (h : LoopOk s g) (hsnd : Sound s) (hs : SchedStep a r s s') :
    LoopOk s' (noteRegistration s (.sched a r) s' g) := by
  have hl := hs.toLocal
  cases hb : (s.sched a).p with
  | none =>
    obtain ⟨-, hp, -, -⟩ := hs.unbound hb
    refine h.keep (by rw [hp]) (by rw [hp]) (fun c hc _ => ?_) (fun fd hfd => by rwa [hp])
      fun _ _ _ _ _ hout i hi hfd => ?_
    · rw [hl.bound] at hc
      refine ⟨hc, hl.pc c ?_⟩
      rintro rfl
      rw [hb] at hc
      cases hc
    · rw [hp] at hi
      exact absurd (List.mem_map.mpr ⟨i, hi, hfd⟩) hout
  | some q =>
    obtain rfl := hsnd.one hb
    have hown : ∀ c, (s'.sched c).p = some 0 → c = a := by
      intro c hc
      rw [hl.bound] at hc
      exact hsnd.bound_inj hc hb
    -- a loop that is away from the entries says nothing about them
    have haway : (s'.sched a).pc.inBatch = false → (s'.p 0).eventlist = (s.p 0).eventlist →
        LoopOk s' (noteRegistration s (.sched a r) s' g) := by
      intro hout hlist
      refine ⟨by rw [hlist]; exact h.entries, fun c hc hpc => ?_, fun c fd eof hc hpc => ?_⟩
      · rw [hown c hc, hout] at hpc
        cases hpc
      · rw [hown c hc] at hpc
        rw [hpc] at hout
        cases hout
    cases hs with
    | @goes k hgo =>
      refine haway ?_ rfl
      have hk : k.inBatch = false := by
        generalize (s.sched a).pc = k₀ at hgo
        cases hgo with
        | again last u _ => split <;> rfl
        | _ => rfl
      simp [setPc, hk]
    | another _ _ =>
      refine haway (by simp [setPc, SchedAt.inBatch]) ?_
      unfold setPc
      rw [setSched_p]
      refine setP_keeps P.eventlist ?_ 0
      rfl
    | expired _ _ _ _ hcancel hsl =>
      refine haway (by rw [uthreadResume_pc]; rfl) ?_
      rw [(uthreadResume_p a _ _ _).1]
      exact ((Aside.expired hcancel hsl).events 0).1
    | ready _ _ _ =>
      refine haway (by rw [uthreadResume_pc]; rfl) ?_
      rw [(uthreadResume_p a _ _ _).1]
      refine setP_keeps P.eventlist ?_ 0
      rfl
    | @noPoll q _ hq =>
      obtain rfl := hsnd.one hq
      have hlist := setP_keeps (s := s) (q := 0) (g := fun v => {v with numNewEvents := 0}) P.eventlist rfl 0
      refine ⟨?_, fun c _ _ fd hfd => ?_, fun c fd eof hc hpc => ?_⟩
      · unfold setPc
        rw [setSched_p, hlist]
        exact h.entries
      · unfold setPc P.unread at hfd
        rw [setSched_p, setP_p_self] at hfd
        cases hfd
      · obtain rfl := hown c hc
        simp [setPc] at hpc
    | @polled q _ hq hpoll =>
      obtain rfl := hsnd.one hq
      exact LoopOk.polled hpoll rfl hown
    | @took q e _ hpc hq hn he hh =>
      obtain rfl := hsnd.one hq
      exact h.took hpc hq hn he hh hown
    | handled hpc hh => exact h.wrote hpc hb hh hown
    | halted hpc =>
      refine haway ?_ rfl
      rw [show ({s with halted := true} : State).sched = s.sched from rfl, hpc]
      rfl

/-- What the step has added to the interest set is not for writing on a descriptor in hand. -/
theorem LoopOk.stmt {r : Reply} {u : UId} (h : LoopOk s g) (hsnd : Sound s) (hclear : HandClear s (.stmt a r))
    (hc : (s.sched a).curUthread = some u) (hs : Stmt a u r s s') :
    LoopOk s' (noteRegistration s (.stmt a r) s' g) := by
  have hin : ∀ fd ∈ (s.p 0).interest.map Interest.fd, fd ∈ (s'.p 0).interest.map Interest.fd := by
    intro fd hfd
    rcases hs.interest with hsame | ⟨c, q, -, -, -, hint⟩
    · rwa [hsame 0]
    · rw [hint 0]
      split
      · rename_i hq
        rw [← hq]
        exact List.mem_cons_of_mem _ hfd
      · exact hfd
  have hnew : ∀ b fd eof, (s.sched b).p = some 0 → (s.sched b).pc = .handleWr fd eof →
      fd ∉ (s.p 0).interest.map Interest.fd → ∀ i ∈ (s'.p 0).interest, i.fd = fd → i.event ≠ .wr := by
    rintro b fd eof hb hpc hout i hi rfl hwr
    rcases hs.interest with hsame | ⟨c, q, hctx, hq, -, hint⟩
    · rw [hsame 0] at hi
      exact hout (List.mem_map.mpr ⟨i, hi, rfl⟩)
    · obtain rfl := hsnd.one hq
      rw [hint 0, if_pos rfl] at hi
      rcases List.mem_cons.mp hi with rfl | hi
      · obtain rfl := hsnd.bound_inj hb hq
        refine hclear c ?_ hwr eof hpc
        simp only [registers, hc, hctx, Option.mem_def]
      · exact hout (List.mem_map.mpr ⟨i, hi, rfl⟩)
  rcases hs.frame with hstill | ⟨c, q, n, rest, hctx, hq, -, hidle, rfl⟩
  · obtain ⟨hlist, hnum, -⟩ := hstill.events 0
    refine h.keep hlist hnum (fun b hb _ => ⟨?_, hstill.pc b⟩) hin hnew
    rwa [hstill.bound] at hb
  · obtain ⟨-, hnc, -⟩ := hsnd.idle_ne hq hidle
    have hlist : ((goto u .diskCall (handedOff c n q rest s)).p 0).eventlist = (s.p 0).eventlist ∧
        ((goto u .diskCall (handedOff c n q rest s)).p 0).numNewEvents = (s.p 0).numNewEvents := by
      unfold goto
      rw [setUt_p, handedOff_p]
      split
      · rename_i hq0
        rw [hq0]
        exact ⟨rfl, rfl⟩
      · exact ⟨rfl, rfl⟩
    refine h.keep hlist.1 hlist.2 (fun b hb hpc => ?_) hin hnew
    unfold goto at hb hpc ⊢
    rw [setUt_sched, handedOff_sched hnc] at hb hpc ⊢
    split at hb
    · cases hb
    · rename_i hbc
      split at hb
      · rename_i hbn
        rw [if_neg hbc, if_pos hbn] at hpc
        cases hpc
      · rename_i hbn
        rw [if_neg hbc, if_neg hbn]
        exact ⟨hb, rfl⟩

end Loop

section Runs

variable {s s' : State} {act : Act} {g : Registrations}

theorem LoopOk.step (h : LoopOk s g) (hsnd : Sound s) (hkeep : KeepsWatched s act) (hclear : HandClear s act)
    (hs : step s act = .ok s') : LoopOk s' (noteRegistration s act s' g) := by
  -- the interest sets and the loops are as they were
  have hstill : SameInterest s s' → Still act.thread s s' → LoopOk s' (noteRegistration s act s' g) := by
    intro hsame hst
    obtain ⟨hlist, hnum, -⟩ := hst.events 0
    refine h.keep hlist hnum (fun b hb _ => ⟨?_, hst.pc b⟩) (fun fd hfd => by rwa [hsame 0])
      fun _ fd _ _ _ hout i hi hfd => ?_
    · rwa [hst.bound] at hb
    · rw [hsame 0] at hi
      exact absurd (List.mem_map.mpr ⟨i, hi, hfd⟩) hout
  cases step_ok hs with
  | @call a c u _ hc _ hent =>
    refine hstill (fun q => ?_) hent.still
    cases hent with
    | goes _ _ _ | detach _ => rfl
    | @close fd =>
      have hnone := hkeep a fd rfl q
      show (s.p q).interest.filter (fun i => i.fd != fd) = (s.p q).interest
      refine List.filter_eq_self.mpr fun i hi => ?_
      simp only [bne_iff_ne, ne_eq]
      rintro rfl
      exact hnone (List.mem_map.mpr ⟨i, hi, rfl⟩)
  | stmt hc hstmt => exact h.stmt hsnd hclear hc hstmt
  | @preempt a u _ _ _ hsw =>
    exact hstill ((SameInterest.of_eq rfl : SameInterest s (s.setUt u _)).trans (.switched hsw))
      ((Still.setUt a u _ s).trans (Still.switched hsw))
  | sched _ hsched => exact h.sched hsnd hsched

theorem RegistrationsOk.step {x y : State × Registrations} (h : RegistrationsOk x)
    (hC : (Calm x.1 act ∧ KeepsWatched x.1 act) ∧ HandClear x.1 act)
    (hstep : Run.noted UthreadRuntime.step noteRegistration x act = .ok y) : RegistrationsOk y := by
  obtain ⟨s, g⟩ := x
  obtain ⟨s', g'⟩ := y
  obtain ⟨hs, rfl⟩ := Run.noted_ok hstep
  obtain ⟨⟨hcalm, hkeep⟩, hclear⟩ := hC
  have hm' : MirrorInv s' := h.mirror.step hcalm hkeep hs
  exact ⟨hm', fun u hu hl c hr => h.step_owned hm' hs hu hl hr,
    h.loop.step h.mirror.sound hkeep hclear hs⟩

theorem RegistrationsOk.initial : RegistrationsOk (init, fun _ _ => none) := by
  refine ⟨MirrorInv.initial, fun u hu _ c hr => ?_, ⟨List.nodup_nil, fun a _ _ fd hfd => ?_, fun a fd eof _ _ => ?_⟩⟩
  · have hu' : u < 1 := hu
    rw [Nat.lt_one_iff.mp hu'] at hr
    cases hr.1
  · cases hfd
  · exact ⟨by rintro ⟨⟩, fun y hy => by cases hy⟩

theorem RegistrationsOk.of_reaches {x : State × Registrations}
    (h : Polling.Reaches (fun s act => (Calm s act ∧ KeepsWatched s act) ∧ HandClear s act) x) :
    RegistrationsOk x :=
  Run.Reaches.invariant h RegistrationsOk.initial fun _ _ _ hok hC hs => hok.step hC hs

end Runs

/-! ### Wake-ups -/

/-- The uthread is linked under the event, which `epoll_wait` has reported for the registration that
the uthread has now. -/
def Answers (s : State) (g : Registrations) (a : SId) (fd : Int) (u : UId) : Prop :=
  ∃ q e, (s.sched a).p = some q ∧ (s.ut u).fdWait = waitKey fd e ∧ g q fd = some ⟨u, e, true⟩

/-- `handle_event` resumes a uthread, and tells it of a hang-up, on account of an event that was
reported for its registration. -/
structure NoneSpurious (s : State) (g : Registrations) : Prop where
  resumes : ∀ a r s' fd eof u, step s (.sched a r) = .ok s' → s.inHand a = some (fd, eof) →
    (s'.sched a).curUthread = some u → Answers s g a fd u
  hangsUp : ∀ act s' u, step s act = .ok s' → u < s'.heap → (s.ut u).status.has .fdeof = false →
    (s'.ut u).status.has .fdeof = true → ∃ a r fd, act = .sched a r ∧ s.inHand a = some (fd, true) ∧
      (s'.sched a).curUthread = some u ∧ Answers s g a fd u

section Wakes

variable {s s' : State} {g : Registrations} {a : SId} {u : UId}

/-- Who is found under an event has the registration of its descriptor. -/
theorem RegistrationsOk.found (h : RegistrationsOk (s, g)) {fd : Int} {e : UthreadEvent}
    (hu : u ∈ (s.p 0).waiting) (hk : (s.ut u).fdWait = waitKey fd e) :
    ∃ b, g 0 fd = some ⟨u, e, b⟩ := by
  have hi : Inv s.board := h.mirror.inv
  obtain ⟨hl, -, f, e', hw⟩ := hi.waiting_mem (b := s.board) hu
  obtain ⟨c, hr, rfl, rfl⟩ := registered_of_waits hw
  obtain ⟨hfd, he⟩ := waitKey_inj ((hw.key_eq (hi.wf hl)).1.symm.trans hk)
  rw [← hfd, ← he]
  exact h.owned u (h.mirror.sound.waiting hu) hl c hr

/-- Whom `handle_event` resumes it has found under the event. -/
theorem handleEvent_found {t : State} {fd : Int} {ev : UthreadEvent} {isEof : Bool} {k : SchedAt}
    (hs : handleEvent a fd ev isEof k t = .ok s') (hc : (t.sched a).curUthread = none)
    (hcur : (s'.sched a).curUthread = some u) :
    ∃ q, (t.sched a).p = some q ∧ u ∈ (t.p q).waiting ∧ (t.ut u).fdWait = waitKey fd ev := by
  rcases handleEvent_ok hs with ⟨s₁, hd, rfl⟩ | ⟨v, s₁, s₂, hd, -, -, rfl⟩
  · unfold setPc at hcur
    rw [setSched_sched_self, (Aside.deschedEvent hd).sched, hc] at hcur
    cases hcur
  · rw [uthreadResume_cur] at hcur
    cases hcur
    obtain ⟨q, hq, hf, -⟩ := uthreadDeschedEvent_ok hd
    exact ⟨q, hq, Tree.find_eq_some hf⟩

theorem RegistrationsOk.answers (h : RegistrationsOk (s, g)) {r : Reply} {fd : Int} {eof : Bool}
    (hs : UthreadRuntime.step s (.sched a r) = .ok s') (hin : s.inHand a = some (fd, eof))
    (hcur : (s'.sched a).curUthread = some u) : Answers s g a fd u := by
  have hsnd : Sound s := h.mirror.sound
  cases step_ok hs with
  | sched hc hsched =>
    rcases hsched.of_inHand hin with ⟨q, e, hpc, hq, hn, he, rfl, rfl, hhandle⟩ | ⟨hpc, hhandle⟩
    · obtain rfl := hsnd.one hq
      have hT : (tookEvent a 0 e s).ut = s.ut ∧ ((tookEvent a 0 e s).p 0).waiting = (s.p 0).waiting ∧
          ((tookEvent a 0 e s).sched a).curUthread = (s.sched a).curUthread := by
        unfold tookEvent
        dsimp only
        split <;> exact ⟨rfl, by simp [markConsumed], by simp [markConsumed]⟩
      obtain ⟨q, hq', hu, hk⟩ := handleEvent_found hhandle (hT.2.2.trans hc) hcur
      rw [(tookEvent_local a 0 e s).bound a] at hq'
      obtain rfl := hsnd.one hq'
      rw [hT.2.1] at hu
      rw [hT.1] at hk
      obtain ⟨b, hb⟩ := h.found hu hk
      have hunread : e.fd ∈ (s.p 0).unread.map EpollEvent.fd := by
        rw [P.unread_took hn he]
        simp
      have hrep : b = true := (h.loop.batch a hq (by rw [hpc]; rfl) e.fd hunread).2 _ hb
      exact ⟨0, .rd, hq, hk, by rw [hb, hrep]⟩
    · obtain ⟨q, hq, hu, hk⟩ := handleEvent_found hhandle hc hcur
      obtain rfl := hsnd.one hq
      obtain ⟨b, hb⟩ := h.found hu hk
      have hrep : b = true := (h.loop.hand a fd eof hq hpc).2 _ hb rfl
      exact ⟨0, .wr, hq, hk, by rw [hb, hrep]⟩

end Wakes

/-- **No wake-up is spurious**, in every calm run in which no watched descriptor is closed and no
uthread registers for writing a descriptor that the loop below it has in hand. -/
theorem no_spurious_wakeup {x : State × Registrations}
    (h : Polling.Reaches (fun s act => (Calm s act ∧ KeepsWatched s act) ∧ HandClear s act) x) :
    NoneSpurious x.1 x.2 := by
  have hok := RegistrationsOk.of_reaches h
  obtain ⟨s, g⟩ := x
  have hsnd : Sound s := hok.mirror.sound
  constructor
  case resumes => exact fun a r s' fd eof u hs hin hcur => hok.answers hs hin hcur
  case hangsUp =>
    intro act s' u hs hu hbefore hafter
    rcases step_born hsnd hs hu with hlt | ⟨-, hnew, -⟩
    · have hb : (s.ut u).marks.fdeof = false := hbefore
      have ha : (s'.ut u).marks.fdeof = true := hafter
      have hmark := step_marks hsnd hs hlt
      generalize hm : (s'.ut u).marks = m at hmark ha
      cases hmark with
      | @event a r fd eof hin hcur hrun =>
        have heof : eof = true := by simpa [hb] using ha
        rw [heof] at hin
        exact ⟨a, r, fd, rfl, hin, hcur, hok.answers hs hin hcur⟩
      | resumed _ _ _ =>
        unfold Marks.resumed at ha
        split at ha
        · cases ha
        · rw [hb] at ha
          cases ha
      | _ =>
        rw [hb] at ha
        cases ha
    · rw [hnew] at hafter
      simp at hafter

/-- A run that passes the checks meets the condition. -/
theorem polling_of_checks {acts : List Act} {x : State × Registrations}
    (h : Run.checked (Run.noted step noteRegistration)
      (fun x act => atomicCheck x.1 act && decide (HandClear x.1 act)) (init, fun _ _ => none) acts = some x) :
    Polling.Reaches (fun s act => (Calm s act ∧ KeepsWatched s act) ∧ HandClear s act) x := by
  refine Run.reaches_of_checked (I := fun x => Sound x.1 ∧ Few x.1 ∧ Inv x.1.board) h
    ⟨Sound.initial, Few.initial, inv_initial⟩ ?_ ?_
  · rintro ⟨s, g⟩ act ⟨s', g'⟩ ⟨hsnd, hfew, hinv⟩ ⟨⟨hcalm, -⟩, -⟩ hstep
    obtain ⟨hs, -⟩ := Run.noted_ok hstep
    exact ⟨hsnd.step hs, hfew.step hsnd hs, inv_step hsnd hinv hcalm hs⟩
  · rintro x act ⟨-, hfew, hinv⟩ hcheck
    obtain ⟨hat, hclear⟩ := Bool.and_eq_true_iff.mp hcheck
    obtain ⟨hatomic, hkeep⟩ := atomic_of_check hfew hat
    exact ⟨⟨hatomic.calm hinv, hkeep⟩, of_decide_eq_true hclear⟩

/-- Main waits to read, the other uthread has ended, and `epoll_wait` reports the descriptor. -/
def readReported (hup : Bool) : List Act :=
  blockedRead 10 ++ scheds 0 8 ++ calls 0 .finish 3 ++ scheds 0 2 ++ [.sched 0 {events := [⟨5, hup⟩]}]

theorem readReported_answers : ∃ x s',
    Polling.Reaches (fun s act => (Calm s act ∧ KeepsWatched s act) ∧ HandClear s act) x ∧
    NoneSpurious x.1 x.2 ∧ step x.1 (.sched 0 {}) = .ok s' ∧ x.1.inHand 0 = some (5, true) ∧
    (s'.sched 0).curUthread = some 0 ∧ (s'.ut 0).status.has .fdeof = true ∧ x.2 0 5 = some ⟨0, .rd, true⟩ := by
  have hread : ((Run.checked (Run.noted step noteRegistration)
      (fun x act => atomicCheck x.1 act && decide (HandClear x.1 act)) (init, fun _ _ => none)
      (readReported true)).bind fun x => (step x.1 (.sched 0 {})).toOption.map fun s' =>
        (x, s', decide (x.1.inHand 0 = some (5, true) ∧ (s'.sched 0).curUthread = some 0 ∧
          (s'.ut 0).status.has .fdeof = true ∧ x.2 0 5 = some ⟨0, .rd, true⟩))).map (fun y => y.2.2) =
      some true := by decide +kernel
  obtain ⟨y, hy, hread⟩ := Option.map_eq_some_iff.mp hread
  obtain ⟨x, hx, hy⟩ := Option.bind_eq_some_iff.mp hy
  obtain ⟨s', hs', rfl⟩ := Option.map_eq_some_iff.mp hy
  have hreach := polling_of_checks hx
  exact ⟨x, s', hreach, no_spurious_wakeup hreach, ok_of_toOption hs', of_decide_eq_true hread⟩

/-- Resumed by that event, main has read and writes an answer. The descriptor is not ready for
writing: main registers it again and switches away, and the loop goes on with the same event. -/
def writesBack : List Act :=
  readReported false ++ scheds 0 1 ++ stmts 0 6 ++ [.stmt 0 {ret := 1}] ++ stmts 0 2 ++
    calls 0 (.io ⟨.write, 5, 1, 0⟩) 1 ++ [.stmt 0 {ret := -1, errno := .eagain}] ++ stmts 0 12

/-- The event that was read resumes main from its write. -/
theorem writesBack_spurious : ∃ x s',
    Run.run (Run.noted step noteRegistration) (init, fun _ _ => none) writesBack = .ok x ∧
    writesBack.all (fun act => !act.isPreempt && !act.isClose) = true ∧
    step x.1 (.sched 0 {}) = .ok s' ∧ x.1.inHand 0 = some (5, false) ∧ (s'.sched 0).curUthread = some 0 ∧
    x.2 0 5 = some ⟨0, .wr, false⟩ ∧ ¬NoneSpurious x.1 x.2 := by
  have hread : ((Run.run (Run.noted step noteRegistration) (init, fun _ _ => none) writesBack).toOption.bind
      fun x => (step x.1 (.sched 0 {})).toOption.map fun s' =>
        (x, s', decide (x.1.inHand 0 = some (5, false) ∧ (s'.sched 0).curUthread = some 0 ∧
          (x.1.sched 0).p = some 0 ∧ x.2 0 5 = some ⟨0, .wr, false⟩))).map (fun y => y.2.2) =
      some true := by decide +kernel
  obtain ⟨y, hy, hread⟩ := Option.map_eq_some_iff.mp hread
  obtain ⟨x, hx, hy⟩ := Option.bind_eq_some_iff.mp hy
  obtain ⟨s', hs', rfl⟩ := Option.map_eq_some_iff.mp hy
  obtain ⟨hin, hcur, hq, hreg⟩ := of_decide_eq_true hread
  refine ⟨x, s', ok_of_toOption hx, by decide +kernel, ok_of_toOption hs', hin, hcur, hreg, fun hnone => ?_⟩
  obtain ⟨q, e, hq', -, hans⟩ := hnone.resumes 0 {} s' 5 false 0 (ok_of_toOption hs') hin hcur
  cases hq.symm.trans hq'
  rw [hreg] at hans
  cases hans

end UthreadRuntime
