import UthreadRuntime.Model.Machine

/-! What a step that succeeds has done.

One lemma for each function that can stop: from its success, the branch it took and
the state it made. The proofs about runs cite these and do not unfold the functions. -/
namespace UthreadRuntime

open State

theorem bind_ok {ε α β : Type} {x : Except ε α} {f : α → Except ε β} {b : β}
    (h : (x >>= f) = .ok b) : ∃ a, x = .ok a ∧ f a = .ok b := by
  cases x with
  | error e => cases h
  | ok a => exact ⟨a, rfl, h⟩

/-- A concrete run is read through a function of its last state. -/
theorem map_ok {ε α β : Type} {x : Except ε α} {f : α → β} {b : β} (h : x.map f = .ok b) :
    ∃ a, x = .ok a ∧ f a = b := by
  cases x with
  | error e => cases h
  | ok a =>
    cases h
    exact ⟨a, rfl, rfl⟩

/-- A concrete run gets to a state that passes a test. -/
theorem exec_passes (acts : List Act) (P : State → Prop) [DecidablePred P]
    (h : (exec acts).map (fun s => decide (P s)) = .ok true) : ∃ s, exec acts = .ok s ∧ P s := by
  obtain ⟨s, hs, hP⟩ := map_ok h
  exact ⟨s, hs, of_decide_eq_true hP⟩

theorem ok_of_toOption {ε α : Type} {x : Except ε α} {a : α} (h : x.toOption = some a) : x = .ok a := by
  cases x with
  | error e => cases h
  | ok b =>
    cases h
    rfl

/-- Why an execution has stopped. -/
def stopOf : Except Stop State → Option Stop
  | .ok _ => none
  | .error e => some e

theorem eq_error_of_stopOf {x : Except Stop State} {e : Stop} (h : stopOf x = some e) : x = .error e := by
  cases x with
  | ok s => cases h
  | error e' =>
    cases h
    rfl

namespace State

variable {s : State} {u : UId} {a : SId} {q : PId} {site : Site}

theorem home_ok (h : s.home u site = .ok q) : (s.ut u).p = some q := by
  unfold home at h
  split at h
  · rename_i hp
    cases h
    exact hp
  · cases h

theorem bound_ok (h : s.bound a site = .ok q) : (s.sched a).p = some q := by
  unfold bound at h
  split at h
  · rename_i hp
    cases h
    exact hp
  · cases h

theorem home_of_some (h : (s.ut u).p = some q) : s.home u site = .ok q := by
  unfold home
  rw [h]

theorem bound_of_some (h : (s.sched a).p = some q) : s.bound a site = .ok q := by
  unfold bound
  rw [h]

end State

/-! ### Taking uthreads out of the trees -/

/-- What `_uthread_desched_sleep` makes of a sleeping uthread. -/
def unlinkSleeper (q : PId) (u : UId) (s : State) : State :=
  (s.setP q fun v => {v with sleeping := Tree.remove u v.sleeping}).setUt u fun v =>
    {v with status := (v.status.del .sleeping).add .ready}

theorem uthreadDeschedSleep_ok {u : UId} {s s' : State} (h : uthreadDeschedSleep u s = .ok s') :
    ((s.ut u).status.has .sleeping = false ∧ s' = s) ∨
    ((s.ut u).status.has .sleeping = true ∧ ∃ q, (s.ut u).p = some q ∧ s' = unlinkSleeper q u s) := by
  unfold uthreadDeschedSleep at h
  split at h
  · rename_i hs
    obtain ⟨q, hq, h⟩ := bind_ok h
    cases h
    exact .inr ⟨hs, q, home_ok hq, rfl⟩
  · rename_i hs
    cases h
    exact .inl ⟨by simpa using hs, rfl⟩

theorem uthreadDeschedEvent_ok {a : SId} {fd e : Int} {s s' : State} {found : Option UId}
    (h : uthreadDeschedEvent a fd e s = .ok (found, s')) :
    ∃ q, (s.sched a).p = some q ∧ findWaiting s (fdKey fd e) (s.p q).waiting = found ∧
      ((found = none ∧ s' = s) ∨
        ∃ u, found = some u ∧
          uthreadDeschedSleep u (s.setP q fun v => {v with waiting := Tree.remove u v.waiting}) = .ok s') := by
  unfold uthreadDeschedEvent at h
  obtain ⟨q, hq, h⟩ := bind_ok h
  refine ⟨q, bound_ok hq, ?_⟩
  split at h
  · rename_i hf
    cases h
    exact ⟨hf, .inl ⟨rfl, rfl⟩⟩
  · rename_i u hf
    obtain ⟨t, ht, h⟩ := bind_ok h
    cases h
    exact ⟨hf, .inr ⟨u, rfl, ht⟩⟩

theorem epollCtlDel_some {fd : Int} {l l' : List Interest} (h : epollCtlDel fd l = some l') :
    fd ∈ l.map Interest.fd ∧ l' = l.filter fun i => i.fd != fd := by
  unfold epollCtlDel at h
  split at h
  · rename_i hfd
    exact ⟨hfd, (Option.some.inj h).symm⟩
  · cases h

theorem epollCtlAdd_some {fd : Int} {e : UthreadEvent} {l l' : List Interest}
    (h : epollCtlAdd fd e l = some l') :
    0 ≤ fd ∧ fd ∉ l.map Interest.fd ∧ l' = ⟨fd, e, true⟩ :: l := by
  unfold epollCtlAdd at h
  split at h
  · cases h
  · rename_i hfd
    push Not at hfd
    exact ⟨hfd.1, hfd.2, (Option.some.inj h).symm⟩

/-- The interest set without a descriptor. -/
def dropInterest (q : PId) (fd : Int) (s : State) : State :=
  s.setP q fun v => {v with interest := v.interest.filter fun i => i.fd != fd}

theorem epollDel_ok {u : UId} {fd : Int} {site : Site} {e : Assertion} {s s' : State}
    (h : epollDel u fd site e s = .ok s') :
    ∃ q, (s.ut u).p = some q ∧ fd ∈ (s.p q).interest.map Interest.fd ∧ s' = dropInterest q fd s := by
  unfold epollDel at h
  obtain ⟨q, hq, h⟩ := bind_ok h
  refine ⟨q, home_ok hq, ?_⟩
  split at h
  · cases h
  · rename_i l hl
    obtain ⟨hfd, rfl⟩ := epollCtlDel_some hl
    cases h
    exact ⟨hfd, rfl⟩

theorem uthreadCancelEvent_ok {a : SId} {u : UId} {s s' : State}
    (h : uthreadCancelEvent a u s = .ok s') :
    ∃ q s₁, (s.ut u).p = some q ∧ fdOnly (s.ut u).fdWait ∈ (s.p q).interest.map Interest.fd ∧
      s' = s₁.setUt u (fun v => {v with fdWait := -1}) ∧
      (((s.ut u).fdWait < 0 ∧ s₁ = dropInterest q (fdOnly (s.ut u).fdWait)
          (s.setUt u fun v => {v with status := clearWait v.status})) ∨
        (0 ≤ (s.ut u).fdWait ∧ ∃ found,
          uthreadDeschedEvent a (fdOnly (s.ut u).fdWait) (fdEvent (s.ut u).fdWait)
            (dropInterest q (fdOnly (s.ut u).fdWait)
              (s.setUt u fun v => {v with status := clearWait v.status})) = .ok (found, s₁))) := by
  unfold uthreadCancelEvent at h
  obtain ⟨t, ht, h⟩ := bind_ok h
  obtain ⟨q, hq, hfd, rfl⟩ := epollDel_ok ht
  refine ⟨q, ?_⟩
  dsimp only at h
  split at h
  · rename_i hf
    obtain ⟨s₁, hs₁, h⟩ := bind_ok h
    cases h
    refine ⟨s₁, by simpa using hq, hfd, rfl, .inr ⟨hf, ?_⟩⟩
    cases hd : uthreadDeschedEvent a (fdOnly (s.ut u).fdWait) (fdEvent (s.ut u).fdWait)
        (dropInterest q (fdOnly (s.ut u).fdWait)
          (s.setUt u fun v => {v with status := clearWait v.status})) with
    | error e => rw [hd] at hs₁; cases hs₁
    | ok r =>
      rw [hd] at hs₁
      cases hs₁
      exact ⟨r.1, rfl⟩
  · rename_i hf
    cases h
    exact ⟨_, by simpa using hq, hfd, rfl, .inl ⟨by omega, rfl⟩⟩

/-! ### Passing control -/

/-- The joiner is made ready, and the wait that ended is noted. -/
def readyJoiner (q : PId) (j : UId) (s : State) : State :=
  insertReady q j (s.setUt j fun v => {v with hist := {v.hist with waits := .joined :: v.hist.waits}})

theorem wakeJoined_ok {u : UId} {s s' : State} (h : wakeJoined u s = .ok s') :
    ((s.ut u).utJoined = none ∧ s' = s) ∨
    ∃ j q s₁, (s.ut u).utJoined = some j ∧ uthreadDeschedSleep j s = .ok s₁ ∧
      (s₁.ut j).p = some q ∧ s' = readyJoiner q j s₁ := by
  unfold wakeJoined at h
  split at h
  · rename_i hj
    cases h
    exact .inl ⟨hj, rfl⟩
  · rename_i j hj
    obtain ⟨s₁, hs₁, h⟩ := bind_ok h
    obtain ⟨q, hq, h⟩ := bind_ok h
    cases h
    exact .inr ⟨j, q, s₁, hj, hs₁, home_ok hq, rfl⟩

/-- The state when `u` has been freed. -/
def freed (u : UId) (s : State) : State :=
  State.setUt u (fun v => {v with life := .freed})
    {s with
      nUthread := (s.nUthread + (2 ^ 32 - 1)) % 2 ^ 32
      bitmapUt := if (s.ut u).status.has .detached then
          Function.update s.bitmapUt (s.ut u).id false
        else s.bitmapUt}

theorem uthreadFree_ok {u : UId} {s s' : State} (h : uthreadFree u s = .ok s') :
    s.mutex = none ∧ s' = freed u s := by
  unfold uthreadFree at h
  split at h
  · cases h
  · rename_i hm
    refine ⟨by simpa using hm, ?_⟩
    cases h
    unfold freed
    split <;> rfl

/-- The sched of `a` runs no uthread. -/
def idleCpu (a : SId) (s : State) : State := s.setSched a fun v => {v with curUthread := none}

theorem uthreadSwitched_ok {a : SId} {u : UId} {s s' : State} (h : uthreadSwitched a u s = .ok s') :
    ((s.ut u).status.has .exited = true ∧ ∃ s₁, wakeJoined u (idleCpu a s) = .ok s₁ ∧
      s₁.mutex = none ∧ s' = freed u s₁) ∨
    ((s.ut u).status.has .exited = false ∧ (s.ut u).status.has .sleeping = true ∧
      s' = idleCpu a s) ∨
    ((s.ut u).status.has .exited = false ∧ (s.ut u).status.has .sleeping = false ∧
      ∃ q, (s.sched a).p = some q ∧ s' = insertReady q u (idleCpu a s)) := by
  unfold uthreadSwitched at h
  dsimp only at h
  split at h
  · rename_i he
    obtain ⟨s₁, hs₁, h⟩ := bind_ok h
    obtain ⟨hm, rfl⟩ := uthreadFree_ok h
    exact .inl ⟨he, s₁, hs₁, hm, rfl⟩
  · rename_i he
    split at h
    · rename_i hs
      cases h
      exact .inr (.inl ⟨by simpa using he, hs, rfl⟩)
    · rename_i hs
      obtain ⟨q, hq, h⟩ := bind_ok h
      cases h
      refine .inr (.inr ⟨by simpa using he, by simpa using hs, q, ?_, rfl⟩)
      simpa using bound_ok hq

/-! ### The scheduler -/

/-- What the expiry pass changes in the uthread it resumes. -/
def notedExpiry (u : UId) (s : State) : State :=
  s.setUt u fun v =>
    {v with status := v.status.add .expired, hist := {v.hist with waits := .expired :: v.hist.waits}}

theorem uthreadResumeExpired_ok {a : SId} {r : Reply} {s s' : State}
    (h : uthreadResumeExpired a r s = .ok s') :
    s' = setPc a .lastReady s ∨
    ∃ q u s₁ s₂, (s.sched a).p = some q ∧ minSleeping s (s.p q).sleeping = some u ∧
      (s.ut u).wakeupTimeUsec ≤ r.now ∧ uthreadCancelEvent a u s = .ok s₁ ∧
      uthreadDeschedSleep u s₁ = .ok s₂ ∧
      s' = uthreadResume a u .expiry (notedExpiry u s₂) := by
  unfold uthreadResumeExpired at h
  split at h
  · cases h
    exact .inl rfl
  · rename_i q hq
    split at h
    · cases h
      exact .inl rfl
    · rename_i u hu
      split at h
      · rename_i hw
        unfold resumeExpired at h
        obtain ⟨s₁, hs₁, h⟩ := bind_ok h
        obtain ⟨s₂, hs₂, h⟩ := bind_ok h
        cases h
        exact .inr ⟨q, u, s₁, s₂, hq, hu, hw, hs₁, hs₂, rfl⟩
      · cases h
        exact .inl rfl

/-- The event list after `epoll_wait`. -/
def polled (q : PId) (es : List EpollEvent) (s : State) : State :=
  s.setP q fun v =>
    {v with
      interest := disarm es v.interest
      eventlist := es
      numNewEvents := es.length
      posted := v.posted ++ es}

theorem uthreadPoll_ok {a : SId} {r : Reply} {s s' : State} (h : uthreadPoll a r s = .ok s') :
    ∃ q, (s.sched a).p = some q ∧
      (s' = setPc a .events (s.setP q fun v => {v with numNewEvents := 0}) ∨
        (pollable (s.p q).interest r.events = true ∧
          s' = setPc a .events (polled q r.events (s.setP q fun v => {v with numNewEvents := 0})))) := by
  unfold uthreadPoll at h
  obtain ⟨q, hq, h⟩ := bind_ok h
  refine ⟨q, bound_ok hq, ?_⟩
  dsimp only at h
  split at h
  · split at h
    · split at h
      · rename_i hp
        cases h
        exact .inr ⟨by simpa using hp, rfl⟩
      · cases h
    · cases h
  · cases h
    exact .inl rfl

/-- What `handle_event` changes in the uthread it resumes. -/
def notedEvent (u : UId) (isEof : Bool) (s : State) : State :=
  s.setUt u fun v =>
    {v with
      status := if isEof then v.status.add .fdeof else v.status
      hist := {v.hist with waits := .event :: v.hist.waits}}

theorem handleEvent_ok {a : SId} {fd : Int} {ev : UthreadEvent} {isEof : Bool} {k : SchedAt}
    {s s' : State} (h : handleEvent a fd ev isEof k s = .ok s') :
    (∃ s₁, uthreadDeschedEvent a fd ev.toNat s = .ok (none, s₁) ∧ s' = setPc a k s₁) ∨
    ∃ u s₁ s₂, uthreadDeschedEvent a fd ev.toNat s = .ok (some u, s₁) ∧
      fd = fdOnly (s₁.ut u).fdWait ∧
      epollDel u fd .handleEvent .eventDel
        (s₁.setUt u fun v => {v with status := clearWait v.status}) = .ok s₂ ∧
      s' = uthreadResume a u k (notedEvent u isEof s₂) := by
  unfold handleEvent at h
  obtain ⟨⟨found, s₁⟩, hd, h⟩ := bind_ok h
  cases found with
  | none =>
    cases h
    exact .inl ⟨s₁, hd, rfl⟩
  | some u =>
    dsimp only at h
    split at h
    · rename_i hfd
      obtain ⟨s₂, hs₂, h⟩ := bind_ok h
      cases h
      exact .inr ⟨u, s₁, s₂, hd, hfd, hs₂, rfl⟩
    · cases h

/-- The last entry of the event list is taken. -/
def tookEvent (a : SId) (q : PId) (e : EpollEvent) (s : State) : State :=
  let s := s.setP q fun v => {v with numNewEvents := v.numNewEvents - 1, taken := v.taken ++ [e]}
  let s := if e.hup then s.setSched a fun v => {v with errno := .econnreset} else s
  markConsumed q e.fd s

theorem takeEvent_ok {a : SId} {q : PId} {s s' : State} (h : takeEvent a q s = .ok s') :
    ∃ e, (s.p q).eventlist[(s.p q).numNewEvents - 1]? = some e ∧
      handleEvent a e.fd .rd e.hup (.handleWr e.fd e.hup) (tookEvent a q e s) = .ok s' := by
  unfold takeEvent at h
  dsimp only at h
  split at h
  · cases h
  · rename_i e he
    exact ⟨e, he, h⟩

/-- The turns of the loop that only move on. -/
inductive Goes (a : SId) (r : Reply) (s : State) : SchedAt → SchedAt → Prop where
  | work {q : PId} : (s.sched a).p = some q → Goes a r s .top .expiry
  | idle : Goes a r s .top .done
  | noneDue : (∀ q u, (s.sched a).p = some q → minSleeping s (s.p q).sleeping = some u →
      r.now < (s.ut u).wakeupTimeUsec) → Goes a r s .expiry .lastReady
  | last {q : PId} : (s.sched a).p = some q → Goes a r s .lastReady (.ready (s.p q).ready.getLast?)
  | empty {q : PId} (last : Option UId) : (s.sched a).p = some q → (s.p q).ready = [] →
      Goes a r s (.ready last) .pollCheck
  | detached (last : Option UId) (u : UId) : (s.sched a).p = none →
      Goes a r s (.readyAfter last u) .pollCheck
  | again {q : PId} (last : Option UId) (u : UId) : (s.sched a).p = some q →
      Goes a r s (.readyAfter last u) (if last = some u then .pollCheck else .ready last)
  | leave : (s.sched a).p = none → Goes a r s .pollCheck .done
  | poll {q : PId} : (s.sched a).p = some q → Goes a r s .pollCheck .poll
  | gone : (s.sched a).p = none → Goes a r s .events .top
  | handled {q : PId} : (s.sched a).p = some q → (s.p q).numNewEvents = 0 → Goes a r s .events .top
  | spin : Goes a r s .done .top

/-- What a turn of the scheduler loop does. -/
inductive SchedStep (a : SId) (r : Reply) (s : State) : State → Prop where
  | goes {k : SchedAt} : Goes a r s (s.sched a).pc k → SchedStep a r s (setPc a k s)
  | another {q : PId} : (s.sched a).pc = .another → (s.sched a).p = some q →
      SchedStep a r s (setPc a .top (s.setP q fun v => {v with tid := a}))
  | expired {q : PId} {u : UId} {s₁ s₂ : State} : (s.sched a).pc = .expiry → (s.sched a).p = some q →
      minSleeping s (s.p q).sleeping = some u → (s.ut u).wakeupTimeUsec ≤ r.now →
      uthreadCancelEvent a u s = .ok s₁ → uthreadDeschedSleep u s₁ = .ok s₂ →
      SchedStep a r s (uthreadResume a u .expiry (notedExpiry u s₂))
  | ready {q : PId} {u : UId} {rest : List UId} {last : Option UId} : (s.sched a).pc = .ready last →
      (s.sched a).p = some q → (s.p q).ready = u :: rest →
      SchedStep a r s (uthreadResume a u (.readyAfter last u) (s.setP q fun v => {v with ready := rest}))
  | noPoll {q : PId} : (s.sched a).pc = .poll → (s.sched a).p = some q →
      SchedStep a r s (setPc a .events (s.setP q fun v => {v with numNewEvents := 0}))
  | polled {q : PId} : (s.sched a).pc = .poll → (s.sched a).p = some q →
      pollable (s.p q).interest r.events = true →
      SchedStep a r s (setPc a .events (polled q r.events (s.setP q fun v => {v with numNewEvents := 0})))
  | took {q : PId} {e : EpollEvent} {s' : State} : (s.sched a).pc = .events → (s.sched a).p = some q →
      (s.p q).numNewEvents ≠ 0 → (s.p q).eventlist[(s.p q).numNewEvents - 1]? = some e →
      handleEvent a e.fd .rd e.hup (.handleWr e.fd e.hup) (tookEvent a q e s) = .ok s' →
      SchedStep a r s s'
  | handled {fd : Int} {eof : Bool} {s' : State} : (s.sched a).pc = .handleWr fd eof →
      handleEvent a fd .wr eof .events s = .ok s' → SchedStep a r s s'
  | halted : (s.sched a).pc = .done → SchedStep a r s {s with halted := true}

theorem schedRun_ok {a : SId} {r : Reply} {s s' : State} (h : schedRun a r s = .ok s') :
    SchedStep a r s s' := by
  have hgoes : ∀ {k k'}, (s.sched a).pc = k → Goes a r s k k' → SchedStep a r s (setPc a k' s) := by
    rintro k k' rfl hk
    exact .goes hk
  unfold schedRun at h
  cases hpc : (s.sched a).pc with
  | off => rw [hpc] at h; cases h
  | another =>
    rw [hpc] at h
    obtain ⟨q, hq, h⟩ := bind_ok h
    cases h
    exact .another hpc (bound_ok hq)
  | top =>
    rw [hpc] at h
    dsimp only at h
    split at h
    · cases h
      exact hgoes hpc .idle
    · rename_i q hq
      cases h
      split
      · exact hgoes hpc .idle
      · exact hgoes hpc (.work hq)
  | expiry =>
    rw [hpc] at h
    dsimp only at h
    by_cases hdue : ∃ q u, (s.sched a).p = some q ∧ minSleeping s (s.p q).sleeping = some u ∧
        (s.ut u).wakeupTimeUsec ≤ r.now
    · obtain ⟨q, u, hq, hu, hw⟩ := hdue
      unfold uthreadResumeExpired resumeExpired at h
      simp only [hq, hu, hw, if_true] at h
      obtain ⟨s₁, hs₁, h⟩ := bind_ok h
      obtain ⟨s₂, hs₂, h⟩ := bind_ok h
      cases h
      exact .expired hpc hq hu hw hs₁ hs₂
    · have hnone : ∀ q u, (s.sched a).p = some q → minSleeping s (s.p q).sleeping = some u →
          r.now < (s.ut u).wakeupTimeUsec :=
        fun q u hq hu => Nat.lt_of_not_le fun hw => hdue ⟨q, u, hq, hu, hw⟩
      rcases uthreadResumeExpired_ok h with rfl | ⟨q, u, s₁, s₂, hq, hu, hw, -⟩
      · exact hgoes hpc (.noneDue hnone)
      · exact absurd ⟨q, u, hq, hu, hw⟩ hdue
  | lastReady =>
    rw [hpc] at h
    obtain ⟨q, hq, h⟩ := bind_ok h
    cases h
    exact hgoes hpc (.last (bound_ok hq))
  | ready last =>
    rw [hpc] at h
    obtain ⟨q, hq, h⟩ := bind_ok h
    split at h
    · rename_i hr
      cases h
      exact hgoes hpc (.empty last (bound_ok hq) hr)
    · rename_i u rest hr
      cases h
      exact .ready hpc (bound_ok hq) hr
  | readyAfter last u =>
    rw [hpc] at h
    dsimp only at h
    split at h
    · rename_i hp
      cases h
      exact hgoes hpc (.detached last u hp)
    · rename_i q hq
      cases h
      exact hgoes hpc (.again last u hq)
  | pollCheck =>
    rw [hpc] at h
    dsimp only at h
    split at h
    · rename_i hp
      cases h
      exact hgoes hpc (.leave hp)
    · rename_i q hq
      cases h
      exact hgoes hpc (.poll hq)
  | poll =>
    rw [hpc] at h
    obtain ⟨q, hq, rfl | ⟨hp, rfl⟩⟩ := uthreadPoll_ok h
    · exact .noPoll hpc hq
    · exact .polled hpc hq hp
  | events =>
    rw [hpc] at h
    dsimp only at h
    split at h
    · rename_i hp
      cases h
      exact hgoes hpc (.gone hp)
    · rename_i q hq
      split at h
      · rename_i hn
        cases h
        exact hgoes hpc (.handled hq hn)
      · rename_i hn
        obtain ⟨e, he, h⟩ := takeEvent_ok h
        exact .took hpc hq hn he h
  | handleWr fd eof =>
    rw [hpc] at h
    exact .handled hpc h
  | done =>
    rw [hpc] at h
    dsimp only at h
    split at h
    · split at h
      · cases h
      · cases h
        exact .halted hpc
    · cases h
      exact hgoes hpc .spin

/-! ### Statements of library code -/

/-- A place in a socket call outside its wait. -/
def Ctx.AtIo (k : Ctx) : Prop := (∃ c pc, k = .io c pc) ∨ ∃ c, k = .register c .ctl

theorem IoCall.loop_atIo (c : IoCall) : c.loop.AtIo := by
  unfold IoCall.loop
  split <;> exact .inl ⟨_, _, rfl⟩

/-- A statement of a socket call, up to `errno`, goes to another place of it or returns. -/
theorem ioStmt_ok {a : SId} {u : UId} {c : IoCall} {pc : IoAt} {r : Reply} {s s' : State}
    (h : ioStmt a u c pc r s = .ok s') :
    ∃ s₀, (s₀ = s ∨ ∃ e, s₀ = setErrno a e s) ∧
      ((∃ k, Ctx.AtIo k ∧ s' = goto u k s₀) ∨ ∃ v, s' = returns a u v s₀) := by
  have hgoto : ∀ k, Ctx.AtIo k → ∃ s₀, (s₀ = s ∨ ∃ e, s₀ = setErrno a e s) ∧
      ((∃ k', Ctx.AtIo k' ∧ goto u k s = goto u k' s₀) ∨ ∃ v, goto u k s = returns a u v s₀) :=
    fun k hk => ⟨s, .inl rfl, .inl ⟨k, hk, rfl⟩⟩
  have hret : ∀ v, ∃ s₀, (s₀ = s ∨ ∃ e, s₀ = setErrno a e s) ∧
      ((∃ k', Ctx.AtIo k' ∧ returns a u v s = goto u k' s₀) ∨
        ∃ v', returns a u v s = returns a u v' s₀) :=
    fun v => ⟨s, .inl rfl, .inr ⟨v, rfl⟩⟩
  have hio : ∀ c pc, Ctx.AtIo (.io c pc) := fun c pc => .inl ⟨c, pc, rfl⟩
  have hreg : ∀ c, Ctx.AtIo (.register c .ctl) := fun c => .inr ⟨c, rfl⟩
  cases pc with
  | head =>
    cases h
    unfold ioHeadStmt
    split
    · exact hgoto _ (hio _ _)
    · exact hgoto _ (hio _ _)
    · split
      · exact hret _
      · exact hgoto _ (hio _ _)
    · split
      · exact hret _
      · split
        · exact hret _
        · exact hgoto _ (hio _ _)
  | fcntl =>
    unfold ioStmt at h
    dsimp only at h
    split at h
    · cases h
      exact hgoto _ (hio _ _)
    · cases h
  | sys =>
    cases h
    split
    · exact ⟨_, .inr ⟨r.errno, rfl⟩, .inl ⟨_, hio _ _, rfl⟩⟩
    · exact hgoto _ (hio _ _)
  | test ret =>
    cases h
    unfold ioTestStmt
    dsimp only
    split
    · split
      · split
        · exact hgoto _ (hreg _)
        · split
          · exact hgoto _ (hio _ _)
          · exact hret _
      · exact hret _
    · split
      · split
        · exact hgoto _ (hreg _)
        · exact hret _
      · exact hret _
    · split
      · exact hret _
      · exact hgoto _ (hio _ _)
    · split
      · exact hret _
      · split
        · exact hgoto _ (hio _ _)
        · split
          · exact hret _
          · exact hgoto _ (hio _ _)
  | retest ret =>
    cases h
    unfold ioRetestStmt
    split
    · exact hgoto _ (hreg _)
    · split
      · exact hret _
      · exact hgoto _ c.loop_atIo
  | after =>
    cases h
    unfold ioAfterStmt
    split
    · exact hgoto _ c.loop_atIo
    · exact hgoto _ c.loop_atIo
    · split
      · exact ⟨_, .inr ⟨.etimedout, rfl⟩, .inr ⟨-1, rfl⟩⟩
      · exact hgoto _ c.loop_atIo
    · split
      · exact hret _
      · exact hgoto _ c.loop_atIo

/-- The value of an exit is written to memory and nowhere else. -/
theorem storeRetval_eq (u : UId) (v : Val) (s : State) :
    storeRetval u v s = {s with mem := (storeRetval u v s).mem} := by
  unfold storeRetval
  split
  · split <;> rfl
  · rfl

@[simp] theorem storeRetval_ut (u : UId) (v : Val) (s : State) : (storeRetval u v s).ut = s.ut := by
  rw [storeRetval_eq]

/-- A new uthread at the end of the ready queue of `q`. -/
def created (q : PId) (id : Nat) (p : Option PId) (s : State) : State :=
  insertReady q s.heap {s with
    ut := Function.update s.ut s.heap
      {id := id, status := .only .new, p := p, fdWait := -1, isWatingYieldSignal := true, life := .live}
    heap := s.heap + 1}

/-- The p of `c` goes to the idle sched `n`. -/
def handedOff (c n : SId) (q : PId) (rest : List SId) (s : State) : State :=
  let s := {s with schedIdle := rest}
  let s := s.setSched n fun v => {v with p := some q, pc := .another}
  let s := s.setP q fun v => {v with sched := some n}
  s.setSched c fun v => {v with p := none}

theorem diskHandOffStmt_ok {u : UId} {c : SId} {r : Reply} {s s' : State}
    (h : diskHandOffStmt u c r s = .ok s') :
    (handsOff c s = false ∧ s' = goto u .diskCall s) ∨
    ∃ q n rest, (s.sched c).p = some q ∧ (s.p q).ready ≠ [] ∧ s.schedIdle = n :: rest ∧
      s' = goto u .diskCall (handedOff c n q rest s) := by
  unfold diskHandOffStmt at h
  split at h
  · rename_i hp
    cases h
    exact .inl ⟨by simp [handsOff, hp], rfl⟩
  · rename_i q hq
    split at h
    · rename_i hr
      cases h
      exact .inl ⟨by simp [handsOff, hq, hr], rfl⟩
    · rename_i hr
      split at h
      · cases h
      · rename_i n rest hn
        split at h
        · cases h
          exact .inr ⟨q, n, rest, hq, by simpa using hr, hn, rfl⟩
        · cases h

/-- A statement of `uthread_create` before the last one changes no uthread but its own, and
no p and no sched. -/
theorem createStmt_ok {a : SId} {u : UId} {c : SId} {pc : CreateAt} {r : Reply} {s s' : State}
    (h : createStmt a u c pc r s = .ok s') :
    (∃ s₀ pc', s' = goto u (.create c pc') s₀ ∧ s₀.ut = s.ut ∧ s₀.p = s.p ∧ s₀.sched = s.sched ∧
      s₀.schedIdle = s.schedIdle ∧ s₀.heap = s.heap ∧ s₀.consumed = s.consumed ∧
      ∀ id p, pc' = .insert id p → p = (s.sched c).p) ∨
    s' = returns a u (-1) s ∨
    ∃ id p q, pc = .insert id p ∧ (s.sched c).p = some q ∧ s' = returns a u 0 (created q id p s) := by
  cases pc with
  | lock =>
    unfold createStmt at h
    dsimp only at h
    split at h
    · cases h
    · cases h
      exact .inl ⟨_, _, rfl, rfl, rfl, rfl, rfl, rfl, rfl, by simp⟩
  | count =>
    cases h
    exact .inl ⟨_, _, rfl, rfl, rfl, rfl, rfl, rfl, rfl, by simp⟩
  | unlock id =>
    cases h
    exact .inl ⟨_, _, rfl, rfl, rfl, rfl, rfl, rfl, rfl, by simp⟩
  | stack id =>
    unfold createStmt at h
    dsimp only at h
    split at h
    · cases h
      exact .inl ⟨_, _, rfl, rfl, rfl, rfl, rfl, rfl, rfl, by simp⟩
    · cases h
      exact .inr (.inl rfl)
  | bind id =>
    cases h
    refine .inl ⟨_, _, rfl, rfl, rfl, rfl, rfl, rfl, rfl, fun id' p hp => ?_⟩
    cases hp
    rfl
  | insert id p =>
    obtain ⟨q, hq, h⟩ := bind_ok h
    cases h
    exact .inr (.inr ⟨id, p, q, rfl, bound_ok hq, rfl⟩)

end UthreadRuntime
