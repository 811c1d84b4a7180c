import UthreadRuntime.Model.Statements
import UthreadRuntime.Safety.Frame
import UthreadRuntime.Safety.SoundRuns
import UthreadRuntime.Safety.Transfers

/-! What becomes of a uthread's record in a step.

A record is written by the uthread itself, and by others: the scheduler that wakes or
resumes it, the target of its join, a joiner. What others write does not show in the
course of the uthread's own call (`Seen`), with one exception, the expiry of a wait. -/
namespace UthreadRuntime

open State

/-- The context and what the current call has to show are as they were; other waits than
an expired one may have been noted. -/
structure Seen (r r' : Uthread) : Prop where
  ctx : r'.ctx = r.ctx
  call : r'.hist.call = r.hist.call
  result : r'.hist.result = r.hist.result
  waits : .expired ∈ r'.hist.waits ↔ .expired ∈ r.hist.waits
  expired : r.ctx = .user ∨ r'.status.has .expired = r.status.has .expired

theorem Seen.refl (r : Uthread) : Seen r r := ⟨rfl, rfl, rfl, Iff.rfl, .inr rfl⟩

theorem Seen.trans {r r' r'' : Uthread} (h : Seen r r') (h' : Seen r' r'') : Seen r r'' := by
  refine ⟨h'.ctx.trans h.ctx, h'.call.trans h.call, h'.result.trans h.result, h'.waits.trans h.waits, ?_⟩
  rcases h.expired with hu | he
  · exact .inl hu
  · rcases h'.expired with hu | he'
    · exact .inl (h.ctx.symm.trans hu)
    · exact .inr (he'.trans he)

/-- Every record is as seen from its own call. -/
def AllSeen (s s' : State) : Prop := ∀ v, Seen (s.ut v) (s'.ut v)

namespace AllSeen

variable {s s' s'' : State} {a : SId} {u : UId}

theorem refl (s : State) : AllSeen s s := fun _ => Seen.refl _

theorem trans (h : AllSeen s s') (h' : AllSeen s' s'') : AllSeen s s'' :=
  fun v => (h v).trans (h' v)

theorem of_eq (h : s'.ut = s.ut) : AllSeen s s' := by
  intro v
  rw [h]
  exact Seen.refl _

theorem setUt {f : Uthread → Uthread} (h : Seen (s.ut u) (f (s.ut u))) : AllSeen s (s.setUt u f) := by
  intro v
  rw [setUt_ut]
  split
  · rename_i hv
    rw [hv]
    exact h
  · exact Seen.refl _

theorem insertReady (q : PId) (u : UId) (s : State) : AllSeen s (insertReady q u s) := of_eq rfl

theorem deschedSleep (h : uthreadDeschedSleep u s = .ok s') : AllSeen s s' := by
  rcases uthreadDeschedSleep_ok h with ⟨-, rfl⟩ | ⟨-, q, -, rfl⟩
  · exact refl s'
  · have h₁ : AllSeen s (s.setP q fun v => {v with sleeping := Tree.remove u v.sleeping}) := of_eq rfl
    refine h₁.trans (setUt ⟨rfl, rfl, rfl, Iff.rfl, .inr ?_⟩)
    simp

theorem deschedEvent {fd e : Int} {found : Option UId}
    (h : uthreadDeschedEvent a fd e s = .ok (found, s')) : AllSeen s s' := by
  obtain ⟨q, -, -, ⟨-, rfl⟩ | ⟨v, -, hv⟩⟩ := uthreadDeschedEvent_ok h
  · exact refl s'
  · have h₁ : AllSeen s (s.setP q fun w => {w with waiting := Tree.remove v w.waiting}) := of_eq rfl
    exact h₁.trans (deschedSleep hv)

theorem clearsWait (u : UId) (s : State) :
    AllSeen s (s.setUt u fun v => {v with status := clearWait v.status}) := by
  refine setUt ⟨rfl, rfl, rfl, Iff.rfl, .inr ?_⟩
  exact has_clearWait_of_ne (s.ut u).status .expired (by simp) (by simp)

theorem cancelEvent (h : uthreadCancelEvent a u s = .ok s') : AllSeen s s' := by
  obtain ⟨q, s₁, -, -, rfl, hs₁⟩ := uthreadCancelEvent_ok h
  have hfd : AllSeen s₁ (s₁.setUt u fun v => {v with fdWait := -1}) :=
    setUt ⟨rfl, rfl, rfl, Iff.rfl, .inr rfl⟩
  have hdrop : ∀ fd t, AllSeen t (dropInterest q fd t) := fun _ _ => of_eq rfl
  rcases hs₁ with ⟨-, rfl⟩ | ⟨-, found, hd⟩
  · exact ((clearsWait u s).trans (hdrop _ _)).trans hfd
  · exact ((clearsWait u s).trans (hdrop _ _)).trans ((deschedEvent hd).trans hfd)

theorem wakeJoined (h : wakeJoined u s = .ok s') : AllSeen s s' := by
  rcases wakeJoined_ok h with ⟨-, rfl⟩ | ⟨j, q, s₁, -, hd, -, rfl⟩
  · exact refl s'
  · have hnote : AllSeen s₁ (s₁.setUt j fun v =>
        {v with hist := {v.hist with waits := .joined :: v.hist.waits}}) :=
      setUt ⟨rfl, rfl, rfl, by simp, .inr rfl⟩
    exact (deschedSleep hd).trans (hnote.trans (insertReady q j _))

theorem switched (h : uthreadSwitched a u s = .ok s') : AllSeen s s' := by
  have hi : AllSeen s (idleCpu a s) := of_eq rfl
  rcases uthreadSwitched_ok h with ⟨-, s₁, hw, -, rfl⟩ | ⟨-, -, rfl⟩ | ⟨-, -, q, -, rfl⟩
  · have hf : AllSeen s₁ (freed u s₁) := by
      refine (of_eq ?_ : AllSeen s₁ _).trans (setUt ⟨rfl, rfl, rfl, Iff.rfl, .inr rfl⟩)
      rfl
    exact hi.trans ((wakeJoined hw).trans hf)
  · exact hi
  · exact hi.trans (insertReady q u _)

theorem resume (h : Sound s) (hu : u < s.heap) (k : SchedAt) : AllSeen s (uthreadResume a u k s) := by
  have h₀ : AllSeen s (if (s.ut u).status.has .new then uthreadInit u s else s) := by
    split
    · rename_i hnew
      have hctx := ((h.ut u hu).new hnew).1
      exact setUt ⟨hctx.symm, rfl, rfl, Iff.rfl, .inl hctx⟩
    · exact refl s
  unfold uthreadResume
  generalize (if (s.ut u).status.has .new then uthreadInit u s else s) = s₀ at h₀ ⊢
  have h₁ : AllSeen s₀ (s₀.setSched a fun v => {v with curUthread := some u, pc := k}) := of_eq rfl
  have h₂ : AllSeen (s₀.setSched a fun v => {v with curUthread := some u, pc := k})
      ((s₀.setSched a fun v => {v with curUthread := some u, pc := k}).setUt u fun v =>
        {v with isWatingYieldSignal := true}) := setUt ⟨rfl, rfl, rfl, Iff.rfl, .inr rfl⟩
  exact h₀.trans (h₁.trans (h₂.trans (of_eq rfl)))

theorem handled (h : Sound s) {fd : Int} {ev : UthreadEvent} {isEof : Bool} {k : SchedAt}
    (hs : handleEvent a fd ev isEof k s = .ok s') : AllSeen s s' := by
  rcases handleEvent_ok hs with ⟨s₁, hd, rfl⟩ | ⟨u, s₁, s₂, hd, hfd, hdel, rfl⟩
  · exact (deschedEvent hd).trans (of_eq rfl)
  · obtain ⟨hn, hu₂, -⟩ := h.handled hd hfd hdel isEof
    obtain ⟨q, -, -, rfl⟩ := epollDel_ok hdel
    have hdrop : AllSeen (s₁.setUt u fun v => {v with status := clearWait v.status})
        (dropInterest q fd (s₁.setUt u fun v => {v with status := clearWait v.status})) := of_eq rfl
    have hnote : ∀ t : State, AllSeen t (notedEvent u isEof t) := by
      intro t
      refine setUt ⟨rfl, rfl, rfl, by simp, .inr ?_⟩
      cases isEof <;> simp
    exact ((deschedEvent hd).trans (clearsWait u s₁)).trans
      (hdrop.trans ((hnote _).trans (resume hn hu₂ k)))

end AllSeen

/-- The wait of the call has ended because its time had come. -/
structure Expires (r r' : Uthread) : Prop where
  ctx : r'.ctx = r.ctx
  call : r'.hist.call = r.hist.call
  result : r'.hist.result = r.hist.result
  waits : .expired ∈ r'.hist.waits
  expired : r.ctx = .user ∨ r'.status.has .expired = true

theorem Expires.after {r r' r'' : Uthread} (h : Seen r r') (h' : Expires r' r'') : Expires r r'' :=
  ⟨h'.ctx.trans h.ctx, h'.call.trans h.call, h'.result.trans h.result, h'.waits,
    h'.expired.imp_left h.ctx.symm.trans⟩

theorem Expires.before {r r' r'' : Uthread} (h : Expires r r') (h' : Seen r' r'') : Expires r r'' := by
  refine ⟨h'.ctx.trans h.ctx, h'.call.trans h.call, h'.result.trans h.result, h'.waits.mpr h.waits, ?_⟩
  rcases h.expired with hu | he
  · exact .inl hu
  · rcases h'.expired with hu | he'
    · exact .inl (h.ctx.symm.trans hu)
    · exact .inr (he'.trans he)

/-- **A scheduler shows in no call but those whose wait it finds expired.** -/
theorem schedRun_records {s s' : State} {a : SId} {r : Reply} (h : Sound s)
    (hs : schedRun a r s = .ok s') (v : UId) :
    Seen (s.ut v) (s'.ut v) ∨
    ∃ q, (s.sched a).pc = .expiry ∧ (s.sched a).p = some q ∧
      minSleeping s (s.p q).sleeping = some v ∧ (s.ut v).wakeupTimeUsec ≤ r.now ∧
      Expires (s.ut v) (s'.ut v) := by
  cases schedRun_ok hs with
  | goes _ => exact .inl (Seen.refl _)
  | another _ _ => exact .inl (Seen.refl _)
  | @expired q u s₁ s₂ hpc hq hmin hdue hcancel hsl =>
    obtain ⟨h₃, hu₂, -⟩ := h.expired (Tree.min_mem hmin) hcancel hsl
    have hbefore : AllSeen s s₂ := (AllSeen.cancelEvent hcancel).trans (AllSeen.deschedSleep hsl)
    have hafter : AllSeen (notedExpiry u s₂) (uthreadResume a u .expiry (notedExpiry u s₂)) :=
      AllSeen.resume h₃ hu₂ .expiry
    by_cases hv : v = u
    · subst hv
      refine .inr ⟨q, hpc, hq, hmin, hdue, Expires.after (hbefore v) (Expires.before ?_ (hafter v))⟩
      unfold notedExpiry
      rw [setUt_ut_self]
      exact ⟨rfl, rfl, rfl, by simp, .inr (by simp)⟩
    · refine .inl ((hbefore v).trans (Seen.trans ?_ (hafter v)))
      unfold notedExpiry
      rw [setUt_ut, if_neg hv]
      exact Seen.refl _
  | @ready q u rest last _ hq hr =>
    have hu : u < s.heap := h.ready (q := q) (by rw [hr]; exact List.mem_cons_self)
    have hp : Sound (s.setP q fun v => {v with ready := rest}) :=
      h.setP (fun w hw => h.ready (q := q) (by rw [hr]; exact List.mem_cons_of_mem u hw))
        (fun _ hw => h.sleeping hw) (fun _ hw => h.waiting hw) fun _ hw => h.interest hw
    exact .inl (AllSeen.resume hp hu _ v)
  | noPoll _ _ => exact .inl (Seen.refl _)
  | polled _ _ _ => exact .inl (Seen.refl _)
  | @took q e _ _ hq _ _ he =>
    have ht := (h.tookEvent (h.busy_of_p hq) q e).1
    exact .inl (((AllSeen.of_eq (tookEvent_ut a q e s)).trans (AllSeen.handled ht he)) v)
  | handled _ he => exact .inl (AllSeen.handled h he v)
  | halted _ => exact .inl (Seen.refl _)

/-! ### The uthread itself -/

section Own

variable {s s' : State} {a : SId} {u : UId}

@[simp] theorem goto_ctx (k : Ctx) : ((goto u k s).ut u).ctx = k := by simp [goto]

theorem goto_ut_of_ne {v : UId} (hv : v ≠ u) {k : Ctx} : (goto u k s).ut v = s.ut v := by
  unfold goto
  rw [setUt_ut, if_neg hv]

theorem returns_ut_of_ne {v : UId} (hv : v ≠ u) {x : Int} : (returns a u x s).ut v = s.ut v := by
  unfold returns
  rw [setUt_ut, if_neg hv]

@[simp] theorem returns_ctx (v : Int) : ((returns a u v s).ut u).ctx = .user := by simp [returns]

/-- Where a statement leads. -/
inductive Flow : Ctx → Ctx → Prop where
  | own {now : Nat} {f : Uthread → Uthread} {k k' : Ctx} : Own now k f k' → Flow k k'
  | moves {a : SId} {u : UId} {r : Reply} {s : State} {k k' : Ctx} : Moves a u r s k k' → Flow k k'
  | io {c : IoCall} {pc : IoAt} {k' : Ctx} : k'.AtIo → Flow (.io c pc) k'
  | returns {k : Ctx} : Flow k .user
  | linkSleeping {w : Wait} : Flow (.sleep w .insert) (.sleep w .mark)
  | watch {c : IoCall} : Flow (.register c .ctl) (.register c .status)
  | linkWaiting {c : IoCall} : Flow (.register c .insert) (.sleep (.event c) .clock)
  | publish {t : UId} {v : Option Addr} : Flow (.join t v .publish) (.join t v .setRetval)
  | setRetval {t : UId} {v : Option Addr} : Flow (.join t v .setRetval) (.sleep (.join t v) .clock)
  | unpublish {t : UId} {v : Option Addr} : Flow (.join t v .unpublish) (.join t v .resetRetval)
  | store {v : Option Val} : Flow (.exit v .store) (.exit v .yieldFlag)
  | switch {k k' : Ctx} : Switches k k' → Flow k k'
  | lock {c : SId} : Flow (.create c .lock) (.create c .count)
  | count {c : SId} {id : Nat} : Flow (.create c .count) (.create c (.unlock id))
  | unlock {c : SId} {id : Nat} : Flow (.create c (.unlock id)) (.create c (.stack id))
  | diskFlag {c : SId} : Flow (.diskFlag c) (.diskHandOff c)
  | handOff {c : SId} : Flow (.diskHandOff c) .diskCall

/-- The context after a statement; only a return ends the call. -/
theorem Stmt.flow {r : Reply} (h : Stmt a u r s s') : Flow (s.ut u).ctx (s'.ut u).ctx := by
  cases h with
  | own hctx hown =>
    rw [goto_ctx, hctx]
    exact .own hown
  | moves hm =>
    rw [goto_ctx]
    exact .moves hm
  | io hctx _ hk =>
    rw [goto_ctx, hctx]
    exact .io hk
  | linkSleeping hctx _ _ =>
    rw [goto_ctx, hctx]
    exact .linkSleeping
  | watch hctx _ _ =>
    rw [goto_ctx, hctx]
    exact .watch
  | linkWaiting hctx _ =>
    rw [goto_ctx, hctx]
    exact .linkWaiting
  | publish hctx =>
    rw [goto_ctx, hctx]
    exact .publish
  | setRetval hctx =>
    rw [goto_ctx, hctx]
    exact .setRetval
  | unpublish hctx =>
    rw [goto_ctx, hctx]
    exact .unpublish
  | store hctx =>
    rw [goto_ctx, hctx]
    exact .store
  | switch hctx hk hsw =>
    rw [(AllSeen.switched hsw u).ctx, goto_ctx, hctx]
    exact .switch hk
  | lock hctx _ =>
    rw [goto_ctx, hctx]
    exact .lock
  | count hctx =>
    rw [goto_ctx, hctx]
    exact .count
  | unlock hctx =>
    rw [goto_ctx, hctx]
    exact .unlock
  | diskFlag hctx _ =>
    rw [goto_ctx, hctx]
    exact .diskFlag
  | handOff hctx _ _ _ =>
    rw [goto_ctx, hctx]
    exact .handOff
  | ioReturns _ _ | joinFails _ | joinExited _ _ | resetRetval _ | joinFree _ | allocFails _ _
  | created _ _ | diskCall _ _ =>
    rw [returns_ctx]
    exact .returns

/-- Between the registration of a descriptor and its key. -/
def Ctx.registered : Ctx → Bool
  | .register _ .status | .register _ .key => true
  | _ => false

theorem Flow.registered {k k' : Ctx} (h : Flow k k') (hreg : k'.registered = true) :
    k.registered = true ∨ ∃ c, k = .register c .ctl := by
  cases h with
  | own hown =>
    cases hown with
    | status c => exact .inl rfl
    | wake w => cases w <;> cases hreg
    | exitMark v => cases v <;> cases hreg
    | _ => cases hreg
  | moves hm => cases hm <;> cases hreg
  | io hk => rcases hk with ⟨c, pc, rfl⟩ | ⟨c, rfl⟩ <;> cases hreg
  | watch => exact .inr ⟨_, rfl⟩
  | switch hk => cases hk <;> cases hreg
  | _ => cases hreg

/-- A descriptor is registered anew by one statement only, which forgets the events of the last wait. -/
theorem uthreadStmt_registers {r : Reply} (h : uthreadStmt a u r s = .ok s')
    (hreg : (s'.ut u).ctx.registered = true) :
    (s.ut u).ctx.registered = true ∨ s'.consumed u = false := by
  have hstmt := uthreadStmt_ok h
  rcases hstmt.flow.registered hreg with hold | ⟨c, hctx⟩
  · exact .inl hold
  · right
    unfold uthreadStmt at h
    rw [hctx] at h
    obtain ⟨q, -, h⟩ := bind_ok h
    split at h
    · cases h
    · cases h
      show Function.update s.consumed u false u = false
      exact Function.update_self u false s.consumed

end Own

/-! ### The other uthreads -/

/-- The call of the uthread stands where it stood. -/
structure SameCall (r r' : Uthread) : Prop where
  ctx : r'.ctx = r.ctx
  call : r'.hist.call = r.hist.call
  result : r'.hist.result = r.hist.result

theorem SameCall.refl (r : Uthread) : SameCall r r := ⟨rfl, rfl, rfl⟩

theorem Seen.sameCall {r r' : Uthread} (h : Seen r r') : SameCall r r' := ⟨h.ctx, h.call, h.result⟩

theorem Expires.sameCall {r r' : Uthread} (h : Expires r r') : SameCall r r' := ⟨h.ctx, h.call, h.result⟩

section Others

variable {s s' : State} {a : SId} {u v : UId}

/-- Of another uthread's record a statement that is no switch writes the joiner, the address for its
value and the flag. -/
theorem Stmt.other_record {r : Reply} (hs : Stmt a u r s s') (hvu : v ≠ u) (hv : v < s.heap) :
    (∃ j x f, s'.ut v = {s.ut v with utJoined := j, retval := x, isWatingYieldSignal := f}) ∨
    ∃ k, uthreadSwitched a u (goto u k s) = .ok s' := by
  have hgoto : ∀ {k : Ctx} {t : State}, (∃ j x f, t.ut v =
      {s.ut v with utJoined := j, retval := x, isWatingYieldSignal := f}) → ∃ j x f, (goto u k t).ut v =
        {s.ut v with utJoined := j, retval := x, isWatingYieldSignal := f} := by
    intro k t ht
    rw [goto_ut_of_ne hvu]
    exact ht
  have hret : ∀ {y : Int} {t : State}, (∃ j x f, t.ut v =
      {s.ut v with utJoined := j, retval := x, isWatingYieldSignal := f}) → ∃ j x f, (returns a u y t).ut v =
        {s.ut v with utJoined := j, retval := x, isWatingYieldSignal := f} := by
    intro y t ht
    rw [returns_ut_of_ne hvu]
    exact ht
  have hsame : ∃ j x f, s.ut v = {s.ut v with utJoined := j, retval := x, isWatingYieldSignal := f} :=
    ⟨_, _, _, rfl⟩
  have herr : ∀ {s₀ : State}, (s₀ = s ∨ ∃ e, s₀ = setErrno a e s) → ∃ j x f, s₀.ut v =
      {s.ut v with utJoined := j, retval := x, isWatingYieldSignal := f} := by
    rintro s₀ (rfl | ⟨e, rfl⟩) <;> exact hsame
  have hset : ∀ {t : UId} {g : Uthread → Uthread}, (∀ y, ∃ j x f, g y =
      {y with utJoined := j, retval := x, isWatingYieldSignal := f}) → ∃ j x f, (s.setUt t g).ut v =
        {s.ut v with utJoined := j, retval := x, isWatingYieldSignal := f} := by
    intro t g hg
    rw [setUt_ut]
    split
    · rename_i hvt
      rw [hvt]
      exact hg _
    · exact hsame
  cases hs with
  | own _ _ =>
    refine .inl (hgoto ?_)
    rw [setUt_ut, if_neg hvu]
    exact hsame
  | io _ h₀ _ => exact .inl (hgoto (herr h₀))
  | ioReturns _ h₀ | diskCall _ h₀ => exact .inl (hret (herr h₀))
  | publish _ | setRetval _ | unpublish _ | diskFlag _ _ => exact .inl (hgoto (hset fun _ => ⟨_, _, _, rfl⟩))
  | resetRetval _ => exact .inl (hret (hset fun _ => ⟨_, _, _, rfl⟩))
  | store _ =>
    refine .inl (hgoto ?_)
    rw [storeRetval_ut]
    exact hsame
  | switch _ _ hsw => exact .inr ⟨_, hsw⟩
  | created _ _ =>
    refine .inl (hret ?_)
    rw [created_ut_of_lt hv]
    exact hsame
  | joinFails _ | joinExited _ _ | joinFree _ | allocFails _ _ => exact .inl (hret hsame)
  | moves _ | linkSleeping _ _ _ | watch _ _ _ | linkWaiting _ _ | lock _ _ | count _ | unlock _
  | handOff _ _ _ _ => exact .inl (hgoto hsame)

/-- A statement moves on the call of the uthread that executes it, and no other. -/
theorem Stmt.others {r : Reply} (hs : Stmt a u r s s') (hvu : v ≠ u) (hv : v < s.heap) :
    SameCall (s.ut v) (s'.ut v) := by
  rcases hs.other_record hvu hv with ⟨j, x, f, he⟩ | ⟨k, hsw⟩
  · rw [he]
    exact ⟨rfl, rfl, rfl⟩
  · have hsw' := (AllSeen.switched hsw v).sameCall
    rw [goto_ut_of_ne hvu] at hsw'
    exact hsw'

/-- A statement belongs to the call it is part of. -/
theorem Stmt.call {r : Reply} (hs : Stmt a u r s s') (hu : u < s.heap) :
    (s'.ut u).hist.call = (s.ut u).hist.call := by
  have hgoto : ∀ {k : Ctx} {s₀ : State}, (s₀.ut u).hist.call = (s.ut u).hist.call →
      ((goto u k s₀).ut u).hist.call = (s.ut u).hist.call := by
    intro k s₀ h
    unfold goto
    rw [setUt_ut_self]
    exact h
  have hret : ∀ {x : Int} {s₀ : State}, (s₀.ut u).hist.call = (s.ut u).hist.call →
      ((returns a u x s₀).ut u).hist.call = (s.ut u).hist.call := by
    intro x s₀ h
    unfold returns
    rw [setUt_ut_self]
    exact h
  have herr : ∀ {s₀ : State}, (s₀ = s ∨ ∃ e, s₀ = setErrno a e s) →
      (s₀.ut u).hist.call = (s.ut u).hist.call := by
    rintro s₀ (rfl | ⟨e, rfl⟩) <;> rfl
  have hset : ∀ {t : UId} {f : Uthread → Uthread}, (∀ x, (f x).hist = x.hist) →
      ((s.setUt t f).ut u).hist.call = (s.ut u).hist.call := by
    intro t f hf
    exact setUt_keeps (fun r => r.hist.call) (by rw [hf]) u
  cases hs with
  | own _ hown => exact hgoto (hset (by cases hown <;> exact fun _ => rfl))
  | io _ h₀ _ => exact hgoto (herr h₀)
  | ioReturns _ h₀ => exact hret (herr h₀)
  | diskCall _ h₀ => exact hret (herr h₀)
  | switch _ _ hsw =>
    rw [(AllSeen.switched hsw u).call]
    exact hgoto rfl
  | store _ =>
    refine hgoto ?_
    rw [storeRetval_ut]
  | created _ _ =>
    refine hret ?_
    rw [created_ut_of_lt hu]
  | publish _ | setRetval _ | unpublish _ | diskFlag _ _ => exact hgoto (hset fun _ => rfl)
  | resetRetval _ => exact hret (hset fun _ => rfl)
  | joinFails _ | joinExited _ _ | joinFree _ | allocFails _ _ => exact hret rfl
  | moves _ | linkSleeping _ _ _ | watch _ _ _ | linkWaiting _ _ | lock _ _ | count _ | unlock _
  | handOff _ _ _ _ => exact hgoto rfl

/-- Of another uthread's record a call writes the flag of `uthread_detach`. -/
theorem Entered.other_record {c : Call} (hs : Entered a u s c s') (hvu : v ≠ u) :
    s'.ut v = s.ut v ∨ s'.ut v = {s.ut v with status := (s.ut v).status.add .detached} := by
  have hent : ∀ c, (entered u c s).ut v = s.ut v := by
    intro c
    unfold entered
    rw [setUt_ut, if_neg hvu]
  cases hs with
  | goes _ _ _ => exact .inl ((goto_ut_of_ne hvu).trans (hent _))
  | @detach t _ =>
    rw [returns_ut_of_ne hvu, setUt_ut]
    split
    · rename_i hvt
      subst hvt
      rw [hent]
      exact .inr rfl
    · exact .inl (hent _)
  | close =>
    left
    rw [returns_ut_of_ne hvu, closeFd_ut, hent]

theorem Entered.others {c : Call} (hs : Entered a u s c s') (hvu : v ≠ u) :
    SameCall (s.ut v) (s'.ut v) := by
  rcases hs.other_record hvu with he | he
  · rw [he]
    exact SameCall.refl _
  · rw [he]
    exact ⟨rfl, rfl, rfl⟩

/-- **A step moves on no call but that of the uthread that takes it.** -/
theorem step_others {act : Act} (h : Sound s) (hs : step s act = .ok s') (hv : v < s.heap)
    (hne : (∀ a r, act ≠ .sched a r) → (s.sched act.thread).curUthread ≠ some v) :
    SameCall (s.ut v) (s'.ut v) := by
  have hact : ∀ {b u}, (∀ a r, act ≠ .sched a r) → act.thread = b → (s.sched b).curUthread = some u →
      v ≠ u := by
    rintro b u hns rfl hc rfl
    exact hne hns hc
  have hstep := hs
  cases step_ok hs with
  | call hc _ hent => exact hent.others (hact (by simp) rfl hc)
  | stmt hc hstmt => exact hstmt.others (hact (by simp) rfl hc) hv
  | @preempt a u s' hc _ hsw =>
    have hsw' := (AllSeen.switched hsw v).sameCall
    rw [setUt_ut, if_neg (hact (by simp) rfl hc)] at hsw'
    exact hsw'
  | @sched a r s' hc _ =>
    rcases step_frame hstep with ⟨a', r', hact', -, hrun⟩ | ⟨hns, -⟩ | ⟨a', r', u, hact', -⟩
    · cases hact'
      rcases schedRun_records h hrun v with hseen | ⟨-, -, -, -, -, hexp⟩
      · exact hseen.sameCall
      · exact hexp.sameCall
    · exact absurd rfl (hns a r)
    · cases hact'

/-- The action is no call that `j` makes. -/
def NoCallOf (j : UId) (s : State) (act : Act) : Prop :=
  ∀ b c, act = .call b c → (s.sched b).curUthread ≠ some j

/-- Between its calls, the call of a uthread goes on by its own statements. -/
theorem step_call {act : Act} (h : Sound s) (hs : step s act = .ok s') (hv : v < s.heap)
    (hno : NoCallOf v s act) : SameCall (s.ut v) (s'.ut v) ∨
      ∃ a r, act = .stmt a r ∧ (s.sched a).curUthread = some v ∧ Stmt a v r s s' := by
  by_cases hown : (∀ a r, act ≠ .sched a r) ∧ (s.sched act.thread).curUthread = some v
  · obtain ⟨hns, hc⟩ := hown
    cases step_ok hs with
    | @call b c _ _ _ _ _ => exact absurd hc (hno b c rfl)
    | @stmt a r u _ hc' hstmt =>
      obtain rfl : u = v := Option.some.inj (hc'.symm.trans hc)
      exact .inr ⟨a, r, rfl, hc, hstmt⟩
    | @preempt a u _ hc' _ hsw =>
      obtain rfl : u = v := Option.some.inj (hc'.symm.trans hc)
      have hseen := (AllSeen.switched hsw u).sameCall
      rw [setUt_ut_self] at hseen
      exact .inl ⟨hseen.ctx, hseen.call, hseen.result⟩
    | sched _ _ => exact absurd rfl (hns _ _)
  · exact .inl (step_others h hs hv fun hns hc => hown ⟨hns, hc⟩)

end Others

theorem Entered.ctx {s s' : State} {a : SId} {u : UId} {c : Call} (hs : Entered a u s c s') : (s'.ut u).ctx = c.head := by
  cases hs with
  | goes _ _ _ => exact goto_ctx _
  | detach _ => exact returns_ctx _
  | close => exact returns_ctx _

/-- Where the uthread stands after a step: where it stood, at the head of a call it has made,
or past its own statement. -/
theorem step_ctx {s s' : State} {act : Act} {v : UId} (h : Sound s) (hs : step s act = .ok s')
    (hv : v < s.heap) : (s'.ut v).ctx = (s.ut v).ctx ∨
      (∃ b c, act = .call b c ∧ (s.sched b).curUthread = some v ∧ (s'.ut v).ctx = c.head) ∨
      ∃ a r, act = .stmt a r ∧ (s.sched a).curUthread = some v ∧ Stmt a v r s s' := by
  by_cases hno : NoCallOf v s act
  · rcases step_call h hs hv hno with hsame | hown
    · exact .inl hsame.ctx
    · exact .inr (.inr hown)
  · unfold NoCallOf at hno
    push Not at hno
    obtain ⟨b, c, rfl, hc⟩ := hno
    cases step_ok hs with
    | call hc' _ hent =>
      cases hc.symm.trans hc'
      exact .inr (.inl ⟨b, c, rfl, hc, hent.ctx⟩)

/-! ### New records -/

def SameHeap (s s' : State) : Prop := s'.heap = s.heap

theorem SameHeap.transparent : Transparent SameHeap where
  refl _ := rfl
  trans h h' := Eq.trans h' h
  setUt _ _ _ _ := rfl
  setP _ _ _ := rfl
  setSched _ _ _ := rfl
  timer _ _ := rfl
  consumed _ _ := rfl
  halted _ _ := rfl

theorem switched_heap {s s' : State} {a : SId} {u : UId} (hs : uthreadSwitched a u s = .ok s') :
    s'.heap = s.heap := by
  rcases SameHeap.transparent.switched hs with h | ⟨-, s₁, h, rfl⟩
  · exact h
  · exact h

theorem Stmt.born {s s' : State} {a : SId} {u : UId} {r : Reply} (hs : Stmt a u r s s') (hu : u < s.heap)
    {v : UId} (hv : v < s'.heap) :
    v < s.heap ∨
      ((s'.ut v).ctx = .user ∧ (s'.ut v).status = .only .new ∧ (s'.ut v).wakeupTimeUsec = 0) := by
  cases hs with
  | @created c id p q _ _ =>
    rcases Nat.lt_succ_iff_lt_or_eq.mp hv with hlt | rfl
    · exact .inl hlt
    · right
      have hne : s.heap ≠ u := Nat.ne_of_gt hu
      have hrec : (UthreadRuntime.created q id p s).ut s.heap =
          {id := id, status := .only .new, p := p, fdWait := -1, isWatingYieldSignal := true, life := .live} :=
        Function.update_self ..
      unfold returns
      rw [setUt_ut, if_neg hne, hrec]
      exact ⟨rfl, rfl, rfl⟩
  | io _ h₀ _ | ioReturns _ h₀ | diskCall _ h₀ =>
    left
    rcases h₀ with rfl | ⟨e, rfl⟩ <;> exact hv
  | switch _ _ hsw =>
    left
    rw [switched_heap hsw] at hv
    exact hv
  | store _ =>
    left
    rw [storeRetval_eq] at hv
    exact hv
  | _ => exact .inl hv

/-- A record that a step has handed out is that of a uthread which has not run. -/
theorem step_born {s s' : State} {act : Act} (h : Sound s) (hs : step s act = .ok s') {v : UId}
    (hv : v < s'.heap) : v < s.heap ∨
      ((s'.ut v).ctx = .user ∧ (s'.ut v).status = .only .new ∧ (s'.ut v).wakeupTimeUsec = 0) := by
  cases step_ok hs with
  | call _ _ hent =>
    left
    cases hent <;> exact hv
  | stmt hc hstmt => exact hstmt.born (h.cur hc).1 hv
  | preempt _ _ hsw =>
    left
    rw [switched_heap hsw] at hv
    exact hv
  | sched _ hsched =>
    left
    have hheap : s'.heap = s.heap := SameHeap.transparent.schedStep hsched
    rw [hheap] at hv
    exact hv

end UthreadRuntime
