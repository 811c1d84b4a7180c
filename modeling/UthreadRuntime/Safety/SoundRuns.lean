import UthreadRuntime.Model.Statements
import UthreadRuntime.Safety.Sound

/-! Every step keeps the runtime sound.

A statement of library code changes the record of the uthread that executes it, and
at most one other record or p; `Sound.own` says what it has to show for its own. -/
namespace UthreadRuntime

open State

section Statements

variable {s s' : State} {a : SId} {u : UId}

/-- The uthread that runs goes on to another statement. -/
theorem Sound.own (h : Sound s) (hu : u < s.heap) {f : Uthread → Uthread}
    (hctx : (f (s.ut u)).ctx.Ok s u) (hkey : (f (s.ut u)).ctx.KeyOk (f (s.ut u)).fdWait)
    (hnew : (f (s.ut u)).status.has .new = false)
    (hj : (f (s.ut u)).utJoined = (s.ut u).utJoined) (hp : (f (s.ut u)).p = (s.ut u).p)
    (hl : (f (s.ut u)).life = (s.ut u).life) : Sound (s.setUt u f) := by
  have hok := h.ut u hu
  refine h.setUt hu ⟨hctx, hkey, fun hn => ?_, ?_, ?_, ?_⟩ fun hn => ?_
  · rw [hnew] at hn
    cases hn
  · rw [hj]
    exact hok.joined
  · rw [hp]
    exact hok.home
  · rw [hl]
    exact hok.life
  · rw [hnew] at hn
    cases hn

protected theorem Sound.goto (h : Sound s) (hu : u < s.heap) (hnew : (s.ut u).status.has .new = false) {c : Ctx}
    (hctx : c.Ok s u) (hkey : c.KeyOk (s.ut u).fdWait) : Sound (goto u c s) :=
  h.own hu hctx hkey hnew rfl rfl rfl

protected theorem Sound.returns (h : Sound s) (hu : u < s.heap) (hnew : (s.ut u).status.has .new = false)
    (hkey : (s.ut u).fdWait = -1) (v : Int) : Sound (returns a u v s) :=
  h.own hu trivial hkey hnew rfl rfl rfl

protected theorem Sound.setErrno (h : Sound s) (ha : a ∉ s.schedIdle) (e : Errno) : Sound (setErrno a e s) :=
  h.setSched ha rfl fun _ hc => h.cur hc

theorem closeFd_ut (fd : Int) : (closeFd fd s).ut = s.ut := rfl

protected theorem Sound.closeFd (h : Sound s) (fd : Int) : Sound (closeFd fd s) :=
  ⟨fun v hv => (h.ut v hv).extends ⟨Nat.le_refl _, fun _ hc => hc, fun _ _ => .inl rfl⟩, h.fresh, h.idle,
    h.idle_nodup, h.bound_inj, h.one, h.cur, h.ready, h.sleeping, h.waiting,
    fun hi => h.interest (List.mem_of_mem_filter hi)⟩

/-- What a statement leaves alone of the record it writes. -/
theorem Own.fields {now : Nat} {k k' : Ctx} {f : Uthread → Uthread} (h : Own now k f k') (x : Uthread) :
    (f x).utJoined = x.utJoined ∧ (f x).p = x.p ∧ (f x).life = x.life ∧
      (f x).status.has .new = x.status.has .new := by
  cases h with
  | status c => cases hev : c.event <;> simp [UthreadEvent.waitSt]
  | unstatus c => cases hev : c.event <;> simp [UthreadEvent.waitSt]
  | mark w | wake w | exitMark v => simp
  | _ => exact ⟨rfl, rfl, rfl, rfl⟩

/-- Every statement of a sleep holds on to the same things. -/
theorem Own.ok {now : Nat} {k k' : Ctx} {f : Uthread → Uthread} (h : Own now k f k') (hok : k.Ok s u) :
    k'.Ok s u := by
  cases h with
  | clock w | mark w | flag w | sleepYield w => cases w <;> exact hok
  | wake w =>
    cases w with
    | join t r => exact hok
    | event c => trivial
  | exitMark v => cases v <;> trivial
  | _ => trivial

/-- The key is set and reset where it may be. -/
theorem Own.keyOk {now : Nat} {k k' : Ctx} {f : Uthread → Uthread} (h : Own now k f k') {x : Uthread}
    (hkey : k.KeyOk x.fdWait) : k'.KeyOk (f x).fdWait := by
  cases h with
  | clock w | mark w | flag w | sleepYield w | wake w => cases w <;> exact hkey
  | key c => exact .inl rfl
  | unkey c => rfl
  | exitMark v => cases v <;> exact hkey
  | _ => exact hkey

theorem Moves.ok {r : Reply} {k k' : Ctx} (h : Moves a u r s k k') (ha : a ∉ s.schedIdle) (hok : k.Ok s u) :
    k'.Ok s u := by
  cases h with
  | notSelf ht => exact ⟨hok, ht⟩
  | createGet => exact ha
  | bind => exact ⟨hok, .inr rfl⟩
  | diskGet | noHandOff _ => trivial
  | _ => exact hok

theorem Moves.keyOk {r : Reply} {k k' : Ctx} (h : Moves a u r s k k') {x : Int} (hkey : k.KeyOk x) :
    k'.KeyOk x := by
  cases h <;> exact hkey

theorem Switches.ok {k k' : Ctx} (h : Switches k k') (hok : k.Ok s u) : k'.Ok s u := by
  cases h with
  | sleep w => cases w <;> exact hok
  | yield | exit v => trivial

theorem Switches.keyOk {k k' : Ctx} (h : Switches k k') {x : Int} (hkey : k.KeyOk x) : k'.KeyOk x := by
  cases h with
  | sleep w => cases w <;> exact hkey
  | yield | exit v => exact hkey

/-- A node is linked, in either tree. -/
theorem Sound.linkSleeping (h : Sound s) (hu : u < s.heap) (hnew : (s.ut u).status.has .new = false) {q : PId}
    {t : List UId} (ht : insertSleeping s u (s.p q).sleeping = some t) :
    Sound (s.setP q fun v => {v with sleeping := t}) := by
  obtain ⟨rfl, -⟩ := Tree.insert_eq_some ht
  refine h.setP (fun _ hv => h.ready hv) (fun v hv => ?_) (fun _ hv => h.waiting hv) fun _ hi => h.interest hi
  rcases List.mem_cons.mp hv with rfl | hv
  · exact ⟨hu, hnew⟩
  · exact h.sleeping hv

theorem Sound.linkWaiting (h : Sound s) (hu : u < s.heap) (q : PId) : Sound (s.setP q fun v =>
    {v with waiting := (insertWaiting s u (s.p q).waiting).getD (s.p q).waiting}) := by
  refine h.setP (fun _ hv => h.ready hv) (fun _ hv => h.sleeping hv) (fun v hv => ?_)
    fun _ hi => h.interest hi
  cases hi : insertWaiting s u (s.p q).waiting with
  | none =>
    rw [hi] at hv
    exact h.waiting hv
  | some t =>
    rw [hi] at hv
    obtain ⟨rfl, -⟩ := Tree.insert_eq_some hi
    rcases List.mem_cons.mp hv with rfl | hv
    · exact hu
    · exact h.waiting hv

theorem Sound.watch (h : Sound s) {q : PId} {fd : Int} {e : UthreadEvent} {l : List Interest}
    (hl : epollCtlAdd fd e (s.p q).interest = some l) : Sound (State.setP q (fun v => {v with interest := l})
      {s with consumed := Function.update s.consumed u false}) := by
  obtain ⟨hfd, -, rfl⟩ := epollCtlAdd_some hl
  have hm : Sound {s with consumed := Function.update s.consumed u false} := h.congr rfl rfl rfl rfl rfl
  refine hm.setP (fun _ hv => h.ready hv) (fun _ hv => h.sleeping hv) (fun _ hv => h.waiting hv) fun i hi => ?_
  rcases List.mem_cons.mp hi with rfl | hi
  · exact hfd
  · exact h.interest hi

/-- Another uthread's record says who joins it. -/
theorem Sound.setJoined (h : Sound s) {t : UId} {j : Option UId} (ht : t < s.heap)
    (hj : ∀ v, j = some v → v < s.heap) : Sound (s.setUt t fun v => {v with utJoined := j}) := by
  have htok := h.ut t ht
  exact h.setUt ht ⟨htok.ctx, htok.key, htok.new, hj, htok.home, htok.life⟩ id

variable (h : Sound s) (hc : (s.sched a).curUthread = some u)
include h hc

/-- **Every statement of library code keeps the runtime sound.** -/
protected theorem Sound.stmt {r : Reply} (hs : Stmt a u r s s') : Sound s' := by
  obtain ⟨hu, hnew⟩ := h.cur hc
  have ha := h.busy_of_cur hc
  have hok := h.ut u hu
  have hctxOk : ∀ {k : Ctx}, (s.ut u).ctx = k → k.Ok s u := by
    rintro k rfl
    exact hok.ctx
  have hkeyOk : ∀ {k : Ctx}, (s.ut u).ctx = k → k.KeyOk (s.ut u).fdWait := by
    rintro k rfl
    exact hok.key
  -- the rest of the state has changed, and of the record of the uthread nothing that counts
  have hgoto : ∀ {k : Ctx} {s₀ : State}, Sound s₀ → s₀.heap = s.heap →
      (s₀.ut u).status = (s.ut u).status → (s₀.ut u).fdWait = (s.ut u).fdWait → k.Ok s₀ u →
      k.KeyOk (s.ut u).fdWait → Sound (goto u k s₀) := by
    intro k s₀ h₀ hheap hst hfd hk hkey
    exact h₀.goto (by rw [hheap]; exact hu) (by rw [hst]; exact hnew) hk (by rw [hfd]; exact hkey)
  have hret : ∀ {x : Int} {s₀ : State}, Sound s₀ → s.heap ≤ s₀.heap →
      (s₀.ut u).status = (s.ut u).status → (s₀.ut u).fdWait = (s.ut u).fdWait →
      (s.ut u).fdWait = -1 → Sound (returns a u x s₀) := by
    intro x s₀ h₀ hheap hst hfd hkey
    exact h₀.returns (Nat.lt_of_lt_of_le hu hheap) (by rw [hst]; exact hnew) (hfd.trans hkey) x
  have herr : ∀ {s₀ : State}, (s₀ = s ∨ ∃ e, s₀ = setErrno a e s) →
      Sound s₀ ∧ s₀.heap = s.heap ∧ s₀.ut = s.ut := by
    rintro s₀ (rfl | ⟨e, rfl⟩)
    · exact ⟨h, rfl, rfl⟩
    · exact ⟨h.setErrno ha e, rfl, rfl⟩
  have hjoin : ∀ {t : UId} {v : Option Addr} {pc : JoinAt}, (s.ut u).ctx = .join t v pc → (s.ut u).fdWait = -1 :=
    fun hctx => hkeyOk hctx
  cases hs with
  | own hctx hown =>
    obtain ⟨h1, h2, h3, h4⟩ := hown.fields (s.ut u)
    unfold goto
    rw [setUt_setUt]
    exact h.own hu (hown.ok (hctxOk hctx)) (hown.keyOk (hkeyOk hctx)) (h4.trans hnew) h1 h2 h3
  | moves hm => exact h.goto hu hnew (hm.ok ha hok.ctx) (hm.keyOk hok.key)
  | io hctx h₀ hk =>
    obtain ⟨h₀, hheap, hut⟩ := herr h₀
    have hkey : (s.ut u).fdWait = -1 := hkeyOk hctx
    refine hgoto h₀ hheap (by rw [hut]) (by rw [hut]) ?_ (by rw [hkey]; exact Ctx.keyOk_neg _)
    rcases hk with ⟨c', pc', rfl⟩ | ⟨c', rfl⟩ <;> trivial
  | ioReturns hctx h₀ =>
    obtain ⟨h₀, hheap, hut⟩ := herr h₀
    exact hret h₀ (Nat.le_of_eq hheap.symm) (by rw [hut]) (by rw [hut]) (hkeyOk hctx)
  | diskCall hctx h₀ =>
    obtain ⟨h₀, hheap, hut⟩ := herr h₀
    exact hret h₀ (Nat.le_of_eq hheap.symm) (by rw [hut]) (by rw [hut]) (hkeyOk hctx)
  | @linkSleeping w _ _ hctx _ ht =>
    have hk := hctxOk hctx
    have hkey := hkeyOk hctx
    refine hgoto (h.linkSleeping hu hnew ht) rfl rfl rfl ?_ ?_
    · cases w <;> exact hk
    · cases w <;> exact hkey
  | watch hctx _ hl =>
    have hkey := hkeyOk hctx
    exact hgoto (h.watch hl) rfl rfl rfl trivial hkey
  | linkWaiting hctx _ =>
    have hkey := hkeyOk hctx
    exact hgoto (h.linkWaiting hu _) rfl rfl rfl trivial hkey
  | joinFails hctx => exact hret (h.setErrno ha _) (Nat.le_refl _) rfl rfl (hjoin hctx)
  | joinExited hctx _ => exact hret (h.congr rfl rfl rfl rfl rfl) (Nat.le_refl _) rfl rfl (hjoin hctx)
  | joinFree hctx => exact hret (h.congr rfl rfl rfl rfl rfl) (Nat.le_refl _) rfl rfl (hjoin hctx)
  | publish hctx =>
    have ht := hctxOk hctx
    refine hgoto (h.setJoined ht.1 ?_) rfl (setUt_keeps Uthread.status rfl u) (setUt_keeps Uthread.fdWait rfl u)
      ht (hjoin hctx)
    rintro v ⟨⟩
    exact hu
  | setRetval hctx =>
    have ht := hctxOk hctx
    exact hgoto (h.plain ht.1 rfl rfl rfl rfl (h.ut _ ht.1).life (.inl rfl)) rfl
      (setUt_keeps Uthread.status rfl u) (setUt_keeps Uthread.fdWait rfl u) ht (hjoin hctx)
  | unpublish hctx =>
    have ht := hctxOk hctx
    exact hgoto (h.setJoined ht.1 (by simp)) rfl (setUt_keeps Uthread.status rfl u)
      (setUt_keeps Uthread.fdWait rfl u) ht (hjoin hctx)
  | resetRetval hctx =>
    have ht := hctxOk hctx
    exact hret (h.plain ht.1 rfl rfl rfl rfl (h.ut _ ht.1).life (.inl rfl)) (Nat.le_refl _)
      (setUt_keeps Uthread.status rfl u) (setUt_keeps Uthread.fdWait rfl u) (hjoin hctx)
  | store hctx =>
    have hkey := hkeyOk hctx
    rw [storeRetval_eq]
    exact hgoto (h.congr rfl rfl rfl rfl rfl) rfl rfl rfl trivial hkey
  | switch hctx hk hsw =>
    have h₀ := h.goto hu hnew (hk.ok (hctxOk hctx)) (hk.keyOk (hkeyOk hctx))
    exact h₀.uthreadSwitched ha hu hsw
  | allocFails hctx _ =>
    refine hret h (Nat.le_refl _) rfl rfl ?_
    rcases hctx with ⟨c, hctx⟩ | ⟨c, id, hctx⟩ <;> exact hkeyOk hctx
  | lock hctx _ | count hctx | unlock hctx =>
    have hk := hctxOk hctx
    have hkey := hkeyOk hctx
    exact hgoto (h.congr rfl rfl rfl rfl rfl) rfl rfl rfl hk hkey
  | @created c id p q hctx hq =>
    -- the p recorded in the new uthread is the one whose queue it enters
    have hpq : p = some q := by
      rcases (hctxOk hctx).2 with hn | hp
      · rw [hn] at hq
        cases hq
      · rw [← hp, hq]
    have hold : (created q id p s).ut u = s.ut u := created_ut_of_lt hu
    exact hret (h.created hpq (h.one hq)) (Nat.le_succ _) (by rw [hold]) (by rw [hold]) (hkeyOk hctx)
  | diskFlag hctx hv =>
    have hkey := hkeyOk hctx
    have hvh := (h.cur hv).1
    exact hgoto (h.plain hvh rfl rfl rfl rfl (h.ut _ hvh).life (.inl rfl)) rfl
      (setUt_keeps Uthread.status rfl u) (setUt_keeps Uthread.fdWait rfl u) trivial hkey
  | handOff hctx hq _ hidle =>
    have hkey := hkeyOk hctx
    have h₀ := h.handedOff hq hidle
    exact h₀.goto hu hnew trivial hkey

protected theorem Sound.handler (hs : handler a u s = .ok s') : Sound s' := by
  obtain ⟨hu, -⟩ := h.cur hc
  have hp : Sound (s.setUt u fun v => {v with isWatingYieldSignal := false}) :=
    h.plain hu rfl rfl rfl rfl (h.ut u hu).life (.inl rfl)
  exact hp.uthreadSwitched (h.busy_of_cur hc) hu hs

protected theorem Sound.enter {k : Call} (hctx : (s.ut u).ctx = .user) (hs : Entered a u s k s') :
    Sound s' := by
  obtain ⟨hu, hnew⟩ := h.cur hc
  have hkey : (s.ut u).fdWait = -1 := by
    have hkey := (h.ut u hu).key
    rw [hctx] at hkey
    exact hkey
  have h₀ : Sound (entered u k s) := h.plain hu rfl rfl rfl rfl (h.ut u hu).life (.inl rfl)
  have hnew₀ : ((entered u k s).ut u).status.has .new = false := by
    rw [show ((entered u k s).ut u).status = (s.ut u).status from setUt_keeps Uthread.status rfl u]
    exact hnew
  have hkey₀ : ((entered u k s).ut u).fdWait = -1 := (setUt_keeps Uthread.fdWait rfl u).trans hkey
  cases hs with
  | goes _ _ hlive =>
    refine h₀.goto hu hnew₀ ?_ (by rw [hkey₀]; exact Ctx.keyOk_neg _)
    cases k with
    | join t r => exact h.lt_of_life (hlive t r rfl)
    | _ => trivial
  | @detach t hlive =>
    have ht := h.lt_of_life hlive
    have htok := h₀.ut t ht
    have h₁ := h₀.setUt (u := t) (f := fun v => {v with status := v.status.add .detached}) ht
      ⟨htok.ctx, htok.key, by simpa using htok.new, htok.joined, htok.home, htok.life⟩ (by simp)
    refine h₁.returns hu ?_ ((setUt_keeps Uthread.fdWait rfl u).trans hkey₀) 0
    rw [← hnew₀]
    exact setUt_keeps (fun v => v.status.has .new) (by simp) u
  | close => exact (h₀.closeFd _).returns hu hnew₀ hkey₀ 0

end Statements

/-! ### The scheduler -/

section Scheduler

variable {s s' : State} {a : SId}

protected theorem Sound.setPc (h : Sound s) (ha : a ∉ s.schedIdle) (k : SchedAt) : Sound (setPc a k s) :=
  h.setSched ha rfl fun _ hc => h.cur hc

/-- The queue, the trees and the interest set of a p are as they were. -/
theorem Sound.setP_same (h : Sound s) {q : PId} {g : P → P} (hr : (g (s.p q)).ready = (s.p q).ready)
    (hs : (g (s.p q)).sleeping = (s.p q).sleeping) (hw : (g (s.p q)).waiting = (s.p q).waiting)
    (hi : (g (s.p q)).interest = (s.p q).interest) : Sound (s.setP q g) := by
  refine h.setP (fun v hv => ?_) (fun v hv => ?_) (fun v hv => ?_) fun i hi' => ?_
  · rw [hr] at hv
    exact h.ready hv
  · rw [hs] at hv
    exact h.sleeping hv
  · rw [hw] at hv
    exact h.waiting hv
  · rw [hi] at hi'
    exact h.interest hi'

theorem uthreadDeschedEvent_heap {fd e : Int} {found : Option UId}
    (hs : uthreadDeschedEvent a fd e s = .ok (found, s')) :
    s'.heap = s.heap ∧ s'.schedIdle = s.schedIdle := by
  obtain ⟨q, -, -, ⟨-, rfl⟩ | ⟨v, -, hv⟩⟩ := uthreadDeschedEvent_ok hs
  · exact ⟨rfl, rfl⟩
  · rcases uthreadDeschedSleep_ok hv with ⟨-, rfl⟩ | ⟨-, q', -, rfl⟩ <;> exact ⟨rfl, rfl⟩

protected theorem Sound.notedEvent (h : Sound s) {u : UId} (hu : u < s.heap) (isEof : Bool) :
    Sound (notedEvent u isEof s) := by
  have hok := h.ut u hu
  refine h.setUt hu ⟨hok.ctx, hok.key, ?_, hok.joined, hok.home, hok.life⟩ ?_
  · cases isEof <;> simpa using hok.new
  · cases isEof <;> simp

/-- The uthread a readiness event resumes, as it is handed to `_uthread_resume`. -/
theorem Sound.handled (h : Sound s) {fd : Int} {ev : UthreadEvent} {u : UId} {s₁ s₂ : State}
    (hd : uthreadDeschedEvent a fd ev.toNat s = .ok (some u, s₁))
    (hfd : fd = fdOnly (s₁.ut u).fdWait)
    (hdel : epollDel u fd .handleEvent .eventDel
      (s₁.setUt u fun v => {v with status := clearWait v.status}) = .ok s₂) (isEof : Bool) :
    Sound (notedEvent u isEof s₂) ∧ u < s₂.heap ∧ s₂.schedIdle = s.schedIdle := by
  have h₁ := h.uthreadDeschedEvent hd
  obtain ⟨hheap, hidle⟩ := uthreadDeschedEvent_heap hd
  obtain ⟨q, -, hfound, ⟨hn, -⟩ | ⟨v, hv, -⟩⟩ := uthreadDeschedEvent_ok hd
  · cases hn
  · cases hv
    have hu₁ : u < s₁.heap := by
      rw [hheap]
      exact h.waiting (Tree.find_eq_some hfound).1
    obtain ⟨q', -, hin, rfl⟩ := epollDel_ok hdel
    -- a uthread with a wait key has run, so it is not new
    have hnew : (s₁.ut u).status.has .new = false := by
      rw [Bool.eq_false_iff]
      intro hn
      have hk := (h₁.ut u hu₁).key
      rw [((h₁.ut u hu₁).new hn).1] at hk
      have hk' : (s₁.ut u).fdWait = -1 := hk
      rw [hk'] at hfd
      obtain ⟨i, hi, hif⟩ := List.mem_map.mp hin
      have hpos := h₁.interest hi
      rw [hif, hfd] at hpos
      simp [fdOnly] at hpos
    have h₂ := (h₁.clearWait hu₁ hnew).dropInterest q' fd
    exact ⟨h₂.notedEvent hu₁ isEof, hu₁, hidle⟩

protected theorem Sound.handleEvent (h : Sound s) (ha : a ∉ s.schedIdle) {fd : Int} {ev : UthreadEvent}
    {isEof : Bool} {k : SchedAt} (hs : handleEvent a fd ev isEof k s = .ok s') : Sound s' := by
  rcases handleEvent_ok hs with ⟨s₁, hd, rfl⟩ | ⟨u, s₁, s₂, hd, hfd, hdel, rfl⟩
  · have hi := (uthreadDeschedEvent_heap hd).2
    exact (h.uthreadDeschedEvent hd).setPc (by rw [hi]; exact ha) k
  · obtain ⟨h₃, hu₂, hidle⟩ := h.handled hd hfd hdel isEof
    exact h₃.uthreadResume (by show a ∉ s₂.schedIdle; rw [hidle]; exact ha) hu₂ k

/-- The uthread of an expiry round, as it is handed to `_uthread_resume`. -/
theorem Sound.expired (h : Sound s) {u : UId} {q : PId} {s₁ s₂ : State}
    (hsleep : u ∈ (s.p q).sleeping) (hcancel : uthreadCancelEvent a u s = .ok s₁)
    (hsl : uthreadDeschedSleep u s₁ = .ok s₂) :
    Sound (notedExpiry u s₂) ∧ u < s₂.heap ∧ s₂.schedIdle = s.schedIdle := by
  obtain ⟨hu, hnew⟩ := h.sleeping hsleep
  obtain ⟨h₁, hheap, hidle⟩ := h.uthreadCancelEvent hu hnew hcancel
  have hu₁ : u < s₁.heap := by rw [hheap]; exact hu
  have h₂ := h₁.uthreadDeschedSleep hu₁ hsl
  have hg : s₂.heap = s₁.heap ∧ s₂.schedIdle = s₁.schedIdle := by
    rcases uthreadDeschedSleep_ok hsl with ⟨-, rfl⟩ | ⟨-, q', -, rfl⟩ <;> exact ⟨rfl, rfl⟩
  have hu₂ : u < s₂.heap := by rw [hg.1]; exact hu₁
  have hok := h₂.ut u hu₂
  refine ⟨h₂.setUt hu₂ ⟨hok.ctx, hok.key, ?_, hok.joined, hok.home, hok.life⟩ ?_, hu₂, ?_⟩
  · simpa using hok.new
  · simp
  · rw [hg.2, hidle]

/-- Only history is written. -/
protected theorem Sound.markConsumed (h : Sound s) (q : PId) (fd : Int) : Sound (markConsumed q fd s) :=
  h.congr rfl rfl rfl rfl rfl

protected theorem Sound.tookEvent (h : Sound s) (ha : a ∉ s.schedIdle) (q : PId) (e : EpollEvent) :
    Sound (tookEvent a q e s) ∧ (tookEvent a q e s).schedIdle = s.schedIdle := by
  have h₁ : Sound (s.setP q fun v =>
      {v with numNewEvents := v.numNewEvents - 1, taken := v.taken ++ [e]}) := h.setP_same rfl rfl rfl rfl
  unfold tookEvent
  dsimp only
  split
  · exact ⟨(h₁.setSched ha rfl fun _ hc => h₁.cur hc).markConsumed q e.fd, rfl⟩
  · exact ⟨h₁.markConsumed q e.fd, rfl⟩

/-- A thread that takes a turn has been started. -/
theorem SchedStep.started {r : Reply} (hs : SchedStep a r s s') : (s.sched a).pc ≠ .off := by
  intro hoff
  cases hs with
  | goes hg =>
    rw [hoff] at hg
    cases hg
  | another hpc _ | expired hpc _ _ _ _ _ | ready hpc _ _ | noPoll hpc _ | polled hpc _ _ | took hpc _ _ _ _
  | handled hpc _ | halted hpc =>
    rw [hoff] at hpc
    cases hpc

/-- **Every turn of the scheduler keeps the runtime sound.** -/
protected theorem Sound.sched (h : Sound s) {r : Reply} (hs : SchedStep a r s s') : Sound s' := by
  have ha := h.busy_of_pc hs.started
  cases hs with
  | goes _ => exact h.setPc ha _
  | another _ _ => exact (h.setP_same rfl rfl rfl rfl).setPc ha _
  | @expired q u s₁ s₂ _ _ hmin _ hcancel hsl =>
    obtain ⟨h₃, hu₂, hidle⟩ := h.expired (Tree.min_mem hmin) hcancel hsl
    exact h₃.uthreadResume (by show a ∉ s₂.schedIdle; rw [hidle]; exact ha) hu₂ _
  | @ready q u rest last _ _ hr =>
    have hu : u < s.heap := h.ready (q := q) (by rw [hr]; exact List.mem_cons_self)
    have hp : Sound (s.setP q fun v => {v with ready := rest}) := by
      refine h.setP (fun v hv => ?_) (fun _ hv => h.sleeping hv) (fun _ hv => h.waiting hv)
        fun _ hi => h.interest hi
      exact h.ready (q := q) (by rw [hr]; exact List.mem_cons_of_mem u hv)
    exact hp.uthreadResume ha hu _
  | noPoll _ _ => exact (h.setP_same rfl rfl rfl rfl).setPc ha _
  | @polled q _ _ _ =>
    have h₁ : Sound (s.setP q fun v => {v with numNewEvents := 0}) := h.setP_same rfl rfl rfl rfl
    refine Sound.setPc (h₁.setP (fun _ hv => h₁.ready hv) (fun _ hv => h₁.sleeping hv)
      (fun _ hv => h₁.waiting hv) fun i hi => ?_) ha _
    obtain ⟨i', hi', rfl⟩ := List.mem_map.mp hi
    have := h₁.interest hi'
    split
    · exact this
    · exact this
  | took _ _ _ _ he =>
    obtain ⟨h₁, hidle⟩ := h.tookEvent ha _ _
    exact h₁.handleEvent (by rw [hidle]; exact ha) he
  | handled _ he => exact h.handleEvent ha he
  | halted _ => exact h.congr rfl rfl rfl rfl rfl

end Scheduler

/-! ### Steps and runs -/

protected theorem Sound.step {s s' : State} {act : Act} (h : Sound s) (hs : step s act = .ok s') : Sound s' := by
  cases step_ok hs with
  | call hc hctx hent => exact h.enter hc hctx hent
  | stmt hc hst => exact h.stmt hc hst
  | preempt hc _ hsw => exact h.handler hc hsw
  | sched _ hsched => exact h.sched hsched

theorem Sound.initial : Sound init := by
  constructor
  case ut =>
    intro u hu
    have hu0 : u = 0 := Nat.lt_one_iff.mp hu
    subst hu0
    have hidle : (0 : SId) ∉ init.schedIdle := by decide
    refine ⟨hidle, rfl, by decide, fun j hj => ?_, by decide, by decide⟩
    cases hj
  case fresh =>
    intro u hu
    have hu0 : u ≠ 0 := Nat.pos_iff_ne_zero.mp hu
    rw [init_ut hu0]
  case idle =>
    intro c hc
    have hc0 : c ≠ 0 := by
      rintro rfl
      exact absurd hc (by decide)
    rw [init_sched hc0]
    exact ⟨rfl, rfl, rfl⟩
  case idle_nodup => decide
  case bound_inj =>
    intro a c q ha hc
    have hz : ∀ d, (init.sched d).p = some q → d = 0 := by
      intro d hd
      by_contra hd0
      rw [init_sched hd0] at hd
      cases hd
    rw [hz a ha, hz c hc]
  case one =>
    intro a q ha
    by_cases ha0 : a = 0
    · rw [ha0] at ha
      exact (Option.some.inj ha).symm
    · rw [init_sched ha0] at ha
      cases ha
  case cur =>
    intro a u hc
    rw [init_cur] at hc
    cases hc
  case ready =>
    intro q u hu
    rw [(init_ready hu).2]
    decide
  case sleeping =>
    intro q u hu
    rw [(init_links q).1] at hu
    cases hu
  case waiting =>
    intro q u hu
    rw [(init_links q).2.1] at hu
    cases hu
  case interest =>
    intro q i hi
    rw [(init_links q).2.2] at hi
    cases hi

/-- What every step of a sound runtime keeps holds wherever it gets, and the runtime is sound there. -/
theorem Sound.invariant {C : State → Act → Prop} {I : State → Prop} {s₀ s : State} (hs₀ : Sound s₀)
    (h : Run.Reaches step C s₀ s) (hstart : I s₀)
    (hstep : ∀ s act s', Sound s → I s → C s act → step s act = .ok s' → I s') : Sound s ∧ I s := by
  refine h.invariant (I := fun s => Sound s ∧ I s) ⟨hs₀, hstart⟩ ?_
  rintro s act s' ⟨hs, hI⟩ hC hs'
  exact ⟨hs.step hs', hstep s act s' hs hI hC hs'⟩

/-- **The runtime is sound wherever it gets.** -/
theorem Sound.of_reaches {C : State → Act → Prop} {s : State} (h : Reaches C s) : Sound s :=
  Run.Reaches.invariant h Sound.initial fun _ _ _ hs _ hstep => hs.step hstep

end UthreadRuntime
