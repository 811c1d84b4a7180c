import UthreadRuntime.Model.Inversion

/-! What holds in every run, whatever the timer does.

A pointer that is stored somewhere points to a record that was handed out; every
such record has a p, and only the first p is ever bound; an idle sched is bound to
nothing and runs nothing; a new uthread has done nothing yet; a uthread has a wait key
only while it is in the call that set it. None of it depends on where a preemption falls. -/
namespace UthreadRuntime

open State

/-- What a context holds on to is there. -/
def Ctx.Ok (s : State) (u : UId) : Ctx → Prop
  | .join t _ .self => t < s.heap
  | .join t _ _ => t < s.heap ∧ t ≠ u
  | .sleep (.join t _) _ => t < s.heap ∧ t ≠ u
  | .createAlloc c => c ∉ s.schedIdle
  | .create c (.insert _ p) => c ∉ s.schedIdle ∧ ((s.sched c).p = none ∨ (s.sched c).p = p)
  | .create c _ => c ∉ s.schedIdle
  | _ => True

/-- The keys a uthread may have where it stands. -/
def Ctx.KeyOk (k : Int) : Ctx → Prop
  | .register c .insert | .register c .unkey | .sleep (.event c) _ =>
    k = fdKey c.fd c.event.toNat ∨ k = -1
  | _ => k = -1

structure UthreadOk (s : State) (u : UId) (r : Uthread) : Prop where
  ctx : r.ctx.Ok s u
  key : r.ctx.KeyOk r.fdWait
  new : r.status.has .new = true →
    r.ctx = .user ∧ r.status.has .sleeping = false ∧ r.status.has .exited = false
  joined : ∀ j, r.utJoined = some j → j < s.heap
  home : r.p = some 0
  life : r.life ≠ .fresh

structure Sound (s : State) : Prop where
  ut : ∀ u, u < s.heap → UthreadOk s u (s.ut u)
  fresh : ∀ u, s.heap ≤ u → (s.ut u).life = .fresh
  idle : ∀ c ∈ s.schedIdle, (s.sched c).p = none ∧ (s.sched c).curUthread = none ∧
    (s.sched c).pc = .off
  idle_nodup : s.schedIdle.Nodup
  bound_inj : ∀ {a c q}, (s.sched a).p = some q → (s.sched c).p = some q → a = c
  one : ∀ {a q}, (s.sched a).p = some q → q = 0
  cur : ∀ {a u}, (s.sched a).curUthread = some u → u < s.heap ∧ (s.ut u).status.has .new = false
  ready : ∀ {q u}, u ∈ (s.p q).ready → u < s.heap
  sleeping : ∀ {q u}, u ∈ (s.p q).sleeping → u < s.heap ∧ (s.ut u).status.has .new = false
  waiting : ∀ {q u}, u ∈ (s.p q).waiting → u < s.heap
  interest : ∀ {q i}, i ∈ (s.p q).interest → 0 ≤ i.fd

/-- Nothing that a context holds on to is lost. -/
structure Extends (s s' : State) : Prop where
  heap : s.heap ≤ s'.heap
  idle : ∀ c ∈ s'.schedIdle, c ∈ s.schedIdle
  bound : ∀ c, c ∉ s.schedIdle → (s'.sched c).p = (s.sched c).p ∨ (s'.sched c).p = none

theorem Ctx.Ok.extends {s s' : State} {u : UId} {c : Ctx} (h : c.Ok s u) (he : Extends s s') :
    c.Ok s' u := by
  have hidle : ∀ c, c ∉ s.schedIdle → c ∉ s'.schedIdle := fun c hc hc' => hc (he.idle c hc')
  cases c with
  | join t r pc =>
    cases pc with
    | self => exact Nat.lt_of_lt_of_le h he.heap
    | _ => exact ⟨Nat.lt_of_lt_of_le h.1 he.heap, h.2⟩
  | sleep w pc =>
    cases w with
    | join t r => exact ⟨Nat.lt_of_lt_of_le h.1 he.heap, h.2⟩
    | event c => trivial
  | createAlloc c => exact hidle c h
  | create c pc =>
    cases pc with
    | insert id p =>
      refine ⟨hidle c h.1, ?_⟩
      rcases he.bound c h.1 with hb | hb
      · rw [hb]
        exact h.2
      · exact .inl hb
    | _ => exact hidle c h
  | _ => trivial

theorem UthreadOk.extends {s s' : State} {u : UId} {r : Uthread} (h : UthreadOk s u r)
    (he : Extends s s') : UthreadOk s' u r :=
  ⟨h.ctx.extends he, h.key, h.new, fun j hj => Nat.lt_of_lt_of_le (h.joined j hj) he.heap, h.home,
    h.life⟩

namespace Sound

variable {s : State} (h : Sound s)
include h

theorem lt_of_life {u : UId} (hl : (s.ut u).life ≠ .fresh) : u < s.heap := by
  by_contra hu
  exact hl (h.fresh u (Nat.le_of_not_lt hu))

/-- The uthread that a join names has been created. -/
theorem joinee_lt {u t : UId} {v : Option Addr} {pc : JoinAt} (hu : u < s.heap)
    (hctx : (s.ut u).ctx = .join t v pc) : t < s.heap := by
  have hok := (h.ut u hu).ctx
  rw [hctx] at hok
  cases pc with
  | self => exact hok
  | _ => exact hok.1

/-- A sched that runs, is bound or has started is not idle. -/
theorem busy_of_cur {a : SId} {u : UId} (hc : (s.sched a).curUthread = some u) :
    a ∉ s.schedIdle := by
  intro ha
  rw [(h.idle a ha).2.1] at hc
  cases hc

theorem busy_of_p {a : SId} {q : PId} (hp : (s.sched a).p = some q) : a ∉ s.schedIdle := by
  intro ha
  rw [(h.idle a ha).1] at hp
  cases hp

theorem busy_of_pc {a : SId} (hpc : (s.sched a).pc ≠ .off) : a ∉ s.schedIdle :=
  fun ha => hpc (h.idle a ha).2.2

/-- Only other globals differ. -/
theorem congr {s' : State} (hut : s'.ut = s.ut) (hp : s'.p = s.p) (hs : s'.sched = s.sched)
    (hi : s'.schedIdle = s.schedIdle) (hh : s'.heap = s.heap) : Sound s' := by
  have he : Extends s s' := by
    refine ⟨by rw [hh], fun c hc => by rwa [← hi], fun c _ => .inl (by rw [hs])⟩
  constructor
  case ut =>
    intro u hu
    rw [hut]
    exact (h.ut u (hh ▸ hu)).extends he
  all_goals
    simp only [hut, hp, hs, hi, hh]
  case fresh => exact h.fresh
  case idle => exact h.idle
  case idle_nodup => exact h.idle_nodup
  case bound_inj => exact h.bound_inj
  case one => exact h.one
  case cur => exact h.cur
  case ready => exact h.ready
  case sleeping => exact h.sleeping
  case waiting => exact h.waiting
  case interest => exact h.interest

/-- One record is changed, and stays in order. -/
protected theorem setUt {u : UId} {f : Uthread → Uthread} (hu : u < s.heap)
    (hok : UthreadOk s u (f (s.ut u)))
    (hnew : (f (s.ut u)).status.has .new = true → (s.ut u).status.has .new = true) :
    Sound (s.setUt u f) := by
  have hnew' : ∀ v, (s.ut v).status.has .new = false → ((s.setUt u f).ut v).status.has .new = false := by
    intro v hv
    rw [setUt_ut]
    split
    · rename_i hvu
      subst hvu
      rw [Bool.eq_false_iff]
      intro hn
      rw [hnew hn] at hv
      cases hv
    · exact hv
  constructor
  case ut =>
    intro v hv
    refine UthreadOk.extends (s := s) ?_ ⟨Nat.le_refl _, fun _ hc => hc, fun _ _ => .inl rfl⟩
    rw [setUt_ut]
    split
    · rename_i hvu
      rw [hvu]
      exact hok
    · exact h.ut v hv
  case fresh =>
    intro v hv
    rw [setUt_ut, if_neg]
    · exact h.fresh v hv
    · rintro rfl
      exact absurd hu (by simpa using hv)
  case idle => exact h.idle
  case idle_nodup => exact h.idle_nodup
  case bound_inj => exact h.bound_inj
  case one => exact h.one
  case cur => exact fun hc => ⟨(h.cur hc).1, hnew' _ (h.cur hc).2⟩
  case ready => exact h.ready
  case sleeping => exact fun hc => ⟨(h.sleeping hc).1, hnew' _ (h.sleeping hc).2⟩
  case waiting => exact h.waiting
  case interest => exact h.interest

protected theorem setP {q : PId} {g : P → P} (hready : ∀ v ∈ (g (s.p q)).ready, v < s.heap)
    (hsleeping : ∀ v ∈ (g (s.p q)).sleeping, v < s.heap ∧ (s.ut v).status.has .new = false)
    (hwaiting : ∀ v ∈ (g (s.p q)).waiting, v < s.heap)
    (hinterest : ∀ i ∈ (g (s.p q)).interest, 0 ≤ i.fd) : Sound (s.setP q g) := by
  refine ⟨fun v hv => (h.ut v hv).extends ⟨Nat.le_refl _, fun _ hc => hc, fun _ _ => .inl rfl⟩,
    h.fresh, h.idle, h.idle_nodup, h.bound_inj, h.one, h.cur, ?_, ?_, ?_, ?_⟩
  · intro r u hu
    rw [setP_p] at hu
    split at hu
    · exact hready u hu
    · exact h.ready hu
  · intro r u hu
    rw [setP_p] at hu
    split at hu
    · exact hsleeping u hu
    · exact h.sleeping hu
  · intro r u hu
    rw [setP_p] at hu
    split at hu
    · exact hwaiting u hu
    · exact h.waiting hu
  · intro r i hi
    rw [setP_p] at hi
    split at hi
    · exact hinterest i hi
    · exact h.interest hi

/-- A sched that is in use goes on, with the p it has. -/
protected theorem setSched {a : SId} {f : Sched → Sched} (ha : a ∉ s.schedIdle)
    (hp : (f (s.sched a)).p = (s.sched a).p)
    (hcur : ∀ u, (f (s.sched a)).curUthread = some u → u < s.heap ∧ (s.ut u).status.has .new = false) :
    Sound (s.setSched a f) := by
  have hpe : ∀ c, ((s.setSched a f).sched c).p = (s.sched c).p := setSched_keeps Sched.p hp
  refine ⟨fun v hv => (h.ut v hv).extends ⟨Nat.le_refl _, fun _ hc => hc, fun c _ => .inl (hpe c)⟩,
    h.fresh, ?_, h.idle_nodup, ?_, ?_, ?_, h.ready, h.sleeping, h.waiting, h.interest⟩
  · intro c hc
    have hca : c ≠ a := by
      rintro rfl
      exact ha hc
    rw [setSched_sched, if_neg hca]
    exact h.idle c hc
  · intro c d q hc hd
    rw [hpe] at hc hd
    exact h.bound_inj hc hd
  · intro c q hc
    rw [hpe] at hc
    exact h.one hc
  · intro c u hc
    rw [setSched_sched] at hc
    split at hc
    · exact hcur u hc
    · exact h.cur hc

end Sound

/-! ### Taking uthreads out of the trees, passing control -/

theorem Ctx.keyOk_neg (c : Ctx) : c.KeyOk (-1) := by
  unfold Ctx.KeyOk
  split
  all_goals first
    | exact .inr rfl
    | rfl

section Switch

variable {s s' : State} {a : SId} {u : UId}

theorem Sound.status (h : Sound s) (hu : u < s.heap) {f : Status → Status}
    (hnew : ((f (s.ut u).status).has .new) = false) :
    Sound (s.setUt u fun v => {v with status := f v.status}) := by
  have hok := h.ut u hu
  refine h.setUt hu ⟨hok.ctx, hok.key, fun hn => ?_, hok.joined, hok.home, hok.life⟩ fun hn => ?_
  · rw [hnew] at hn
    cases hn
  · rw [hnew] at hn
    cases hn

protected theorem Sound.insertReady (h : Sound s) (hu : u < s.heap) (q : PId) : Sound (insertReady q u s) := by
  refine h.setP (fun v hv => ?_) (fun _ hv => h.sleeping hv) (fun _ hv => h.waiting hv)
    (fun _ hi => h.interest hi)
  rcases List.mem_append.mp hv with hv | hv
  · exact h.ready hv
  · rw [List.mem_singleton.mp hv]
    exact hu

protected theorem Sound.uthreadDeschedSleep (h : Sound s) (hu : u < s.heap)
    (hs : uthreadDeschedSleep u s = .ok s') : Sound s' := by
  rcases uthreadDeschedSleep_ok hs with ⟨-, rfl⟩ | ⟨hsl, q, hq, rfl⟩
  · exact h
  · have hnew : (s.ut u).status.has .new = false := by
      rw [Bool.eq_false_iff]
      intro hn
      rw [((h.ut u hu).new hn).2.1] at hsl
      cases hsl
    have hp : Sound (s.setP q fun v => {v with sleeping := Tree.remove u v.sleeping}) :=
      h.setP (fun _ hv => h.ready hv) (fun _ hv => h.sleeping (Tree.mem_remove.mp hv).1)
        (fun _ hv => h.waiting hv) fun _ hi => h.interest hi
    refine hp.status hu (f := fun w => (w.del .sleeping).add .ready) ?_
    simp [hnew]

protected theorem Sound.uthreadDeschedEvent (h : Sound s) {fd e : Int} {found : Option UId}
    (hs : uthreadDeschedEvent a fd e s = .ok (found, s')) : Sound s' := by
  obtain ⟨q, -, hf, ⟨-, rfl⟩ | ⟨v, rfl, hd⟩⟩ := uthreadDeschedEvent_ok hs
  · exact h
  · have hv : v < s.heap := h.waiting (Tree.find_eq_some hf).1
    have hp : Sound (s.setP q fun w => {w with waiting := Tree.remove v w.waiting}) :=
      h.setP (fun _ hw => h.ready hw) (fun _ hw => h.sleeping hw)
        (fun _ hw => h.waiting (Tree.mem_remove.mp hw).1) fun _ hi => h.interest hi
    exact hp.uthreadDeschedSleep hv hd

protected theorem Sound.dropInterest (h : Sound s) (q : PId) (fd : Int) : Sound (dropInterest q fd s) :=
  h.setP (fun _ hv => h.ready hv) (fun _ hv => h.sleeping hv) (fun _ hv => h.waiting hv)
    fun _ hi => h.interest (List.mem_of_mem_filter hi)

theorem has_clearWait (w : Status) (b : UthreadSt) (h : (clearWait w).has b = true) :
    w.has b = true := by
  have hdel : ∀ c : UthreadSt, (w.del c).has b = true → w.has b = true := by
    intro c hc
    simp only [Status.has_del, Bool.and_eq_true] at hc
    exact hc.2
  unfold clearWait at h
  split at h
  · exact hdel _ h
  · split at h
    · exact hdel .ready h
    · exact h

theorem has_clearWait_of_ne (w : Status) (b : UthreadSt) (h1 : b ≠ .waitRd) (h2 : b ≠ .ready) :
    (clearWait w).has b = w.has b := by
  have hrd : (w.del .waitRd).has b = w.has b := by
    rw [Status.has_del, decide_eq_false h1.symm]
    rfl
  have hwr : (w.del .ready).has b = w.has b := by
    rw [Status.has_del, decide_eq_false h2.symm]
    rfl
  unfold clearWait
  split
  · exact hrd
  · split
    · exact hwr
    · rfl

protected theorem Sound.clearWait (h : Sound s) (hu : u < s.heap) (hnew : (s.ut u).status.has .new = false) :
    Sound (s.setUt u fun v => {v with status := clearWait v.status}) := by
  refine h.status hu ?_
  rw [Bool.eq_false_iff]
  intro hn
  rw [has_clearWait _ _ hn] at hnew
  cases hnew

/-- Fields that no condition speaks of may change, and the key may be taken back. -/
theorem Sound.plain (h : Sound s) (hu : u < s.heap) {f : Uthread → Uthread}
    (hctx : (f (s.ut u)).ctx = (s.ut u).ctx) (hstatus : (f (s.ut u)).status = (s.ut u).status)
    (hj : (f (s.ut u)).utJoined = (s.ut u).utJoined) (hp : (f (s.ut u)).p = (s.ut u).p)
    (hl : (f (s.ut u)).life ≠ .fresh)
    (hk : (f (s.ut u)).fdWait = (s.ut u).fdWait ∨ (f (s.ut u)).fdWait = -1) :
    Sound (s.setUt u f) := by
  have hok := h.ut u hu
  refine h.setUt hu ⟨?_, ?_, ?_, ?_, ?_, hl⟩ ?_
  · rw [hctx]
    exact hok.ctx
  · rw [hctx]
    rcases hk with hk | hk
    · rw [hk]
      exact hok.key
    · rw [hk]
      exact Ctx.keyOk_neg _
  · rw [hctx, hstatus]
    exact hok.new
  · rw [hj]
    exact hok.joined
  · rw [hp]
    exact hok.home
  · rw [hstatus]
    exact id

theorem uthreadDeschedSleep_heap (hs : uthreadDeschedSleep u s = .ok s') : s'.heap = s.heap := by
  rcases uthreadDeschedSleep_ok hs with ⟨-, rfl⟩ | ⟨-, q, -, rfl⟩ <;> rfl

protected theorem Sound.wakeJoined (h : Sound s) (hu : u < s.heap) (hs : wakeJoined u s = .ok s') :
    Sound s' ∧ s'.heap = s.heap := by
  rcases wakeJoined_ok hs with ⟨-, rfl⟩ | ⟨j, q, s₁, hj, hd, -, rfl⟩
  · exact ⟨h, rfl⟩
  · have hjh : j < s.heap := (h.ut u hu).joined j hj
    have hheap := uthreadDeschedSleep_heap hd
    have h₁ := h.uthreadDeschedSleep hjh hd
    have hj₁ : j < s₁.heap := by rw [hheap]; exact hjh
    refine ⟨?_, hheap⟩
    exact (h₁.plain hj₁ rfl rfl rfl rfl (h₁.ut j hj₁).life (.inl rfl)).insertReady hj₁ q

protected theorem Sound.freed (h : Sound s) (hu : u < s.heap) : Sound (freed u s) := by
  have hg : Sound {s with
      nUthread := (s.nUthread + (2 ^ 32 - 1)) % 2 ^ 32
      bitmapUt := if (s.ut u).status.has .detached then
          Function.update s.bitmapUt (s.ut u).id false
        else s.bitmapUt} := h.congr rfl rfl rfl rfl rfl
  exact hg.plain hu rfl rfl rfl rfl (by simp) (.inl rfl)

/-- A sched that is not idle goes on without a uthread. -/
protected theorem Sound.idleCpu (h : Sound s) (ha : a ∉ s.schedIdle) : Sound (idleCpu a s) :=
  h.setSched ha rfl fun _ hc => by cases hc

protected theorem Sound.uthreadSwitched (h : Sound s) (ha : a ∉ s.schedIdle) (hu : u < s.heap)
    (hs : uthreadSwitched a u s = .ok s') : Sound s' := by
  have hi := h.idleCpu ha
  rcases uthreadSwitched_ok hs with ⟨-, s₁, hw, -, rfl⟩ | ⟨-, -, rfl⟩ | ⟨-, -, q, -, rfl⟩
  · obtain ⟨h₁, hheap⟩ := hi.wakeJoined hu hw
    refine h₁.freed ?_
    rw [hheap]
    exact hu
  · exact hi
  · exact hi.insertReady hu q

/-- A uthread is put on a sched: a new one starts in its function. -/
protected theorem Sound.uthreadResume (h : Sound s) (ha : a ∉ s.schedIdle) (hu : u < s.heap) (k : SchedAt) :
    Sound (uthreadResume a u k s) := by
  have hok := h.ut u hu
  have hinit : Sound (if (s.ut u).status.has .new then uthreadInit u s else s) ∧
      ((if (s.ut u).status.has .new then uthreadInit u s else s).ut u).status.has .new = false := by
    split
    · rename_i hn
      have hkey : (s.ut u).fdWait = -1 := by
        have hk := hok.key
        rw [(hok.new hn).1] at hk
        exact hk
      refine ⟨h.setUt hu ⟨trivial, hkey, ?_, hok.joined, hok.home, hok.life⟩ fun hn' => hn, ?_⟩
      · simp
      · simp [uthreadInit]
    · rename_i hn
      exact ⟨h, by simpa using hn⟩
  have hidle : (if (s.ut u).status.has .new then uthreadInit u s else s).schedIdle = s.schedIdle := by
    split <;> rfl
  have hheap : (if (s.ut u).status.has .new then uthreadInit u s else s).heap = s.heap := by
    split <;> rfl
  unfold uthreadResume
  generalize (if (s.ut u).status.has .new then uthreadInit u s else s) = s₀ at hinit hidle hheap ⊢
  obtain ⟨h₀, hn₀⟩ := hinit
  have hu₀ : u < s₀.heap := by rw [hheap]; exact hu
  have h₁ : Sound (s₀.setSched a fun v => {v with curUthread := some u, pc := k}) := by
    refine h₀.setSched (by rw [hidle]; exact ha) rfl fun v hv => ?_
    cases hv
    exact ⟨hu₀, hn₀⟩
  have h₂ := h₁.plain (u := u) (f := fun v => {v with isWatingYieldSignal := true}) hu₀ rfl rfl rfl rfl
    (h₁.ut u hu₀).life (.inl rfl)
  exact h₂.congr rfl rfl rfl rfl rfl

protected theorem Sound.uthreadCancelEvent (h : Sound s) (hu : u < s.heap)
    (hnew : (s.ut u).status.has .new = false) (hs : uthreadCancelEvent a u s = .ok s') :
    Sound s' ∧ s'.heap = s.heap ∧ s'.schedIdle = s.schedIdle := by
  obtain ⟨q, s₁, -, -, rfl, hs₁⟩ := uthreadCancelEvent_ok hs
  have hd := (h.clearWait hu hnew).dropInterest q (fdOnly (s.ut u).fdWait)
  have h₁ : Sound s₁ ∧ s₁.heap = s.heap ∧ s₁.schedIdle = s.schedIdle := by
    rcases hs₁ with ⟨-, rfl⟩ | ⟨-, found, hf⟩
    · exact ⟨hd, rfl, rfl⟩
    · refine ⟨hd.uthreadDeschedEvent hf, ?_⟩
      obtain ⟨q', -, -, ⟨-, rfl⟩ | ⟨v, -, hv⟩⟩ := uthreadDeschedEvent_ok hf
      · exact ⟨rfl, rfl⟩
      · rcases uthreadDeschedSleep_ok hv with ⟨-, rfl⟩ | ⟨-, q'', -, rfl⟩ <;> exact ⟨rfl, rfl⟩
  have hu₁ : u < s₁.heap := by rw [h₁.2.1]; exact hu
  exact ⟨h₁.1.plain hu₁ rfl rfl rfl rfl (h₁.1.ut u hu₁).life (.inr rfl), h₁.2⟩

end Switch

/-! ### Creation and hand-off -/

section Create

variable {s : State} {q : PId} {id : Nat} {p : Option PId}

theorem created_ut_of_lt {v : UId} (hv : v < s.heap) : (created q id p s).ut v = s.ut v := by
  show Function.update s.ut s.heap _ v = s.ut v
  rw [Function.update_of_ne (Nat.ne_of_lt hv)]

theorem created_p (r : PId) : (created q id p s).p r =
    if r = q then {s.p q with ready := (s.p q).ready ++ [s.heap]} else s.p r := by
  unfold created insertReady
  rw [setP_p]

protected theorem Sound.created (h : Sound s) (hp : p = some q) (hq : q = 0) : Sound (created q id p s) := by
  have he : Extends s (created q id p s) :=
    ⟨Nat.le_succ _, fun _ hc => hc, fun _ _ => .inl rfl⟩
  constructor
  case ut =>
    intro v hv
    have hlt : v < s.heap + 1 := hv
    rcases Nat.lt_succ_iff_lt_or_eq.mp hlt with hlt | hlt
    · rw [created_ut_of_lt hlt]
      exact (h.ut v hlt).extends he
    · subst hlt
      show UthreadOk _ _ (Function.update s.ut s.heap _ s.heap)
      rw [Function.update_self]
      refine ⟨trivial, rfl, fun _ => ?_, by simp, ?_, by simp⟩
      · simp
      · rw [hp, hq]
  case fresh =>
    intro v hv
    have hlt : s.heap + 1 ≤ v := hv
    show (Function.update s.ut s.heap _ v).life = .fresh
    rw [Function.update_of_ne (Nat.ne_of_gt hlt)]
    exact h.fresh v (Nat.le_of_succ_le hlt)
  case idle => exact h.idle
  case idle_nodup => exact h.idle_nodup
  case bound_inj => exact h.bound_inj
  case one => exact h.one
  case cur =>
    intro b v hb
    obtain ⟨h1, h2⟩ := h.cur hb
    rw [created_ut_of_lt h1]
    exact ⟨Nat.lt_succ_of_lt h1, h2⟩
  case ready =>
    intro r v hv
    rw [created_p] at hv
    split at hv
    · rcases List.mem_append.mp hv with hv | hv
      · exact Nat.lt_succ_of_lt (h.ready hv)
      · rw [List.mem_singleton.mp hv]
        exact Nat.lt_succ_self _
    · exact Nat.lt_succ_of_lt (h.ready hv)
  case sleeping =>
    intro r v hv
    have hv' : v ∈ (s.p r).sleeping := by
      rw [created_p] at hv
      split at hv
      · rename_i hr
        rw [hr]
        exact hv
      · exact hv
    obtain ⟨h1, h2⟩ := h.sleeping hv'
    rw [created_ut_of_lt h1]
    exact ⟨Nat.lt_succ_of_lt h1, h2⟩
  case waiting =>
    intro r v hv
    rw [created_p] at hv
    split at hv
    · exact Nat.lt_succ_of_lt (h.waiting hv)
    · exact Nat.lt_succ_of_lt (h.waiting hv)
  case interest =>
    intro r i hi
    rw [created_p] at hi
    split at hi
    · exact h.interest hi
    · exact h.interest hi

end Create

section HandOff

variable {s : State} {c n : SId} {q : PId} {rest : List SId}

theorem handedOff_sched (hnc : n ≠ c) (d : SId) : (handedOff c n q rest s).sched d =
    if d = c then {s.sched c with p := none}
    else if d = n then {s.sched n with p := some q, pc := .another} else s.sched d := by
  unfold handedOff
  dsimp only
  rw [setSched_sched]
  split
  · rw [setP_sched, setSched_sched, if_neg hnc.symm]
  · rw [setP_sched, setSched_sched]

theorem handedOff_p (r : PId) : (handedOff c n q rest s).p r =
    if r = q then {s.p q with sched := some n} else s.p r := by
  unfold handedOff
  dsimp only
  rw [setSched_p, setP_p]
  rfl

/-- The sched that takes over was idle, so it is another. -/
theorem Sound.idle_ne (h : Sound s) (hq : (s.sched c).p = some q) (hidle : s.schedIdle = n :: rest) :
    n ∈ s.schedIdle ∧ n ≠ c ∧ ∀ d ∈ rest, d ∈ s.schedIdle ∧ d ≠ n ∧ d ≠ c := by
  have hn : n ∈ s.schedIdle := by rw [hidle]; exact List.mem_cons_self
  have hnodup := h.idle_nodup
  rw [hidle, List.nodup_cons] at hnodup
  refine ⟨hn, ?_, fun d hd => ?_⟩
  · rintro rfl
    exact h.busy_of_p hq hn
  · have hd' : d ∈ s.schedIdle := by rw [hidle]; exact List.mem_cons_of_mem n hd
    refine ⟨hd', ?_, ?_⟩
    · rintro rfl
      exact hnodup.1 hd
    · rintro rfl
      exact h.busy_of_p hq hd'

protected theorem Sound.handedOff (h : Sound s) (hq : (s.sched c).p = some q)
    (hidle : s.schedIdle = n :: rest) : Sound (handedOff c n q rest s) := by
  obtain ⟨hn, hnc, hsub⟩ := h.idle_ne hq hidle
  have hsched : ∀ d, (handedOff c n q rest s).sched d =
      if d = c then {s.sched c with p := none}
      else if d = n then {s.sched n with p := some q, pc := .another} else s.sched d :=
    handedOff_sched hnc
  have he : Extends s (handedOff c n q rest s) := by
    refine ⟨Nat.le_refl _, fun d hd => (hsub d hd).1, fun d hd => ?_⟩
    rw [hsched]
    split
    · exact .inr rfl
    · split
      · rename_i hdn
        exact absurd (hdn ▸ hn) hd
      · exact .inl rfl
  constructor
  case ut => exact fun v hv => (h.ut v hv).extends he
  case fresh => exact h.fresh
  case idle =>
    intro d hd
    obtain ⟨h1, h2, h3⟩ := hsub d hd
    rw [hsched, if_neg h3, if_neg h2]
    exact h.idle d h1
  case idle_nodup =>
    have hnodup := h.idle_nodup
    rw [hidle, List.nodup_cons] at hnodup
    exact hnodup.2
  case one =>
    intro d r hd
    rw [hsched] at hd
    split at hd
    · cases hd
    · split at hd
      · cases hd
        exact h.one hq
      · exact h.one hd
  case bound_inj =>
    -- `q` is now bound to `n` alone
    have hb : ∀ d r, ((handedOff c n q rest s).sched d).p = some r →
        (d = n ∧ r = q) ∨ (r ≠ q ∧ (s.sched d).p = some r) := by
      intro d r hd
      rw [hsched] at hd
      split at hd
      · cases hd
      · rename_i hdc
        split at hd
        · rename_i hdn
          exact .inl ⟨hdn, (Option.some.inj hd).symm⟩
        · refine .inr ⟨?_, hd⟩
          rintro rfl
          exact hdc (h.bound_inj hd hq)
    intro d e r hd he
    rcases hb d r hd with ⟨rfl, rfl⟩ | ⟨hr, hd⟩
    · rcases hb e _ he with ⟨rfl, -⟩ | ⟨hr, -⟩
      · rfl
      · exact absurd rfl hr
    · rcases hb e _ he with ⟨-, hr'⟩ | ⟨-, he⟩
      · exact absurd hr' hr
      · exact h.bound_inj hd he
  case cur =>
    intro d v hd
    rw [hsched] at hd
    split at hd
    · exact h.cur hd
    · split at hd
      · exact h.cur hd
      · exact h.cur hd
  case ready =>
    intro r v hv
    rw [handedOff_p] at hv
    split at hv
    · exact h.ready hv
    · exact h.ready hv
  case sleeping =>
    intro r v hv
    rw [handedOff_p] at hv
    split at hv
    · exact h.sleeping hv
    · exact h.sleeping hv
  case waiting =>
    intro r v hv
    rw [handedOff_p] at hv
    split at hv
    · exact h.waiting hv
    · exact h.waiting hv
  case interest =>
    intro r i hi
    rw [handedOff_p] at hi
    split at hi
    · exact h.interest hi
    · exact h.interest hi

end HandOff

end UthreadRuntime
