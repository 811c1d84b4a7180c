import UthreadRuntime.Placement.Blocking
import UthreadRuntime.Safety.Expiry
import UthreadRuntime.Safety.Passes

/-! The expiry pass, to its end.

`_uthread_resume_expired` takes the sleeper with the least wake-up time, again and again, while
its time has come. The uthread it resumes may go to sleep once more, let others go, or exit. The
pass ends when nobody is left whose time has come. Each one it takes is to be unlinked from both
trees; `_uthread_desched_sleep` does so for a uthread that is marked as asleep, and
`_uthread_cancel_event` for the one that is found under the key. -/
namespace UthreadRuntime

open State

/-! ### Wake-up times -/

/-- No sleeper was linked and no wake-up time has changed. -/
structure KeepsTimes (s s' : State) : Prop where
  heap : s.heap ≤ s'.heap
  sleeping : ∀ q, (s'.p q).sleeping ⊆ (s.p q).sleeping
  wake : ∀ v, v < s.heap → (s'.ut v).wakeupTimeUsec = (s.ut v).wakeupTimeUsec

namespace KeepsTimes

variable {s s' s'' : State} {u : UId}

theorem trans (h : KeepsTimes s s') (h' : KeepsTimes s' s'') : KeepsTimes s s'' := by
  refine ⟨h.heap.trans h'.heap, fun q => List.Subset.trans (h'.sleeping q) (h.sleeping q), fun v hv => ?_⟩
  exact (h'.wake v (Nat.lt_of_lt_of_le hv h.heap)).trans (h.wake v hv)

theorem setUt {f : Uthread → Uthread} (hwake : (f (s.ut u)).wakeupTimeUsec = (s.ut u).wakeupTimeUsec) :
    KeepsTimes s (s.setUt u f) :=
  ⟨Nat.le_refl _, fun _ => List.Subset.refl _, fun v _ => setUt_keeps Uthread.wakeupTimeUsec hwake v⟩

theorem setP {q : PId} {g : P → P} (hsleeping : (g (s.p q)).sleeping = (s.p q).sleeping) :
    KeepsTimes s (s.setP q g) := by
  refine ⟨Nat.le_refl _, fun r => ?_, fun _ _ => rfl⟩
  rw [setP_keeps P.sleeping hsleeping]
  exact List.Subset.refl _

end KeepsTimes

theorem KeepsLinks.times {s s' : State} (h : KeepsLinks s s') : KeepsTimes s s' := ⟨h.heap, h.sleeping, h.wake⟩

/-! ### One turn of the pass -/

/-- The uthread is found where the pass looks for it: it is marked as asleep, and if it is in the
waiting tree, it is the one under its key. -/
structure Unlinkable (q : PId) (s : State) (u : UId) : Prop where
  marked : (s.ut u).status.has .sleeping = true
  found : u ∈ (s.p q).waiting →
    0 ≤ (s.ut u).fdWait ∧ findWaiting s (s.ut u).fdWait (s.p q).waiting = some u

instance (q : PId) (s : State) (u : UId) : Decidable (Unlinkable q s u) :=
  decidable_of_iff ((s.ut u).status.has .sleeping = true ∧ (u ∈ (s.p q).waiting →
    0 ≤ (s.ut u).fdWait ∧ findWaiting s (s.ut u).fdWait (s.p q).waiting = some u))
    ⟨fun h => ⟨h.1, h.2⟩, fun h => ⟨h.marked, h.found⟩⟩

/-- `_uthread_desched_sleep` will leave the uthread out of the sleeping tree. -/
def Leaves (q : PId) (u : UId) (s : State) : Prop :=
  (s.ut u).status.has .sleeping = true ∨ u ∉ (s.p q).sleeping

section Desched

variable {s s' s₁ s₂ : State} {a : SId} {q : PId} {u v : UId}

theorem Leaves.iff_of_eq (hst : (s'.ut u).status.has .sleeping = (s.ut u).status.has .sleeping)
    (hsl : (s'.p q).sleeping = (s.p q).sleeping) : Leaves q u s' ↔ Leaves q u s := by
  unfold Leaves
  rw [hst, hsl]

theorem uthreadDeschedSleep_leaves (hs : uthreadDeschedSleep u s = .ok s') (hhome : (s.ut u).p = some q) :
    u ∉ (s'.p q).sleeping ↔ Leaves q u s := by
  unfold Leaves
  rcases uthreadDeschedSleep_ok hs with ⟨hoff, rfl⟩ | ⟨hon, q', hq', rfl⟩
  · rw [hoff]
    simp
  · cases hhome.symm.trans hq'
    rw [hon]
    simp [unlinkSleeper]

theorem uthreadDeschedSleep_leaves_iff (hs : uthreadDeschedSleep v s = .ok s') (hhome : (s.ut v).p = some q) :
    Leaves q u s' ↔ Leaves q u s := by
  by_cases huv : u = v
  · subst huv
    rw [← uthreadDeschedSleep_leaves hs hhome]
    unfold Leaves
    have hoff : (s'.ut u).status.has .sleeping = false := by
      rcases uthreadDeschedSleep_ok hs with ⟨hoff, rfl⟩ | ⟨-, q', -, rfl⟩
      · exact hoff
      · simp [unlinkSleeper]
    rw [hoff]
    simp
  · rcases uthreadDeschedSleep_ok hs with ⟨-, rfl⟩ | ⟨-, q', hq', rfl⟩
    · exact Iff.rfl
    · cases hhome.symm.trans hq'
      unfold Leaves unlinkSleeper
      rw [setUt_ut, if_neg huv, setP_ut, setUt_p, setP_p_self]
      simp [huv]

theorem Sound.key_eq (h : Sound s) (hu : u < s.heap) (hk : 0 ≤ (s.ut u).fdWait) :
    ∃ fd ev, (s.ut u).fdWait = fdKey fd (UthreadEvent.toNat ev) := by
  have hkey := (h.ut u hu).key
  have hneg : (s.ut u).fdWait ≠ -1 := by omega
  unfold Ctx.KeyOk at hkey
  split at hkey
  · exact ⟨_, _, hkey.resolve_right hneg⟩
  · exact ⟨_, _, hkey.resolve_right hneg⟩
  · exact ⟨_, _, hkey.resolve_right hneg⟩
  · exact absurd hkey hneg

/-- Who is found does not depend on the flags and on the interest set. -/
theorem findWaiting_dropped (k : Int) (fd : Int) (q' : PId) :
    findWaiting (dropInterest q' fd (s.setUt u fun w => {w with status := clearWait w.status})) k
      ((dropInterest q' fd (s.setUt u fun w => {w with status := clearWait w.status})).p q).waiting =
    findWaiting s k (s.p q).waiting := by
  have hkey : (fun v => ((dropInterest q' fd
      (s.setUt u fun w => {w with status := clearWait w.status})).ut v).fdWait) = fun v => (s.ut v).fdWait := by
    funext v
    show ((s.setUt u fun w => {w with status := clearWait w.status}).ut v).fdWait = _
    exact setUt_keeps Uthread.fdWait rfl v
  unfold findWaiting
  rw [hkey]
  unfold dropInterest
  rw [setP_keeps P.waiting rfl]
  rfl

/-- `_uthread_cancel_event` takes the uthread out of the waiting tree if it is the one under its
key, and does nothing about the sleeping tree that `_uthread_desched_sleep` would not. -/
theorem uthreadCancelEvent_unlinks (h : Sound s) (hq : (s.sched a).p = some q) (hu : u < s.heap)
    (hs : uthreadCancelEvent a u s = .ok s₁) :
    KeepsTimes s s₁ ∧ (Leaves q u s₁ ↔ Leaves q u s) ∧
      (u ∈ (s₁.p q).waiting ↔ u ∈ (s.p q).waiting ∧
        ¬(0 ≤ (s.ut u).fdWait ∧ findWaiting s (s.ut u).fdWait (s.p q).waiting = some u)) := by
  obtain ⟨q', t, hq', -, rfl, hcase⟩ := uthreadCancelEvent_ok hs
  set t₀ := dropInterest q' (fdOnly (s.ut u).fdWait) (s.setUt u fun v => {v with status := clearWait v.status})
    with ht₀
  have htimes₀ : KeepsTimes s t₀ := (KeepsTimes.setUt rfl).trans (KeepsTimes.setP rfl)
  have hwaiting₀ : (t₀.p q).waiting = (s.p q).waiting := setP_keeps P.waiting rfl q
  have hleaves₀ : Leaves q u t₀ ↔ Leaves q u s := by
    refine Leaves.iff_of_eq ?_ (setP_keeps P.sleeping rfl q)
    show ((s.setUt u fun v => {v with status := clearWait v.status}).ut u).status.has .sleeping = _
    rw [setUt_ut_self]
    exact has_clearWait_of_ne _ .sleeping (by simp) (by simp)
  have hlast : ∀ t : State, KeepsTimes t (t.setUt u fun v => {v with fdWait := -1}) ∧
      (Leaves q u (t.setUt u fun v => {v with fdWait := -1}) ↔ Leaves q u t) :=
    fun t => ⟨KeepsTimes.setUt rfl, Leaves.iff_of_eq (by rw [setUt_ut_self]) rfl⟩
  rcases hcase with ⟨hneg, rfl⟩ | ⟨hpos, found, hd⟩
  · refine ⟨htimes₀.trans (hlast t₀).1, (hlast t₀).2.trans hleaves₀, ?_⟩
    rw [setUt_p, hwaiting₀]
    exact ⟨fun hw => ⟨hw, fun hk => absurd hk.1 (by omega)⟩, And.left⟩
  · obtain ⟨q'', hq'', hfind, hcase⟩ := uthreadDeschedEvent_ok hd
    have hqq : q'' = q := Option.some.inj (hq''.symm.trans hq)
    subst hqq
    obtain ⟨fd, ev, hkey⟩ := h.key_eq hu hpos
    rw [hkey, Placement.fdOnly_waitKey, Placement.fdEvent_waitKey, ← hkey, ht₀, findWaiting_dropped] at hfind
    rw [setUt_p]
    rcases hcase with ⟨rfl, rfl⟩ | ⟨v, rfl, hsl⟩
    · refine ⟨htimes₀.trans (hlast t₀).1, (hlast t₀).2.trans hleaves₀, ?_⟩
      rw [hwaiting₀, hfind]
      simp
    · obtain ⟨hv, -⟩ := Tree.find_eq_some hfind
      have hhome : ((t₀.setP q'' fun w => {w with waiting := Tree.remove v w.waiting}).ut v).p = some q'' := by
        have hkeep : ((s.setUt u fun w => {w with status := clearWait w.status}).ut v).p = (s.ut v).p :=
          setUt_keeps Uthread.p rfl v
        rw [h.one hq]
        exact hkeep.trans (h.ut v (h.waiting hv)).home
      have hdrop : KeepsTimes t₀ (t₀.setP q'' fun w => {w with waiting := Tree.remove v w.waiting}) :=
        KeepsTimes.setP rfl
      have hleaves : Leaves q'' u t ↔ Leaves q'' u s := by
        refine (uthreadDeschedSleep_leaves_iff hsl hhome).trans (Iff.trans ?_ hleaves₀)
        exact Leaves.iff_of_eq rfl (setP_keeps P.sleeping rfl q'')
      refine ⟨htimes₀.trans (hdrop.trans ((KeepsLinks.deschedSleep hsl).times.trans (hlast t).1)),
        (hlast t).2.trans hleaves, ?_⟩
      rw [(KeepsLinks.deschedSleep hsl).waiting, setP_p_self, hwaiting₀, hfind]
      simp [hpos, eq_comm]

/-- **A turn of the pass takes the uthread out of both trees exactly when it is found there.** -/
theorem resumeExpired_unlinks (h : Sound s) (hq : (s.sched a).p = some q) (hu : u ∈ (s.p q).sleeping)
    (hcancel : uthreadCancelEvent a u s = .ok s₁) (hdesched : uthreadDeschedSleep u s₁ = .ok s₂) :
    KeepsTimes s (uthreadResume a u .expiry (notedExpiry u s₂)) ∧
      ((u ∉ ((uthreadResume a u .expiry (notedExpiry u s₂)).p q).sleeping ∧
          u ∉ ((uthreadResume a u .expiry (notedExpiry u s₂)).p q).waiting) ↔ Unlinkable q s u) := by
  obtain ⟨hheap, hnew⟩ := h.sleeping hu
  obtain ⟨htimes, hleaves, hwaiting⟩ := uthreadCancelEvent_unlinks h hq hheap hcancel
  obtain ⟨h₁, hheap₁, -⟩ := h.uthreadCancelEvent hheap hnew hcancel
  have hhome : (s₁.ut u).p = some q := by
    rw [h.one hq]
    exact (h₁.ut u (hheap₁.symm ▸ hheap)).home
  have hnoted : KeepsTimes s₂ (notedExpiry u s₂) := KeepsTimes.setUt rfl
  refine ⟨htimes.trans ((KeepsLinks.deschedSleep hdesched).times.trans
    (hnoted.trans (KeepsLinks.resume a u .expiry _).times)), ?_⟩
  have hp : (uthreadResume a u .expiry (notedExpiry u s₂)).p q = s₂.p q :=
    congrFun (uthreadResume_p a u .expiry (notedExpiry u s₂)).1 q
  have hmarked : Leaves q u s ↔ (s.ut u).status.has .sleeping = true :=
    ⟨fun hl => hl.resolve_right fun hout => hout hu, Or.inl⟩
  rw [hp, uthreadDeschedSleep_leaves hdesched hhome, hleaves, hmarked,
    (KeepsLinks.deschedSleep hdesched).waiting, hwaiting]
  constructor
  · intro ⟨hm, hout⟩
    refine ⟨hm, fun hw => ?_⟩
    by_contra hfound
    exact hout ⟨hw, hfound⟩
  · intro hun
    exact ⟨hun.marked, fun ⟨hw, hnot⟩ => hnot (hun.found hw)⟩

end Desched

/-! ### What is read off a pass -/

/-- A uthread as the pass resumes it: its wake-up time, the reading of the clock that made it due,
whether it is marked as expired, and whether one of the trees still holds it. -/
structure Resumption where
  uthread : UId
  wake : Nat
  reading : Nat
  expired : Bool
  linked : Bool
  deriving DecidableEq, Repr

def resumption (q : PId) (now : Nat) (s : State) (u : UId) : Resumption where
  uthread := u
  wake := (s.ut u).wakeupTimeUsec
  reading := now
  expired := (s.ut u).status.has .expired
  linked := decide (u ∈ (s.p q).sleeping ∨ u ∈ (s.p q).waiting)

/-- The history of a pass, the newest entries first: the readings of the clock, by the loop and by
those who go to sleep; the last one of the loop; the uthreads it has resumed. -/
structure ExpiryLog where
  readings : List Nat := []
  last : Option Nat := none
  resumed : List Resumption := []
  deriving DecidableEq, Repr

/-- The loop of `a` reads the clock when it has a sleeper to compare with, and a uthread when it
sets its wake-up time. -/
def noteExpiry (a : SId) (q : PId) (s : State) (act : Act) (s' : State) (g : ExpiryLog) : ExpiryLog :=
  match act with
  | .sched b r =>
    if b = a ∧ (s.p q).sleeping ≠ [] then
      {readings := r.now :: g.readings
       last := some r.now
       resumed := ((s'.sched a).curUthread.map (resumption q r.now s')).toList ++ g.resumed}
    else g
  | .stmt b r =>
    match (s.sched b).curUthread with
    | none => g
    | some u =>
      match (s.ut u).ctx with
      | .sleep _ .clock => {g with readings := r.now :: g.readings}
      | _ => g
  | _ => g

def expiryLog (a : SId) (q : PId) (s : State) (acts : List Act) : ExpiryLog :=
  Run.tally step (noteExpiry a q) s {} acts

/-- The clock never goes back, and is far from its overflow. -/
structure ClockOk (readings : List Nat) : Prop where
  sorted : readings.Pairwise (· ≥ ·)
  small : ∀ n ∈ readings, n < 2 ^ 63

instance (l : List Nat) : Decidable (ClockOk l) :=
  decidable_of_iff (l.Pairwise (· ≥ ·) ∧ ∀ n ∈ l, n < 2 ^ 63) ⟨fun h => ⟨h.1, h.2⟩, fun h => ⟨h.sorted, h.small⟩⟩

/-- A uthread on a thread other than that of `a` links itself into the sleeping tree. -/
def linksApart (a : SId) (s : State) : Act → Bool
  | .stmt b _ =>
    match (s.sched b).curUthread with
    | none => false
    | some u =>
      match (s.ut u).ctx with
      | .sleep _ .insert => b != a
      | _ => false
  | _ => false

/-- The action is not past the pass of `a`, does not take its p, and adds no sleeper from elsewhere. -/
def InExpiry (a : SId) (s : State) (act : Act) : Prop :=
  (act.turnOf a = true → (s.sched a).pc = .expiry) ∧ a ∉ handingOff s act ∧ linksApart a s act = false

instance (a : SId) (s : State) (act : Act) : Decidable (InExpiry a s act) :=
  inferInstanceAs (Decidable (_ ∧ _ ∧ _))

/-- A call of `_uthread_resume_expired` by the loop of `a`, from `s₀` to its end, in a run whose
steps all meet `C`. -/
structure ExpiryPass (C : State → Act → Prop) (a : SId) (q : PId) (s₀ : State) (acts : List Act)
    (s : State) : Prop where
  reach : Reaches C s₀
  steps : Run.each step (fun x act _ => C x act) s₀ acts
  pc : (s₀.sched a).pc = .expiry
  bound : (s₀.sched a).p = some q
  cur : (s₀.sched a).curUthread = none
  run : Run.run step s₀ acts = .ok s
  inside : Run.each step (fun x act _ => InExpiry a x act) s₀ acts
  clock : ClockOk (expiryLog a q s₀ acts).readings
  ended : (s.sched a).pc = .lastReady

/-- The pass is ordered, never early, and complete, and it marks and unlinks whom it resumes. -/
structure PassOk (q : PId) (g : ExpiryLog) (s : State) : Prop where
  ordered : (g.resumed.map Resumption.wake).Pairwise (· ≥ ·)
  notEarly : ∀ x ∈ g.resumed, x.wake ≤ x.reading
  expired : ∀ x ∈ g.resumed, x.expired = true
  unlinked : ∀ x ∈ g.resumed, x.linked = false
  complete : ∀ n ∈ g.last, ∀ u ∈ (s.p q).sleeping, n < (s.ut u).wakeupTimeUsec

/-- The sleeper whose time has come at this turn of `a`. -/
def dueAt (a : SId) (q : PId) (s : State) : Act → Option UId
  | .sched b r =>
    if b = a then (minSleeping s (s.p q).sleeping).filter fun u => decide ((s.ut u).wakeupTimeUsec ≤ r.now)
    else none
  | _ => none

/-! ### What holds during the pass -/

theorem ClockOk.of_cons {n : Nat} {l : List Nat} (h : ClockOk (n :: l)) :
    ClockOk l ∧ (∀ m ∈ l, m ≤ n) ∧ n < 2 ^ 63 := by
  obtain ⟨hle, hrest⟩ := List.pairwise_cons.mp h.sorted
  exact ⟨⟨hrest, fun m hm => h.small m (List.mem_cons_of_mem n hm)⟩, hle, h.small n List.mem_cons_self⟩

/-- A wake-up time is after the reading it was computed from. -/
theorem lt_wakeupTime {now : Nat} (h : now < 2 ^ 63) (w : Wait) : now < wakeupTime now w.mescs := by
  have hms := w.mescs_le
  unfold wakeupTime
  rw [Nat.mod_eq_of_lt (by split <;> omega)]
  split <;> omega

/-- A step that is no turn of `a`: who sleeps now did before, or was on the thread of `a`, and a
wake-up time changes only where the clock is read. -/
structure TimesBeside (a : SId) (q : PId) (s : State) (act : Act) (s' : State) : Prop where
  sleeping : ∀ u ∈ (s'.p q).sleeping, u ∈ (s.p q).sleeping ∨ (s.sched a).curUthread = some u
  wake : ∀ u < s.heap, (s'.ut u).wakeupTimeUsec = (s.ut u).wakeupTimeUsec ∨
    ∃ b r w, act = .stmt b r ∧ (s.sched b).curUthread = some u ∧ (s.ut u).ctx = .sleep w .clock ∧
      (s'.ut u).wakeupTimeUsec = wakeupTime r.now w.mescs

/-- Who sleeps after a step that is no turn of `a` did before, or has just linked itself. -/
theorem step_sleeping_beside {s s' : State} {act : Act} {a : SId} {q : PId} {u : UId} (h : Sound s)
    (hs : step s act = .ok s') (hq : (s.sched a).p = some q) (hturn : act.turnOf a = false)
    (hu : u ∈ (s'.p q).sleeping) : u ∈ (s.p q).sleeping ∨
      ∃ b r w, act = .stmt b r ∧ (s.sched b).curUthread = some u ∧ (s.ut u).ctx = .sleep w .insert := by
  rcases step_beside h hs hq (Act.ne_of_turnOf hturn) with hk | ⟨b, r, y, rfl, hb, hst⟩
  · exact .inl (hk.sleeping q hu)
  · cases hst.links with
    | keeps hk => exact .inl (hk.sleeping q hu)
    | own _ _ heq =>
      rw [heq] at hu
      exact .inl hu
    | @sleeping w q' hctx _ heq =>
      rw [heq] at hu
      unfold goto at hu
      rw [setUt_p, setP_p] at hu
      split at hu
      · rename_i hqq
        subst hqq
        rcases List.mem_cons.mp hu with rfl | hu
        · exact .inr ⟨b, r, w, rfl, hb, hctx⟩
        · exact .inl hu
      · exact .inl hu
    | @waiting c q' _ _ _ heq =>
      rw [heq] at hu
      unfold goto at hu
      rw [setUt_p, setP_keeps P.sleeping rfl] at hu
      exact .inl hu

theorem step_times_beside {s s' : State} {act : Act} {a : SId} {q : PId} (h : Sound s) (hs : step s act = .ok s')
    (hq : (s.sched a).p = some q) (hturn : act.turnOf a = false) (hapart : linksApart a s act = false) :
    TimesBeside a q s act s' := by
  refine ⟨fun u hu => ?_, fun u hlt => step_wake hs hlt⟩
  rcases step_sleeping_beside h hs hq hturn hu with hu | ⟨b, r, w, rfl, hb, hctx⟩
  · exact .inl hu
  · have hba : b = a := by
      unfold linksApart at hapart
      simp only [hb, hctx] at hapart
      simpa using hapart
    subst hba
    exact .inr hb

/-- How far the pass has come: nobody who sleeps, or runs on the thread of `a`, has a wake-up time
before one that was resumed; when the pass has ended nobody who sleeps is due. -/
structure Paced (a : SId) (q : PId) (s : State) (g : ExpiryLog) : Prop where
  sound : Sound s
  bound : (s.sched a).p = some q
  place : (s.sched a).pc = .expiry ∨ (s.sched a).pc = .lastReady ∧ (s.sched a).curUthread = none ∧
    ∀ n ∈ g.last, ∀ u ∈ (s.p q).sleeping, n < (s.ut u).wakeupTimeUsec
  asleep : ∀ x ∈ g.resumed, ∀ u ∈ (s.p q).sleeping, x.wake ≤ (s.ut u).wakeupTimeUsec
  running : ∀ x ∈ g.resumed, ∀ u, (s.sched a).curUthread = some u → x.wake ≤ (s.ut u).wakeupTimeUsec
  ordered : (g.resumed.map Resumption.wake).Pairwise (· ≥ ·)
  read : ∀ x ∈ g.resumed, x.wake ≤ x.reading ∧ x.reading ∈ g.readings
  last : ∀ n ∈ g.last, n ∈ g.readings
  expired : ∀ x ∈ g.resumed, x.expired = true

section Steps

variable {a : SId} {q : PId} {s s' : State} {act : Act} {g : ExpiryLog}

theorem noteExpiry_clock {b : SId} {r : Reply} {u : UId} {w : Wait} (hb : (s.sched b).curUthread = some u)
    (hctx : (s.ut u).ctx = .sleep w .clock) :
    noteExpiry a q s (.stmt b r) s' g = {g with readings := r.now :: g.readings} := by
  unfold noteExpiry
  simp only [hb, hctx]

/-- Beside the turns of `a` only readings are logged. -/
theorem noteExpiry_beside (q : PId) (s s' : State) (g : ExpiryLog) (hturn : act.turnOf a = false) :
    (noteExpiry a q s act s' g).resumed = g.resumed ∧ (noteExpiry a q s act s' g).last = g.last ∧
      ∀ n ∈ g.readings, n ∈ (noteExpiry a q s act s' g).readings := by
  cases act with
  | sched b r =>
    have hba : b ≠ a := by simpa [Act.turnOf] using hturn
    unfold noteExpiry
    simp only [hba, false_and, if_false]
    exact ⟨trivial, trivial, fun _ hn => hn⟩
  | stmt b r =>
    unfold noteExpiry
    dsimp only
    split
    · exact ⟨rfl, rfl, fun _ hn => hn⟩
    · split
      · exact ⟨rfl, rfl, fun n hn => List.mem_cons_of_mem r.now hn⟩
      · exact ⟨rfl, rfl, fun _ hn => hn⟩
  | call b c => exact ⟨rfl, rfl, fun _ hn => hn⟩
  | preempt b => exact ⟨rfl, rfl, fun _ hn => hn⟩

/-- A wake-up time that is set is after all readings so far. -/
theorem TimesBeside.later (h : TimesBeside a q s act s') (hclock : ClockOk (noteExpiry a q s act s' g).readings)
    {u : UId} (hu : u < s.heap) : (s'.ut u).wakeupTimeUsec = (s.ut u).wakeupTimeUsec ∨
      ∀ n ∈ g.readings, n < (s'.ut u).wakeupTimeUsec := by
  rcases h.wake u hu with hsame | ⟨b, r, w, rfl, hb, hctx, hnew⟩
  · exact .inl hsame
  · right
    rw [noteExpiry_clock hb hctx] at hclock
    obtain ⟨-, hle, hsmall⟩ := hclock.of_cons
    intro n hn
    rw [hnew]
    exact Nat.lt_of_le_of_lt (hle n hn) (lt_wakeupTime hsmall w)

theorem Paced.beside (h : Paced a q s g) (hs : step s act = .ok s') (hturn : act.turnOf a = false)
    (hoff : a ∉ handingOff s act) (hapart : linksApart a s act = false)
    (hclock : ClockOk (noteExpiry a q s act s' g).readings) : Paced a q s' (noteExpiry a q s act s' g) := by
  obtain ⟨hbound, hpc, hcur⟩ := step_apart h.sound hs hturn hoff h.bound
  have htimes := step_times_beside h.sound hs h.bound hturn hapart
  obtain ⟨hres, hlast, hmore⟩ := noteExpiry_beside q s s' g hturn
  have hheld : ∀ x ∈ g.resumed, ∀ u < s.heap, x.wake ≤ (s.ut u).wakeupTimeUsec →
      x.wake ≤ (s'.ut u).wakeupTimeUsec := by
    intro x hx u hu hle
    rcases htimes.later hclock hu with hsame | hlater
    · rw [hsame]
      exact hle
    · obtain ⟨hw, hr⟩ := h.read x hx
      exact Nat.le_of_lt (Nat.lt_of_le_of_lt hw (hlater _ hr))
  refine ⟨h.sound.step hs, hbound, ?_, ?_, ?_, hres ▸ h.ordered, ?_, ?_, hres ▸ h.expired⟩
  · rw [hpc, hlast]
    refine h.place.imp_right fun ⟨hend, hc, hleft⟩ => ⟨hend, ?_, fun n hn u hu => ?_⟩
    · rcases hcur with hcur | hcur
      · exact hcur.trans hc
      · exact hcur
    · have hu' : u ∈ (s.p q).sleeping := by
        refine (htimes.sleeping u hu).resolve_right fun hc' => ?_
        cases hc.symm.trans hc'
      rcases htimes.later hclock (h.sound.sleeping hu').1 with hsame | hlater
      · rw [hsame]
        exact hleft n hn u hu'
      · exact hlater n (h.last n hn)
  · rw [hres]
    intro x hx u hu
    rcases htimes.sleeping u hu with hu' | hc
    · exact hheld x hx u (h.sound.sleeping hu').1 (h.asleep x hx u hu')
    · exact hheld x hx u (h.sound.cur hc).1 (h.running x hx u hc)
  · rw [hres]
    intro x hx u hc'
    have hc := step_runs_beside h.sound hs h.bound (Act.ne_of_turnOf hturn) hc'
    exact hheld x hx u (h.sound.cur hc).1 (h.running x hx u hc)
  · rw [hres]
    intro x hx
    exact ⟨(h.read x hx).1, hmore _ (h.read x hx).2⟩
  · rw [hlast]
    exact fun n hn => hmore n (h.last n hn)

/-- What a turn of the pass does: it ends the pass, or it resumes the sleeper that is due. -/
theorem expiry_turn {r : Reply} (hs : step s (.sched a r) = .ok s') (hpc : (s.sched a).pc = .expiry)
    (hq : (s.sched a).p = some q) :
    ((s.sched a).curUthread = none ∧ s' = setPc a .lastReady s ∧
      ∀ u ∈ (s.p q).sleeping, r.now < (s.ut u).wakeupTimeUsec) ∨
    ∃ u s₁ s₂, minSleeping s (s.p q).sleeping = some u ∧ (s.ut u).wakeupTimeUsec ≤ r.now ∧
      uthreadCancelEvent a u s = .ok s₁ ∧ uthreadDeschedSleep u s₁ = .ok s₂ ∧
      s' = uthreadResume a u .expiry (notedExpiry u s₂) := by
  cases step_ok hs with
  | sched hc hss =>
    cases hss with
    | goes hgo =>
      rw [hpc] at hgo
      cases hgo with
      | noneDue hnone =>
        refine .inl ⟨hc, rfl, fun u hu => ?_⟩
        cases hm : minSleeping s (s.p q).sleeping with
        | none =>
          rw [Tree.min_eq_none hm] at hu
          cases hu
        | some m =>
          have hmin : Tree.min (fun v => (s.ut v).wakeupTimeUsec) (s.p q).sleeping = some m := hm
          have hle := Tree.min_le hmin hu
          exact Nat.lt_of_lt_of_le (hnone q m hq hm) hle
    | expired _ hq' hmin hdue hcancel hdesched =>
      cases hq.symm.trans hq'
      exact .inr ⟨_, _, _, hmin, hdue, hcancel, hdesched, rfl⟩
    | another h₁ _ | ready h₁ _ _ | noPoll h₁ _ | polled h₁ _ _ | took h₁ _ _ _ _ | handled h₁ _ | halted h₁ =>
      rw [hpc] at h₁
      cases h₁

theorem noteExpiry_turn {r : Reply} (hne : (s.p q).sleeping ≠ []) :
    noteExpiry a q s (.sched a r) s' g =
      {readings := r.now :: g.readings
       last := some r.now
       resumed := ((s'.sched a).curUthread.map (resumption q r.now s')).toList ++ g.resumed} := by
  unfold noteExpiry
  dsimp only
  rw [if_pos ⟨rfl, hne⟩]

/-- The turn that ends the pass has nobody left who is due. -/
theorem Paced.ends {r : Reply} (h : Paced a q s g) (hsnd : Sound (setPc a .lastReady s))
    (hc : (s.sched a).curUthread = none) (hleft : ∀ u ∈ (s.p q).sleeping, r.now < (s.ut u).wakeupTimeUsec) :
    Paced a q (setPc a .lastReady s) (noteExpiry a q s (.sched a r) (setPc a .lastReady s) g) := by
  have hbound : ((setPc a .lastReady s).sched a).p = some q := (setPc_bound a .lastReady s a).trans h.bound
  have hc' : ((setPc a .lastReady s).sched a).curUthread = none := (setPc_cur a .lastReady s a).trans hc
  have hpc' : ((setPc a .lastReady s).sched a).pc = .lastReady := setPc_pc a .lastReady s
  have hidle : ∀ x ∈ g.resumed, ∀ u, ((setPc a .lastReady s).sched a).curUthread = some u →
      x.wake ≤ (s.ut u).wakeupTimeUsec := by
    intro x _ u hu
    cases hc'.symm.trans hu
  by_cases hempty : (s.p q).sleeping = []
  · -- with no sleeper to compare with the clock is not read
    have hnote : noteExpiry a q s (.sched a r) (setPc a .lastReady s) g = g := by
      unfold noteExpiry
      simp [hempty]
    rw [hnote]
    refine ⟨hsnd, hbound, .inr ⟨hpc', hc', fun n _ u hu => ?_⟩, h.asleep, hidle, h.ordered, h.read, h.last,
      h.expired⟩
    exact absurd (hempty ▸ hu) List.not_mem_nil
  · rw [noteExpiry_turn hempty, hc']
    refine ⟨hsnd, hbound, .inr ⟨hpc', hc', ?_⟩, h.asleep, hidle, h.ordered, ?_, ?_, h.expired⟩
    · intro n hn u hu
      cases hn
      exact hleft u hu
    · intro x hx
      exact ⟨(h.read x hx).1, List.mem_cons_of_mem r.now (h.read x hx).2⟩
    · intro n hn
      cases hn
      exact List.mem_cons_self

/-- The sleeper that is resumed comes last in the order so far, and first among those left. -/
theorem Paced.resumes {r : Reply} {u : UId} (h : Paced a q s g) (hsnd : Sound s')
    (hbound : (s'.sched a).p = some q) (hpc : (s'.sched a).pc = .expiry)
    (hcur : (s'.sched a).curUthread = some u) (hmin : minSleeping s (s.p q).sleeping = some u)
    (hdue : (s.ut u).wakeupTimeUsec ≤ r.now) (htimes : KeepsTimes s s')
    (hexp : (s'.ut u).status.has .expired = true) : Paced a q s' (noteExpiry a q s (.sched a r) s' g) := by
  have hu : u ∈ (s.p q).sleeping := Tree.min_mem hmin
  have hleast : Tree.min (fun v => (s.ut v).wakeupTimeUsec) (s.p q).sleeping = some u := hmin
  have hwake := htimes.wake u (h.sound.sleeping hu).1
  have hwakes : ∀ v ∈ (s'.p q).sleeping,
      v ∈ (s.p q).sleeping ∧ (s'.ut v).wakeupTimeUsec = (s.ut v).wakeupTimeUsec :=
    fun v hv => ⟨htimes.sleeping q hv, htimes.wake v (h.sound.sleeping (htimes.sleeping q hv)).1⟩
  rw [noteExpiry_turn (List.ne_nil_of_mem hu), hcur]
  refine ⟨hsnd, hbound, .inl hpc, ?_, ?_, ?_, ?_, ?_, ?_⟩
  · intro x hx v hv
    obtain ⟨hv', hwake'⟩ := hwakes v hv
    rw [hwake']
    rcases List.mem_cons.mp hx with rfl | hx
    · have hle := Tree.min_le hleast hv'
      exact hwake.le.trans hle
    · exact h.asleep x hx v hv'
  · intro x hx v hv
    cases hcur.symm.trans hv
    rcases List.mem_cons.mp hx with rfl | hx
    · exact Nat.le_refl _
    · rw [hwake]
      exact h.asleep x hx u hu
  · refine List.pairwise_cons.mpr ⟨fun n hn => ?_, h.ordered⟩
    obtain ⟨x, hx, rfl⟩ := List.mem_map.mp hn
    show x.wake ≤ (s'.ut u).wakeupTimeUsec
    rw [hwake]
    exact h.asleep x hx u hu
  · intro x hx
    rcases List.mem_cons.mp hx with rfl | hx
    · exact ⟨hwake.le.trans hdue, List.mem_cons_self⟩
    · exact ⟨(h.read x hx).1, List.mem_cons_of_mem r.now (h.read x hx).2⟩
  · intro n hn
    cases hn
    exact List.mem_cons_self
  · intro x hx
    rcases List.mem_cons.mp hx with rfl | hx
    · exact hexp
    · exact h.expired x hx

theorem Paced.turn {r : Reply} (h : Paced a q s g) (hs : step s (.sched a r) = .ok s')
    (hpc : (s.sched a).pc = .expiry) : Paced a q s' (noteExpiry a q s (.sched a r) s' g) := by
  have hsnd' := h.sound.step hs
  rcases expiry_turn hs hpc h.bound with ⟨hc, rfl, hleft⟩ | ⟨u, s₁, s₂, hmin, hdue, hcancel, hdesched, hs'⟩
  · exact h.ends hsnd' hc hleft
  · have hu : u ∈ (s.p q).sleeping := Tree.min_mem hmin
    have hbound' := ((schedRun_local (step_sched_ok hs)).bound a).trans h.bound
    have htimes := (resumeExpired_unlinks h.sound h.bound hu hcancel hdesched).1
    have hmarks : resumeExpired a u s = .ok s' := by
      unfold resumeExpired
      simp only [bind, Except.bind, hcancel, hdesched, hs']
      rfl
    obtain ⟨hcur', hexp⟩ := resumeExpired_marks (h.sound.sleeping hu).2 hmarks
    have hpc' : (s'.sched a).pc = .expiry := hs' ▸ uthreadResume_pc a u .expiry _
    exact h.resumes hsnd' hbound' hpc' hcur' hmin hdue (hs' ▸ htimes) hexp

theorem noteExpiry_readings (a : SId) (q : PId) (s : State) (act : Act) (s' : State) (g : ExpiryLog) :
    (noteExpiry a q s act s' g).readings = g.readings ∨
      ∃ n, (noteExpiry a q s act s' g).readings = n :: g.readings := by
  unfold noteExpiry
  split
  · split
    · exact .inr ⟨_, rfl⟩
    · exact .inl rfl
  · split
    · exact .inl rfl
    · split
      · exact .inr ⟨_, rfl⟩
      · exact .inl rfl
  · exact .inl rfl

/-- **Every step of the pass keeps it in order.** -/
theorem Paced.step (h : ClockOk g.readings → Paced a q s g) (hs : UthreadRuntime.step s act = .ok s')
    (hin : InExpiry a s act) (hclock : ClockOk (noteExpiry a q s act s' g).readings) :
    Paced a q s' (noteExpiry a q s act s' g) := by
  have hbefore : ClockOk g.readings := by
    rcases noteExpiry_readings a q s act s' g with hsame | ⟨n, hmore⟩
    · exact hsame ▸ hclock
    · rw [hmore] at hclock
      exact hclock.of_cons.1
  obtain ⟨hturn, hoff, hapart⟩ := hin
  by_cases hact : act.turnOf a = true
  · obtain ⟨r, rfl⟩ := Act.eq_of_turnOf hact
    exact (h hbefore).turn hs (hturn hact)
  · exact (h hbefore).beside hs (Bool.eq_false_iff.mpr hact) hoff hapart hclock

/-- A step adds to the uthreads resumed so far. -/
theorem noteExpiry_resumed (a : SId) (q : PId) (s : State) (act : Act) (s' : State) (g : ExpiryLog) :
    (noteExpiry a q s act s' g).resumed = (noteExpiry a q s act s' {}).resumed ++ g.resumed := by
  unfold noteExpiry
  split
  · split
    · exact congrArg (· ++ g.resumed) (List.append_nil _).symm
    · rfl
  · split
    · rfl
    · split <;> rfl
  · rfl

theorem dueAt_beside (hturn : act.turnOf a = false) : dueAt a q s act = none := by
  cases act with
  | sched b r =>
    have hba : b ≠ a := by simpa [Act.turnOf] using hturn
    unfold dueAt
    dsimp only
    rw [if_neg hba]
  | _ => rfl

theorem InExpiry.bound (h : Sound s) (hq : (s.sched a).p = some q) (hs : step s act = .ok s')
    (hin : InExpiry a s act) : (s'.sched a).p = some q := by
  by_cases hact : act.turnOf a = true
  · obtain ⟨r, rfl⟩ := Act.eq_of_turnOf hact
    exact ((schedRun_local (step_sched_ok hs)).bound a).trans hq
  · exact (step_apart h hs (Bool.eq_false_iff.mpr hact) hin.2.1 hq).1

/-- The step leaves nobody linked whom it resumes, exactly if the sleeper that is due is found. -/
theorem unlinked_step_iff (h : Sound s) (hq : (s.sched a).p = some q) (hs : step s act = .ok s')
    (hin : InExpiry a s act) : (∀ x ∈ (noteExpiry a q s act s' {}).resumed, x.linked = false) ↔
      ∀ u ∈ dueAt a q s act, Unlinkable q s u := by
  by_cases hact : act.turnOf a = true
  · obtain ⟨r, rfl⟩ := Act.eq_of_turnOf hact
    unfold dueAt
    dsimp only
    rw [if_pos rfl]
    rcases expiry_turn hs (hin.1 hact) hq with ⟨hc, rfl, hleft⟩ | ⟨u, s₁, s₂, hmin, hdue, hcancel, hdesched, hs'⟩
    · refine iff_of_true (fun x hx => ?_) fun u hu => ?_
      · have hc' : ((setPc a .lastReady s).sched a).curUthread = none := (setPc_cur a .lastReady s a).trans hc
        unfold noteExpiry at hx
        dsimp only at hx
        rw [hc'] at hx
        split at hx <;> cases hx
      · obtain ⟨hmin, hdue⟩ := Option.mem_filter_iff.mp hu
        exact absurd (hleft u (Tree.min_mem hmin)) (Nat.not_lt_of_le (of_decide_eq_true hdue))
    · have hu : u ∈ (s.p q).sleeping := Tree.min_mem hmin
      have hcur' : (s'.sched a).curUthread = some u := hs' ▸ uthreadResume_cur a u .expiry _
      have hunlinks := (resumeExpired_unlinks h hq hu hcancel hdesched).2
      rw [← hs'] at hunlinks
      rw [noteExpiry_turn (List.ne_nil_of_mem hu), hcur', hmin]
      simp [resumption, hdue, hunlinks]
  · have hact' := Bool.eq_false_iff.mpr hact
    rw [(noteExpiry_beside q s s' {} hact').1, dueAt_beside hact']
    simp

end Steps

/-! ### The whole pass -/

section Pass

variable {C : State → Act → Prop} {a : SId} {q : PId} {s₀ s : State} {acts : List Act}

theorem ExpiryPass.paced (h : ExpiryPass C a q s₀ acts s) : Paced a q s (expiryLog a q s₀ acts) := by
  have hstart : Paced a q s₀ {} := by
    refine ⟨Sound.of_reaches h.reach, h.bound, .inl h.pc, ?_, ?_, .nil, ?_, ?_, ?_⟩
    all_goals
      intro x hx
      cases hx
  have hrun : ClockOk (expiryLog a q s₀ acts).readings → Paced a q s (expiryLog a q s₀ acts) :=
    Run.tally_run (J := fun x g => ClockOk g.readings → Paced a q x g) h.run h.inside (fun _ => hstart)
      fun x act x' g hx hin hs hclock => Paced.step hx hs hin hclock
  exact hrun h.clock

/-- **The pass does what it is for exactly when each sleeper whose time comes is found where it is
linked**: marked as asleep, and under its key if it waits for a descriptor. -/
theorem expiry_pass_iff (h : ExpiryPass C a q s₀ acts s) : PassOk q (expiryLog a q s₀ acts) s ↔
    Run.each step (fun x act _ => ∀ u ∈ dueAt a q x act, Unlinkable q x u) s₀ acts := by
  have hpaced := h.paced
  have hlog : (∀ x ∈ (expiryLog a q s₀ acts).resumed, x.linked = false) ↔
      Run.each step (fun x act x' => ∀ y ∈ (noteExpiry a q x act x' {}).resumed, y.linked = false) s₀ acts := by
    refine (Run.tally_each (Q := fun (g : ExpiryLog) => ∀ x ∈ g.resumed, x.linked = false)
      (fun x act x' g => ?_) s₀ {} acts).trans (and_iff_right fun x hx => ?_)
    · rw [noteExpiry_resumed]
      simp only [List.mem_append, or_imp, forall_and]
      exact and_comm
    · cases hx
  have hiff := Run.each_iff (I := fun x => Sound x ∧ (x.sched a).p = some q)
    ⟨Sound.of_reaches h.reach, h.bound⟩ h.inside
    (fun x act x' hx hin hs => unlinked_step_iff hx.1 hx.2 hs hin)
    (fun x act x' hx hin hs _ => ⟨hx.1.step hs, InExpiry.bound hx.1 hx.2 hs hin⟩)
  rw [← hiff, ← hlog]
  refine ⟨PassOk.unlinked, fun hun => ⟨hpaced.ordered, fun x hx => (hpaced.read x hx).1, hpaced.expired, hun, ?_⟩⟩
  rcases hpaced.place with hpc | ⟨-, -, hleft⟩
  · rw [h.ended] at hpc
    cases hpc
  · exact hleft

end Pass

/-! ### Where everybody is found -/

/-- In a calm run whoever sleeps is marked as asleep, and who waits is alone under its key. -/
theorem Unlinkable.of_calm {s : State} {a : SId} {q : PId} {r : Reply} {u : UId} (h : Reaches Calm s)
    (hcalm : Calm s (.sched a r)) (hc : (s.sched a).curUthread = none) (hu : u ∈ (s.p q).sleeping) :
    Unlinkable q s u := by
  have hinv := inv_of_reaches h
  have hoff : s.board.cur a ≠ some u := by
    show (s.sched a).curUthread ≠ some u
    rw [hc]
    simp
  obtain ⟨-, -, hasleep, -⟩ := hinv.asleep_of_sleeping hcalm.alone hu hoff
  refine ⟨hasleep, fun hw => ?_⟩
  obtain ⟨hlive, -, fd, e, hwaits⟩ := hinv.waiting_mem (u := u) hw
  obtain ⟨hkey, hvalid⟩ := hwaits.key_eq (hinv.wf hlive)
  have hpos : 0 ≤ (s.board.task u).fdWait := by
    rw [hkey]
    exact Placement.waitKey_nonneg e hvalid
  exact ⟨hpos, Tree.find_of_mem hw fun v hv hvk => hinv.waiting_inj hv hw hvk⟩

/-- Calm runs meet the condition at every turn of the pass. -/
theorem calm_unlinks {s : State} {a : SId} {q : PId} {acts : List Act} (h : Reaches Calm s)
    (hcalm : Run.each step (fun x act _ => Calm x act) s acts) :
    Run.each step (fun x act _ => ∀ u ∈ dueAt a q x act, Unlinkable q x u) s acts := by
  refine Run.each_of_invariant (I := Reaches Calm) h hcalm fun x act x' hx hc hs => ⟨hx.next hc hs, ?_⟩
  intro u hu
  cases act with
  | sched b r =>
    unfold dueAt at hu
    dsimp only at hu
    split at hu
    · cases step_ok hs with
      | sched hcur _ => exact .of_calm hx hc hcur (Tree.min_mem (Option.mem_filter_iff.mp hu).1)
    · cases hu
  | _ => cases hu

/-- **The expiry pass of a calm run is ordered, never early and complete**, and it marks and unlinks
whom it resumes. -/
theorem calm_pass_ok {a : SId} {q : PId} {s₀ s : State} {acts : List Act}
    (h : ExpiryPass Calm a q s₀ acts s) : PassOk q (expiryLog a q s₀ acts) s :=
  (expiry_pass_iff h).mpr (calm_unlinks h.reach h.steps)

/-- Main's read has expired; it reads once more, with nothing to read, and the pass ends. -/
def readsAgain : List Act :=
  [.sched 0 {now := 1000000}] ++ stmts 0 4 ++ calls 0 (.io ⟨.read, 5, 1, 0⟩) 2 ++
    [.stmt 0 {ret := -1, errno := .eagain}] ++ List.replicate 12 (.stmt 0 {now := 1000000}) ++
    [.sched 0 {now := 1000001}]

theorem readsAgain_ok : ∃ s₀ s, ExpiryPass Calm 0 0 s₀ readsAgain s ∧
    PassOk 0 (expiryLog 0 0 s₀ readsAgain) s ∧
    (expiryLog 0 0 s₀ readsAgain).resumed = [⟨0, 1000000, 1000000, true, false⟩] ∧
    (s.p 0).sleeping = [0] ∧ (s.ut 0).wakeupTimeUsec = 2000000 := by
  have hread : (Run.checked step atomicCheck init (blockedRead 10 ++ scheds 0 5)).bind (fun s₀ =>
      (Run.checked step atomicCheck s₀ readsAgain).map fun s =>
      (decide ((s₀.sched 0).pc = .expiry ∧ (s₀.sched 0).p = some 0 ∧ (s₀.sched 0).curUthread = none),
        decide (Run.each step (fun x act _ => InExpiry 0 x act) s₀ readsAgain ∧
          ClockOk (expiryLog 0 0 s₀ readsAgain).readings ∧ (s.sched 0).pc = .lastReady),
        decide ((expiryLog 0 0 s₀ readsAgain).resumed = [⟨0, 1000000, 1000000, true, false⟩] ∧
          (s.p 0).sleeping = [0] ∧ (s.ut 0).wakeupTimeUsec = 2000000))) = some (true, true, true) := by
    decide +kernel
  obtain ⟨s₀, hs₀, hread⟩ := Option.bind_eq_some_iff.mp hread
  obtain ⟨s, hs, hread⟩ := Option.map_eq_some_iff.mp hread
  simp only [Prod.mk.injEq, decide_eq_true_eq] at hread
  obtain ⟨⟨hpc, hp, hc⟩, ⟨hinside, hclock, hend⟩, hlog⟩ := hread
  have hreach := calm_of_check hs₀
  have hpass : ExpiryPass Calm 0 0 s₀ readsAgain s :=
    ⟨hreach, Run.each_of_meets (meets_of_atomicCheck hreach hs), hpc, hp, hc, Run.run_of_checked hs, hinside,
      hclock, hend⟩
  exact ⟨s₀, s, hpass, calm_pass_ok hpass, hlog⟩

/-- Uthread 1 exits while main, on the other thread, publishes its join of it. Main goes to sleep in
the join all the same, and its entry in the queue resumes it: the join is over, and main is in the
sleeping tree. It reads, finds nothing to read and is preempted before it sets its new wake-up
time. -/
def staleSleeper : List Act :=
  createdRuns ++ calls 0 .disk 4 ++ scheds 1 5 ++ calls 1 (.join 1 none) 5 ++ calls 0 .finish 3 ++
    stmts 1 7 ++ scheds 1 8 ++ stmts 1 3 ++ calls 1 (.io ⟨.read, 5, 1, 0⟩) 2 ++
    [.stmt 1 {ret := -1, errno := .eagain}] ++ stmts 1 6 ++ [.preempt 1] ++ scheds 1 5

/-- Ten seconds after the join the pass resumes main, which sets the time and is preempted again. -/
def resumesStale : List Act :=
  [.sched 1 {now := 10000000}, .stmt 1 {now := 10000000}, .preempt 1, .sched 1 {now := 10000000}]

/-- The pass ends, and has resumed main with the sleeping tree still holding it. -/
theorem staleSleeper_stays_linked : ∃ s₀ s, ExpiryPass (fun _ _ => True) 1 0 s₀ resumesStale s ∧
    (s₀.p 0).sleeping = [0] ∧ (s₀.p 0).ready = [0] ∧ (s₀.ut 0).status.has .sleeping = false ∧
    (expiryLog 1 0 s₀ resumesStale).resumed = [⟨0, 10000000, 10000000, true, true⟩] ∧
    ¬PassOk 0 (expiryLog 1 0 s₀ resumesStale) s := by
  have hread : (exec staleSleeper).bind (fun s₀ => (Run.run step s₀ resumesStale).map fun s =>
      (decide ((s₀.sched 1).pc = .expiry ∧ (s₀.sched 1).p = some 0 ∧ (s₀.sched 1).curUthread = none),
        decide (Run.each step (fun x act _ => InExpiry 1 x act) s₀ resumesStale ∧
          ClockOk (expiryLog 1 0 s₀ resumesStale).readings ∧ (s.sched 1).pc = .lastReady),
        decide ((s₀.p 0).sleeping = [0] ∧ (s₀.p 0).ready = [0] ∧ (s₀.ut 0).status.has .sleeping = false ∧
          (expiryLog 1 0 s₀ resumesStale).resumed = [⟨0, 10000000, 10000000, true, true⟩]))) =
      .ok (true, true, true) := by decide +kernel
  obtain ⟨s₀, hs₀, hread⟩ := bind_ok hread
  obtain ⟨s, hs, hread⟩ := map_ok hread
  simp only [Prod.mk.injEq, decide_eq_true_eq] at hread
  obtain ⟨⟨hpc, hp, hc⟩, ⟨hinside, hclock, hend⟩, hsleeping, hready, hmark, hlog⟩ := hread
  refine ⟨s₀, s, ⟨Run.reaches_of_run hs₀, Run.each_of_forall (fun _ _ _ => trivial) _ _, hpc, hp, hc, hs, hinside,
    hclock, hend⟩, hsleeping, hready, hmark, hlog, fun hok => ?_⟩
  have hlinked := hok.unlinked ⟨0, 10000000, 10000000, true, true⟩ (hlog ▸ List.mem_singleton_self _)
  cases hlinked

end UthreadRuntime
