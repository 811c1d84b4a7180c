import UthreadRuntime.Support.Agree
import UthreadRuntime.Safety.Trees
import UthreadRuntime.Placement.Refinement
import UthreadRuntime.Trees.Blind
import UthreadRuntime.Trees.Concrete

/-! The runtime with its trees and ready queues in memory does what the runtime does.

`Rep` relates a state of either: the two forests have the uthreads of the lists, ordered by the
keys in their records, and the queues have theirs, in their order. A step keeps it as long as the key
of a linked uthread is not set, only linked uthreads are unlinked and no queued one is queued again
(`Tended`), and so it is in every calm run. -/
namespace UthreadRuntime

open State Rb Tailq Run Placement

/-- The trees and queues in memory have the uthreads of the lists; the rest of the state is the same. -/
structure Rep (x : Concrete) (s : State) : Prop where
  rt : x.rt = s.bare
  sleeping : x.sleeping.Represents (fun v => (s.ut v).wakeupTimeUsec) fun q => (s.p q).sleeping
  waiting : x.waiting.Represents (fun v => (s.ut v).fdWait) fun q => (s.p q).waiting
  ready : x.ready.Represents fun q => (s.p q).ready
  below : ∀ {q u}, u ∈ (s.p q).sleeping ∨ u ∈ (s.p q).waiting ∨ u ∈ (s.p q).ready → u < s.heap

/-- They stop for the same reason, none of them in a tree or a queue. -/
def SameStop (h : Halt) (e : Stop) : Prop := h = .stop e

/-- The machines do the same. -/
abbrev Matches : Except Halt Concrete → Except Stop State → Prop := Agrees SameStop Rep

/-! ### The comparison functions -/

theorem compares_sleep (s : State) (r : Uthread) :
    Compares (fun r v => uthreadSleepCmp r (s.ut v)) (fun v => (s.ut v).wakeupTimeUsec) r r.wakeupTimeUsec := by
  constructor <;> intro v <;> unfold uthreadSleepCmp <;> split_ifs <;> omega

theorem compares_wait (s : State) (r : Uthread) :
    Compares (fun r v => uthreadWaitCmp r (s.ut v)) (fun v => (s.ut v).fdWait) r r.fdWait := by
  constructor <;> intro v <;> unfold uthreadWaitCmp <;> split_ifs <;> omega

/-! ### Steps that leave the trees and queues alone -/

/-- The trees and queues are the same, and so are the keys of what is in the trees. -/
structure SameMembers (s s' : State) : Prop where
  members : s'.members = s.members
  heap : s.heap ≤ s'.heap
  wake : ∀ {q v}, v ∈ (s.p q).sleeping → (s'.ut v).wakeupTimeUsec = (s.ut v).wakeupTimeUsec
  key : ∀ {q v}, v ∈ (s.p q).waiting → (s'.ut v).fdWait = (s.ut v).fdWait

namespace SameMembers

variable {s s' : State} {a : SId} {u : UId}

theorem sleeping (h : SameMembers s s') (q : PId) : (s'.p q).sleeping = (s.p q).sleeping :=
  congrArg (fun l => (l q).sleeping) h.members

theorem waiting (h : SameMembers s s') (q : PId) : (s'.p q).waiting = (s.p q).waiting :=
  congrArg (fun l => (l q).waiting) h.members

theorem ready (h : SameMembers s s') (q : PId) : (s'.p q).ready = (s.p q).ready :=
  congrArg (fun l => (l q).ready) h.members

theorem refl (s : State) : SameMembers s s := ⟨rfl, Nat.le_refl _, fun _ => rfl, fun _ => rfl⟩

theorem trans {s'' : State} (h : SameMembers s s') (h' : SameMembers s' s'') : SameMembers s s'' := by
  refine ⟨h'.members.trans h.members, h.heap.trans h'.heap, fun hv => ?_, fun hv => ?_⟩
  · exact (h'.wake (by rwa [h.sleeping])).trans (h.wake hv)
  · exact (h'.key (by rwa [h.waiting])).trans (h.key hv)

theorem of_eq (hheap : s'.heap = s.heap) (hut : s'.ut = s.ut) (hp : s'.p = s.p) : SameMembers s s' := by
  refine ⟨?_, hheap.ge, fun _ => ?_, fun _ => ?_⟩
  · unfold State.members
    rw [hp]
  · rw [hut]
  · rw [hut]

theorem setUt {f : Uthread → Uthread} (hwake : (f (s.ut u)).wakeupTimeUsec = (s.ut u).wakeupTimeUsec)
    (hkey : (f (s.ut u)).fdWait = (s.ut u).fdWait) : SameMembers s (s.setUt u f) :=
  ⟨rfl, Nat.le_refl _, fun {_ v} _ => setUt_keeps Uthread.wakeupTimeUsec hwake v,
    fun {_ v} _ => setUt_keeps Uthread.fdWait hkey v⟩

theorem setP {q : PId} {g : P → P} (hg : (g (s.p q)).members = (s.p q).members) :
    SameMembers s (s.setP q g) := by
  refine ⟨?_, Nat.le_refl _, fun _ => rfl, fun _ => rfl⟩
  funext r
  exact setP_keeps P.members hg r

/-- No uthread was linked, no key was set, and the sleepers are still there. -/
theorem of_keepsLinks (h : KeepsLinks s s') (hmembers : s'.members = s.members)
    (hbelow : ∀ {q u}, u ∈ (s.p q).sleeping ∨ u ∈ (s.p q).waiting ∨ u ∈ (s.p q).ready → u < s.heap) :
    SameMembers s s' :=
  ⟨hmembers, h.heap, fun hv => h.wake _ (hbelow (.inl hv)), fun hv => h.key _ (hbelow (.inr (.inl hv)))⟩

end SameMembers

namespace Rep

variable {x : Concrete} {s s' : State} {q : PId}

/-- The rest of the state goes on. -/
theorem keep (h : Rep x s) (hs : SameMembers s s') {rt : State} (hrt : rt = s'.bare) :
    Rep {x with rt := rt} s' := by
  refine ⟨hrt, ?_, ?_, ?_, fun {q u} hu => ?_⟩
  · simp only [hs.sleeping]
    exact h.sleeping.congr_key fun q v hv => hs.wake hv
  · simp only [hs.waiting]
    exact h.waiting.congr_key fun q v hv => hs.key hv
  · simp only [hs.ready]
    exact h.ready
  · rw [hs.sleeping, hs.waiting, hs.ready] at hu
    exact Nat.lt_of_lt_of_le (h.below hu) hs.heap

theorem ut (h : Rep x s) : x.rt.ut = s.ut := by
  rw [h.rt]
  rfl

theorem sched (h : Rep x s) : x.rt.sched = s.sched := by
  rw [h.rt]
  rfl

/-- A list of distinct uthreads is no longer than the records are many. -/
theorem turns_le (h : Rep x s) {l : List UId} (hl : l.Nodup) (hlt : ∀ u ∈ l, u < s.heap) :
    turns l.length ≤ x.fuel := by
  have hheap : x.rt.heap = s.heap := by
    rw [h.rt]
    rfl
  have hlen : l.length ≤ s.heap := by
    have := List.Nodup.length_le_of_subset hl fun u hu => List.mem_range.mpr (hlt u hu)
    rwa [List.length_range] at this
  rw [Concrete.fuel, hheap]
  exact turns_mono hlen

theorem fuel_sleeping (h : Rep x s) (q : PId) : turns (s.p q).sleeping.length ≤ x.fuel :=
  h.turns_le (h.sleeping.tree q).nodup fun _ hu => h.below (.inl hu)

theorem fuel_waiting (h : Rep x s) (q : PId) : turns (s.p q).waiting.length ≤ x.fuel :=
  h.turns_le (h.waiting.tree q).nodup fun _ hu => h.below (.inr (.inl hu))

/-- `RB_MIN` of a sleeping tree. -/
theorem rbMin (h : Rep x s) (q : PId) :
    x.sleeping.rbMin x.fuel q = some (minSleeping s (s.p q).sleeping) :=
  (h.sleeping.tree q).rbMin (h.fuel_sleeping q)

/-- `RB_FIND` in a waiting tree. -/
theorem rbFind (h : Rep x s) (q : PId) (k : Int) :
    x.waiting.rbFind x.fuel q (fun r v => uthreadWaitCmp r (x.rt.ut v)) ({fdWait := k} : Uthread) =
      some (findWaiting s k (s.p q).waiting) := by
  rw [h.ut]
  exact (h.waiting.tree q).rbFind (compares_wait s {fdWait := k}) (h.fuel_waiting q)

/-- The trees of a p after one of its sleepers was replaced by `l`. -/
theorem setSleeping {f : Forest PId UId} {l : List UId}
    (h : Rep x s) (hf : f.Represents (fun v => (s.ut v).wakeupTimeUsec)
      (Function.update (fun q => (s.p q).sleeping) q l)) (hl : ∀ u ∈ l, u < s.heap) :
    Rep {x with sleeping := f} (s.setP q fun v => {v with sleeping := l}) := by
  have hlists : (fun r => ((s.setP q fun v => {v with sleeping := l}).p r).sleeping) =
      Function.update (fun q => (s.p q).sleeping) q l := by
    funext r
    rw [setP_p, Function.update_apply]
    split <;> rfl
  have hwaiting : ∀ r, ((s.setP q fun v => {v with sleeping := l}).p r).waiting = (s.p r).waiting :=
    setP_keeps P.waiting rfl
  have hready : ∀ r, ((s.setP q fun v => {v with sleeping := l}).p r).ready = (s.p r).ready :=
    setP_keeps P.ready rfl
  refine ⟨?_, ?_, ?_, ?_, fun {r u} hu => ?_⟩
  · rw [h.rt]
    exact (hang_setP_members (g := fun v => {v with sleeping := l}) (fun _ _ => rfl) _ q s).symm
  · rw [hlists]
    exact hf
  · simp only [hwaiting]
    exact h.waiting
  · simp only [hready]
    exact h.ready
  · rw [hwaiting, hready, congrFun hlists r, Function.update_apply] at hu
    split at hu
    · exact hu.elim (hl u) fun hu => h.below (.inr hu)
    · exact h.below hu

theorem setWaiting {f : Forest PId UId} {l : List UId}
    (h : Rep x s) (hf : f.Represents (fun v => (s.ut v).fdWait)
      (Function.update (fun q => (s.p q).waiting) q l)) (hl : ∀ u ∈ l, u < s.heap) :
    Rep {x with waiting := f} (s.setP q fun v => {v with waiting := l}) := by
  have hlists : (fun r => ((s.setP q fun v => {v with waiting := l}).p r).waiting) =
      Function.update (fun q => (s.p q).waiting) q l := by
    funext r
    rw [setP_p, Function.update_apply]
    split <;> rfl
  have hsleeping : ∀ r, ((s.setP q fun v => {v with waiting := l}).p r).sleeping = (s.p r).sleeping :=
    setP_keeps P.sleeping rfl
  have hready : ∀ r, ((s.setP q fun v => {v with waiting := l}).p r).ready = (s.p r).ready :=
    setP_keeps P.ready rfl
  refine ⟨?_, ?_, ?_, ?_, fun {r u} hu => ?_⟩
  · rw [h.rt]
    exact (hang_setP_members (g := fun v => {v with waiting := l}) (fun _ _ => rfl) _ q s).symm
  · simp only [hsleeping]
    exact h.sleeping
  · rw [hlists]
    exact hf
  · simp only [hready]
    exact h.ready
  · rw [hsleeping, hready, congrFun hlists r, Function.update_apply] at hu
    split at hu
    · rcases hu with hu | hu | hu
      · exact h.below (.inl hu)
      · exact hl u hu
      · exact h.below (.inr (.inr hu))
    · exact h.below hu

/-- The queues after the one of a p was replaced by `l`. -/
theorem setReady {m : Queues PId UId} {l : List UId} (h : Rep x s)
    (hm : m.Represents (Function.update (fun q => (s.p q).ready) q l)) (hl : ∀ u ∈ l, u < s.heap) :
    Rep {x with ready := m} (s.setP q fun v => {v with ready := l}) := by
  have hlists : (fun r => ((s.setP q fun v => {v with ready := l}).p r).ready) =
      Function.update (fun q => (s.p q).ready) q l := by
    funext r
    rw [setP_p, Function.update_apply]
    split <;> rfl
  have hsleeping : ∀ r, ((s.setP q fun v => {v with ready := l}).p r).sleeping = (s.p r).sleeping :=
    setP_keeps P.sleeping rfl
  have hwaiting : ∀ r, ((s.setP q fun v => {v with ready := l}).p r).waiting = (s.p r).waiting :=
    setP_keeps P.waiting rfl
  refine ⟨?_, ?_, ?_, ?_, fun {r u} hu => ?_⟩
  · rw [h.rt]
    exact (hang_setP_members (g := fun v => {v with ready := l}) (fun _ _ => rfl) _ q s).symm
  · simp only [hsleeping]
    exact h.sleeping
  · simp only [hwaiting]
    exact h.waiting
  · rw [hlists]
    exact hm
  · rw [hsleeping, hwaiting, congrFun hlists r, Function.update_apply] at hu
    split at hu
    · rcases hu with hu | hu | hu
      · exact h.below (.inl hu)
      · exact h.below (.inr (.inl hu))
      · exact hl u hu
    · exact h.below hu

/-- `TAILQ_INSERT_TAIL` of a uthread that is in no ready queue. -/
theorem insertReady {u : UId} (h : Rep x s) (hout : ∀ r, u ∉ (s.p r).ready) (hu : u < s.heap) :
    Matches (x.insertReady q u) (.ok (insertReady q u s)) := by
  obtain ⟨m, hrun, hm⟩ := h.ready.insertTail (i := q) hout
  unfold Concrete.insertReady
  rw [hrun]
  have hlt : ∀ v ∈ (s.p q).ready ++ [u], v < s.heap := by
    intro v hv
    rcases List.mem_append.mp hv with hv | hv
    · exact h.below (.inr (.inr hv))
    · rw [List.mem_singleton.mp hv]
      exact hu
  exact h.setReady hm hlt

end Rep

/-! ### Taking uthreads out of the trees -/

/-- Who is linked, as far as the functions that unlink depend on it. -/
structure Hooked (s : State) : Prop where
  asleep : ∀ {u q}, (s.ut u).life = .live → (s.ut u).status.has .sleeping = true → (s.ut u).p = some q →
    u ∈ (s.p q).sleeping
  sleeping : ∀ {q u}, u ∈ (s.p q).sleeping → (s.ut u).life = .live ∧ (s.ut u).p = some q
  waiting : ∀ {q u}, u ∈ (s.p q).waiting → (s.ut u).life = .live ∧ (s.ut u).p = some q ∧
    ∃ fd e, 0 ≤ fd ∧ (s.ut u).fdWait = waitKey fd e

/-- A sleeping uthread is live, at home and in the tree, one that waits has the key of its wait. -/
theorem hooked_of_inv {s : State} (h : Inv s.board) : Hooked s := by
  refine ⟨fun hlive hs hq => h.sleeping_iff.mpr ⟨hlive, hq, .inl hs⟩, fun hu => ?_, fun hu => ?_⟩
  · obtain ⟨hlive, hq, -⟩ := h.sleeping_iff.mp hu
    exact ⟨hlive, hq⟩
  · obtain ⟨hlive, hq, fd, e, hw⟩ := h.waiting_mem hu
    obtain ⟨hkey, hvalid⟩ := hw.key_eq (h.wf hlive)
    exact ⟨hlive, hq, fd, e, hvalid, hkey⟩

namespace Hooked

variable {s s' : State} {u : UId} {q : PId}

/-- The trees are the same, and no record differs in what ties it to them. -/
theorem congr (h : Hooked s) (hmembers : s'.members = s.members) (hlife : ∀ v, (s'.ut v).life = (s.ut v).life)
    (hp : ∀ v, (s'.ut v).p = (s.ut v).p)
    (hs : ∀ v, (s'.ut v).status.has .sleeping = true → (s.ut v).status.has .sleeping = true)
    (hkey : ∀ q, ∀ v ∈ (s.p q).waiting, (s'.ut v).fdWait = (s.ut v).fdWait) : Hooked s' := by
  have hsl : ∀ q, (s'.p q).sleeping = (s.p q).sleeping := fun q => congrArg (fun l => (l q).sleeping) hmembers
  have hwt : ∀ q, (s'.p q).waiting = (s.p q).waiting := fun q => congrArg (fun l => (l q).waiting) hmembers
  refine ⟨fun {v q} hlive hasleep hq => ?_, fun {q v} hv => ?_, fun {q v} hv => ?_⟩
  · rw [hsl]
    exact h.asleep ((hlife v).symm.trans hlive) (hs v hasleep) ((hp v).symm.trans hq)
  · rw [hsl] at hv
    rw [hlife, hp]
    exact h.sleeping hv
  · rw [hwt] at hv
    rw [hlife, hp, hkey q v hv]
    exact h.waiting hv

theorem setUt {f : Uthread → Uthread} (h : Hooked s) (hlife : (f (s.ut u)).life = (s.ut u).life)
    (hp : (f (s.ut u)).p = (s.ut u).p)
    (hs : (f (s.ut u)).status.has .sleeping = true → (s.ut u).status.has .sleeping = true)
    (hkey : ∀ q, u ∈ (s.p q).waiting → (f (s.ut u)).fdWait = (s.ut u).fdWait) : Hooked (s.setUt u f) := by
  refine h.congr rfl (setUt_keeps Uthread.life hlife) (setUt_keeps Uthread.p hp) (fun v => ?_) fun q v hv => ?_
  · rw [setUt_ut]
    split
    · rename_i hv
      rw [hv]
      exact hs
    · exact id
  · rw [setUt_ut]
    split
    · rename_i hvu
      rw [hvu]
      exact hkey q (hvu ▸ hv)
    · rfl

theorem deschedSleep (h : Hooked s) (hs : uthreadDeschedSleep u s = .ok s') : Hooked s' := by
  rcases uthreadDeschedSleep_ok hs with ⟨-, rfl⟩ | ⟨hasleep, q, hq, rfl⟩
  · exact h
  · have hsl : ∀ {r v}, v ∈ ((unlinkSleeper q u s).p r).sleeping ↔
        v ∈ (s.p r).sleeping ∧ ¬(r = q ∧ v = u) := by
      intro r v
      show v ∈ ((s.setP q fun p => {p with sleeping := Tree.remove u p.sleeping}).p r).sleeping ↔ _
      rw [setP_p]
      split
      · rename_i hr
        rw [hr]
        simp
      · simp [*]
    have hwt : ∀ r, ((unlinkSleeper q u s).p r).waiting = (s.p r).waiting :=
      setP_keeps (g := fun p => {p with sleeping := Tree.remove u p.sleeping}) P.waiting rfl
    have hlife : ∀ v, ((unlinkSleeper q u s).ut v).life = (s.ut v).life := setUt_keeps Uthread.life rfl
    have hp : ∀ v, ((unlinkSleeper q u s).ut v).p = (s.ut v).p := setUt_keeps Uthread.p rfl
    have hkey : ∀ v, ((unlinkSleeper q u s).ut v).fdWait = (s.ut v).fdWait := setUt_keeps Uthread.fdWait rfl
    refine ⟨fun {v r} hlive hv hr => ?_, fun {r v} hv => ?_, fun {r v} hv => ?_⟩
    · rw [hlife] at hlive
      rw [hp] at hr
      have hvu : v ≠ u := by
        rintro rfl
        simp [unlinkSleeper] at hv
      refine hsl.mpr ⟨h.asleep hlive ?_ hr, fun hc => hvu hc.2⟩
      rwa [unlinkSleeper, setUt_ut, if_neg hvu] at hv
    · rw [hlife, hp]
      exact h.sleeping (hsl.mp hv).1
    · rw [hlife, hp, hkey]
      rw [hwt] at hv
      exact h.waiting hv

theorem unlinkWaiting (h : Hooked s) :
    Hooked (s.setP q fun v => {v with waiting := Tree.remove u v.waiting}) := by
  have hsl : ∀ r, ((s.setP q fun v => {v with waiting := Tree.remove u v.waiting}).p r).sleeping =
      (s.p r).sleeping := setP_keeps P.sleeping rfl
  refine ⟨fun {v r} hlive hv hr => ?_, fun {r v} hv => ?_, fun {r v} hv => ?_⟩
  · rw [hsl]
    exact h.asleep hlive hv hr
  · rw [hsl] at hv
    exact h.sleeping hv
  · rw [setP_p] at hv
    split at hv
    · rename_i hr
      rw [hr]
      exact h.waiting (Tree.mem_remove.mp hv).1
    · exact h.waiting hv

end Hooked

section Unlink

variable {x : Concrete} {s s' : State} {a : SId} {u : UId} {q : PId}

theorem agrees_stopped {α : Type} (e : Except Stop α) : Agrees SameStop Eq (Concrete.stopped e) e := by
  cases e with
  | error e => rfl
  | ok a => rfl

/-- The rest of the state goes on, by a function that the trees have no part in. -/
theorem Rep.rest (h : Rep x s) {f : State → Except Stop State} (hf : f s.bare = (f s).map State.bare)
    (hkeep : ∀ s', f s = .ok s' → SameMembers s s') : Matches (x.rest (f x.rt)) (f s) := by
  rw [h.rt, hf]
  cases hs : f s with
  | error e => rfl
  | ok s' => exact h.keep (hkeep s' hs) rfl

/-- `_uthread_desched_sleep` of a uthread that is in the tree when it is marked so. -/
theorem Rep.deschedSleep (h : Rep x s) (hin : ∀ q, (s.ut u).status.has .sleeping = true →
    (s.ut u).p = some q → u ∈ (s.p q).sleeping) :
    Matches (x.uthreadDeschedSleep u) (uthreadDeschedSleep u s) := by
  unfold Concrete.uthreadDeschedSleep uthreadDeschedSleep
  rw [h.ut]
  by_cases hs : (s.ut u).status.has .sleeping = true
  · rw [if_pos hs, if_pos hs]
    have hhome : x.rt.home u .deschedSleep = s.home u .deschedSleep := by
      rw [h.rt]
      rfl
    rw [hhome]
    refine (agrees_stopped _).bind fun q q' _ hq hqq => ?_
    subst hqq
    obtain ⟨f, hrun, hf⟩ := h.sleeping.rbRemove (hin q hs (home_ok hq)) (h.fuel_sleeping q)
    rw [hrun]
    have hunlinked := h.setSleeping hf fun v hv => h.below (.inl (Tree.mem_remove.mp hv).1)
    exact hunlinked.keep (SameMembers.setUt rfl rfl) (congrArg (State.setUt u _) hunlinked.rt)
  · rw [if_neg hs, if_neg hs]
    exact h

/-- What a search of a waiting tree finds is unlinked from both trees. -/
theorem Rep.deschedEvent (h : Rep x s) (hk : Hooked s) (fd e : Int) :
    Agrees SameStop (fun y z => y.1 = z.1 ∧ Rep y.2 z.2) (x.uthreadDeschedEvent a fd e)
      (uthreadDeschedEvent a fd e s) := by
  unfold Concrete.uthreadDeschedEvent uthreadDeschedEvent
  have hbound : x.rt.bound a .deschedEvent = s.bound a .deschedEvent := by
    rw [h.rt]
    rfl
  rw [hbound]
  refine (agrees_stopped _).bind fun q q' _ _ hqq => ?_
  subst hqq
  simp only [h.rbFind q]
  cases hfind : findWaiting s (fdKey fd e) (s.p q).waiting with
  | none => exact ⟨rfl, h⟩
  | some u =>
    obtain ⟨hu, -⟩ := Tree.find_eq_some hfind
    obtain ⟨f, hrun, hf⟩ := h.waiting.rbRemove hu (h.fuel_waiting q)
    have hrep := h.setWaiting hf fun v hv => h.below (.inr (.inl (Tree.mem_remove.mp hv).1))
    have hk' : Hooked (s.setP q fun v => {v with waiting := Tree.remove u (s.p q).waiting}) := hk.unlinkWaiting
    have hdesched := hrep.deschedSleep (u := u) fun r hs hr => hk'.asleep (hk.waiting hu).1 hs hr
    show Agrees _ _ (Concrete.inLinks (x.waiting.rbRemove x.fuel q u) >>= _) _
    rw [hrun]
    exact hdesched.bind fun y z _ _ hyz => ⟨rfl, hyz⟩

theorem Hooked.deschedEvent {fd e : Int} {found : Option UId} (hk : Hooked s)
    (hs : uthreadDeschedEvent a fd e s = .ok (found, s')) : Hooked s' := by
  obtain ⟨q, -, -, ⟨-, rfl⟩ | ⟨u, -, hd⟩⟩ := uthreadDeschedEvent_ok hs
  · exact hk
  · exact hk.unlinkWaiting.deschedSleep hd

/-- Nobody with the key that was searched for is left in the tree. -/
theorem Rep.deschedEvent_key (h : Rep x s) {fd e : Int} {found : Option UId}
    (hs : uthreadDeschedEvent a fd e s = .ok (found, s')) (hq : (s.sched a).p = some q) {r : PId} {v : UId}
    (hv : v ∈ (s'.p r).waiting) :
    v ∈ (s.p r).waiting ∧ (r = q → (s.ut v).fdWait ≠ fdKey fd e) := by
  obtain ⟨q', hq', hfind, ⟨rfl, rfl⟩ | ⟨u, rfl, hd⟩⟩ := uthreadDeschedEvent_ok hs
  · refine ⟨hv, ?_⟩
    rintro rfl
    rw [Option.some.inj (hq'.symm.trans hq)] at hfind
    exact Tree.find_eq_none hfind v hv
  · obtain rfl := Option.some.inj (hq'.symm.trans hq)
    rw [(KeepsLinks.deschedSleep hd).waiting, setP_p] at hv
    split at hv
    · rename_i hr
      subst hr
      obtain ⟨hv, hvu⟩ := Tree.mem_remove.mp hv
      obtain ⟨hu, hku⟩ := Tree.find_eq_some hfind
      exact ⟨hv, fun _ hkv => hvu ((h.waiting.tree r).eq_of_key hv hu (hkv.trans hku.symm))⟩
    · rename_i hr
      exact ⟨hv, fun he => absurd he hr⟩

/-- The bit of a sleeper is none of those that `clearWait` clears. -/
theorem sleeping_clearWait (w : Status) : (clearWait w).has .sleeping = w.has .sleeping :=
  has_clearWait_of_ne w .sleeping (by decide) (by decide)

/-- The waiting flag of a uthread is dropped, and a descriptor is no longer watched. -/
structure Unwatched (s t : State) : Prop where
  same : SameMembers s t
  sched : t.sched = s.sched
  key : ∀ v, (t.ut v).fdWait = (s.ut v).fdWait
  hooked : Hooked s → Hooked t

theorem unwatched_of_epollDel {t : State} {fd : Int} {site : Site} {e : Assertion}
    (ht : epollDel u fd site e (s.setUt u fun v => {v with status := clearWait v.status}) = .ok t) :
    Unwatched s t := by
  obtain ⟨q, -, -, rfl⟩ := epollDel_ok ht
  have hset : SameMembers s (s.setUt u fun v => {v with status := clearWait v.status}) :=
    SameMembers.setUt rfl rfl
  refine ⟨hset.trans (SameMembers.setP rfl), rfl, fun v => ?_, fun hk => ?_⟩
  · exact setUt_keeps (s := s) (f := fun v => {v with status := clearWait v.status}) Uthread.fdWait rfl v
  · have hk' : Hooked (s.setUt u fun v => {v with status := clearWait v.status}) :=
      hk.setUt rfl rfl (fun hs => (sleeping_clearWait _).symm.trans hs) fun _ _ => rfl
    exact hk'.congr (SameMembers.setP rfl).members (fun _ => rfl) (fun _ => rfl) (fun _ => id) fun _ _ _ => rfl

theorem Rep.epollDel (h : Rep x s) (u : UId) (fd : Int) (site : Site) (e : Assertion) :
    Matches (x.rest (UthreadRuntime.epollDel u fd site e
        (x.rt.setUt u fun v => {v with status := clearWait v.status})))
      (UthreadRuntime.epollDel u fd site e (s.setUt u fun v => {v with status := clearWait v.status})) :=
  h.rest (f := fun t => UthreadRuntime.epollDel u fd site e
      (t.setUt u fun v => {v with status := clearWait v.status}))
    ((blind_epollDel u fd site e).bare (s.setUt u fun v => {v with status := clearWait v.status}))
    fun _ ht => (unwatched_of_epollDel ht).same

/-- The key of a uthread that is in no waiting tree is dropped. -/
theorem Rep.dropKey (h : Rep x s) (hk : Hooked s) (hout : ∀ r, u ∉ (s.p r).waiting) :
    Rep {x with rt := x.rt.setUt u fun v => {v with fdWait := -1}} (s.setUt u fun v => {v with fdWait := -1}) ∧
      Hooked (s.setUt u fun v => {v with fdWait := -1}) := by
  have hsame : SameMembers s (s.setUt u fun v => {v with fdWait := -1}) := by
    refine ⟨rfl, Nat.le_refl _, fun {_ v} _ => setUt_keeps Uthread.wakeupTimeUsec rfl v, fun {r v} hv => ?_⟩
    have hvu : v ≠ u := fun he => hout r (he ▸ hv)
    rw [setUt_ut, if_neg hvu]
  exact ⟨h.keep hsame (congrArg (State.setUt u _) h.rt), hk.setUt rfl rfl id fun r hr => absurd hr (hout r)⟩

/-- A sleeper that waits for an event is unlinked from both trees, and its key dropped. -/
theorem Rep.cancelEvent (h : Rep x s) (hk : Hooked s) (hq : (s.sched a).p = some q)
    (hu : u ∈ (s.p q).sleeping) :
    Agrees SameStop (fun y z => Rep y z ∧ Hooked z) (x.uthreadCancelEvent a u) (uthreadCancelEvent a u s) := by
  unfold Concrete.uthreadCancelEvent uthreadCancelEvent
  rw [h.ut]
  refine (h.epollDel u _ _ _).bind fun y t _ ht hyt => ?_
  obtain ⟨hsame, hsched, hkey, hkt⟩ := unwatched_of_epollDel ht
  have hkt := hkt hk
  by_cases hf : 0 ≤ (s.ut u).fdWait
  · rw [if_pos hf, if_pos hf]
    refine Agrees.bind (R := fun y z => Rep y z ∧ Hooked z ∧ ∀ r, u ∉ (z.p r).waiting) ?_
      fun y z _ _ hyz => hyz.1.dropKey hyz.2.1 hyz.2.2
    refine (hyt.deschedEvent hkt (fdOnly (s.ut u).fdWait) (fdEvent (s.ut u).fdWait)).map
      fun y z _ hz hyz => ⟨hyz.2, hkt.deschedEvent hz, fun r hr => ?_⟩
    -- it would have been found by its own key
    obtain ⟨hur, hne⟩ := hyt.deschedEvent_key hz (hsched ▸ hq) hr
    rw [hsame.waiting] at hur
    obtain ⟨-, hp, fd, e, -, hku⟩ := hk.waiting hur
    refine hne (Option.some.inj (hp.symm.trans (hk.sleeping hu).2)) ?_
    rw [hkey, hku]
    exact (fdKey_split fd e).symm
  · rw [if_neg hf, if_neg hf]
    refine hyt.dropKey hkt fun r hr => hf ?_
    rw [hsame.waiting] at hr
    obtain ⟨-, -, fd, e, hfd, hku⟩ := hk.waiting hr
    rw [hku]
    exact waitKey_nonneg e hfd

end Unlink

/-! ### Passing control -/

section Control

variable {x : Concrete} {s s' : State} {a : SId} {u : UId} {q : PId}

theorem sameMembers_resume (a : SId) (u : UId) (k : SchedAt) (s : State) : SameMembers s (uthreadResume a u k s) := by
  have h₀ : SameMembers s (if (s.ut u).status.has .new then uthreadInit u s else s) := by
    split
    · exact SameMembers.setUt rfl rfl
    · exact SameMembers.refl s
  unfold uthreadResume
  generalize (if (s.ut u).status.has .new then uthreadInit u s else s) = s₀ at h₀ ⊢
  have h₁ : SameMembers s₀ (s₀.setSched a fun v => {v with curUthread := some u, pc := k}) :=
    SameMembers.of_eq rfl rfl rfl
  have h₂ : ∀ t : State, SameMembers t (t.setUt u fun v => {v with isWatingYieldSignal := true}) :=
    fun t => SameMembers.setUt rfl rfl
  exact h₀.trans (h₁.trans ((h₂ _).trans (SameMembers.of_eq rfl rfl rfl)))

/-- The scheduler runs a uthread. -/
theorem Rep.resume (h : Rep x s) (a : SId) (u : UId) (k : SchedAt) :
    Rep {x with rt := uthreadResume a u k x.rt} (uthreadResume a u k s) := by
  refine h.keep (sameMembers_resume a u k s) ?_
  rw [h.rt]
  exact (hang_uthreadResume _ a u s k).symm

/-- Who is queued after a uthread was taken out of the sleeping tree. -/
theorem ready_deschedSleep (h : UthreadRuntime.uthreadDeschedSleep u s = .ok s') (r : PId) :
    (s'.p r).ready = (s.p r).ready := by
  rcases uthreadDeschedSleep_ok h with ⟨-, rfl⟩ | ⟨-, q', -, rfl⟩
  · rfl
  · unfold unlinkSleeper
    rw [setUt_p]
    exact setP_keeps P.ready rfl r

/-- The joiner of an exiting uthread is live and not queued. -/
theorem Rep.wakeJoined (h : Rep x s) (hk : Hooked s)
    (hj : ∀ j, (s.ut u).utJoined = some j → (s.ut j).life = .live ∧ j < s.heap ∧ ∀ r, j ∉ (s.p r).ready) :
    Matches (x.wakeJoined u) (wakeJoined u s) := by
  unfold Concrete.wakeJoined UthreadRuntime.wakeJoined
  rw [h.ut]
  cases hjoined : (s.ut u).utJoined with
  | none => exact h
  | some j =>
    obtain ⟨hlive, hlt, hout⟩ := hj j hjoined
    refine (h.deschedSleep fun q hs hq => hk.asleep hlive hs hq).bind fun y t _ ht hyt => ?_
    have hhome : y.rt.home j .resumeJoined = t.home j .resumeJoined := by
      rw [hyt.rt]
      rfl
    rw [hhome]
    refine (agrees_stopped _).bind fun q q' _ _ hqq => ?_
    subst hqq
    have hnote : SameMembers t (t.setUt j fun v => {v with hist := {v.hist with waits := .joined :: v.hist.waits}}) :=
      SameMembers.setUt rfl rfl
    have hnoted := hyt.keep hnote (congrArg (State.setUt j fun v =>
      {v with hist := {v.hist with waits := .joined :: v.hist.waits}}) hyt.rt)
    refine hnoted.insertReady (fun r => ?_) (Nat.lt_of_lt_of_le hlt (KeepsLinks.deschedSleep ht).heap)
    show j ∉ (t.p r).ready
    rw [ready_deschedSleep ht]
    exact hout r

/-- `_uthread_resume` after its `_switch`. -/
theorem Rep.switched (h : Rep x s) (hk : Hooked s) (hu : u < s.heap) (hout : ∀ r, u ∉ (s.p r).ready)
    (hj : ∀ j, (s.ut u).utJoined = some j → (s.ut j).life = .live ∧ j < s.heap ∧ ∀ r, j ∉ (s.p r).ready) :
    Matches (x.uthreadSwitched a u) (uthreadSwitched a u s) := by
  have hidle : Rep {x with rt := idleCpu a x.rt} (idleCpu a s) :=
    h.keep (show SameMembers s (idleCpu a s) from SameMembers.of_eq rfl rfl rfl) (congrArg (idleCpu a) h.rt)
  have hk' : Hooked (idleCpu a s) := hk.congr rfl (fun _ => rfl) (fun _ => rfl) (fun _ => id) fun _ _ _ => rfl
  have hut : (idleCpu a x.rt).ut = (idleCpu a s).ut := hidle.ut
  unfold Concrete.uthreadSwitched uthreadSwitched
  refine agrees_ite (iff_of_eq ?_) (fun _ => ?_) fun _ => ?_
  · rw [hut]
    rfl
  · refine (hidle.wakeJoined hk' hj).bind fun y t _ _ hyt => ?_
    refine hyt.rest ((blind_uthreadFree u).bare t) fun t' ht' => ?_
    obtain ⟨-, rfl⟩ := uthreadFree_ok ht'
    exact ⟨rfl, Nat.le_refl _, fun {_ v} _ => setUt_keeps Uthread.wakeupTimeUsec rfl v,
      fun {_ v} _ => setUt_keeps Uthread.fdWait rfl v⟩
  · refine agrees_ite (iff_of_eq ?_) (fun _ => hidle) fun _ => ?_
    · rw [hut]
      rfl
    · have hbound : (idleCpu a x.rt).bound a .resumeReady = (idleCpu a s).bound a .resumeReady := by
        rw [h.rt]
        rfl
      rw [hbound]
      refine (agrees_stopped _).bind fun q q' _ _ hqq => ?_
      subst hqq
      exact hidle.insertReady hout hu

end Control

/-! ### The scheduler -/

section Scheduler

variable {x : Concrete} {s s' : State} {a : SId} {u : UId} {q : PId}

theorem Rep.setPc (h : Rep x s) (a : SId) (k : SchedAt) :
    Matches (.ok {x with rt := UthreadRuntime.setPc a k x.rt}) (.ok (UthreadRuntime.setPc a k s)) :=
  h.keep (show SameMembers s (UthreadRuntime.setPc a k s) from SameMembers.of_eq rfl rfl rfl)
    (congrArg (UthreadRuntime.setPc a k) h.rt)

theorem Rep.schedWorkDone (h : Rep x s) (q : PId) : x.schedWorkDone q = schedWorkDone (s.p q) := by
  unfold Concrete.schedWorkDone UthreadRuntime.schedWorkDone Forest.rbEmpty
  rw [(h.sleeping.tree q).rbEmpty, (h.waiting.tree q).rbEmpty, (h.ready.holds q).isEmpty]

/-- No record is freed or handed out. -/
def KeepsLife (s s' : State) : Prop := ∀ v, (s'.ut v).life = (s.ut v).life

theorem KeepsLife.transparent : Transparent KeepsLife where
  refl _ _ := rfl
  trans h h' v := (h' v).trans (h v)
  setUt _ _ _ hf v := setUt_keeps Uthread.life (hf.life _) v
  setP _ _ _ _ := rfl
  setSched _ _ _ _ := rfl
  timer _ _ _ := rfl
  consumed _ _ _ := rfl
  halted _ _ _ := rfl

theorem Rep.resumeExpired (h : Rep x s) (hk : Hooked s) (hq : (s.sched a).p = some q)
    (hu : u ∈ (s.p q).sleeping) : Matches (x.resumeExpired a u) (resumeExpired a u s) := by
  refine (h.cancelEvent hk hq hu).bind fun y t _ ht hyt => ?_
  have hlive : (t.ut u).life = .live := by
    rw [KeepsLife.transparent.untimed.cancelEvent ht u]
    exact (hk.sleeping hu).1
  refine (hyt.1.deschedSleep fun r hs hr => hyt.2.asleep hlive hs hr).bind fun y' t' _ _ hyt' => ?_
  have hnoted : Rep {y' with rt := notedExpiry u y'.rt} (notedExpiry u t') :=
    hyt'.keep (show SameMembers t' (notedExpiry u t') from SameMembers.setUt rfl rfl) (congrArg (notedExpiry u) hyt'.rt)
  exact hnoted.resume a u .expiry

/-- One turn of the expiry pass takes the first sleeper. -/
theorem Rep.uthreadResumeExpired (h : Rep x s) (hk : Hooked s) (r : Reply) :
    Matches (x.uthreadResumeExpired a r) (uthreadResumeExpired a r s) := by
  unfold Concrete.uthreadResumeExpired UthreadRuntime.uthreadResumeExpired
  rw [h.sched]
  cases hq : (s.sched a).p with
  | none => exact h.setPc a .lastReady
  | some q =>
    simp only [h.rbMin q]
    cases hmin : minSleeping s (s.p q).sleeping with
    | none => exact h.setPc a .lastReady
    | some u =>
      refine agrees_ite (by rw [h.ut]) (fun _ => ?_) fun _ => h.setPc a .lastReady
      exact h.resumeExpired hk hq (Tree.min_mem hmin)

theorem Rep.uthreadMinTimeout (h : Rep x s) (q : PId) (now now2 : Nat) :
    x.uthreadMinTimeout q now now2 = .ok (uthreadMinTimeout s (s.p q) now now2) := by
  unfold Concrete.uthreadMinTimeout UthreadRuntime.uthreadMinTimeout
  rw [h.rbMin q, h.ut]
  cases minSleeping s (s.p q).sleeping <;> rfl

/-- `_uthread_poll` waits as long as the first sleeper allows. -/
theorem Rep.uthreadPoll (h : Rep x s) (r : Reply) : Matches (x.uthreadPoll a r) (uthreadPoll a r s) := by
  unfold Concrete.uthreadPoll UthreadRuntime.uthreadPoll
  have hbound : x.rt.bound a .poll = s.bound a .poll := by
    rw [h.rt]
    rfl
  rw [hbound]
  refine (agrees_stopped _).bind fun q q' _ _ hqq => ?_
  subst hqq
  have hzero : Rep {x with rt := x.rt.setP q fun v => {v with numNewEvents := 0}}
      (s.setP q fun v => {v with numNewEvents := 0}) := by
    refine h.keep (SameMembers.setP rfl) ?_
    rw [h.rt]
    exact (hang_setP (fun _ _ => rfl) _ q s).symm
  simp only [hzero.uthreadMinTimeout]
  have hrt : x.rt.setP q (fun v => {v with numNewEvents := 0}) =
      (s.setP q fun v => {v with numNewEvents := 0}).bare := hzero.rt
  refine agrees_ite ?_ (fun _ => ?_) fun _ => hzero.setPc a .events
  · rw [(hzero.ready.holds q).isEmpty]
  · refine agrees_ite Iff.rfl (fun _ => ?_) fun _ => rfl
    refine agrees_ite ?_ (fun _ => ?_) fun _ => rfl
    · rw [hrt]
      exact Iff.rfl
    · have hpolled : SameMembers (s.setP q fun v => {v with numNewEvents := 0})
          (polled q r.events (s.setP q fun v => {v with numNewEvents := 0})) := SameMembers.setP rfl
      refine (hzero.keep hpolled ?_).setPc a .events
      rw [hrt]
      exact (hang_setP (g := fun v => {v with
        interest := disarm r.events v.interest
        eventlist := r.events
        numNewEvents := r.events.length
        posted := v.posted ++ r.events}) (fun _ _ => rfl) _ q _).symm

/-- `handle_event` finds the uthread by the key of the event. -/
theorem Rep.handleEvent (h : Rep x s) (hk : Hooked s) (fd : Int) (ev : UthreadEvent) (isEof : Bool)
    (k : SchedAt) : Matches (x.handleEvent a fd ev isEof k) (handleEvent a fd ev isEof k s) := by
  refine (h.deschedEvent hk fd ev.toNat).bind fun y t _ _ hyt => ?_
  obtain ⟨found, y⟩ := y
  obtain ⟨found', t⟩ := t
  obtain ⟨hfound, hyt⟩ := hyt
  dsimp only at hfound hyt ⊢
  subst hfound
  cases found with
  | none => exact hyt.setPc a k
  | some u =>
    refine agrees_ite (by rw [hyt.ut]) (fun _ => ?_) fun _ => rfl
    refine (hyt.epollDel u fd .handleEvent .eventDel).bind fun y' t' _ _ hyt' => ?_
    have hnoted : Rep {y' with rt := notedEvent u isEof y'.rt} (notedEvent u isEof t') :=
      hyt'.keep (show SameMembers t' (notedEvent u isEof t') from SameMembers.setUt rfl rfl)
        (congrArg (notedEvent u isEof) hyt'.rt)
    exact hnoted.resume a u k

theorem sameMembers_tookEvent (a : SId) (q : PId) (e : EpollEvent) (s : State) :
    SameMembers s (tookEvent a q e s) := by
  have hset : SameMembers s (s.setP q fun v =>
      {v with numNewEvents := v.numNewEvents - 1, taken := v.taken ++ [e]}) := SameMembers.setP rfl
  unfold tookEvent
  dsimp only
  split
  · exact hset.trans (SameMembers.of_eq rfl rfl rfl)
  · exact hset.trans (SameMembers.of_eq rfl rfl rfl)

theorem hang_tookEvent (l : PId → Members) (a : SId) (q : PId) (e : EpollEvent) (s : State) :
    (tookEvent a q e s).hang l = tookEvent a q e (s.hang l) := by
  have hset := hang_setP (g := fun v => {v with numNewEvents := v.numNewEvents - 1, taken := v.taken ++ [e]})
    (fun _ _ => rfl) l q s
  unfold tookEvent
  dsimp only
  rw [← hset]
  split <;> rfl

theorem Hooked.tookEvent (hk : Hooked s) (a : SId) (q : PId) (e : EpollEvent) :
    Hooked (UthreadRuntime.tookEvent a q e s) := by
  have hut : (UthreadRuntime.tookEvent a q e s).ut = s.ut := by
    unfold UthreadRuntime.tookEvent
    dsimp only
    split <;> rfl
  refine hk.congr (sameMembers_tookEvent a q e s).members (fun v => ?_) (fun v => ?_) (fun v => ?_) fun _ v _ => ?_
  all_goals rw [hut]
  exact id

theorem Rep.takeEvent (h : Rep x s) (hk : Hooked s) (q : PId) :
    Matches (x.takeEvent a q) (takeEvent a q s) := by
  have hentry : (x.rt.p q).eventlist[(x.rt.p q).numNewEvents - 1]? =
      (s.p q).eventlist[(s.p q).numNewEvents - 1]? := by
    rw [h.rt]
    rfl
  unfold Concrete.takeEvent UthreadRuntime.takeEvent
  dsimp only
  rw [hentry]
  cases (s.p q).eventlist[(s.p q).numNewEvents - 1]? with
  | none => rfl
  | some e =>
    have htook : Rep {x with rt := UthreadRuntime.tookEvent a q e x.rt} (UthreadRuntime.tookEvent a q e s) := by
      refine h.keep (sameMembers_tookEvent a q e s) ?_
      rw [h.rt]
      exact (hang_tookEvent _ a q e s).symm
    exact htook.handleEvent (hk.tookEvent a q e) e.fd .rd e.hup _

/-- What the loop does between its looks at the trees. -/
theorem sameMembers_schedRun {r : Reply} (hpc : (s.sched a).pc.touchesLinks = false)
    (hs : schedRun a r s = .ok s') : SameMembers s s' := by
  cases schedRun_ok hs with
  | goes _ | halted _ => exact SameMembers.of_eq rfl rfl rfl
  | another _ _ =>
    have hset : ∀ q, SameMembers s (s.setP q fun v => {v with tid := a}) := fun q => SameMembers.setP rfl
    exact (hset _).trans (SameMembers.of_eq rfl rfl rfl)
  | expired h | ready h | noPoll h | polled h | took h | handled h =>
    rw [h] at hpc
    cases hpc

/-- The loop over the ready queue reads its last uthread. -/
theorem Rep.lastReady (h : Rep x s) (hpc : (s.sched a).pc = .lastReady) (r : Reply) :
    Matches (x.schedRun a r) (schedRun a r s) := by
  unfold Concrete.schedRun UthreadRuntime.schedRun
  rw [h.sched, hpc]
  have hbound : x.rt.bound a .schedLastReady = s.bound a .schedLastReady := by
    rw [h.rt]
    rfl
  dsimp only
  rw [hbound]
  refine (agrees_stopped _).bind fun q q' _ _ hqq => ?_
  subst hqq
  rw [(h.ready.holds q).getLast?]
  exact h.setPc a _

/-- The loop over the ready queue takes its first uthread. -/
theorem Rep.takeReady (h : Rep x s) {last : Option UId} (hpc : (s.sched a).pc = .ready last) (r : Reply) :
    Matches (x.schedRun a r) (schedRun a r s) := by
  unfold Concrete.schedRun UthreadRuntime.schedRun
  rw [h.sched, hpc]
  have hbound : x.rt.bound a .schedReady = s.bound a .schedReady := by
    rw [h.rt]
    rfl
  dsimp only
  rw [hbound]
  refine (agrees_stopped _).bind fun q q' _ _ hqq => ?_
  subst hqq
  rw [(h.ready.holds q).first]
  cases hready : (s.p q).ready with
  | nil => exact h.setPc a .pollCheck
  | cons u rest =>
    obtain ⟨m, hrun, hm⟩ := h.ready.remove_first hready
    dsimp only [List.head?_cons]
    rw [hrun]
    have hlt : ∀ v ∈ rest, v < s.heap := by
      intro v hv
      have hmem : v ∈ (s.p q).ready := by
        rw [hready]
        exact List.mem_cons_of_mem u hv
      exact h.below (.inr (.inr hmem))
    exact (h.setReady hm hlt).resume a u (.readyAfter last u)

/-- **A step of the scheduler loop.** -/
theorem Rep.schedRun (h : Rep x s) (hk : Hooked s) (r : Reply) :
    Matches (x.schedRun a r) (schedRun a r s) := by
  have hblind : (s.sched a).pc.touchesLinks = false →
      Matches (x.rest (UthreadRuntime.schedRun a r x.rt)) (UthreadRuntime.schedRun a r s) :=
    fun hpc => h.rest (blind_schedRun r _ hpc) fun s' hs => sameMembers_schedRun hpc hs
  unfold Concrete.schedRun
  rw [h.sched]
  cases hpc : (s.sched a).pc with
  | top =>
    unfold UthreadRuntime.schedRun
    rw [hpc]
    dsimp only
    cases (s.sched a).p with
    | none => exact h.setPc a .done
    | some q =>
      dsimp only
      rw [h.schedWorkDone]
      exact h.setPc a _
  | expiry =>
    unfold UthreadRuntime.schedRun
    rw [hpc]
    exact h.uthreadResumeExpired hk r
  | lastReady =>
    have hrun := h.lastReady hpc r
    unfold Concrete.schedRun at hrun
    rwa [h.sched, hpc] at hrun
  | ready last =>
    have hrun := h.takeReady hpc r
    unfold Concrete.schedRun at hrun
    rwa [h.sched, hpc] at hrun
  | poll =>
    unfold UthreadRuntime.schedRun
    rw [hpc]
    exact h.uthreadPoll r
  | events =>
    unfold UthreadRuntime.schedRun
    rw [hpc]
    dsimp only
    cases (s.sched a).p with
    | none => exact h.setPc a .top
    | some q =>
      refine agrees_ite (by rw [h.rt]; exact Iff.rfl) (fun _ => h.setPc a .top) fun _ => ?_
      exact h.takeEvent hk q
  | handleWr fd eof =>
    unfold UthreadRuntime.schedRun
    rw [hpc]
    exact h.handleEvent hk fd .wr eof .events
  | _ =>
    refine hblind ?_
    rw [hpc]
    rfl

end Scheduler

end UthreadRuntime
