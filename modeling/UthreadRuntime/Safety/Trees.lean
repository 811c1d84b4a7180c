import UthreadRuntime.Safety.Records
import UthreadRuntime.Safety.Solo

/-! The trees of a p and the keys they are ordered by.

A uthread links itself, by a statement of its own, and sets the keys by which it is found; all
others only take it out. Most steps do neither. -/
namespace UthreadRuntime

open State

/-- No uthread was linked and no key has changed; sleepers may have been taken out. -/
structure KeepsLinks (s s' : State) : Prop where
  heap : s.heap ≤ s'.heap
  waiting : ∀ q, (s'.p q).waiting = (s.p q).waiting
  sleeping : ∀ q, (s'.p q).sleeping ⊆ (s.p q).sleeping
  key : ∀ v, v < s.heap → (s'.ut v).fdWait = (s.ut v).fdWait
  wake : ∀ v, v < s.heap → (s'.ut v).wakeupTimeUsec = (s.ut v).wakeupTimeUsec

namespace KeepsLinks

variable {s s' s'' : State} {a : SId} {u : UId}

theorem refl (s : State) : KeepsLinks s s :=
  ⟨Nat.le_refl _, fun _ => rfl, fun _ => List.Subset.refl _, fun _ _ => rfl, fun _ _ => rfl⟩

theorem trans (h : KeepsLinks s s') (h' : KeepsLinks s' s'') : KeepsLinks s s'' := by
  refine ⟨h.heap.trans h'.heap, fun q => (h'.waiting q).trans (h.waiting q),
    fun q => List.Subset.trans (h'.sleeping q) (h.sleeping q), fun v hv => ?_, fun v hv => ?_⟩
  · exact (h'.key v (Nat.lt_of_lt_of_le hv h.heap)).trans (h.key v hv)
  · exact (h'.wake v (Nat.lt_of_lt_of_le hv h.heap)).trans (h.wake v hv)

/-- Neither records nor p's differ. -/
theorem of_eq (hheap : s'.heap = s.heap) (hut : s'.ut = s.ut) (hp : s'.p = s.p) : KeepsLinks s s' := by
  refine ⟨Nat.le_of_eq hheap.symm, fun q => ?_, fun q => ?_, fun v _ => ?_, fun v _ => ?_⟩
  · rw [hp]
  · rw [hp]
    exact List.Subset.refl _
  · rw [hut]
  · rw [hut]

theorem setUt {f : Uthread → Uthread} (hkey : (f (s.ut u)).fdWait = (s.ut u).fdWait)
    (hwake : (f (s.ut u)).wakeupTimeUsec = (s.ut u).wakeupTimeUsec) : KeepsLinks s (s.setUt u f) :=
  ⟨Nat.le_refl _, fun _ => rfl, fun _ => List.Subset.refl _, fun v _ => setUt_keeps Uthread.fdWait hkey v,
    fun v _ => setUt_keeps Uthread.wakeupTimeUsec hwake v⟩

theorem setP {q : PId} {g : P → P} (hwaiting : (g (s.p q)).waiting = (s.p q).waiting)
    (hsleeping : (g (s.p q)).sleeping ⊆ (s.p q).sleeping) : KeepsLinks s (s.setP q g) := by
  refine ⟨Nat.le_refl _, setP_keeps P.waiting hwaiting, fun r => ?_, fun _ _ => rfl, fun _ _ => rfl⟩
  rw [setP_p]
  split
  · rename_i hr
    rw [hr]
    exact hsleeping
  · exact List.Subset.refl _

theorem goto (u : UId) (k : Ctx) (s : State) : KeepsLinks s (goto u k s) := setUt rfl rfl

theorem returns (a : SId) (u : UId) (x : Int) (s : State) : KeepsLinks s (returns a u x s) := setUt rfl rfl

theorem deschedSleep (h : uthreadDeschedSleep u s = .ok s') : KeepsLinks s s' := by
  rcases uthreadDeschedSleep_ok h with ⟨-, rfl⟩ | ⟨-, q, -, rfl⟩
  · exact refl s'
  · have hp : KeepsLinks s (s.setP q fun v => {v with sleeping := Tree.remove u v.sleeping}) :=
      setP rfl fun _ hv => (Tree.mem_remove.mp hv).1
    exact hp.trans (setUt rfl rfl)

theorem insertReady (q : PId) (u : UId) (s : State) : KeepsLinks s (insertReady q u s) :=
  setP rfl (List.Subset.refl _)

theorem wakeJoined (h : wakeJoined u s = .ok s') : KeepsLinks s s' := by
  rcases wakeJoined_ok h with ⟨-, rfl⟩ | ⟨j, q, s₁, -, hd, -, rfl⟩
  · exact refl s'
  · have hnote : KeepsLinks s₁ (s₁.setUt j fun v =>
        {v with hist := {v.hist with waits := .joined :: v.hist.waits}}) := setUt rfl rfl
    exact (deschedSleep hd).trans (hnote.trans (insertReady q j _))

theorem switched (h : uthreadSwitched a u s = .ok s') : KeepsLinks s s' := by
  have hidle : KeepsLinks s (idleCpu a s) := of_eq rfl rfl rfl
  rcases uthreadSwitched_ok h with ⟨-, s₁, hw, -, rfl⟩ | ⟨-, -, rfl⟩ | ⟨-, -, q, -, rfl⟩
  · refine hidle.trans ((wakeJoined hw).trans ?_)
    exact ⟨Nat.le_refl _, fun _ => rfl, fun _ => List.Subset.refl _,
      fun v _ => setUt_keeps Uthread.fdWait rfl v, fun v _ => setUt_keeps Uthread.wakeupTimeUsec rfl v⟩
  · exact hidle
  · exact hidle.trans (insertReady q u _)

theorem resume (a : SId) (u : UId) (k : SchedAt) (s : State) : KeepsLinks s (uthreadResume a u k s) := by
  have h₀ : KeepsLinks s (if (s.ut u).status.has .new then uthreadInit u s else s) := by
    split
    · exact setUt rfl rfl
    · exact refl s
  unfold uthreadResume
  generalize (if (s.ut u).status.has .new then uthreadInit u s else s) = s₀ at h₀ ⊢
  have h₁ : KeepsLinks s₀ (s₀.setSched a fun v => {v with curUthread := some u, pc := k}) := of_eq rfl rfl rfl
  have h₂ : ∀ t : State, KeepsLinks t (t.setUt u fun v => {v with isWatingYieldSignal := true}) :=
    fun t => setUt rfl rfl
  exact h₀.trans (h₁.trans ((h₂ _).trans (of_eq rfl rfl rfl)))

end KeepsLinks

/-- What a statement of `u` does to the trees and the keys. -/
inductive LinkStmt (u : UId) (now : Nat) (s s' : State) : Prop where
  | keeps : KeepsLinks s s' → LinkStmt u now s s'
  | own {k k' : Ctx} {f : Uthread → Uthread} : (s.ut u).ctx = k → Own now k f k' →
      s' = goto u k' (s.setUt u f) → LinkStmt u now s s'
  | sleeping {w : Wait} {q : PId} : (s.ut u).ctx = .sleep w .insert → (s.ut u).p = some q →
      s' = goto u (.sleep w .mark) (s.setP q fun v => {v with sleeping := u :: (s.p q).sleeping}) →
      LinkStmt u now s s'
  | waiting {c : IoCall} {q : PId} : (s.ut u).ctx = .register c .insert → (s.ut u).p = some q →
      (∀ v ∈ (s.p q).waiting, (s.ut v).fdWait ≠ (s.ut u).fdWait) →
      s' = goto u (.sleep (.event c) .clock) (s.setP q fun v => {v with waiting := u :: (s.p q).waiting}) →
      LinkStmt u now s s'

/-- **A statement links the uthread that executes it, or sets its keys, or leaves the trees alone.** -/
theorem Stmt.links {s s' : State} {a : SId} {u : UId} {r : Reply} (h : Stmt a u r s s') :
    LinkStmt u r.now s s' := by
  have herr : ∀ {s₀ : State}, (s₀ = s ∨ ∃ e, s₀ = setErrno a e s) → KeepsLinks s s₀ := by
    rintro s₀ (rfl | ⟨e, rfl⟩)
    · exact KeepsLinks.refl s₀
    · exact KeepsLinks.of_eq rfl rfl rfl
  have hgoto : ∀ {k : Ctx} {s₀ : State}, KeepsLinks s s₀ → LinkStmt u r.now s (goto u k s₀) :=
    fun h₀ => .keeps (h₀.trans (KeepsLinks.goto u _ _))
  have hret : ∀ {x : Int} {s₀ : State}, KeepsLinks s s₀ → LinkStmt u r.now s (returns a u x s₀) :=
    fun h₀ => .keeps (h₀.trans (KeepsLinks.returns a u _ _))
  have heq : ∀ {s₀ : State}, s₀.heap = s.heap → s₀.ut = s.ut → s₀.p = s.p → KeepsLinks s s₀ :=
    KeepsLinks.of_eq
  cases h with
  | own hctx hown => exact .own hctx hown rfl
  | io _ h₀ _ => exact hgoto (herr h₀)
  | ioReturns _ h₀ | diskCall _ h₀ => exact hret (herr h₀)
  | linkSleeping hctx hq ht =>
    obtain ⟨rfl, -⟩ := Tree.insert_eq_some ht
    exact .sleeping hctx hq rfl
  | @linkWaiting c q hctx hq =>
    cases ht : insertWaiting s u (s.p q).waiting with
    | none => exact hgoto (KeepsLinks.setP rfl (List.Subset.refl _))
    | some t =>
      obtain ⟨rfl, hne⟩ := Tree.insert_eq_some ht
      exact .waiting hctx hq hne rfl
  | watch _ _ _ =>
    have hforget : KeepsLinks s {s with consumed := Function.update s.consumed u false} := heq rfl rfl rfl
    exact hgoto (hforget.trans (KeepsLinks.setP rfl (List.Subset.refl _)))
  | publish _ | setRetval _ | unpublish _ | diskFlag _ _ => exact hgoto (KeepsLinks.setUt rfl rfl)
  | resetRetval _ => exact hret (KeepsLinks.setUt rfl rfl)
  | store _ =>
    rw [storeRetval_eq]
    exact hgoto (heq rfl rfl rfl)
  | switch _ _ hsw => exact .keeps ((KeepsLinks.goto u _ s).trans (KeepsLinks.switched hsw))
  | @created _ id p q _ _ =>
    have hlt : ∀ v, v < s.heap → Function.update s.ut s.heap
        {id := id, status := .only .new, p := p, fdWait := -1, isWatingYieldSignal := true, life := .live} v =
          s.ut v :=
      fun v hv => Function.update_of_ne (Nat.ne_of_lt hv) _ _
    have hnew : KeepsLinks s {s with
        ut := Function.update s.ut s.heap
          {id := id, status := .only .new, p := p, fdWait := -1, isWatingYieldSignal := true, life := .live}
        heap := s.heap + 1} := by
      refine ⟨Nat.le_succ _, fun _ => rfl, fun _ => List.Subset.refl _, fun v hv => ?_, fun v hv => ?_⟩
      · exact congrArg Uthread.fdWait (hlt v hv)
      · exact congrArg Uthread.wakeupTimeUsec (hlt v hv)
    exact hret (hnew.trans (KeepsLinks.insertReady q s.heap _))
  | @handOff c n q rest _ _ _ _ =>
    refine hgoto ⟨Nat.le_refl _, fun r => ?_, fun r => ?_, fun _ _ => rfl, fun _ _ => rfl⟩
    · rw [handedOff_p]
      split
      · rename_i hr
        rw [hr]
      · rfl
    · rw [handedOff_p]
      split
      · rename_i hr
        rw [hr]
        exact List.Subset.refl _
      · exact List.Subset.refl _
  | moves _ => exact hgoto (heq rfl rfl rfl)
  | lock _ _ | count _ | unlock _ => exact hgoto (heq rfl rfl rfl)
  | joinFails _ | joinExited _ _ | joinFree _ | allocFails _ _ => exact hret (heq rfl rfl rfl)

theorem Entered.keepsLinks {s s' : State} {a : SId} {u : UId} {c : Call} (h : Entered a u s c s') :
    KeepsLinks s s' := by
  have hent : KeepsLinks s (entered u c s) := KeepsLinks.setUt rfl rfl
  cases h with
  | goes _ _ _ => exact hent.trans (KeepsLinks.goto u _ _)
  | detach _ => exact hent.trans ((KeepsLinks.setUt rfl rfl).trans (KeepsLinks.returns a u 0 _))
  | @close fd =>
    have hclose : ∀ t, KeepsLinks t (closeFd fd t) :=
      fun _ => ⟨Nat.le_refl _, fun _ => rfl, fun _ => List.Subset.refl _, fun _ _ => rfl, fun _ _ => rfl⟩
    exact hent.trans ((hclose _).trans (KeepsLinks.returns a u 0 _))

/-! ### Wake-up times -/

/-- Nobody asks to sleep for more than ten seconds, unless for ever. -/
theorem Wait.mescs_le (w : Wait) : w.mescs ≤ 10000 := by
  cases w with
  | join t v => exact Nat.le_refl _
  | event c =>
    show c.timeout ≤ 10000
    unfold IoCall.timeout
    split <;> omega

def SameWakes (s s' : State) : Prop := ∀ v, (s'.ut v).wakeupTimeUsec = (s.ut v).wakeupTimeUsec

theorem SameWakes.transparent : Transparent SameWakes where
  refl _ _ := rfl
  trans h h' v := (h' v).trans (h v)
  setUt _ _ _ hf v := setUt_keeps Uthread.wakeupTimeUsec (hf.wakeupTimeUsec _) v
  setP _ _ _ _ := rfl
  setSched _ _ _ _ := rfl
  timer _ _ _ := rfl
  consumed _ _ _ := rfl
  halted _ _ _ := rfl

/-- A statement sets no wake-up time but that of the uthread which executes it, from the clock. -/
theorem Stmt.wake {s s' : State} {a : SId} {u v : UId} {r : Reply} (h : Stmt a u r s s') (hv : v < s.heap) :
    (s'.ut v).wakeupTimeUsec = (s.ut v).wakeupTimeUsec ∨
    ∃ w, v = u ∧ (s.ut u).ctx = .sleep w .clock ∧ (s'.ut v).wakeupTimeUsec = wakeupTime r.now w.mescs := by
  cases h.links with
  | keeps hk => exact .inl (hk.wake v hv)
  | @own k k' f hctx hown heq =>
    by_cases hvu : v = u
    · subst hvu
      have hwake : (s'.ut v).wakeupTimeUsec = (f (s.ut v)).wakeupTimeUsec := by
        rw [heq]
        unfold goto
        rw [setUt_ut_self, setUt_ut_self]
      rw [hwake]
      cases hown with
      | clock w => exact .inr ⟨w, rfl, hctx, rfl⟩
      | _ => exact .inl rfl
    · left
      rw [heq, goto_ut_of_ne hvu, setUt_ut, if_neg hvu]
  | sleeping _ _ heq | waiting _ _ _ heq =>
    left
    rw [heq]
    unfold goto
    exact setUt_keeps Uthread.wakeupTimeUsec rfl v

/-- **A wake-up time changes only where the clock is read for it.** -/
theorem step_wake {s s' : State} {act : Act} (hs : step s act = .ok s') {v : UId} (hv : v < s.heap) :
    (s'.ut v).wakeupTimeUsec = (s.ut v).wakeupTimeUsec ∨
    ∃ b r w, act = .stmt b r ∧ (s.sched b).curUthread = some v ∧ (s.ut v).ctx = .sleep w .clock ∧
      (s'.ut v).wakeupTimeUsec = wakeupTime r.now w.mescs := by
  cases step_ok hs with
  | call _ _ hent => exact .inl (hent.keepsLinks.wake v hv)
  | @stmt b r u _ hc hst =>
    rcases hst.wake hv with hkept | ⟨w, rfl, hctx, hwake⟩
    · exact .inl hkept
    · exact .inr ⟨b, r, w, rfl, hc, hctx, hwake⟩
  | @preempt b u _ _ _ hsw =>
    left
    rw [(KeepsLinks.switched hsw).wake v hv]
    exact setUt_keeps Uthread.wakeupTimeUsec rfl v
  | sched _ hss => exact .inl (SameWakes.transparent.schedStep hss v)

/-- What holds of `0` and of every wake-up time that is set holds of every record. -/
theorem wakes_of_reaches {C : State → Act → Prop} {W : Nat → Prop} {s : State} (h : Reaches C s)
    (hzero : W 0)
    (hset : ∀ t b r v w, C t (.stmt b r) → (t.sched b).curUthread = some v → (t.ut v).ctx = .sleep w .clock →
      W (wakeupTime r.now w.mescs)) : ∀ v < s.heap, W (s.ut v).wakeupTimeUsec := by
  have hinv : Sound s ∧ ∀ v < s.heap, W (s.ut v).wakeupTimeUsec := by
    refine Run.Reaches.invariant (I := fun t => Sound t ∧ ∀ v < t.heap, W (t.ut v).wakeupTimeUsec) h
      ⟨Sound.initial, fun v hv => ?_⟩ fun t act t' ht hc hs => ⟨ht.1.step hs, fun v hv => ?_⟩
    · obtain rfl : v = 0 := Nat.lt_one_iff.mp hv
      exact hzero
    · rcases step_born ht.1 hs hv with hlt | ⟨-, -, hnew⟩
      · rcases step_wake hs hlt with hkept | ⟨b, r, w, rfl, hb, hctx, hwake⟩
        · rw [hkept]
          exact ht.2 v hlt
        · rw [hwake]
          exact hset t b r v w hc hb hctx
      · rw [hnew]
        exact hzero
  exact hinv.2

/-! ### The steps beside the loop that has a p -/

/-- One sched has a p. -/
theorem Sound.unbound_of_ne {s : State} {a b : SId} {q : PId} (h : Sound s) (ha : (s.sched a).p = some q)
    (hb : b ≠ a) : (s.sched b).p = none := by
  cases hp : (s.sched b).p with
  | none => rfl
  | some q' =>
    rw [h.one ha] at ha
    rw [h.one hp] at hp
    exact absurd (h.bound_inj hp ha) hb

/-- A step that is no turn of the one loop that has a p is a uthread's, or leaves records and
p's alone. -/
theorem step_beside {s s' : State} {act : Act} {a : SId} {q : PId} (hsnd : Sound s)
    (hs : step s act = .ok s') (hq : (s.sched a).p = some q) (hturn : ∀ r, act ≠ .sched a r) :
    KeepsLinks s s' ∨
    ∃ b r u, act = .stmt b r ∧ (s.sched b).curUthread = some u ∧ Stmt b u r s s' := by
  cases step_ok hs with
  | call _ _ hent => exact .inl hent.keepsLinks
  | stmt hc hst => exact .inr ⟨_, _, _, rfl, hc, hst⟩
  | @preempt b u s' _ _ hsw =>
    have hflag : KeepsLinks s (s.setUt u fun v => {v with isWatingYieldSignal := false}) :=
      KeepsLinks.setUt rfl rfl
    exact .inl (hflag.trans (KeepsLinks.switched hsw))
  | @sched b r s' hc hss =>
    have hba : b ≠ a := by
      rintro rfl
      exact hturn r rfl
    obtain ⟨hut, hp, hheap, -⟩ := hss.unbound (hsnd.unbound_of_ne hq hba)
    exact .inl (KeepsLinks.of_eq hheap hut hp)

/-- Nor does it put a uthread on a thread. -/
theorem step_runs_beside {s s' : State} {act : Act} {a c : SId} {q : PId} {x : UId} (hsnd : Sound s)
    (hs : step s act = .ok s') (hq : (s.sched a).p = some q) (hturn : ∀ r, act ≠ .sched a r)
    (hc : (s'.sched c).curUthread = some x) : (s.sched c).curUthread = some x := by
  rcases step_runs hs hc with hc' | ⟨r, rfl⟩
  · exact hc'
  · have hca : c ≠ a := by
      rintro rfl
      exact hturn r rfl
    cases step_ok hs with
    | sched _ hss =>
      obtain ⟨-, -, -, hcur⟩ := hss.unbound (hsnd.unbound_of_ne hq hca)
      exact hcur.symm.trans hc

end UthreadRuntime
