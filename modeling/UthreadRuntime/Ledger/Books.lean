import UthreadRuntime.Safety.Transfers
import UthreadRuntime.Safety.Marks
import UthreadRuntime.Safety.Records

/-! The books the runtime keeps of its uthreads.

`n_uthread` counts them, `next_ut_id` is the id of the next one, `bitmap_ut` has a slot for
each id. `BookStep` lists the statements that write them, with what happens to the records
in the same statement; `step_books` says that there are no others. -/
namespace UthreadRuntime

open State

/-- The id a `uthread_create` in progress has taken for its new uthread. -/
def Ctx.taken : Ctx → Option Nat
  | .create _ (.unlock id) | .create _ (.stack id) | .create _ (.bind id) | .create _ (.insert id _) => some id
  | _ => none

structure SameBooks (s s' : State) : Prop where
  count : s'.nUthread = s.nUthread
  slots : s'.bitmapUt = s.bitmapUt
  next : s'.nextUtId = s.nextUtId
  heap : s'.heap = s.heap

/-- No record was made or released, and no creation has come to another statement of the books. -/
def SameLives (s s' : State) : Prop :=
  ∀ v < s.heap, (s'.ut v).life = (s.ut v).life ∧ (s'.ut v).ctx.taken = (s.ut v).ctx.taken

/-- The same but for the creation of `u`. -/
def SameLivesBut (u : UId) (s s' : State) : Prop :=
  ∀ v < s.heap, (s'.ut v).life = (s.ut v).life ∧ (v ≠ u → (s'.ut v).ctx.taken = (s.ut v).ctx.taken)

/-- What an action does to the books. -/
inductive BookStep (s s' : State) : Act → Prop where
  | same {act : Act} : SameBooks s s' → SameLives s s' → BookStep s s' act
  | count {a : SId} {r : Reply} {u : UId} {c : SId} : (s.sched a).curUthread = some u →
      (s.ut u).ctx = .create c .count → (s'.ut u).ctx.taken = some s.nextUtId →
      s'.nUthread = (s.nUthread + 1) % 2 ^ 32 →
      s'.bitmapUt = Function.update s.bitmapUt s.nextUtId true →
      s'.nextUtId = nextId s.nextUtId → s'.heap = s.heap → SameLivesBut u s s' →
      BookStep s s' (.stmt a r)
  | created {a : SId} {r : Reply} {u : UId} {id : Nat} : (s.sched a).curUthread = some u →
      (s.ut u).ctx.taken = some id → (s'.ut u).ctx.taken = none →
      s'.nUthread = s.nUthread → s'.bitmapUt = s.bitmapUt → s'.nextUtId = s.nextUtId →
      s'.heap = s.heap + 1 → (s'.ut s.heap).marks = Marks.created id →
      (s'.ut s.heap).ctx.taken = none → SameLivesBut u s s' → BookStep s s' (.stmt a r)
  | lost {a : SId} {r : Reply} {u : UId} {c : SId} {id : Nat} : (s.sched a).curUthread = some u →
      (s.ut u).ctx = .create c (.stack id) → r.ok = false → (s'.ut u).ctx.taken = none → SameBooks s s' →
      SameLivesBut u s s' → BookStep s s' (.stmt a r)
  | slot {a : SId} {r : Reply} {u t : UId} (b : Bool) : (s.sched a).curUthread = some u →
      (∃ v pc, (s.ut u).ctx = .join t v pc) →
      s'.nUthread = s.nUthread → s'.bitmapUt = Function.update s.bitmapUt (s.ut t).id b →
      s'.nextUtId = s.nextUtId → s'.heap = s.heap → SameLives s s' → BookStep s s' (.stmt a r)
  | freed {act : Act} {u : UId} : (∀ a r, act ≠ .sched a r) → (s.sched act.thread).curUthread = some u →
      (s.ut u).status.has .exited = true → (s'.ut u).life = .freed →
      s'.nUthread = (s.nUthread + (2 ^ 32 - 1)) % 2 ^ 32 →
      s'.bitmapUt = (if (s.ut u).status.has .detached then
        Function.update s.bitmapUt (s.ut u).id false else s.bitmapUt) →
      s'.nextUtId = s.nextUtId → s'.heap = s.heap →
      (∀ v < s.heap, (v ≠ u → (s'.ut v).life = (s.ut v).life) ∧
        (s'.ut v).ctx.taken = (s.ut v).ctx.taken) → BookStep s s' act

theorem SameBooks.refl (s : State) : SameBooks s s := ⟨rfl, rfl, rfl, rfl⟩

theorem SameBooks.trans {s s' s'' : State} (h : SameBooks s s') (h' : SameBooks s' s'') : SameBooks s s'' :=
  ⟨h'.count.trans h.count, h'.slots.trans h.slots, h'.next.trans h.next, h'.heap.trans h.heap⟩

/-- The scheduler keeps no books. -/
theorem SameBooks.transparent : Transparent SameBooks where
  refl := SameBooks.refl
  trans := SameBooks.trans
  setUt _ _ _ _ := ⟨rfl, rfl, rfl, rfl⟩
  setP _ _ _ := ⟨rfl, rfl, rfl, rfl⟩
  setSched _ _ _ := ⟨rfl, rfl, rfl, rfl⟩
  timer _ _ := ⟨rfl, rfl, rfl, rfl⟩
  consumed _ _ := ⟨rfl, rfl, rfl, rfl⟩
  halted _ _ := ⟨rfl, rfl, rfl, rfl⟩

/-! ### The statements -/

section Step

variable {s s' : State} {a : SId} {u : UId}

@[simp] theorem goto_life (k : Ctx) (v : UId) : ((goto u k s).ut v).life = (s.ut v).life :=
  setUt_keeps Uthread.life rfl v

@[simp] theorem returns_life (x : Int) (v : UId) : ((returns a u x s).ut v).life = (s.ut v).life :=
  setUt_keeps Uthread.life rfl v

theorem Own.taken {now : Nat} {k k' : Ctx} {f : Uthread → Uthread} (h : Own now k f k') :
    k.taken = none ∧ k'.taken = none := by
  cases h with
  | wake w => cases w <;> exact ⟨rfl, rfl⟩
  | _ => exact ⟨rfl, rfl⟩

theorem Own.life {now : Nat} {k k' : Ctx} {f : Uthread → Uthread} (h : Own now k f k') (r : Uthread) :
    (f r).life = r.life := by
  cases h <;> rfl

theorem Moves.taken {r : Reply} {k k' : Ctx} (h : Moves a u r s k k') : k'.taken = k.taken := by
  cases h <;> rfl

theorem Switches.taken {k k' : Ctx} (h : Switches k k') : k.taken = none ∧ k'.taken = none := by
  cases h <;> exact ⟨rfl, rfl⟩

theorem Ctx.AtIo.taken {k : Ctx} (h : k.AtIo) : k.taken = none := by
  rcases h with ⟨c, pc, rfl⟩ | ⟨c, rfl⟩ <;> rfl

/-- A uthread that switches away is freed if it has exited, and the books note it. -/
theorem uthreadSwitched_books (hs : uthreadSwitched a u s = .ok s') :
    (SameBooks s s' ∧ ∀ v, (s'.ut v).life = (s.ut v).life) ∨
    ((s.ut u).status.has .exited = true ∧ (s'.ut u).life = .freed ∧
      s'.nUthread = (s.nUthread + (2 ^ 32 - 1)) % 2 ^ 32 ∧
      s'.bitmapUt = (if (s.ut u).status.has .detached then
        Function.update s.bitmapUt (s.ut u).id false else s.bitmapUt) ∧
      s'.nextUtId = s.nextUtId ∧ s'.heap = s.heap ∧
      ∀ v, v ≠ u → (s'.ut v).life = (s.ut v).life) := by
  rcases uthreadSwitched_ok hs with ⟨he, s₁, hw, -, rfl⟩ | ⟨-, -, rfl⟩ | ⟨-, -, q, -, rfl⟩
  · right
    have hi : SameMarks s (idleCpu a s) := SameMarks.of_eq rfl
    have hm : SameMarks s s₁ := hi.trans (SameMarks.wakeJoined hw)
    have hib : SameBooks s (idleCpu a s) := ⟨rfl, rfl, rfl, rfl⟩
    have hb : SameBooks s s₁ := hib.trans (SameBooks.transparent.wakeJoined hw)
    have hdet : (s₁.ut u).status.has .detached = (s.ut u).status.has .detached :=
      congrArg Marks.detached (hm u)
    have hid : (s₁.ut u).id = (s.ut u).id := congrArg Marks.id (hm u)
    refine ⟨he, ?_, ?_, ?_, hb.next, hb.heap, fun v hv => ?_⟩
    · simp [freed]
    · show (s₁.nUthread + (2 ^ 32 - 1)) % 2 ^ 32 = _
      rw [hb.count]
    · show (if (s₁.ut u).status.has .detached then
        Function.update s₁.bitmapUt (s₁.ut u).id false else s₁.bitmapUt) = _
      rw [hdet, hid, hb.slots]
    · have hlife : (s₁.ut v).life = (s.ut v).life := congrArg Marks.life (hm v)
      unfold freed
      rw [setUt_ut, if_neg hv]
      exact hlife
  · exact .inl ⟨⟨rfl, rfl, rfl, rfl⟩, fun _ => rfl⟩
  · exact .inl ⟨⟨rfl, rfl, rfl, rfl⟩, fun _ => rfl⟩

/-- The switch of a uthread that stands in no creation. -/
theorem BookStep.switch {act : Act} {f : Uthread → Uthread} (hns : ∀ b r, act ≠ .sched b r)
    (hc : (s.sched act.thread).curUthread = some u)
    (hf : ∀ x, (f x).marks = x.marks) (htaken : (f (s.ut u)).ctx.taken = (s.ut u).ctx.taken)
    (hs : uthreadSwitched a u (s.setUt u f) = .ok s') : BookStep s s' act := by
  have hm : SameMarks s (s.setUt u f) := SameMarks.setUt (hf _)
  have hlife : ∀ v, ((s.setUt u f).ut v).life = (s.ut v).life := fun v => congrArg Marks.life (hm v)
  have hctx : ∀ v, (s'.ut v).ctx.taken = (s.ut v).ctx.taken := by
    intro v
    rw [(AllSeen.switched hs v).ctx, setUt_ut]
    split
    · rename_i hv
      rw [hv]
      exact htaken
    · rfl
  rcases uthreadSwitched_books hs with ⟨hb, hl⟩ | ⟨he, hfr, hn, hbit, hnext, hheap, hl⟩
  · exact .same ⟨hb.count, hb.slots, hb.next, hb.heap⟩ fun v _ => ⟨(hl v).trans (hlife v), hctx v⟩
  · have he' : (s.ut u).status.has .exited = true := (congrArg Marks.exited (hm u)).symm.trans he
    have hdet : ((s.setUt u f).ut u).status.has .detached = (s.ut u).status.has .detached :=
      congrArg Marks.detached (hm u)
    have hid : ((s.setUt u f).ut u).id = (s.ut u).id := congrArg Marks.id (hm u)
    rw [hdet, hid] at hbit
    exact .freed hns hc he' hfr hn hbit hnext hheap fun v _ =>
      ⟨fun hv => (hl v hv).trans (hlife v), hctx v⟩

theorem Stmt.books {r : Reply} (hu : u < s.heap) (hc : (s.sched a).curUthread = some u)
    (hs : Stmt a u r s s') : BookStep s s' (.stmt a r) := by
  have hothers : ∀ v < s.heap, v ≠ u → (s'.ut v).ctx.taken = (s.ut v).ctx.taken :=
    fun v hv hvu => by rw [(hs.others hvu hv).ctx]
  have hbut : (∀ v < s.heap, (s'.ut v).life = (s.ut v).life) → SameLivesBut u s s' :=
    fun hl v hv => ⟨hl v hv, hothers v hv⟩
  have hlives : (∀ v, (s'.ut v).life = (s.ut v).life) → (s'.ut u).ctx.taken = (s.ut u).ctx.taken →
      SameLives s s' := by
    intro hl ht v hv
    refine ⟨hl v, ?_⟩
    by_cases hvu : v = u
    · rw [hvu]
      exact ht
    · exact hothers v hv hvu
  -- a statement that leaves the books and the lives alone, and the id in the hands of `u`
  have hgoto : ∀ {k' : Ctx} {s₀ : State}, s' = goto u k' s₀ → SameBooks s s₀ →
      (∀ v, (s₀.ut v).life = (s.ut v).life) → k'.taken = (s.ut u).ctx.taken → BookStep s s' (.stmt a r) := by
    rintro k' s₀ rfl hb hl ht
    refine .same ⟨hb.count, hb.slots, hb.next, hb.heap⟩ (hlives (fun v => (goto_life k' v).trans (hl v)) ?_)
    rw [goto_ctx]
    exact ht
  have hret : ∀ {x : Int} {s₀ : State}, s' = returns a u x s₀ → SameBooks s s₀ →
      (∀ v, (s₀.ut v).life = (s.ut v).life) → (s.ut u).ctx.taken = none → BookStep s s' (.stmt a r) := by
    rintro x s₀ rfl hb hl ht
    refine .same ⟨hb.count, hb.slots, hb.next, hb.heap⟩ (hlives (fun v => (returns_life x v).trans (hl v)) ?_)
    rw [returns_ctx, ht]
    rfl
  have herr : ∀ {s₀ : State}, (s₀ = s ∨ ∃ e, s₀ = setErrno a e s) →
      SameBooks s s₀ ∧ ∀ v, (s₀.ut v).life = (s.ut v).life := by
    rintro s₀ (rfl | ⟨e, rfl⟩) <;> exact ⟨⟨rfl, rfl, rfl, rfl⟩, fun _ => rfl⟩
  cases hs with
  | own hctx hown =>
    refine hgoto rfl ⟨rfl, rfl, rfl, rfl⟩ (setUt_keeps Uthread.life (hown.life _)) ?_
    rw [hctx, hown.taken.1, hown.taken.2]
  | moves hm => exact hgoto rfl ⟨rfl, rfl, rfl, rfl⟩ (fun _ => rfl) hm.taken
  | io hctx h₀ hk =>
    obtain ⟨hb, hl⟩ := herr h₀
    refine hgoto rfl hb hl ?_
    rw [hctx, hk.taken]
    rfl
  | ioReturns hctx h₀ | diskCall hctx h₀ =>
    obtain ⟨hb, hl⟩ := herr h₀
    exact hret rfl hb hl (by rw [hctx]; rfl)
  | linkSleeping hctx _ _ | watch hctx _ _ | linkWaiting hctx _ | lock hctx _ | unlock hctx
  | handOff hctx _ _ _ =>
    exact hgoto rfl ⟨rfl, rfl, rfl, rfl⟩ (fun _ => rfl) (by rw [hctx]; rfl)
  | publish hctx | setRetval hctx | unpublish hctx | diskFlag hctx _ =>
    exact hgoto rfl ⟨rfl, rfl, rfl, rfl⟩ (setUt_keeps Uthread.life rfl) (by rw [hctx]; rfl)
  | joinFails hctx => exact hret rfl ⟨rfl, rfl, rfl, rfl⟩ (fun _ => rfl) (by rw [hctx]; rfl)
  | resetRetval hctx =>
    exact hret rfl ⟨rfl, rfl, rfl, rfl⟩ (setUt_keeps Uthread.life rfl) (by rw [hctx]; rfl)
  | joinExited hctx _ =>
    refine .slot true hc ⟨_, _, hctx⟩ rfl rfl rfl rfl (hlives (fun v => returns_life _ v) ?_)
    rw [returns_ctx, hctx]
    rfl
  | joinFree hctx =>
    refine .slot false hc ⟨_, _, hctx⟩ rfl rfl rfl rfl (hlives (fun v => returns_life _ v) ?_)
    rw [returns_ctx, hctx]
    rfl
  | @store x hctx =>
    have hsame : SameBooks s (storeRetval u (x.getD 0) s) := by
      rw [storeRetval_eq]
      exact ⟨rfl, rfl, rfl, rfl⟩
    exact hgoto rfl hsame (fun v => by rw [storeRetval_ut]) (by rw [hctx]; rfl)
  | @switch k k' s' hctx hk hsw =>
    refine BookStep.switch (f := fun v => {v with ctx := k'}) (by simp) hc (fun _ => rfl) ?_ hsw
    rw [hctx, hk.taken.1]
    exact hk.taken.2
  | allocFails hctx hr =>
    rcases hctx with ⟨c, hctx⟩ | ⟨c, id, hctx⟩
    · exact hret rfl ⟨rfl, rfl, rfl, rfl⟩ (fun _ => rfl) (by rw [hctx]; rfl)
    · refine .lost hc hctx hr ?_ ⟨rfl, rfl, rfl, rfl⟩ (hbut fun v _ => returns_life _ v)
      rw [returns_ctx]
      rfl
  | count hctx =>
    refine .count hc hctx ?_ rfl rfl rfl rfl (hbut fun v _ => goto_life _ v)
    rw [goto_ctx]
    rfl
  | @created c id p q hctx _ =>
    have hne : s.heap ≠ u := fun he => Nat.lt_irrefl _ (he ▸ hu)
    have hnew : (returns a u 0 (UthreadRuntime.created q id p s)).ut s.heap =
        {id := id, status := .only .new, p := p, fdWait := -1, isWatingYieldSignal := true, life := .live} := by
      unfold returns UthreadRuntime.created insertReady
      rw [setUt_ut, if_neg hne, setP_ut]
      simp
    have htaken : (s.ut u).ctx.taken = some id := by
      rw [hctx]
      rfl
    refine .created hc htaken ?_ rfl rfl rfl rfl ?_ ?_ (hbut fun v hv => ?_)
    · rw [returns_ctx]
      rfl
    · rw [hnew]
      simp [Uthread.marks, Marks.created]
    · rw [hnew]
      rfl
    · rw [returns_life, created_ut_of_lt hv]

theorem Call.head_taken (c : Call) : c.head.taken = none := by
  cases c <;> rfl

theorem Entered.books {c : Call} (hctx : (s.ut u).ctx = .user) (hs : Entered a u s c s') :
    BookStep s s' (.call a c) := by
  have hcall : ∀ v, v ≠ u → (s'.ut v).ctx.taken = (s.ut v).ctx.taken :=
    fun v hv => by rw [(hs.others hv).ctx]
  have hlives : (∀ v, (s'.ut v).life = (s.ut v).life) → (s'.ut u).ctx.taken = none → SameLives s s' := by
    intro hl ht v _
    refine ⟨hl v, ?_⟩
    by_cases hv : v = u
    · rw [hv, ht, hctx]
      rfl
    · exact hcall v hv
  cases hs with
  | goes _ _ _ =>
    refine .same ⟨rfl, rfl, rfl, rfl⟩ (hlives (fun v => ?_) ?_)
    · rw [goto_life, entered_life]
    · rw [goto_ctx, Call.head_taken]
  | detach _ =>
    refine .same ⟨rfl, rfl, rfl, rfl⟩ (hlives (fun v => ?_) ?_)
    · rw [returns_life, setUt_keeps Uthread.life rfl, entered_life]
    · rw [returns_ctx]
      rfl
  | close =>
    refine .same ⟨rfl, rfl, rfl, rfl⟩ (hlives (fun v => ?_) ?_)
    · rw [returns_life, closeFd_ut, entered_life]
    · rw [returns_ctx]
      rfl

/-- **The books are written by these statements only.** -/
theorem step_books {act : Act} (h : Sound s) (hs : step s act = .ok s') : BookStep s s' act := by
  have hstep := hs
  cases step_ok hs with
  | call _ hctx hent => exact hent.books hctx
  | stmt hc hstmt => exact hstmt.books (h.cur hc).1 hc
  | preempt hc _ hsw =>
    exact BookStep.switch (f := fun v => {v with isWatingYieldSignal := false}) (by simp) hc
      (fun _ => rfl) rfl hsw
  | @sched a r s' hc hsched =>
    refine .same (SameBooks.transparent.schedStep hsched) fun v hv => ⟨?_, ?_⟩
    · have hm := hsched.marks h v
      have hlife : ∀ {m}, MarkStep s s' v (.sched a r) m → m.life = (s.ut v).life := by
        intro m hm
        cases hm with
        | freed _ hns _ => exact absurd rfl (hns a r)
        | resumed _ _ _ =>
          unfold Marks.resumed
          split <;> rfl
        | _ => rfl
      exact hlife hm
    · rw [(step_others h hstep hv fun hns => absurd rfl (hns a r)).ctx]

/-- The id of a record is set when it is made. -/
theorem step_id {act : Act} (h : Sound s) (hs : step s act = .ok s') {v : UId} (hv : v < s.heap) :
    (s'.ut v).id = (s.ut v).id := by
  have hid : ∀ {m}, MarkStep s s' v act m → m.id = (s.ut v).id := by
    intro m hm
    cases hm with
    | resumed _ _ _ =>
      unfold Marks.resumed
      split <;> rfl
    | _ => rfl
  exact hid (step_marks h hs hv)

/-- A record is released when its uthread has exited and switches away. -/
theorem step_life {act : Act} (hsnd : Sound s) (hs : step s act = .ok s') {t : UId} (ht : t < s.heap) :
    (s'.ut t).life = (s.ut t).life ∨ ((s'.ut t).life = .freed ∧ (s.ut t).status.has .exited = true ∧
      (∀ a rp, act ≠ .sched a rp) ∧ (s.sched act.thread).curUthread = some t) := by
  have hm : ∀ {m}, MarkStep s s' t act m → m.life = (s.ut t).life ∨ (m.life = .freed ∧
      (s.ut t).status.has .exited = true ∧ (∀ a rp, act ≠ .sched a rp) ∧
      (s.sched act.thread).curUthread = some t) := by
    intro m hm
    cases hm with
    | freed hc hns he => exact .inr ⟨rfl, he, hns, hc⟩
    | resumed _ _ _ =>
      refine .inl ?_
      unfold Marks.resumed
      split <;> rfl
    | _ => exact .inl rfl
  exact hm (step_marks hsnd hs ht)

theorem step_heap_le {act : Act} (h : Sound s) (hs : step s act = .ok s') :
    s.heap ≤ s'.heap := by
  cases step_books h hs with
  | same hb _ => exact Nat.le_of_eq hb.heap.symm
  | count _ _ _ _ _ _ hheap _ => exact Nat.le_of_eq hheap.symm
  | created _ _ _ _ _ _ hheap _ _ _ => rw [hheap]; exact Nat.le_succ _
  | lost _ _ _ _ hb _ => exact Nat.le_of_eq hb.heap.symm
  | slot _ _ _ _ _ _ hheap _ => exact Nat.le_of_eq hheap.symm
  | freed _ _ _ _ _ _ _ hheap _ => exact Nat.le_of_eq hheap.symm

/-- A record that a step adds is that of a uthread just created. -/
theorem step_new {act : Act} (h : Sound s) (hs : step s act = .ok s') {t : UId} (ht : t < s'.heap)
    (hnew : ¬t < s.heap) : t = s.heap ∧ ∃ id, (s'.ut t).marks = Marks.created id := by
  cases step_books h hs with
  | same hb _ => exact absurd (hb.heap ▸ ht) hnew
  | count _ _ _ _ _ _ hheap _ => exact absurd (hheap ▸ ht) hnew
  | @created _ _ _ id _ _ _ _ _ _ hheap hmarks _ _ =>
    rw [hheap] at ht
    obtain rfl : t = s.heap := Nat.le_antisymm (Nat.le_of_lt_succ ht) (Nat.le_of_not_lt hnew)
    exact ⟨rfl, id, hmarks⟩
  | lost _ _ _ _ hb _ => exact absurd (hb.heap ▸ ht) hnew
  | slot _ _ _ _ _ _ hheap _ => exact absurd (hheap ▸ ht) hnew
  | freed _ _ _ _ _ _ _ hheap _ => exact absurd (hheap ▸ ht) hnew

end Step

/-! ### Released records -/

/-- The record of a uthread is released when it has exited. -/
def FreedExited (s : State) : Prop :=
  ∀ t < s.heap, (s.ut t).life = .freed → (s.ut t).status.has .exited = true

theorem FreedExited.step {s s' : State} {act : Act} (h : FreedExited s) (hsnd : Sound s)
    (hs : step s act = .ok s') : FreedExited s' := by
  intro t ht hl
  by_cases hold : t < s.heap
  · have hm : ∀ {m}, MarkStep s s' t act m → m.life = .freed → m.exited = true := by
      intro m hm hl
      cases hm with
      | same => exact h t hold hl
      | exits _ _ => rfl
      | detached => exact h t hold hl
      | freed _ _ he => exact he
      | resumed _ _ _ =>
        have he : (s.ut t).status.has .exited = true := by
          refine h t hold ?_
          unfold Marks.resumed at hl
          split at hl <;> exact hl
        have hn : (s.ut t).marks.new = false := by
          show (s.ut t).status.has .new = false
          rw [Bool.eq_false_iff]
          intro hnew
          rw [((hsnd.ut t hold).new hnew).2.2] at he
          cases he
        rw [Marks.resumed_of_run hn]
        exact he
      | expired _ _ => exact h t hold hl
      | event _ _ _ => exact h t hold hl
    exact hm (step_marks hsnd hs hold) hl
  · obtain ⟨-, id, hmarks⟩ := step_new hsnd hs ht hold
    have hlive : (s'.ut t).life = .live := congrArg Marks.life hmarks
    rw [hlive] at hl
    cases hl

theorem FreedExited.of_reaches {C : State → Act → Prop} {s : State} (h : Reaches C s) : FreedExited s := by
  refine (Sound.initial.invariant h ?_ fun _ _ _ hsnd hf _ hs => hf.step hsnd hs).2
  intro t ht hl
  obtain rfl : t = 0 := Nat.lt_one_iff.mp ht
  cases hl

end UthreadRuntime
