import UthreadRuntime.Placement.Partition
import UthreadRuntime.Safety.Pointers
import UthreadRuntime.Safety.Polling
import UthreadRuntime.Safety.Queues
import UthreadRuntime.Safety.Trees
import UthreadRuntime.Safety.Waits
import UthreadRuntime.Timer.Flags

/-! A pass of the loop over the events.

When its ready phase is over the loop comes to `_uthread_poll`. If somebody is ready by then, or
a sleeper is due, `epoll_wait` is not called and the pass serves nobody. Otherwise all that is
pending is reported, and whoever waits for it is resumed before the pass ends. -/
namespace UthreadRuntime

open State

/-! ### Handling one event -/

/-- An event resumes the uthread found under its key and takes it out of the waiting tree. -/
theorem handleEvent_links {s s' : State} {a : SId} {q : PId} {fd : Int} {ev : UthreadEvent} {isEof : Bool}
    {k : SchedAt} (hq : (s.sched a).p = some q) (hs : handleEvent a fd ev isEof k s = .ok s') :
    (findWaiting s (fdKey fd ev.toNat) (s.p q).waiting = none ∧ s' = setPc a k s) ∨
    ∃ v, findWaiting s (fdKey fd ev.toNat) (s.p q).waiting = some v ∧ (s'.sched a).curUthread = some v ∧
      KeepsLinks (s.setP q fun w => {w with waiting := Tree.remove v w.waiting}) s' := by
  rcases handleEvent_ok hs with ⟨s₁, hd, rfl⟩ | ⟨v, s₁, s₂, hd, -, hdel, rfl⟩
  · obtain ⟨q', hq', hfind, ⟨-, rfl⟩ | ⟨v, hv, -⟩⟩ := uthreadDeschedEvent_ok hd
    · cases hq'.symm.trans hq
      exact .inl ⟨hfind, rfl⟩
    · cases hv
  · obtain ⟨q', hq', hfind, ⟨hv, -⟩ | ⟨v', hv, hsl⟩⟩ := uthreadDeschedEvent_ok hd
    · cases hv
    · cases hq'.symm.trans hq
      cases hv
      obtain ⟨q'', -, -, rfl⟩ := epollDel_ok hdel
      refine .inr ⟨v, hfind, uthreadResume_cur a v k _, (KeepsLinks.deschedSleep hsl).trans ?_⟩
      have hclear : KeepsLinks s₁ (s₁.setUt v fun w => {w with status := clearWait w.status}) :=
        KeepsLinks.setUt rfl rfl
      have hdrop : ∀ t, KeepsLinks t (dropInterest q'' fd t) :=
        fun t => KeepsLinks.setP rfl (List.Subset.refl _)
      have hnote : ∀ t, KeepsLinks t (notedEvent v isEof t) := fun t => KeepsLinks.setUt rfl rfl
      exact hclear.trans ((hdrop _).trans ((hnote _).trans (KeepsLinks.resume a v k _)))

/-- Nobody was linked into a waiting tree. -/
def OnlyUnlinks (s s' : State) : Prop := ∀ q, (s'.p q).waiting ⊆ (s.p q).waiting

namespace OnlyUnlinks

variable {s s' s'' : State} {a : SId} {u : UId}

theorem trans (h : OnlyUnlinks s s') (h' : OnlyUnlinks s' s'') : OnlyUnlinks s s'' :=
  fun q => List.Subset.trans (h' q) (h q)

theorem keeps (h : KeepsLinks s s') : OnlyUnlinks s s' := by
  intro q
  rw [h.waiting q]
  exact List.Subset.refl _

theorem setP {q : PId} {g : P → P} (hg : (g (s.p q)).waiting ⊆ (s.p q).waiting) : OnlyUnlinks s (s.setP q g) := by
  intro r
  rw [setP_p]
  split
  · rename_i hr
    rw [hr]
    exact hg
  · exact List.Subset.refl _

theorem deschedEvent {fd e : Int} {found : Option UId} (h : uthreadDeschedEvent a fd e s = .ok (found, s')) :
    OnlyUnlinks s s' := by
  obtain ⟨q, -, -, ⟨-, rfl⟩ | ⟨v, -, hv⟩⟩ := uthreadDeschedEvent_ok h
  · exact fun _ => List.Subset.refl _
  · have hp : OnlyUnlinks s (s.setP q fun w => {w with waiting := Tree.remove v w.waiting}) :=
      setP fun _ hw => (Tree.mem_remove.mp hw).1
    exact hp.trans (keeps (.deschedSleep hv))

theorem cancelEvent (h : uthreadCancelEvent a u s = .ok s') : OnlyUnlinks s s' := by
  obtain ⟨q, s₁, -, -, rfl, hcase⟩ := uthreadCancelEvent_ok h
  have hdrop : OnlyUnlinks s (dropInterest q (fdOnly (s.ut u).fdWait)
      (s.setUt u fun v => {v with status := clearWait v.status})) :=
    (keeps (.setUt rfl rfl)).trans (setP (List.Subset.refl _))
  have hlast : OnlyUnlinks s₁ (s₁.setUt u fun v => {v with fdWait := -1}) := fun _ => List.Subset.refl _
  rcases hcase with ⟨-, rfl⟩ | ⟨-, found, hd⟩
  · exact hdrop.trans hlast
  · exact hdrop.trans ((deschedEvent hd).trans hlast)

theorem handleEvent {fd : Int} {ev : UthreadEvent} {isEof : Bool} {k : SchedAt}
    (h : handleEvent a fd ev isEof k s = .ok s') : OnlyUnlinks s s' := by
  rcases handleEvent_ok h with ⟨s₁, hd, rfl⟩ | ⟨v, s₁, s₂, hd, -, hdel, rfl⟩
  · exact (deschedEvent hd).trans fun _ => List.Subset.refl _
  · obtain ⟨q, -, -, rfl⟩ := epollDel_ok hdel
    have hclear : OnlyUnlinks s₁ (dropInterest q fd (s₁.setUt v fun w => {w with status := clearWait w.status})) :=
      (keeps (.setUt rfl rfl)).trans (setP (List.Subset.refl _))
    have hnote : ∀ t, OnlyUnlinks t (notedEvent v isEof t) := fun t => keeps (.setUt rfl rfl)
    exact (deschedEvent hd).trans (hclear.trans ((hnote _).trans (keeps (.resume a v k _))))

theorem schedStep {r : Reply} (h : SchedStep a r s s') : OnlyUnlinks s s' := by
  cases h with
  | goes _ | halted _ => exact fun _ => List.Subset.refl _
  | another _ _ => exact setP (g := fun v => {v with tid := a}) (List.Subset.refl _)
  | noPoll _ _ => exact setP (g := fun v => {v with numNewEvents := 0}) (List.Subset.refl _)
  | @polled q _ _ _ =>
    have hnone : OnlyUnlinks s (s.setP q fun v => {v with numNewEvents := 0}) := setP (List.Subset.refl _)
    have hfill : ∀ x : State, OnlyUnlinks x (UthreadRuntime.polled q r.events x) :=
      fun _ => setP (List.Subset.refl _)
    exact hnone.trans (hfill _)
  | @expired q u _ _ _ _ _ _ hcancel hsl =>
    have hnote : ∀ t, OnlyUnlinks t (notedExpiry u t) := fun t => keeps (.setUt rfl rfl)
    exact (cancelEvent hcancel).trans ((keeps (.deschedSleep hsl)).trans ((hnote _).trans (keeps (.resume a u .expiry _))))
  | @ready q u rest last _ _ _ =>
    have htook : OnlyUnlinks s (s.setP q fun v => {v with ready := rest}) := setP (List.Subset.refl _)
    exact htook.trans (keeps (.resume a u _ _))
  | took _ _ _ _ hh =>
    refine OnlyUnlinks.trans (fun q => ?_) (handleEvent hh)
    rw [tookEvent_p]
    split
    · rename_i hq
      rw [hq]
      exact List.Subset.refl _
    · exact List.Subset.refl _
  | handled _ hh => exact handleEvent hh

end OnlyUnlinks

/-! ### What holds during the pass -/

/-- The uthread has registered a descriptor and goes on to link itself under it. -/
def Ctx.linking : Ctx → Bool
  | .register _ .status | .register _ .key | .register _ .insert => true
  | _ => false

theorem Ctx.publishing_of_linking {k : Ctx} (h : k.linking = true) : k.publishing = true := by
  cases k with
  | register c pc => cases pc <;> first | rfl | cases h
  | _ => cases h

/-- The registration follows the p of the thread. -/
theorem uthreadStmt_ctl {s s' : State} {a : SId} {u : UId} {r : Reply} {c : IoCall}
    (hs : uthreadStmt a u r s = .ok s') (hctx : (s.ut u).ctx = .register c .ctl) :
    ∃ q, (s.sched a).p = some q := by
  simp only [uthreadStmt, hctx, registerStmt] at hs
  obtain ⟨q, hq, -⟩ := bind_ok hs
  exact ⟨q, bound_ok hq⟩

/-- The way to the link begins with the registration. -/
theorem Flow.linking {k k' : Ctx} (hflow : Flow k k') (h : k'.linking = true) :
    k.linking = true ∨ ∃ c, k = .register c .ctl := by
  cases hflow with
  | own hown =>
    cases hown with
    | wake w => cases w <;> cases h
    | exitMark v => cases v <;> cases h
    | status c => exact .inl rfl
    | key c => exact .inl rfl
    | _ => cases h
  | moves hm => cases hm <;> cases h
  | io hk' => rcases hk' with ⟨c, pc, rfl⟩ | ⟨c, rfl⟩ <;> cases h
  | switch hk' => cases hk' <;> cases h
  | @watch c => exact .inr ⟨c, rfl⟩
  | _ => cases h

theorem Act.ne_of_turnOf {a : SId} {act : Act} (h : act.turnOf a = false) (r : Reply) : act ≠ .sched a r := by
  rintro rfl
  simp [Act.turnOf] at h

/-- The sched of `a` has the p. Whoever runs on another thread is not in the waiting tree nor about to
link itself, and a uthread on the thread of `a` that is in the tree has linked itself and goes on
to sleep. -/
structure InPass (a : SId) (q : PId) (s : State) : Prop where
  sound : Sound s
  bound : (s.sched a).p = some q
  apart : ∀ c x, c ≠ a → (s.sched c).curUthread = some x →
    (s.ut x).ctx.linking = false ∧ x ∉ (s.p q).waiting ∧ (s.sched a).curUthread ≠ some x
  own : ∀ x, (s.sched a).curUthread = some x → x ∈ (s.p q).waiting →
    ∃ c pc, (s.ut x).ctx = .sleep (.event c) pc ∧ pc ≠ .wake

/-- The uthread is linked under the event, alone, and no thread runs it. -/
structure Parked (s : State) (q : PId) (fd : Int) (ev : UthreadEvent) (u : UId) : Prop where
  waits : WaitsFor s q fd ev u
  off : ∀ c, (s.sched c).curUthread ≠ some u

theorem fdKey_ne_neg (fd : Int) (ev : UthreadEvent) : fdKey fd ev.toNat ≠ -1 := by
  cases ev <;> simp only [fdKey, UthreadEvent.toNat] <;> omega

section Beside

variable {a : SId} {q : PId} {s s' : State} {act : Act}

/-- A uthread that is about to sleep goes on to it, and the switch takes it off the thread. -/
theorem uthreadStmt_asleep {b : SId} {x : UId} {r : Reply} {c : IoCall} {pc : SleepAt}
    (hs : uthreadStmt b x r s = .ok s') (hctx : (s.ut x).ctx = .sleep (.event c) pc) (hpc : pc ≠ .wake) :
    (∃ pc', (s'.ut x).ctx = .sleep (.event c) pc' ∧ pc' ≠ .wake) ∨ (s'.sched b).curUthread = none := by
  simp only [uthreadStmt, hctx] at hs
  cases pc with
  | clock =>
    cases hs
    exact .inl ⟨.insert, goto_ctx _, by decide⟩
  | insert =>
    obtain ⟨q, -, hs⟩ := bind_ok hs
    split at hs
    · cases hs
    · cases hs
      exact .inl ⟨.mark, goto_ctx _, by decide⟩
  | mark =>
    cases hs
    exact .inl ⟨.flag, goto_ctx _, by decide⟩
  | flag =>
    cases hs
    exact .inl ⟨.yieldFlag, goto_ctx _, by decide⟩
  | yieldFlag =>
    cases hs
    exact .inl ⟨.switch, goto_ctx _, by decide⟩
  | switch =>
    right
    rw [(switched_signals hs).cur, idleCpu_cur, if_pos rfl]
  | wake => exact absurd rfl hpc

/-- A uthread that only threads without a p run registers no descriptor. -/
theorem step_notLinking (hsnd : Sound s) (hs : step s act = .ok s') {x : UId} (hx : x < s.heap)
    (hout : (s.ut x).ctx.linking = false)
    (hfree : ∀ b, (s.sched b).curUthread = some x → (s.sched b).p = none) :
    (s'.ut x).ctx.linking = false := by
  rcases step_ctx hsnd hs hx with hctx | ⟨b, k, -, -, hctx⟩ | ⟨b, r, rfl, hb, hst⟩
  · rw [hctx]
    exact hout
  · rw [hctx]
    cases k <;> rfl
  · rw [Bool.eq_false_iff]
    intro hin
    rcases hst.flow.linking hin with hold | ⟨k, hctl⟩
    · rw [hout] at hold
      cases hold
    · rw [step_stmt (not_halted_of_step hs) hb] at hs
      obtain ⟨q', hq'⟩ := uthreadStmt_ctl hs hctl
      cases (hfree b hb).symm.trans hq'

/-- Only the uthread itself links it, on its way to sleep. -/
theorem Stmt.linked {b : SId} {x y : UId} {r : Reply} (h : Stmt b y r s s') (hout : x ∉ (s.p q).waiting)
    (hin : x ∈ (s'.p q).waiting) :
    x = y ∧ (s.ut x).ctx.linking = true ∧ ∃ c, (s'.ut x).ctx = .sleep (.event c) .clock := by
  have hsame : (s'.p q).waiting ≠ (s.p q).waiting := fun heq => hout (heq ▸ hin)
  cases h.links with
  | keeps hk => exact absurd (hk.waiting q) hsame
  | own _ _ heq =>
    subst heq
    exact absurd rfl hsame
  | sleeping _ _ heq =>
    subst heq
    unfold goto at hsame
    rw [setUt_p, setP_keeps P.waiting rfl] at hsame
    exact absurd rfl hsame
  | @waiting c q' hctx _ _ heq =>
    subst heq
    unfold goto at hin
    rw [setUt_p, setP_p] at hin
    split at hin
    · rename_i hqq
      rw [← hqq] at hin
      rcases List.mem_cons.mp hin with rfl | hin
      · exact ⟨rfl, by rw [hctx]; rfl, c, goto_ctx _⟩
      · exact absurd hin hout
    · exact absurd hin hout

/-- A uthread gets into a waiting tree only from the way to it. -/
theorem step_notLinked (hs : step s act = .ok s') {x : UId} (hlink : (s.ut x).ctx.linking = false)
    (hout : x ∉ (s.p q).waiting) : x ∉ (s'.p q).waiting := by
  intro hin
  cases step_ok hs with
  | call _ _ hent => exact hout (OnlyUnlinks.keeps hent.keepsLinks q hin)
  | stmt _ hst =>
    obtain ⟨-, hlinking, -⟩ := hst.linked hout hin
    rw [hlink] at hlinking
    cases hlinking
  | @preempt b u _ _ _ hsw =>
    have hflag : OnlyUnlinks s (s.setUt u fun v => {v with isWatingYieldSignal := false}) :=
      .keeps (.setUt rfl rfl)
    exact hout (hflag.trans (.keeps (.switched hsw)) q hin)
  | sched _ hss => exact hout (OnlyUnlinks.schedStep hss q hin)

/-- Whoever a thread without a p runs is in no waiting tree and not on the way to one. -/
def OutOfWait (s : State) : Prop :=
  ∀ c x, (s.sched c).p = none → (s.sched c).curUthread = some x →
    (s.ut x).ctx.linking = false ∧ ∀ q, x ∉ (s.p q).waiting

/-- A uthread on a thread is out of a wait when it is neither publishing one nor marked as asleep. -/
theorem notLinked_of_awake (hi : Placement.Inv s.board) {x : UId}
    (hpub : (s.ut x).ctx.publishing = false) (hsl : (s.ut x).status.has .sleeping = false) :
    (s.ut x).ctx.linking = false ∧ ∀ q, x ∉ (s.p q).waiting := by
  refine ⟨Bool.eq_false_iff.mpr fun hl => ?_, fun q hw => ?_⟩
  · rw [Ctx.publishing_of_linking hl] at hpub
    cases hpub
  · obtain ⟨-, -, fd, e, hwaits⟩ := hi.waiting_mem (q := q) (u := x) hw
    have hmode : (s.ut x).ctx.mode.publishing = false := (Ctx.publishing_mode _).trans hpub
    rcases hwaits with hm | hm | ⟨ha, -⟩
    · rw [show (s.ut x).ctx.mode = _ from hm] at hmode
      cases hmode
    · rw [show (s.ut x).ctx.mode = _ from hm] at hmode
      cases hmode
    · rw [show (s.ut x).status.has .sleeping = true from ha] at hsl
      cases hsl

/-- A calm hand-off meets nobody in a wait. -/
theorem Calm.notLinked_at_handOff (hi : Placement.Inv s.board) {b c d : SId} {u x : UId} {r : Reply}
    (hcalm : Calm s (.stmt b r)) (hb : (s.sched b).curUthread = some u) (hctx : (s.ut u).ctx = .diskHandOff d)
    (hc : (s.sched c).curUthread = some x) : (s.ut x).ctx.linking = false ∧ ∀ q, x ∉ (s.p q).waiting := by
  have hself : (s.ut u).ctx.publishing = false ∧ (s.ut u).status.has .sleeping = false := by
    have hwf := hi.wf (hi.cur_live (a := b) hb)
    have hmode : (s.board.task u).mode = .free := by
      show (s.ut u).ctx.mode = _
      rw [hctx]
      rfl
    unfold Placement.Task.Wf at hwf
    rw [hmode] at hwf
    exact ⟨by rw [hctx]; rfl, hwf.1⟩
  have hsame : c = b → (s.ut x).ctx.publishing = false ∧ (s.ut x).status.has .sleeping = false := by
    rintro rfl
    cases hb.symm.trans hc
    exact hself
  obtain ⟨hpub, hsl⟩ := hcalm c x hc
  refine notLinked_of_awake hi (Bool.eq_false_iff.mpr fun hp => ?_) (Bool.eq_false_iff.mpr fun ha => ?_)
  · obtain ⟨r', hr⟩ := hpub hp
    cases hr
    rw [(hsame rfl).1] at hp
    cases hp
  · rcases hsl ha with ⟨r', hr⟩ | hr
    · cases hr
      rw [(hsame rfl).2] at ha
      cases ha
    · cases hr

theorem OutOfWait.step (h : OutOfWait s) (hsnd : Sound s) (hi : Placement.Inv s.board) (hcalm : Calm s act)
    (hs : UthreadRuntime.step s act = .ok s') : OutOfWait s' := by
  intro c x hp' hc'
  have hbefore : (s.sched c).p = none → (s.sched c).curUthread = some x →
      (s'.ut x).ctx.linking = false ∧ ∀ q, x ∉ (s'.p q).waiting := by
    intro hp hc
    obtain ⟨hlink, hout⟩ := h c x hp hc
    refine ⟨step_notLinking hsnd hs (hsnd.cur hc).1 hlink fun b hb => ?_,
      fun q => step_notLinked hs hlink (hout q)⟩
    rw [hi.cur_inj (a := b) hb hc]
    exact hp
  rcases step_runs hs hc' with hc | ⟨r, rfl⟩
  · rcases step_frame hs with ⟨b, r, -, -, hrun⟩ | ⟨-, hstill⟩ |
      ⟨b, r, u, rfl, hb, d, q', n, rest, hctx, hq', hready, hidle, rfl⟩
    · exact hbefore (((schedRun_local hrun).bound c).symm.trans hp') hc
    · exact hbefore ((hstill.bound c).symm.trans hp') hc
    · -- a hand-off changes no record but its own, which goes into the disk call
      obtain ⟨hlink, hout⟩ := hcalm.notLinked_at_handOff hi hb hctx hc
      refine ⟨?_, fun q => step_notLinked hs hlink (hout q)⟩
      by_cases hxu : x = u
      · rw [hxu, goto_ctx]
        rfl
      · rw [goto_ut_of_ne hxu]
        exact hlink
  · -- a scheduler without a p resumes nobody
    have hrun := step_sched_ok hs
    have hp : (s.sched c).p = none := ((schedRun_local hrun).bound c).symm.trans hp'
    obtain ⟨-, -, -, hcur⟩ := (schedRun_ok hrun).unbound hp
    exact hbefore hp (hcur.symm.trans hc')

/-- In a calm run nobody is in a wait on a thread without a p. -/
theorem outOfWait_of_reaches (h : Reaches Calm s) : OutOfWait s := by
  have hinv : Sound s ∧ Placement.Inv s.board ∧ OutOfWait s := by
    refine Sound.initial.invariant (I := fun s => Placement.Inv s.board ∧ OutOfWait s) h
      ⟨inv_initial, fun c x _ hc => ?_⟩ ?_
    · rw [init_cur] at hc
      cases hc
    · rintro t act t' hsnd ⟨hi, hout⟩ hcalm hs
      exact ⟨inv_step hsnd hi hcalm hs, hout.step hsnd hi hcalm hs⟩
  exact hinv.2.2

/-- A uthread on another thread begins no wait. -/
theorem InPass.apart_step (h : InPass a q s) (hs : step s act = .ok s') {c : SId} {x : UId} (hca : c ≠ a)
    (hc : (s.sched c).curUthread = some x) :
    (s'.ut x).ctx.linking = false ∧ x ∉ (s'.p q).waiting := by
  obtain ⟨hlink, hout, hoff⟩ := h.apart c x hca hc
  refine ⟨step_notLinking h.sound hs (h.sound.cur hc).1 hlink fun b hb => ?_,
    step_notLinked hs hlink hout⟩
  exact h.sound.unbound_of_ne h.bound fun hba => hoff (hba ▸ hb)

/-- A uthread on the thread of `a` that is linked is about to sleep. -/
theorem InPass.own_step (h : InPass a q s) (hs : step s act = .ok s') (hturn : act.turnOf a = false)
    {x : UId} (hc' : (s'.sched a).curUthread = some x) (hx : x ∈ (s'.p q).waiting) :
    ∃ c pc, (s'.ut x).ctx = .sleep (.event c) pc ∧ pc ≠ .wake := by
  have hne := Act.ne_of_turnOf hturn
  have hc := step_runs_beside h.sound hs h.bound hne hc'
  by_cases hold : x ∈ (s.p q).waiting
  · obtain ⟨c, pc, hctx, hpc⟩ := h.own x hc hold
    rcases step_ctx h.sound hs (h.sound.cur hc).1 with hsame | ⟨b, k, rfl, hb, -⟩ | ⟨b, r, rfl, hb, -⟩
    · rw [hsame]
      exact ⟨c, pc, hctx, hpc⟩
    · cases step_ok hs with
      | call hb' huser _ =>
        cases hb.symm.trans hb'
        rw [hctx] at huser
        cases huser
    · -- no other thread runs it, so the statement is executed on the thread of `a`
      have hba : b = a := by
        by_contra hba
        exact (h.apart b x hba hb).2.2 hc
      subst hba
      rw [step_stmt (not_halted_of_step hs) hb] at hs
      rcases uthreadStmt_asleep hs hctx hpc with ⟨pc', hctx', hpc'⟩ | hoff
      · exact ⟨c, pc', hctx', hpc'⟩
      · rw [hoff] at hc'
        cases hc'
  · rcases step_beside h.sound hs h.bound hne with hkeep | ⟨b, r, y, -, -, hst⟩
    · rw [hkeep.waiting] at hx
      exact absurd hx hold
    · obtain ⟨-, -, c, hctx⟩ := hst.linked hold hx
      exact ⟨c, .clock, hctx, by decide⟩

/-- **What the other threads and the uthread on the thread of `a` do leaves the pass sound.** -/
theorem InPass.beside (h : InPass a q s) (hs : step s act = .ok s') (hturn : act.turnOf a = false)
    (hoff : a ∉ handingOff s act) : InPass a q s' := by
  have hne := Act.ne_of_turnOf hturn
  refine ⟨h.sound.step hs, (step_apart h.sound hs hturn hoff h.bound).1, fun c x hca hc => ?_,
    fun x hc hx => h.own_step hs hturn hc hx⟩
  have hc' := step_runs_beside h.sound hs h.bound hne hc
  obtain ⟨hlink, hout⟩ := h.apart_step hs hca hc'
  refine ⟨hlink, hout, fun ha => ?_⟩
  exact (h.apart c x hca hc').2.2 (step_runs_beside h.sound hs h.bound hne ha)

/-- A uthread stays alone under its event while others only lose their keys. -/
theorem WaitsFor.kept {fd : Int} {ev : UthreadEvent} {u : UId} (h : WaitsFor s q fd ev u)
    (hw : (s'.p q).waiting = (s.p q).waiting) (hu : (s'.ut u).fdWait = (s.ut u).fdWait)
    (hkey : ∀ v ∈ (s.p q).waiting, (s'.ut v).fdWait = (s.ut v).fdWait ∨ (s'.ut v).fdWait = -1) :
    WaitsFor s' q fd ev u := by
  refine ⟨hw.symm ▸ h.mem, hu.trans h.key, fun v hv hk => ?_⟩
  rw [hw] at hv
  rcases hkey v hv with hsame | hlost
  · exact h.only v hv (hsame.symm.trans hk)
  · exact absurd (hk.symm.trans hlost) (fdKey_ne_neg fd ev)

/-- Another uthread is linked under another key. -/
theorem WaitsFor.beside {fd : Int} {ev : UthreadEvent} {u y : UId} (h : WaitsFor s q fd ev u)
    (hw : (s'.p q).waiting = y :: (s.p q).waiting) (hkey : ∀ v, (s'.ut v).fdWait = (s.ut v).fdWait)
    (hfree : (s.ut y).fdWait ≠ fdKey fd ev.toNat) : WaitsFor s' q fd ev u := by
  refine ⟨hw.symm ▸ List.mem_cons_of_mem y h.mem, (hkey u).trans h.key, fun v hv hk => ?_⟩
  rw [hkey] at hk
  rcases List.mem_cons.mp (hw ▸ hv) with rfl | hv'
  · exact absurd hk hfree
  · exact h.only v hv' hk

/-- A linked uthread that runs does not set its key: it is about to sleep, or past its wait. -/
theorem InPass.keeps_key (h : InPass a q s) {b : SId} {y : UId} {now : Nat} {k k' : Ctx} {f : Uthread → Uthread}
    (hb : (s.sched b).curUthread = some y) (hctx : (s.ut y).ctx = k) (hown : Own now k f k')
    (hy : y ∈ (s.p q).waiting) : (f (s.ut y)).fdWait = (s.ut y).fdWait ∨ (f (s.ut y)).fdWait = -1 := by
  cases hown with
  | key c =>
    by_cases hba : b = a
    · subst hba
      obtain ⟨c', pc, hsl, -⟩ := h.own y hb hy
      cases hctx.symm.trans hsl
    · exact absurd hy (h.apart b y hba hb).2.1
  | unkey c => exact .inr rfl
  | _ => exact .inl rfl

/-- A uthread that waits stays linked, alone under its event. -/
theorem Parked.beside {fd : Int} {ev : UthreadEvent} {u : UId} (hu : Parked s q fd ev u)
    (h : InPass a q s) (hs : step s act = .ok s') (hturn : act.turnOf a = false) :
    Parked s' q fd ev u := by
  have hne := Act.ne_of_turnOf hturn
  refine ⟨?_, fun c hc => hu.off c (step_runs_beside h.sound hs h.bound hne hc)⟩
  have hkept : KeepsLinks s s' → WaitsFor s' q fd ev u := by
    intro hk
    refine hu.waits.kept (hk.waiting q) (hk.key u (h.sound.waiting hu.waits.mem)) fun v hv => ?_
    exact .inl (hk.key v (h.sound.waiting hv))
  rcases step_beside h.sound hs h.bound hne with hk | ⟨b, r, y, rfl, hb, hst⟩
  · exact hkept hk
  have huy : u ≠ y := by
    rintro rfl
    exact hu.off b hb
  cases hst.links with
  | keeps hk => exact hkept hk
  | @own k k' f hctx hown heq =>
    have hut : ∀ v, (s'.ut v).fdWait = if v = y then (f (s.ut y)).fdWait else (s.ut v).fdWait := by
      intro v
      rw [heq]
      unfold goto
      rw [setUt_keeps Uthread.fdWait rfl, setUt_ut]
      split <;> rfl
    refine hu.waits.kept (by rw [heq]; rfl) (by rw [hut, if_neg huy]) fun v hv => ?_
    rw [hut]
    split
    · rename_i hvy
      subst hvy
      exact h.keeps_key hb hctx hown hv
    · exact .inl rfl
  | @sleeping w q' _ _ heq =>
    have hkey : ∀ v, (s'.ut v).fdWait = (s.ut v).fdWait := by
      intro v
      rw [heq]
      unfold goto
      exact setUt_keeps Uthread.fdWait rfl v
    refine hu.waits.kept ?_ (hkey u) fun v _ => .inl (hkey v)
    rw [heq]
    unfold goto
    rw [setUt_p, setP_keeps P.waiting rfl]
  | @waiting c q' _ _ hfree heq =>
    have hw : (s'.p q).waiting = (s.p q).waiting ∨ q = q' ∧ (s'.p q).waiting = y :: (s.p q).waiting := by
      rw [heq]
      unfold goto
      rw [setUt_p, setP_p]
      split
      · rename_i hqq
        exact .inr ⟨hqq, by rw [hqq]⟩
      · exact .inl rfl
    have hkey : ∀ v, (s'.ut v).fdWait = (s.ut v).fdWait := by
      intro v
      rw [heq]
      unfold goto
      exact setUt_keeps Uthread.fdWait rfl v
    rcases hw with hw | ⟨rfl, hw⟩
    · exact hu.waits.kept hw (hkey u) fun v _ => .inl (hkey v)
    · refine hu.waits.beside hw hkey fun hk => ?_
      exact hfree u hu.waits.mem (hu.waits.key.trans hk.symm)

end Beside

section Turns

variable {a : SId} {q : PId} {s s' : State}

/-- Records, waiting tree and threads are as they were. -/
theorem InPass.congr (h : InPass a q s) (hsnd : Sound s') (hut : s'.ut = s.ut)
    (hw : (s'.p q).waiting = (s.p q).waiting) (hp : ∀ c, (s'.sched c).p = (s.sched c).p)
    (hc : ∀ c, (s'.sched c).curUthread = (s.sched c).curUthread) : InPass a q s' := by
  refine ⟨hsnd, (hp a).trans h.bound, fun c x hca hx => ?_, fun x hx hmem => ?_⟩
  · rw [hc] at hx
    rw [hut, hw, hc]
    exact h.apart c x hca hx
  · rw [hc] at hx
    rw [hw] at hmem
    rw [hut]
    exact h.own x hx hmem

theorem Parked.congr {fd : Int} {ev : UthreadEvent} {u : UId} (h : Parked s q fd ev u)
    (hut : s'.ut = s.ut) (hw : (s'.p q).waiting = (s.p q).waiting)
    (hc : ∀ c, (s'.sched c).curUthread = (s.sched c).curUthread) : Parked s' q fd ev u := by
  refine ⟨h.waits.kept hw (by rw [hut]) fun v _ => .inl (by rw [hut]), fun c => ?_⟩
  rw [hc]
  exact h.off c

/-- An event leaves the pass sound. -/
theorem InPass.handles {fd : Int} {ev : UthreadEvent} {eof : Bool} {k : SchedAt} (h : InPass a q s)
    (hs : handleEvent a fd ev eof k s = .ok s') (hsnd : Sound s') : InPass a q s' := by
  have hl := handleEvent_local hs
  rcases handleEvent_links h.bound hs with ⟨-, rfl⟩ | ⟨v, hfind, hcur, hk⟩
  · exact h.congr hsnd rfl rfl (setPc_bound a k s) (setPc_cur a k s)
  · have hmem : v ∈ (s.p q).waiting := (Tree.find_eq_some hfind).1
    refine ⟨hsnd, (hl.bound a).trans h.bound, fun c x hca hx => ?_, fun x hx hmem => ?_⟩
    · rw [hl.cur c hca] at hx
      obtain ⟨hlink, hout, -⟩ := h.apart c x hca hx
      refine ⟨?_, fun hin => ?_, fun ha => ?_⟩
      · rw [(AllSeen.handled h.sound hs x).ctx]
        exact hlink
      · rw [hk.waiting, setP_p_self] at hin
        exact hout (Tree.mem_remove.mp hin).1
      · cases hcur.symm.trans ha
        exact hout hmem
    · cases hcur.symm.trans hx
      rw [hk.waiting, setP_p_self] at hmem
      exact absurd rfl (Tree.mem_remove.mp hmem).2

/-- An event resumes the uthread that waits for it, and the others go on waiting. -/
theorem Parked.handles {fd fd' : Int} {ev ev' : UthreadEvent} {eof : Bool} {k : SchedAt} {u : UId}
    (hu : Parked s q fd ev u) (h : InPass a q s) (hs : handleEvent a fd' ev' eof k s = .ok s') :
    (fd' = fd ∧ ev' = ev ∧ (s'.sched a).curUthread = some u) ∨
    (¬(fd' = fd ∧ ev' = ev) ∧ Parked s' q fd ev u) := by
  by_cases hsame : fd' = fd ∧ ev' = ev
  · obtain ⟨rfl, rfl⟩ := hsame
    exact .inl ⟨rfl, rfl, hu.waits.resumes h.bound hs⟩
  · refine .inr ⟨hsame, ?_⟩
    have hl := handleEvent_local hs
    rcases handleEvent_links h.bound hs with ⟨-, rfl⟩ | ⟨v, hfind, hcur, hk⟩
    · exact hu.congr rfl rfl (setPc_cur a k s)
    · obtain ⟨hv, hkey⟩ := Tree.find_eq_some hfind
      have huv : u ≠ v := by
        rintro rfl
        exact hsame (Placement.waitKey_inj (hkey.symm.trans hu.waits.key))
      have hkeys : ∀ {w}, w ∈ (s.p q).waiting → (s'.ut w).fdWait = (s.ut w).fdWait :=
        fun hw => hk.key _ (h.sound.waiting hw)
      have hwaiting : (s'.p q).waiting = Tree.remove v (s.p q).waiting := by
        rw [hk.waiting, setP_p_self]
      refine ⟨⟨?_, (hkeys hu.waits.mem).trans hu.waits.key, fun w hw hwk => ?_⟩, fun c hc => ?_⟩
      · rw [hwaiting]
        exact Tree.mem_remove.mpr ⟨hu.waits.mem, huv⟩
      · rw [hwaiting] at hw
        have hw' := (Tree.mem_remove.mp hw).1
        exact hu.waits.only w hw' ((hkeys hw').symm.trans hwk)
      · by_cases hca : c = a
        · subst hca
          cases hcur.symm.trans hc
          exact huv rfl
        · rw [hl.cur c hca] at hc
          exact hu.off c hc

end Turns

/-! ### The batch -/

/-- The event list is left to the loop of the p. -/
theorem step_events_beside {s s' : State} {act : Act} {a : SId} {q : PId} (hsnd : Sound s)
    (hs : step s act = .ok s') (hq : (s.sched a).p = some q) (hturn : ∀ r, act ≠ .sched a r) :
    (s'.p q).eventlist = (s.p q).eventlist ∧ (s'.p q).numNewEvents = (s.p q).numNewEvents := by
  rcases step_frame hs with ⟨c, r, rfl, -, hrun⟩ | ⟨-, hstill⟩ | ⟨c, r, u, -, -, d, q', n, rest, -, -, -, -, rfl⟩
  · have hca : c ≠ a := by
      rintro rfl
      exact hturn r rfl
    obtain ⟨-, hp, -, -⟩ := (schedRun_ok hrun).unbound (hsnd.unbound_of_ne hq hca)
    rw [hp]
    exact ⟨rfl, rfl⟩
  · exact ⟨(hstill.events q).1, (hstill.events q).2.1⟩
  · have hp : (goto u .diskCall (handedOff d n q' rest s)).p q = (handedOff d n q' rest s).p q := rfl
    rw [hp, handedOff_p]
    split
    · rename_i hqq
      rw [hqq]
      exact ⟨rfl, rfl⟩
    · exact ⟨rfl, rfl⟩

/-- Where the loop stands in the batch of `m` entries, with `k` of them unread, after `n` turns. -/
inductive BatchAt (m k n : Nat) (cur : Option UId) : SchedAt → Prop where
  | next : n + 2 * k = 2 * m → BatchAt m k n cur .events
  | writes (fd : Int) (eof : Bool) : n + 2 * k + 1 = 2 * m → BatchAt m k n cur (.handleWr fd eof)
  | ended : k = 0 → n = 2 * m + 1 → cur = none → BatchAt m k n cur .top

/-- The loop of `a` has the entries `es` to handle, and some of them are still unread. -/
structure InBatch (a : SId) (q : PId) (es : List EpollEvent) (s : State) (n : Nat) : Prop where
  pass : InPass a q s
  count : (s.p q).numNewEvents ≤ es.length
  unread : (s.p q).unread = es.take (s.p q).numNewEvents
  place : BatchAt es.length (s.p q).numNewEvents n (s.sched a).curUthread (s.sched a).pc

/-- The wait of the uthread is still to be ended: its entry is unread, or in hand for writing. -/
structure Ahead (s : State) (a : SId) (q : PId) (fd : Int) (ev : UthreadEvent) (u : UId) : Prop where
  parked : Parked s q fd ev u
  entry : (∃ e ∈ (s.p q).unread, e.fd = fd) ∨ (ev = .wr ∧ ∃ eof, (s.sched a).pc = .handleWr fd eof)

section Batch

variable {a : SId} {q : PId} {es : List EpollEvent} {s s' : State} {n : Nat} {act : Act}

theorem P.unread_congr {p p' : P} (he : p'.eventlist = p.eventlist) (hn : p'.numNewEvents = p.numNewEvents) :
    p'.unread = p.unread := by
  unfold P.unread
  rw [he, hn]

theorem InBatch.beside (h : InBatch a q es s n) (hs : step s act = .ok s') (hturn : act.turnOf a = false)
    (hoff : a ∉ handingOff s act) : InBatch a q es s' n := by
  obtain ⟨-, hpc, hcur⟩ := step_apart h.pass.sound hs hturn hoff h.pass.bound
  obtain ⟨he, hn⟩ := step_events_beside h.pass.sound hs h.pass.bound (Act.ne_of_turnOf hturn)
  refine ⟨h.pass.beside hs hturn hoff, hn ▸ h.count, ?_, ?_⟩
  · rw [P.unread_congr he hn, hn]
    exact h.unread
  · have hplace := h.place
    rw [hn, hpc]
    generalize (s.sched a).pc = k at hplace ⊢
    cases hplace with
    | next hm => exact .next hm
    | writes fd eof hm => exact .writes fd eof hm
    | ended hz hm hc =>
      refine .ended hz hm ?_
      rcases hcur with hcur | hcur
      · exact hcur.trans hc
      · exact hcur

theorem Ahead.beside {fd : Int} {ev : UthreadEvent} {u : UId} (hu : Ahead s a q fd ev u) (h : InPass a q s)
    (hs : step s act = .ok s') (hturn : act.turnOf a = false) (hoff : a ∉ handingOff s act) :
    Ahead s' a q fd ev u := by
  obtain ⟨-, hpc, -⟩ := step_apart h.sound hs hturn hoff h.bound
  obtain ⟨he, hn⟩ := step_events_beside h.sound hs h.bound (Act.ne_of_turnOf hturn)
  refine ⟨hu.parked.beside h hs hturn, ?_⟩
  rw [P.unread_congr he hn, hpc]
  exact hu.entry

/-- What a turn of the loop in a batch does: it ends the pass, or it passes an entry on, to read
and then to write. -/
theorem InBatch.turn_cases {r : Reply} (h : InBatch a q es s n) (hs : step s (.sched a r) = .ok s')
    (htop : (s.sched a).pc ≠ .top) :
    ((s.sched a).pc = .events ∧ (s.p q).numNewEvents = 0 ∧ (s.sched a).curUthread = none ∧
      s' = setPc a .top s) ∨
    (∃ e, (s.sched a).pc = .events ∧ (s.p q).numNewEvents ≠ 0 ∧
      (s.p q).eventlist[(s.p q).numNewEvents - 1]? = some e ∧
      handleEvent a e.fd .rd e.hup (.handleWr e.fd e.hup) (tookEvent a q e s) = .ok s') ∨
    ∃ fd eof, (s.sched a).pc = .handleWr fd eof ∧ handleEvent a fd .wr eof .events s = .ok s' := by
  cases step_ok hs with
  | sched hc hss =>
    have hplace := h.place
    cases hpc : (s.sched a).pc with
    | events =>
      cases hss with
      | goes hgo =>
        rw [hpc] at hgo
        cases hgo with
        | gone hp => cases h.pass.bound.symm.trans hp
        | handled hq hz =>
          cases h.pass.bound.symm.trans hq
          exact .inl ⟨rfl, hz, hc, rfl⟩
      | took hpc' hq hz he hh =>
        cases h.pass.bound.symm.trans hq
        exact .inr (.inl ⟨_, rfl, hz, he, hh⟩)
      | another h₁ _ | expired h₁ _ _ _ _ _ | ready h₁ _ _ | noPoll h₁ _ | polled h₁ _ _ | handled h₁ _
      | halted h₁ =>
        rw [hpc] at h₁
        cases h₁
    | handleWr fd eof =>
      cases hss with
      | goes hgo =>
        rw [hpc] at hgo
        cases hgo
      | handled h₁ hh =>
        cases hpc.symm.trans h₁
        exact .inr (.inr ⟨fd, eof, rfl, hh⟩)
      | another h₁ _ | expired h₁ _ _ _ _ _ | ready h₁ _ _ | noPoll h₁ _ | polled h₁ _ _
      | took h₁ _ _ _ _ | halted h₁ =>
        rw [hpc] at h₁
        cases h₁
    | top => exact absurd hpc htop
    | _ =>
      rw [hpc] at hplace
      cases hplace

/-- The entries that are left after the last one was taken. -/
theorem InBatch.took_unread (h : InBatch a q es s n) {e : EpollEvent} (hz : (s.p q).numNewEvents ≠ 0)
    (he : (s.p q).eventlist[(s.p q).numNewEvents - 1]? = some e) :
    (s.p q).unread = (s.p q).eventlist.take ((s.p q).numNewEvents - 1) ++ [e] ∧
      (s.p q).eventlist.take ((s.p q).numNewEvents - 1) = es.take ((s.p q).numNewEvents - 1) := by
  have hlast := P.unread_took hz he
  refine ⟨hlast, ?_⟩
  have hlen : ((s.p q).eventlist.take ((s.p q).numNewEvents - 1)).length = (s.p q).numNewEvents - 1 := by
    have hcount := congrArg List.length (hlast.symm.trans h.unread)
    rw [List.length_append, List.length_singleton, List.length_take_of_le h.count] at hcount
    omega
  have htake := congrArg (List.take ((s.p q).numNewEvents - 1)) (hlast.symm.trans h.unread)
  rw [List.take_take, Nat.min_eq_left (Nat.sub_le _ 1), List.take_left' hlen] at htake
  exact htake

theorem InPass.took (h : InPass a q s) (e : EpollEvent) : InPass a q (tookEvent a q e s) :=
  h.congr (h.sound.tookEvent (h.sound.busy_of_p h.bound) q e).1 (tookEvent_ut a q e s) (tookEvent_waiting a q e s)
    (tookEvent_local a q e s).bound (tookEvent_cur a q e s)

theorem InBatch.turn {r : Reply} (h : InBatch a q es s n) (hs : step s (.sched a r) = .ok s')
    (htop : (s.sched a).pc ≠ .top) : InBatch a q es s' (n + 1) := by
  have hsnd' := h.pass.sound.step hs
  have hplace := h.place
  rcases h.turn_cases hs htop with ⟨hpc, hz, hc, rfl⟩ | ⟨e, hpc, hz, he, hh⟩ | ⟨fd, eof, hpc, hh⟩
  · rw [hpc] at hplace
    cases hplace with
    | next hm =>
      have hpc' : ((setPc a .top s).sched a).pc = .top := setPc_pc a .top s
      refine ⟨h.pass.congr hsnd' rfl rfl (setPc_bound a .top s) (setPc_cur a .top s), h.count, h.unread, ?_⟩
      rw [hpc', setPc_cur]
      refine .ended hz ?_ hc
      omega
  · obtain ⟨-, hleft⟩ := h.took_unread hz he
    have hevents := (handleEvent_events hh).2 q
    rw [tookEvent_p, if_pos rfl] at hevents
    obtain ⟨hlist, hnum, -, -⟩ := hevents
    have hcount := h.count
    refine ⟨(h.pass.took e).handles hh hsnd', ?_, ?_, ?_⟩
    · rw [hnum]
      exact Nat.le_trans (Nat.sub_le _ 1) h.count
    · unfold P.unread
      rw [hnum, hlist]
      exact hleft
    · rw [handleEvent_pc hh, hnum]
      rw [hpc] at hplace
      cases hplace with
      | next hm =>
        refine .writes _ _ ?_
        dsimp only
        omega
  · obtain ⟨hlist, hnum, -, -⟩ := (handleEvent_events hh).2 q
    refine ⟨h.pass.handles hh hsnd', hnum ▸ h.count, ?_, ?_⟩
    · rw [P.unread_congr hlist hnum, hnum]
      exact h.unread
    · rw [handleEvent_pc hh, hnum]
      rw [hpc] at hplace
      cases hplace with
      | writes _ _ hm => exact .next (by omega)

/-- A turn resumes the uthread, or its entry is still ahead. -/
theorem Ahead.turn {r : Reply} {fd : Int} {ev : UthreadEvent} {u : UId} (hu : Ahead s a q fd ev u)
    (h : InBatch a q es s n) (hs : step s (.sched a r) = .ok s') (htop : (s.sched a).pc ≠ .top) :
    (s'.sched a).curUthread = some u ∨ Ahead s' a q fd ev u := by
  rcases h.turn_cases hs htop with ⟨hpc, hz, hc, rfl⟩ | ⟨e, hpc, hz, he, hh⟩ | ⟨fd', eof, hpc, hh⟩
  · rcases hu.entry with ⟨e, he, -⟩ | ⟨-, eof, hwr⟩
    · unfold P.unread at he
      rw [hz] at he
      cases he
    · cases hpc.symm.trans hwr
  · obtain ⟨hlast, -⟩ := h.took_unread hz he
    have hevents := (handleEvent_events hh).2 q
    rw [tookEvent_p, if_pos rfl] at hevents
    obtain ⟨hlist, hnum, -, -⟩ := hevents
    have hunread : (s'.p q).unread = (s.p q).eventlist.take ((s.p q).numNewEvents - 1) := by
      unfold P.unread
      rw [hnum, hlist]
    have hwaits := hu.parked.congr (tookEvent_ut a q e s) (tookEvent_waiting a q e s) (tookEvent_cur a q e s)
    rcases hwaits.handles (h.pass.took e) hh with ⟨-, -, hcur⟩ | ⟨hother, hwaits'⟩
    · exact .inl hcur
    · refine .inr ⟨hwaits', ?_⟩
      rcases hu.entry with ⟨x, hx, hxfd⟩ | ⟨-, eof, hwr⟩
      · rw [hlast] at hx
        rcases List.mem_append.mp hx with hx | hx
        · exact .inl ⟨x, hunread.symm ▸ hx, hxfd⟩
        · -- the entry is its own, so it waits to write
          cases List.mem_singleton.mp hx
          subst hxfd
          refine .inr ⟨?_, _, handleEvent_pc hh⟩
          cases ev with
          | rd => exact absurd ⟨rfl, rfl⟩ hother
          | wr => rfl
      · cases hpc.symm.trans hwr
  · obtain ⟨hlist, hnum, -, -⟩ := (handleEvent_events hh).2 q
    rcases hu.parked.handles h.pass hh with ⟨-, -, hcur⟩ | ⟨hother, hwaits'⟩
    · exact .inl hcur
    · refine .inr ⟨hwaits', ?_⟩
      rcases hu.entry with ⟨x, hx, hxfd⟩ | ⟨hev, eof', hwr⟩
      · exact .inl ⟨x, (P.unread_congr hlist hnum).symm ▸ hx, hxfd⟩
      · cases hpc.symm.trans hwr
        exact absurd ⟨rfl, hev.symm⟩ hother

/-- The uthreads that `handle_event` has resumed on the thread of `a`. -/
def noteHandled (a : SId) (s : State) (act : Act) (s' : State) (l : List UId) : List UId :=
  if act.turnOf a && (s.sched a).pc.inBatch then l ++ (s'.sched a).curUthread.toList else l

/-- The action is not the next pass of `a`, and does not take its p. -/
def StaysInPass (a : SId) (s : State) (act : Act) : Prop :=
  (act.turnOf a = true → (s.sched a).pc ≠ .top) ∧ a ∉ handingOff s act

instance (a : SId) (s : State) (act : Act) : Decidable (StaysInPass a s act) :=
  inferInstanceAs (Decidable (_ ∧ _))

theorem InBatch.step (h : InBatch a q es s n) (hs : step s act = .ok s') (hin : StaysInPass a s act) :
    InBatch a q es s' (n + if act.turnOf a then 1 else 0) := by
  by_cases hturn : act.turnOf a = true
  · rw [if_pos hturn]
    obtain ⟨r, rfl⟩ := Act.eq_of_turnOf hturn
    exact h.turn hs (hin.1 hturn)
  · rw [if_neg hturn]
    exact h.beside hs (Bool.eq_false_iff.mpr hturn) hin.2

theorem BatchAt.inBatch {m k : Nat} {cur : Option UId} {pc : SchedAt} (h : BatchAt m k n cur pc)
    (htop : pc ≠ .top) : pc.inBatch = true := by
  cases h with
  | next _ => rfl
  | writes _ _ _ => rfl
  | ended _ _ _ => exact absurd rfl htop

/-- A uthread whose entry is ahead is handled, or the entry stays ahead. -/
theorem Ahead.step {fd : Int} {ev : UthreadEvent} {u : UId} {l : List UId} (hu : u ∈ l ∨ Ahead s a q fd ev u)
    (h : InBatch a q es s n) (hs : UthreadRuntime.step s act = .ok s') (hin : StaysInPass a s act) :
    u ∈ noteHandled a s act s' l ∨ Ahead s' a q fd ev u := by
  unfold noteHandled
  rcases hu with hu | hu
  · left
    split
    · exact List.mem_append_left _ hu
    · exact hu
  · by_cases hturn : act.turnOf a = true
    · obtain ⟨r, rfl⟩ := Act.eq_of_turnOf hturn
      rcases hu.turn h hs (hin.1 hturn) with hcur | hahead
      · left
        rw [hturn, h.place.inBatch (hin.1 hturn), Bool.and_self, if_pos rfl, hcur]
        exact List.mem_append_right l (List.mem_singleton_self u)
      · exact .inr hahead
    · exact .inr (hu.beside h.pass hs (Bool.eq_false_iff.mpr hturn) hin.2)

/-- With no entry reported nobody is resumed. -/
theorem InBatch.none_handled {l : List UId} (h : InBatch a q [] s n) (hs : UthreadRuntime.step s act = .ok s')
    (hin : StaysInPass a s act) : noteHandled a s act s' l = l := by
  unfold noteHandled
  split
  · rename_i hturn
    obtain ⟨hturn, -⟩ := Bool.and_eq_true_iff.mp hturn
    obtain ⟨r, rfl⟩ := Act.eq_of_turnOf hturn
    have hz : (s.p q).numNewEvents = 0 := Nat.le_zero.mp h.count
    rcases h.turn_cases hs (hin.1 hturn) with ⟨-, -, hc, rfl⟩ | ⟨e, -, hne, -⟩ | ⟨fd, eof, hpc, -⟩
    · rw [setPc_cur, hc]
      exact List.append_nil l
    · exact absurd hz hne
    · have hplace := h.place
      rw [hpc] at hplace
      cases hplace with
      | writes _ _ hm =>
        rw [List.length_nil] at hm
        omega
  · rfl

/-- A run of the batch: whoever waits for an entry is handled or has it ahead, and with no entry
nobody is handled. -/
theorem InBatch.run {acts : List Act} (h : InBatch a q es s n)
    (hrun : Run.run UthreadRuntime.step s acts = .ok s')
    (hin : Run.each UthreadRuntime.step (fun t act _ => StaysInPass a t act) s acts) :
    InBatch a q es s' (n + acts.countP (Act.turnOf a)) ∧
      (∀ fd ev u, Ahead s a q fd ev u →
        u ∈ Run.tally UthreadRuntime.step (noteHandled a) s [] acts ∨ Ahead s' a q fd ev u) ∧
      (es = [] → Run.tally UthreadRuntime.step (noteHandled a) s [] acts = []) := by
  refine Run.tally_counted (J := fun (t : State) (l : List UId) (m : Nat) =>
    InBatch a q es t m ∧ (∀ fd ev u, Ahead s a q fd ev u → u ∈ l ∨ Ahead t a q fd ev u) ∧ (es = [] → l = []))
    hrun hin ⟨h, fun _ _ _ hu => .inr hu, fun _ => rfl⟩ ?_
  rintro t act t' l m ⟨ht, hahead, hnone⟩ hin hs
  refine ⟨ht.step hs hin, fun fd ev u hu => Ahead.step (hahead fd ev u hu) ht hs hin, fun hes => ?_⟩
  subst hes
  rw [ht.none_handled hs hin]
  exact hnone rfl

end Batch

/-- An event is handled, unless its descriptor has left the interest set. -/
theorem handleEvent_succeeds {s : State} {a : SId} {q : PId} (h : Sound s) (hq : (s.sched a).p = some q)
    (fd : Int) (ev : UthreadEvent) (eof : Bool) (k : SchedAt) :
    (∃ s', handleEvent a fd ev eof k s = .ok s') ∨
      handleEvent a fd ev eof k s = .error (.fault (.assertion .eventDel)) := by
  obtain ⟨found, s₁, hd⟩ := uthreadDeschedEvent_succeeds h hq fd ev.toNat
  unfold handleEvent
  rw [hd]
  cases found with
  | none => exact .inl ⟨setPc a k s₁, rfl⟩
  | some v =>
    obtain ⟨q', -, hfind, ⟨hv, -⟩ | ⟨v', hv, hsl⟩⟩ := uthreadDeschedEvent_ok hd
    · cases hv
    · cases hv
      obtain ⟨hmem, hkey⟩ := Tree.find_eq_some hfind
      have hfd : fd = fdOnly (s₁.ut v).fdWait := by
        rw [(KeepsLinks.deschedSleep hsl).key v (h.waiting hmem), setP_ut, hkey, fdOnly_fdKey]
      have hhome : ((s₁.setUt v fun w => {w with status := clearWait w.status}).ut v).p = some 0 := by
        rw [setUt_ut_self]
        exact deschedEvent_found_p h hd
      simp only [bind, Except.bind, ← hfd, if_true, epollDel, home_of_some hhome]
      cases epollCtlDel fd
          ((s₁.setUt v fun w => {w with status := clearWait w.status}).p 0).interest with
      | none => exact .inr rfl
      | some l => exact .inl ⟨_, rfl⟩

theorem InBatch.goesOn {a : SId} {q : PId} {es : List EpollEvent} {s : State} {n : Nat}
    (h : InBatch a q es s n) (htop : (s.sched a).pc ≠ .top) (hc : (s.sched a).curUthread = none)
    (hhalt : s.halted = false) (r : Reply) :
    (∃ s', UthreadRuntime.step s (.sched a r) = .ok s') ∨
      UthreadRuntime.step s (.sched a r) = .error (.fault (.assertion .eventDel)) := by
  have hstep : UthreadRuntime.step s (.sched a r) = schedRun a r s := by
    simp only [UthreadRuntime.step, hhalt, hc, Bool.false_eq_true, if_false]
  rw [hstep]
  have hplace := h.place
  generalize hpc : (s.sched a).pc = k at hplace htop
  cases hplace with
  | next _ =>
    simp only [schedRun, hpc, h.pass.bound]
    split
    · exact .inl ⟨_, rfl⟩
    · rename_i hz
      have hlt : (s.p q).numNewEvents - 1 < (s.p q).eventlist.length := by
        have hlen := congrArg List.length h.unread
        unfold P.unread at hlen
        rw [List.length_take_of_le h.count, List.length_take] at hlen
        omega
      have he := List.getElem?_eq_getElem hlt
      have htook := h.pass.took (s.p q).eventlist[(s.p q).numNewEvents - 1]
      simp only [takeEvent, he]
      exact handleEvent_succeeds htook.sound htook.bound _ _ _ _
  | writes fd eof _ =>
    simp only [schedRun, hpc]
    exact handleEvent_succeeds h.pass.sound h.pass.bound fd .wr eof .events
  | ended _ _ _ => exact absurd rfl htop

/-! ### From the end of the ready phase to the end of the pass -/

/-- `_uthread_poll` goes on to `epoll_wait`: nobody is ready and no sleeper is due. -/
def asksKernel (s : State) (q : PId) (r : Reply) : Bool :=
  decide (uthreadMinTimeout s (s.p q) r.now r.now2 ≠ 0) && (s.p q).ready.isEmpty

/-- `epoll_wait` reports all that is pending, if there is room for it. -/
def ReportsAll (pending : List EpollEvent) (r : Reply) : Prop :=
  pending.length ≤ 1024 → ∀ e ∈ pending, e ∈ r.events

/-- A pass of the loop of `a` from the end of its ready phase in `s₀`, over the call of
`_uthread_poll` in `t`, to `s`, in a calm run. The p is not handed off. -/
structure PollPass (a : SId) (q : PId) (s₀ : State) (before : List Act) (t : State) (r : Reply)
    (after : List Act) (s : State) : Prop where
  reach : Reaches Calm s₀
  calm : Run.each step (fun x act _ => Calm x act) s₀ (before ++ .sched a r :: after)
  pc : (s₀.sched a).pc = .pollCheck
  bound : (s₀.sched a).p = some q
  cur : (s₀.sched a).curUthread = none
  toPoll : Run.run step s₀ before = .ok t
  still : Run.each step (fun x act _ =>
    (act.turnOf a = true → (x.sched a).pc = .pollCheck) ∧ a ∉ handingOff x act) s₀ before
  poll : (t.sched a).pc = .poll
  run : Run.run step t (.sched a r :: after) = .ok s
  inside : Run.each step (fun x act _ => StaysInPass a x act) t (.sched a r :: after)

/-- The uthreads that `handle_event` resumes from the poll on. -/
def handledFrom (a : SId) (t : State) (r : Reply) (after : List Act) : List UId :=
  Run.tally step (noteHandled a) t [] (.sched a r :: after)

/-- If `epoll_wait` is called, whoever waited for a pending event at the end of the ready phase is
resumed by `handle_event` before the pass ends; the loop goes on whenever it has control, as
long as no descriptor is closed under it, and its turns are bounded. If it is not called, the
pass resumes nobody. -/
structure ServesPending (a : SId) (q : PId) (s₀ t : State) (r : Reply) (after : List Act) (s : State) :
    Prop where
  served : asksKernel t q r = true → ∀ pending : List EpollEvent, pending.length ≤ 1024 →
    ReportsAll pending r → ∀ u ∈ (s₀.p q).waiting, fdOnly (s₀.ut u).fdWait ∈ pending.map EpollEvent.fd →
    (u ∈ handledFrom a t r after ∨ ∃ ev, Ahead s a q (fdOnly (s₀.ut u).fdWait) ev u) ∧
      ((s.sched a).pc = .top → u ∈ handledFrom a t r after)
  skipped : asksKernel t q r = false → handledFrom a t r after = []
  goesOn : (s.sched a).pc ≠ .top → (s.sched a).curUthread = none → s.halted = false → ∀ r',
    (∃ s', step s (.sched a r') = .ok s') ∨
      step s (.sched a r') = .error (.fault (.assertion .eventDel))
  turns : (Act.sched a r :: after).countP (Act.turnOf a) ≤ 2 * r.events.length + 2

section Pass

variable {a : SId} {q : PId} {s₀ s s' t : State} {r : Reply} {before after : List Act}

theorem PollPass.start (h : PollPass a q s₀ before t r after s) : InPass a q s₀ := by
  have hsnd := Sound.of_reaches h.reach
  refine ⟨hsnd, h.bound, fun c x hca hc => ?_, fun x hx => ?_⟩
  · obtain ⟨hlink, hout⟩ := outOfWait_of_reaches h.reach c x (hsnd.unbound_of_ne h.bound hca) hc
    refine ⟨hlink, hout q, ?_⟩
    rw [h.cur]
    simp
  · rw [h.cur] at hx
    cases hx

/-- Whoever is in the waiting tree is alone under its event, and on no thread. -/
theorem PollPass.parked {u : UId} (h : PollPass a q s₀ before t r after s) (hu : u ∈ (s₀.p q).waiting) :
    ∃ ev, Parked s₀ q (fdOnly (s₀.ut u).fdWait) ev u := by
  have hi := inv_of_reaches h.reach
  obtain ⟨hlive, -, fd, e, hwaits⟩ := hi.waiting_mem (u := u) hu
  have hkey : (s₀.ut u).fdWait = Placement.waitKey fd e := (hwaits.key_eq (hi.wf hlive)).1
  rw [hkey, Placement.fdOnly_waitKey]
  refine ⟨e, ⟨hu, hkey, fun v hv hvk => hi.waiting_inj hv hu (hvk.trans hkey.symm)⟩, fun c hc => ?_⟩
  by_cases hca : c = a
  · subst hca
    cases h.cur.symm.trans hc
  · exact (h.start.apart c u hca hc).2.1 hu

/-- What has to be read off a concrete run for it to be a pass. -/
theorem PollPass.of_checked {acts : List Act} (hs₀ : Run.checked step atomicCheck init acts = some s₀)
    (hstart : (s₀.sched a).pc = .pollCheck ∧ (s₀.sched a).p = some q ∧ (s₀.sched a).curUthread = none)
    (htoPoll : Run.run step s₀ before = .ok t)
    (hstill : Run.each step (fun x act _ =>
      (act.turnOf a = true → (x.sched a).pc = .pollCheck) ∧ a ∉ handingOff x act) s₀ before)
    (hpoll : (t.sched a).pc = .poll)
    (hs : Run.checked step atomicCheck s₀ (before ++ .sched a r :: after) = some s)
    (hinside : Run.each step (fun x act _ => StaysInPass a x act) t (.sched a r :: after)) :
    PollPass a q s₀ before t r after s := by
  have hreach := calm_of_check hs₀
  exact ⟨hreach, Run.each_of_meets (meets_of_atomicCheck hreach hs), hstart.1, hstart.2.1, hstart.2.2, htoPoll,
    hstill, hpoll, (Run.run_append htoPoll).symm.trans (Run.run_of_checked hs), hinside⟩

/-- The loop comes to the poll with the same uthreads waiting. -/
theorem PollPass.atPoll (h : PollPass a q s₀ before t r after s) :
    InPass a q t ∧ ∀ fd ev u, Parked s₀ q fd ev u → Parked t q fd ev u := by
  have hinv : InPass a q t ∧ (t.sched a).curUthread = none ∧
      ∀ fd ev u, Parked s₀ q fd ev u → Parked t q fd ev u := by
    refine Run.run_invariant (I := fun x => InPass a q x ∧ (x.sched a).curUthread = none ∧
      ∀ fd ev u, Parked s₀ q fd ev u → Parked x q fd ev u) h.toPoll h.still
      ⟨h.start, h.cur, fun _ _ _ hu => hu⟩ ?_
    rintro x act x' ⟨hx, hc, hpark⟩ ⟨hturn, hoff⟩ hs
    by_cases hact : act.turnOf a = true
    · obtain ⟨r', rfl⟩ := Act.eq_of_turnOf hact
      have hpc := hturn hact
      cases step_ok hs with
      | sched _ hss =>
        cases hss with
        | @goes k _ =>
          exact ⟨hx.congr (hx.sound.step hs) rfl rfl (setPc_bound a k x) (setPc_cur a k x),
            (setPc_cur a k x a).trans hc, fun fd ev u hu => (hpark fd ev u hu).congr rfl rfl (setPc_cur a k x)⟩
        | another h₁ _ | expired h₁ _ _ _ _ _ | ready h₁ _ _ | noPoll h₁ _ | polled h₁ _ _ | took h₁ _ _ _ _
        | handled h₁ _ | halted h₁ =>
          rw [hpc] at h₁
          cases h₁
    · have hact' := Bool.eq_false_iff.mpr hact
      refine ⟨hx.beside hs hact' hoff, ?_, fun fd ev u hu => (hpark fd ev u hu).beside hx hs hact'⟩
      rcases (step_apart hx.sound hs hact' hoff hx.bound).2.2 with hcur | hcur
      · exact hcur.trans hc
      · exact hcur
  exact ⟨hinv.1, hinv.2.2⟩

theorem uthreadMinTimeout_setP (g : P → P) (hg : ∀ v, (g v).sleeping = v.sleeping) (n₁ n₂ : Nat) :
    uthreadMinTimeout (s.setP q g) ((s.setP q g).p q) n₁ n₂ = uthreadMinTimeout s (s.p q) n₁ n₂ := by
  unfold uthreadMinTimeout
  rw [setP_p_self, hg]
  rfl

/-- The loop goes on to the entries `es`, with nothing else changed that the pass depends on. -/
theorem InPass.toEvents {g : P → P} {es : List EpollEvent} (h : InPass a q s)
    (hsnd : Sound (setPc a .events (s.setP q g))) (hw : (g (s.p q)).waiting = (s.p q).waiting)
    (hn : (g (s.p q)).numNewEvents = es.length) (hu : (g (s.p q)).unread = es) :
    InBatch a q es (setPc a .events (s.setP q g)) 0 ∧
      (∀ fd ev u, Parked s q fd ev u → Parked (setPc a .events (s.setP q g)) q fd ev u) ∧
      ((setPc a .events (s.setP q g)).p q).unread = es := by
  have hp : (setPc a .events (s.setP q g)).p q = g (s.p q) := setP_p_self s q g
  have hpc : ((setPc a .events (s.setP q g)).sched a).pc = .events := setPc_pc a .events _
  have hcur := setPc_cur a .events (s.setP q g)
  refine ⟨⟨h.congr hsnd rfl (hp ▸ hw) (setPc_bound a .events (s.setP q g)) hcur, ?_, ?_, ?_⟩,
    fun fd ev u hpark => hpark.congr rfl (hp ▸ hw) hcur, hp ▸ hu⟩
  · rw [hp, hn]
  · rw [hp, hn, List.take_length, hu]
  · rw [hpc, hp, hn]
    exact .next (Nat.zero_add _)

/-- `_uthread_poll` either leaves no entry, or all that were reported. -/
theorem InPass.polls (h : InPass a q s) (hpc : (s.sched a).pc = .poll)
    (hs : UthreadRuntime.step s (.sched a r) = .ok s') :
    InBatch a q (if asksKernel s q r then r.events else []) s' 0 ∧
      (∀ fd ev u, Parked s q fd ev u → Parked s' q fd ev u) ∧
      (s'.p q).unread = (if asksKernel s q r then r.events else []) := by
  have hsnd' := h.sound.step hs
  have hrun := step_sched_ok hs
  simp only [schedRun, hpc, uthreadPoll, bound_of_some h.bound, bind, Except.bind] at hrun
  rw [uthreadMinTimeout_setP (fun v => {v with numNewEvents := 0}) fun _ => rfl, setP_p_self] at hrun
  by_cases hask : asksKernel s q r = true
  · obtain ⟨hmin, hready⟩ := Bool.and_eq_true_iff.mp hask
    rw [if_pos ⟨of_decide_eq_true hmin, hready⟩] at hrun
    rw [if_pos hask]
    split at hrun
    · split at hrun
      · have hs' : s' = setPc a .events (s.setP q fun v => {v with
            numNewEvents := r.events.length
            interest := disarm r.events v.interest
            eventlist := r.events
            posted := v.posted ++ r.events}) := by
          rw [← Except.ok.inj hrun]
          simp [State.setP]
        rw [hs'] at hsnd' ⊢
        exact h.toEvents hsnd' rfl rfl List.take_length
      · cases hrun
    · cases hrun
  · rw [if_neg] at hrun
    · rw [if_neg hask]
      cases hrun
      exact h.toEvents hsnd' rfl rfl rfl
    · rintro ⟨hmin, hready⟩
      exact hask (Bool.and_eq_true_iff.mpr ⟨decide_eq_true hmin, hready⟩)

theorem InBatch.turns_le {es : List EpollEvent} {n : Nat} (h : InBatch a q es s n) : n ≤ 2 * es.length + 1 := by
  have hplace := h.place
  generalize (s.sched a).pc = k at hplace
  cases hplace with
  | next hm => omega
  | writes _ _ hm => omega
  | ended _ hm _ => omega

/-- At the end of the pass no entry is ahead. -/
theorem InBatch.none_ahead {es : List EpollEvent} {n : Nat} {fd : Int} {ev : UthreadEvent} {u : UId}
    (h : InBatch a q es s n) (htop : (s.sched a).pc = .top) : ¬Ahead s a q fd ev u := by
  intro hu
  have hplace := h.place
  rw [htop] at hplace
  cases hplace with
  | ended hz _ _ =>
    rcases hu.entry with ⟨e, he, -⟩ | ⟨-, eof, hwr⟩
    · unfold P.unread at he
      rw [hz] at he
      cases he
    · cases htop.symm.trans hwr

/-- **A pass that calls `epoll_wait` serves all that is pending, and one that does not serves
nobody.** -/
theorem pass_serves_pending (h : PollPass a q s₀ before t r after s) : ServesPending a q s₀ t r after s := by
  obtain ⟨hpass, hpark⟩ := h.atPoll
  obtain ⟨t', hs, hrest⟩ := Run.run_cons_ok h.run
  have hin := h.inside
  unfold Run.each at hin
  simp only [hs] at hin
  obtain ⟨hstart, hkept, hunread⟩ := hpass.polls h.poll hs
  obtain ⟨hend, hahead, hnone⟩ := hstart.run hrest hin.2
  have hnote : noteHandled a t (.sched a r) t' [] = [] := by
    unfold noteHandled
    rw [h.poll]
    simp [SchedAt.inBatch]
  have hfrom : handledFrom a t r after = Run.tally step (noteHandled a) t' [] after := by
    rw [handledFrom, Run.tally]
    simp only [hs, hnote]
  refine ⟨fun hask pending hlen hall u hu hfd => ?_, fun hask => ?_, hend.goesOn, ?_⟩
  · rw [if_pos hask] at hunread
    obtain ⟨ev, hparked⟩ := h.parked hu
    obtain ⟨e, he, hefd⟩ := List.mem_map.mp hfd
    have hfirst : Ahead t' a q (fdOnly (s₀.ut u).fdWait) ev u :=
      ⟨hkept _ _ _ (hpark _ _ _ hparked), .inl ⟨e, hunread.symm ▸ hall hlen e he, hefd⟩⟩
    rw [hfrom]
    have hdone := hahead _ _ _ hfirst
    exact ⟨hdone.imp_right fun hu => ⟨ev, hu⟩, fun htop => hdone.resolve_right (hend.none_ahead htop)⟩
  · rw [hfrom]
    exact hnone (by rw [hask]; rfl)
  · have hturns := hend.turns_le
    have hle : (if asksKernel t q r then r.events else []).length ≤ r.events.length := by
      split
      · exact Nat.le_refl _
      · exact Nat.zero_le _
    have hturn : (Act.sched a r).turnOf a = true := beq_self_eq_true a
    rw [List.countP_cons, if_pos hturn]
    omega

end Pass

/-- Main and the uthread it created both wait to read, and the ready phase is over. -/
def bothWait : List Act := boot ++ sleepsReading 5 0 ++ scheds 0 8 ++ sleepsReading 6 1 ++ scheds 0 1

/-- The uthreads are resumed one after the other; each reads one byte and yields. -/
def bothRead : List Act :=
  scheds 0 1 ++ List.replicate 9 (.stmt 0 {ret := 1}) ++ calls 0 .yield 2 ++ scheds 0 2 ++
    List.replicate 9 (.stmt 0 {ret := 1}) ++ calls 0 .yield 2 ++ scheds 0 2

theorem bothWait_served : ∃ s₀ t s,
    PollPass 0 0 s₀ (scheds 0 1) t {events := [⟨5, false⟩, ⟨6, false⟩]} bothRead s ∧
    (s₀.p 0).waiting = [1, 0] ∧ (s₀.ut 0).fdWait = fdKey 5 0 ∧ (s₀.ut 1).fdWait = fdKey 6 0 ∧
    (s.sched 0).pc = .top ∧ 0 ∈ handledFrom 0 t {events := [⟨5, false⟩, ⟨6, false⟩]} bothRead ∧
    1 ∈ handledFrom 0 t {events := [⟨5, false⟩, ⟨6, false⟩]} bothRead := by
  have hread : (Run.checked step atomicCheck init bothWait).bind (fun s₀ =>
      (Run.run step s₀ (scheds 0 1)).toOption.bind fun t =>
      (Run.checked step atomicCheck s₀
        (scheds 0 1 ++ .sched 0 {events := [⟨5, false⟩, ⟨6, false⟩]} :: bothRead)).map fun s =>
        (decide ((s₀.sched 0).pc = .pollCheck ∧ (s₀.sched 0).p = some 0 ∧ (s₀.sched 0).curUthread = none),
          decide ((s₀.p 0).waiting = [1, 0] ∧ (s₀.ut 0).fdWait = fdKey 5 0 ∧ (s₀.ut 1).fdWait = fdKey 6 0),
          decide (Run.each step (fun x act _ =>
              (act.turnOf 0 = true → (x.sched 0).pc = .pollCheck) ∧ 0 ∉ handingOff x act) s₀ (scheds 0 1) ∧
            (t.sched 0).pc = .poll ∧ asksKernel t 0 {events := [⟨5, false⟩, ⟨6, false⟩]} = true ∧
            Run.each step (fun x act _ => StaysInPass 0 x act) t
              (.sched 0 {events := [⟨5, false⟩, ⟨6, false⟩]} :: bothRead) ∧
            (s.sched 0).pc = .top))) = some (true, true, true) := by decide +kernel
  obtain ⟨s₀, hs₀, hread⟩ := Option.bind_eq_some_iff.mp hread
  obtain ⟨t, ht, hread⟩ := Option.bind_eq_some_iff.mp hread
  obtain ⟨s, hs, hread⟩ := Option.map_eq_some_iff.mp hread
  simp only [Prod.mk.injEq, decide_eq_true_eq] at hread
  obtain ⟨hstart, ⟨hw, hk₀, hk₁⟩, hstill, hpoll, hask, hinside, htop⟩ := hread
  have hpass := PollPass.of_checked hs₀ hstart (ok_of_toOption ht) hstill hpoll hs hinside
  have hserved := (pass_serves_pending hpass).served hask [⟨5, false⟩, ⟨6, false⟩] (by decide) fun _ _ he => he
  refine ⟨s₀, t, s, hpass, hw, hk₀, hk₁, htop, (hserved 0 ?_ ?_).2 htop, (hserved 1 ?_ ?_).2 htop⟩
  · rw [hw]
    decide
  · rw [hk₀]
    decide
  · rw [hw]
    decide
  · rw [hk₁]
    decide

/-- Main waits to read, and the uthread it created has yielded in the ready phase that is over. -/
def waitsBesideReady : List Act := boot ++ sleepsReading 5 0 ++ scheds 0 8 ++ calls 0 .yield 2 ++ scheds 0 1

/-- The event main waits for is pending at the end of the ready phase, but somebody is ready: the
pass ends without `epoll_wait`, and main goes on waiting. -/
theorem waitsBesideReady_skipped : ∃ s₀ t s,
    PollPass 0 0 s₀ (scheds 0 1) t {events := [⟨5, false⟩]} (scheds 0 1) s ∧
    (s₀.p 0).waiting = [0] ∧ (s₀.ut 0).fdWait = fdKey 5 0 ∧ (s₀.p 0).interest = [⟨5, .rd, true⟩] ∧
    (s₀.p 0).ready = [1] ∧ ReportsAll [⟨5, false⟩] {events := [⟨5, false⟩]} ∧ (s.sched 0).pc = .top ∧
    (s.p 0).posted = [] ∧ handledFrom 0 t {events := [⟨5, false⟩]} (scheds 0 1) = [] ∧ (s.p 0).waiting = [0] := by
  have hread : (Run.checked step atomicCheck init waitsBesideReady).bind (fun s₀ =>
      (Run.run step s₀ (scheds 0 1)).toOption.bind fun t =>
      (Run.checked step atomicCheck s₀ (scheds 0 1 ++ .sched 0 {events := [⟨5, false⟩]} :: scheds 0 1)).map fun s =>
        (decide ((s₀.sched 0).pc = .pollCheck ∧ (s₀.sched 0).p = some 0 ∧ (s₀.sched 0).curUthread = none),
          decide ((s₀.p 0).waiting = [0] ∧ (s₀.ut 0).fdWait = fdKey 5 0 ∧
            (s₀.p 0).interest = [⟨5, .rd, true⟩] ∧ (s₀.p 0).ready = [1]),
          decide (Run.each step (fun x act _ =>
              (act.turnOf 0 = true → (x.sched 0).pc = .pollCheck) ∧ 0 ∉ handingOff x act) s₀ (scheds 0 1) ∧
            (t.sched 0).pc = .poll ∧
            Run.each step (fun x act _ => StaysInPass 0 x act) t
              (.sched 0 {events := [⟨5, false⟩]} :: scheds 0 1)),
          decide ((s.sched 0).pc = .top ∧ (s.p 0).posted = [] ∧
            handledFrom 0 t {events := [⟨5, false⟩]} (scheds 0 1) = [] ∧ (s.p 0).waiting = [0]))) =
      some (true, true, true, true) := by decide +kernel
  obtain ⟨s₀, hs₀, hread⟩ := Option.bind_eq_some_iff.mp hread
  obtain ⟨t, ht, hread⟩ := Option.bind_eq_some_iff.mp hread
  obtain ⟨s, hs, hread⟩ := Option.map_eq_some_iff.mp hread
  simp only [Prod.mk.injEq, decide_eq_true_eq] at hread
  obtain ⟨hstart, ⟨hw, hk, hint, hready⟩, ⟨hstill, hpoll, hinside⟩, htop, hposted, hnone, hw'⟩ := hread
  have hpass := PollPass.of_checked hs₀ hstart (ok_of_toOption ht) hstill hpoll hs hinside
  exact ⟨s₀, t, s, hpass, hw, hk, hint, hready, fun _ _ he => he, htop, hposted, hnone, hw'⟩

end UthreadRuntime
