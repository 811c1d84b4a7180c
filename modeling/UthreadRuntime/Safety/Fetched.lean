import UthreadRuntime.Safety.Solo
import UthreadRuntime.Timer.Flags

/-! A sched that was fetched at the entry of a call.

`uthread_create` and the disk calls fetch the sched of their thread once and follow the pointer
statements later. A uthread that is preempted in between goes on on the thread that has its p
by then; when another uthread has handed the p off meanwhile, that is another thread, and the
pointer is to a sched without a p. -/
namespace UthreadRuntime

open State

/-- The sched that the call has fetched and will follow. -/
def Ctx.fetched : Ctx → Option SId
  | .createAlloc c | .create c _ | .diskFlag c | .diskHandOff c => some c
  | _ => none

/-- No p is handed off while another uthread has fetched its sched, `uthread_create` is entered
on a thread that has a p, and no uthread is resumed while a thread runs it. -/
structure Undisturbed (s : State) (act : Act) : Prop where
  handsOff : ∀ a r u c, act = .stmt a r → (s.sched a).curUthread = some u → (s.ut u).ctx = .diskHandOff c →
    handsOff c s = true → ∀ v < s.heap, v ≠ u → (s.ut v).ctx.fetched ≠ some c
  creates : ∀ a r u, act = .stmt a r → (s.sched a).curUthread = some u → (s.ut u).ctx = .createGet →
    (s.sched a).p ≠ none
  resumes : ResumesSuspended s act

/-! ### Steps -/

section Step

variable {s s' : State} {a : SId} {u : UId} {act : Act}

/-- A sched loses its p in the hand-off of a disk call that has fetched it. -/
theorem step_unbinds (hsnd : Sound s) (hs : step s act = .ok s') {d : SId} (hd : (s.sched d).p ≠ none) :
    (s'.sched d).p = (s.sched d).p ∨ ∃ a r u, act = .stmt a r ∧ (s.sched a).curUthread = some u ∧
      (s.ut u).ctx = .diskHandOff d ∧ handsOff d s = true := by
  rcases step_frame hs with ⟨a, r, -, -, hrun⟩ | ⟨-, hstill⟩ |
      ⟨a, r, u, rfl, hc, c, q, n, rest, hctx, hq, hready, hidle, rfl⟩
  · exact .inl ((schedRun_local hrun).bound d)
  · exact .inl (hstill.bound d)
  · obtain ⟨hn, hnc, -⟩ := hsnd.idle_ne hq hidle
    by_cases hdc : d = c
    · subst hdc
      exact .inr ⟨a, r, u, rfl, hc, hctx, handsOff_iff.mpr ⟨q, hq, hready⟩⟩
    · left
      have hdn : d ≠ n := by
        rintro rfl
        exact hd (hsnd.idle d hn).1
      show ((handedOff c n q rest s).sched d).p = _
      rw [handedOff_sched hnc, if_neg hdn, if_neg hdc]

/-- A flag is set when its uthread is resumed. -/
theorem step_flag (hs : step s act = .ok s') (hu : u < s.heap)
    (hf : (s'.ut u).isWatingYieldSignal = true) :
    (s.ut u).isWatingYieldSignal = true ∨ ∃ a r, act = .sched a r ∧ (s'.sched a).curUthread = some u := by
  cases step_ok hs with
  | call _ _ hent =>
    left
    cases hent with
    | goes _ _ _ =>
      rw [goto_flag] at hf
      unfold entered at hf
      rwa [setUt_keeps Uthread.isWatingYieldSignal rfl] at hf
    | detach _ =>
      rw [returns_flag, setUt_keeps Uthread.isWatingYieldSignal rfl] at hf
      unfold entered at hf
      rwa [setUt_keeps Uthread.isWatingYieldSignal rfl] at hf
    | close =>
      rw [returns_flag, closeFd_ut] at hf
      unfold entered at hf
      rwa [setUt_keeps Uthread.isWatingYieldSignal rfl] at hf
  | @stmt a r w _ hc hstmt =>
    left
    by_cases hsw : (s.ut w).ctx.switching = true
    · rw [step_stmt (not_halted_of_step hs) hc] at hs
      obtain ⟨k, -, hswitched⟩ := uthreadStmt_switching hs hsw
      rw [(switched_signals hswitched).flag] at hf
      exact (goto_flag k s u).symm.trans hf
    · rcases (hstmt.signals hc (by simpa using hsw)).flag u hu with h | ⟨h, -⟩
      · exact h.symm.trans hf
      · rw [h] at hf
        cases hf
  | @preempt a w _ hc hfl hsw =>
    left
    rw [(switched_signals hsw).flag] at hf
    by_cases huw : u = w
    · rw [huw]
      exact hfl
    · unfold idleCpu at hf
      rwa [setSched_ut, setUt_ut, if_neg huw] at hf
  | @sched a r _ hc hsched =>
    rcases SameSignals.untimed.schedStep hsched with hsame | ⟨w, k, s₁, hsame, rfl⟩ | ⟨q, -, -, rfl⟩
    · left
      rwa [hsame.flag] at hf
    · rw [uthreadResume_flag] at hf
      split at hf
      · rename_i huw
        exact .inr ⟨a, r, rfl, by rw [uthreadResume_cur, huw]⟩
      · left
        rwa [hsame.flag] at hf
    · exact .inl hf

theorem Call.head_fetched (c : Call) : c.head.fetched = none := by
  cases c <;> rfl

theorem Own.fetched {now : Nat} {k k' : Ctx} {f : Uthread → Uthread} (h : Own now k f k') :
    k'.fetched = none := by
  cases h with
  | wake w => cases w <;> rfl
  | _ => rfl

theorem Ctx.AtIo.fetched {k : Ctx} (h : k.AtIo) : k.fetched = none := by
  rcases h with ⟨c, pc, rfl⟩ | ⟨c, rfl⟩ <;> rfl

theorem Switches.fetched {k k' : Ctx} (h : Switches k k') : k'.fetched = none := by
  cases h <;> rfl

/-- What a call has fetched it keeps, and it fetches the sched of its thread. -/
theorem Stmt.fetched {r : Reply} {c : SId} (hs : Stmt a u r s s') (hf : (s'.ut u).ctx.fetched = some c) :
    (s.ut u).ctx.fetched = some c ∨
      (c = a ∧ ((s.ut u).ctx = .createGet ∨ ((s.ut u).ctx = .diskGet ∧ (s'.ut u).ctx = .diskFlag a))) := by
  have hgoto : ∀ {k : Ctx} {s₀ : State}, ((goto u k s₀).ut u).ctx.fetched = some c → k.fetched = some c := by
    intro k s₀ h
    rw [goto_ctx] at h
    exact h
  have hret : ∀ {x : Int} {s₀ : State}, ((returns a u x s₀).ut u).ctx.fetched ≠ some c := by
    intro x s₀
    rw [returns_ctx]
    simp [Ctx.fetched]
  cases hs with
  | own _ hown => cases hown.fetched.symm.trans (hgoto hf)
  | moves hm =>
    have hk := hgoto hf
    rw [goto_ctx]
    generalize (s.ut u).ctx = k at hm ⊢
    cases hm with
    | createGet => exact .inr ⟨(Option.some.inj hk).symm, .inl rfl⟩
    | diskGet => exact .inr ⟨(Option.some.inj hk).symm, .inr ⟨rfl, rfl⟩⟩
    | alloc _ | stack _ | bind => exact .inl hk
    | _ => cases hk
  | io _ _ hk => cases hk.fetched.symm.trans (hgoto hf)
  | switch _ hk hsw =>
    rw [(AllSeen.switched hsw u).ctx] at hf
    cases hk.fetched.symm.trans (hgoto hf)
  | lock hctx _ | count hctx | unlock hctx | diskFlag hctx _ =>
    have hk := hgoto hf
    rw [hctx]
    exact .inl hk
  | ioReturns _ _ | joinFails _ | joinExited _ _ | resetRetval _ | joinFree _ | allocFails _ _
  | created _ _ | diskCall _ _ => exact absurd hf hret
  | _ => cases hgoto hf

end Step

/-! ### Runs -/

/-- The call of `uthread_create` has fetched the sched. -/
def Ctx.createsOn : Ctx → Option SId
  | .createAlloc c | .create c _ => some c
  | _ => none

/-- The sched a uthread has fetched: it has a p, or the uthread is in a disk call on its thread. -/
structure FetchedOk (s : State) : Prop where
  sound : Sound s
  solo : Solo s
  bound : ∀ a u, (s.sched a).curUthread = some u → (s.ut u).isWatingYieldSignal = true → (s.sched a).p ≠ none
  creates : ∀ u < s.heap, ∀ c, (s.ut u).ctx.createsOn = some c → (s.sched c).p ≠ none
  disk : ∀ u < s.heap, ∀ c, (s.ut u).ctx = .diskFlag c →
    (s.sched c).curUthread = some u ∨ ((s.sched c).p ≠ none ∧ ∀ b, (s.sched b).curUthread ≠ some u)
  handOff : ∀ u < s.heap, ∀ c, (s.ut u).ctx = .diskHandOff c →
    (s.sched c).curUthread = some u ∧ (s.ut u).isWatingYieldSignal = false

section Runs

variable {s s' : State} {a : SId} {u : UId} {act : Act}

/-- A uthread past `diskFlag`, or before it while it runs, is on the thread it has fetched. -/
theorem FetchedOk.on (h : FetchedOk s) (hc : (s.sched a).curUthread = some u) {c : SId}
    (hctx : (s.ut u).ctx = .diskFlag c ∨ (s.ut u).ctx = .diskHandOff c) : c = a := by
  have hu := (h.sound.cur hc).1
  refine h.solo c a u ?_ hc
  rcases hctx with hctx | hctx
  · exact (h.disk u hu c hctx).resolve_right fun hs => hs.2 a hc
  · exact (h.handOff u hu c hctx).1

/-- A sched that a uthread has fetched keeps its p, unless the uthread itself hands it off. -/
theorem FetchedOk.keeps (h : FetchedOk s) (hun : Undisturbed s act) (hs : step s act = .ok s') (hu : u < s.heap)
    {c : SId} (hf : (s.ut u).ctx.fetched = some c) (hctx : (s.ut u).ctx ≠ .diskHandOff c)
    (hp : (s.sched c).p ≠ none) : (s'.sched c).p ≠ none := by
  rcases step_unbinds h.sound hs hp with hsame | ⟨a, r, v, hact, hc, hv, hoff⟩
  · rw [hsame]
    exact hp
  · refine absurd hf (hun.handsOff a r v c hact hc hv hoff u hu ?_)
    rintro rfl
    exact hctx hv

theorem FetchedOk.step_bound (h : FetchedOk s) (hun : Undisturbed s act) (hs : step s act = .ok s')
    (hc : (s'.sched a).curUthread = some u) (hf : (s'.ut u).isWatingYieldSignal = true) :
    (s'.sched a).p ≠ none := by
  rcases step_runs hs hc with hc' | ⟨r, rfl⟩
  · have hu := (h.sound.cur hc').1
    have hf' : (s.ut u).isWatingYieldSignal = true := by
      refine (step_flag hs hu hf).resolve_right ?_
      rintro ⟨b, r, rfl, hb⟩
      exact hun.resumes b r s' u rfl hs hb a hc'
    have hp := h.bound a u hc' hf'
    rcases step_unbinds h.sound hs hp with hsame | ⟨b, r, v, -, hb, hv, -⟩
    · rw [hsame]
      exact hp
    · -- the sched is handed off by the uthread it runs, which has no flag
      obtain ⟨hv', hflag⟩ := h.handOff v (h.sound.cur hb).1 a hv
      cases hc'.symm.trans hv'
      rw [hflag] at hf'
      cases hf'
  · cases step_ok hs with
    | sched hnone hsched =>
      rw [hsched.toLocal.bound]
      obtain ⟨⟨q, hq⟩, -⟩ := hsched.takes hnone hc
      rw [hq]
      simp

theorem Ctx.fetched_of_createsOn {k : Ctx} {c : SId} (h : k.createsOn = some c) :
    k.fetched = some c ∧ k ≠ .diskHandOff c := by
  cases k with
  | createAlloc d | create d pc => exact ⟨h, by simp⟩
  | _ => cases h

/-- What leads into `uthread_create` past its fetch. -/
theorem Stmt.createsOn {r : Reply} {c : SId} (hs : Stmt a u r s s') (hf : (s'.ut u).ctx.createsOn = some c) :
    (s.ut u).ctx.createsOn = some c ∨ (c = a ∧ (s.ut u).ctx = .createGet) := by
  have hflow := hs.flow
  rcases hs.fetched (Ctx.fetched_of_createsOn hf).1 with hk | ⟨rfl, hget | ⟨-, hdisk⟩⟩
  · left
    generalize (s.ut u).ctx = k at hk hflow ⊢
    cases k with
    | createAlloc d | create d pc => exact hk
    | diskFlag d | diskHandOff d =>
      generalize (s'.ut u).ctx = k' at hf hflow
      cases hflow with
      | own hown => cases hown
      | moves hm => cases hm <;> cases hf
      | switch hsw => cases hsw
      | _ => cases hf
    | _ => cases hk
  · exact .inr ⟨rfl, hget⟩
  · rw [hdisk] at hf
    cases hf

theorem FetchedOk.step_creates (h : FetchedOk s) (hun : Undisturbed s act) (hs : step s act = .ok s')
    (hu : u < s'.heap) {c : SId} (hf : (s'.ut u).ctx.createsOn = some c) : (s'.sched c).p ≠ none := by
  have hlt : u < s.heap := by
    refine (step_born h.sound hs hu).resolve_right fun huser => ?_
    rw [huser.1] at hf
    cases hf
  have hkept : (s.ut u).ctx.createsOn = some c → (s'.sched c).p ≠ none := by
    intro hk
    obtain ⟨hfetched, hne⟩ := Ctx.fetched_of_createsOn hk
    exact h.keeps hun hs hlt hfetched hne (h.creates u hlt c hk)
  rcases step_ctx h.sound hs hlt with hsame | ⟨b, k, -, -, hhead⟩ | ⟨a, r, rfl, hc, hstmt⟩
  · rw [hsame] at hf
    exact hkept hf
  · have hnone := k.head_fetched
    rw [← hhead, (Ctx.fetched_of_createsOn hf).1] at hnone
    cases hnone
  · rcases hstmt.createsOn hf with hk | ⟨rfl, hget⟩
    · exact hkept hk
    · have hp := hun.creates c r u rfl hc hget
      rcases step_unbinds h.sound hs hp with hsame | ⟨b, r', v, hact, hb, hv, -⟩
      · rw [hsame]
        exact hp
      · cases hact
        cases hc.symm.trans hb
        rw [hget] at hv
        cases hv

/-- A uthread that is in a disk call goes on from it by its own statement. -/
theorem Flow.of_diskFlag {c d : SId} {k : Ctx} (h : Flow (.diskFlag c) k) : k ≠ .diskFlag d := by
  cases h with
  | own hown => cases hown
  | moves hm => cases hm
  | switch hsw => cases hsw
  | _ => simp

theorem Flow.of_diskHandOff {c d : SId} {k : Ctx} (h : Flow (.diskHandOff c) k) : k ≠ .diskHandOff d := by
  cases h with
  | own hown => cases hown
  | moves hm => cases hm; simp
  | switch hsw => cases hsw
  | _ => simp

theorem Flow.to_diskFlag {c : SId} {k : Ctx} (h : Flow k (.diskFlag c)) : k = .diskGet := by
  cases h with
  | own hown => cases hown.fetched
  | moves hm => cases hm; rfl
  | io hk => cases hk.fetched
  | switch hsw => cases hsw

theorem Flow.to_diskHandOff {c : SId} {k : Ctx} (h : Flow k (.diskHandOff c)) : k = .diskFlag c := by
  cases h with
  | own hown => cases hown.fetched
  | moves hm => cases hm
  | io hk => cases hk.fetched
  | switch hsw => cases hsw
  | diskFlag => rfl

/-- A uthread inside a call that neither goes on nor is preempted stays on its thread. -/
theorem cur_stays (hs : step s act = .ok s') (hc : (s.sched a).curUthread = some u) (hctx : (s.ut u).ctx ≠ .user)
    (hflow : ¬Flow (s.ut u).ctx (s'.ut u).ctx) (hpre : act ≠ .preempt a) : (s'.sched a).curUthread = some u := by
  refine (step_cur hs ?_).trans hc
  rintro rfl
  cases act with
  | call b k =>
    cases step_ok hs with
    | call hc' huser _ =>
      cases hc.symm.trans hc'
      exact hctx huser
  | stmt b r =>
    cases step_ok hs with
    | stmt hc' hstmt =>
      cases hc.symm.trans hc'
      exact hflow hstmt.flow
  | preempt b => exact hpre rfl
  | sched b r =>
    cases step_ok hs with
    | sched hnone _ => cases hc.symm.trans hnone

theorem diskFlag_stmt {r : Reply} {c : SId} (hs : step s (.stmt a r) = .ok s') (hc : (s.sched a).curUthread = some u)
    (hctx : (s.ut u).ctx = .diskFlag c) : ∃ v, (s.sched c).curUthread = some v ∧
      s' = goto u (.diskHandOff c) (s.setUt v fun x => {x with isWatingYieldSignal := false}) := by
  rw [step_stmt (not_halted_of_step hs) hc] at hs
  simp only [uthreadStmt, hctx, diskFlagStmt] at hs
  split at hs
  · cases hs
  · rename_i v hv
    cases hs
    exact ⟨v, hv, rfl⟩

theorem preempt_off (hs : step s (.preempt a) = .ok s') : (s'.sched a).curUthread = none := by
  cases step_ok hs with
  | preempt _ _ hsw =>
    rw [(switched_signals hsw).cur, idleCpu_cur, if_pos rfl]

/-- A uthread before `diskFlag` that stays there. -/
theorem FetchedOk.disk_stays (h : FetchedOk s) (hun : Undisturbed s act) (hs : step s act = .ok s')
    (hu : u < s.heap) {c : SId} (hctx : (s.ut u).ctx = .diskFlag c) (hctx' : (s'.ut u).ctx = .diskFlag c) :
    (s'.sched c).curUthread = some u ∨ ((s'.sched c).p ≠ none ∧ ∀ b, (s'.sched b).curUthread ≠ some u) := by
  have hfetched : (s.ut u).ctx.fetched = some c := by rw [hctx]; rfl
  have hkeeps : (s.sched c).p ≠ none → (s'.sched c).p ≠ none :=
    h.keeps hun hs hu hfetched (by rw [hctx]; simp)
  rcases h.disk u hu c hctx with hc | ⟨hp, hoff⟩
  · by_cases hpre : act = .preempt c
    · subst hpre
      cases step_ok hs with
      | preempt hc' hf _ =>
        cases hc.symm.trans hc'
        refine .inr ⟨hkeeps (h.bound c u hc hf), fun b hb => ?_⟩
        rcases step_runs hs hb with hb' | ⟨r, hact⟩
        · obtain rfl := h.solo b c u hb' hc
          rw [preempt_off hs] at hb
          cases hb
        · cases hact
    · left
      refine cur_stays hs hc (by rw [hctx]; simp) (fun hflow => ?_) hpre
      rw [hctx] at hflow
      exact hflow.of_diskFlag hctx'
  · by_cases hrun : ∃ b, (s'.sched b).curUthread = some u
    · obtain ⟨b, hb⟩ := hrun
      rcases step_runs hs hb with hb' | ⟨r, rfl⟩
      · exact absurd hb' (hoff b)
      · cases step_ok hs with
        | sched hnone hsched =>
          left
          obtain ⟨⟨q, hq⟩, -⟩ := hsched.takes hnone hb
          obtain ⟨q', hq'⟩ := Option.ne_none_iff_exists'.mp hp
          rw [h.sound.one hq] at hq
          rw [h.sound.one hq'] at hq'
          rw [h.sound.bound_inj hq' hq]
          exact hb
    · exact .inr ⟨hkeeps hp, fun b hb => hrun ⟨b, hb⟩⟩

theorem FetchedOk.step_disk (h : FetchedOk s) (hun : Undisturbed s act) (hs : step s act = .ok s')
    (hu : u < s'.heap) {c : SId} (hctx : (s'.ut u).ctx = .diskFlag c) :
    (s'.sched c).curUthread = some u ∨ ((s'.sched c).p ≠ none ∧ ∀ b, (s'.sched b).curUthread ≠ some u) := by
  have hlt : u < s.heap := by
    refine (step_born h.sound hs hu).resolve_right fun huser => ?_
    rw [hctx] at huser
    cases huser.1
  rcases step_ctx h.sound hs hlt with hsame | ⟨b, k, -, -, hhead⟩ | ⟨a, r, rfl, hc, hstmt⟩
  · exact h.disk_stays hun hs hlt (hsame.symm.trans hctx) hctx
  · have hnone := k.head_fetched
    rw [← hhead, hctx] at hnone
    cases hnone
  · left
    have hget : (s.ut u).ctx = .diskGet := by
      have hflow := hstmt.flow
      rw [hctx] at hflow
      exact hflow.to_diskFlag
    rcases hstmt.fetched (by rw [hctx]; rfl) with hf | ⟨rfl, -⟩
    · rw [hget] at hf
      cases hf
    · rw [(hstmt.signals hc (by rw [hget]; rfl)).cur]
      exact hc

theorem FetchedOk.step_handOff (h : FetchedOk s) (hun : Undisturbed s act) (hs : step s act = .ok s')
    (hu : u < s'.heap) {c : SId} (hctx : (s'.ut u).ctx = .diskHandOff c) :
    (s'.sched c).curUthread = some u ∧ (s'.ut u).isWatingYieldSignal = false := by
  have hlt : u < s.heap := by
    refine (step_born h.sound hs hu).resolve_right fun huser => ?_
    rw [hctx] at huser
    cases huser.1
  rcases step_ctx h.sound hs hlt with hsame | ⟨b, k, -, -, hhead⟩ | ⟨a, r, rfl, hc, hstmt⟩
  · have hctx₀ : (s.ut u).ctx = .diskHandOff c := hsame.symm.trans hctx
    obtain ⟨hc, hflag⟩ := h.handOff u hlt c hctx₀
    constructor
    · refine cur_stays hs hc (by rw [hctx₀]; simp) (fun hflow => ?_) ?_
      · rw [hctx₀] at hflow
        exact hflow.of_diskHandOff hctx
      · rintro rfl
        cases step_ok hs with
        | preempt hc' hf _ =>
          cases hc.symm.trans hc'
          rw [hflag] at hf
          cases hf
    · rw [Bool.eq_false_iff]
      intro hf
      rcases step_flag hs hlt hf with hf' | ⟨b, r, rfl, hb⟩
      · rw [hflag] at hf'
        cases hf'
      · exact hun.resumes b r s' u rfl hs hb c hc
  · have hnone := k.head_fetched
    rw [← hhead, hctx] at hnone
    cases hnone
  · have hflag : (s.ut u).ctx = .diskFlag c := by
      have hflow := hstmt.flow
      rw [hctx] at hflow
      exact hflow.to_diskHandOff
    obtain rfl := h.on hc (.inl hflag)
    have hsig := hstmt.signals hc (by rw [hflag]; rfl)
    refine ⟨(hsig.cur c).trans hc, ?_⟩
    obtain ⟨v, hv, rfl⟩ := diskFlag_stmt hs hc hflag
    cases hc.symm.trans hv
    rw [goto_flag, setUt_ut_self]

theorem FetchedOk.step (h : FetchedOk s) (hun : Undisturbed s act) (hs : step s act = .ok s') : FetchedOk s' where
  sound := h.sound.step hs
  solo := h.solo.step hun.resumes hs
  bound _ _ := h.step_bound hun hs
  creates _ hu _ := h.step_creates hun hs hu
  disk _ hu _ := h.step_disk hun hs hu
  handOff _ hu _ := h.step_handOff hun hs hu

theorem FetchedOk.initial : FetchedOk init := by
  have hmain : ∀ u < init.heap, (init.ut u).ctx = .createAlloc 0 := by
    intro u hu
    rw [Nat.lt_one_iff.mp hu]
    rfl
  refine ⟨Sound.initial, Solo.initial, fun a u hc => ?_, fun u hu c hf => ?_, fun u hu c hctx => ?_,
    fun u hu c hctx => ?_⟩
  · rw [init_cur] at hc
    cases hc
  · rw [hmain u hu] at hf
    cases hf
    decide
  · rw [hmain u hu] at hctx
    cases hctx
  · rw [hmain u hu] at hctx
    cases hctx

theorem FetchedOk.of_reaches (h : Reaches Undisturbed s) : FetchedOk s :=
  Run.Reaches.invariant h FetchedOk.initial fun _ _ _ hok hun hs => hok.step hun hs

end Runs

/-- What a call takes for granted where it follows the sched it has fetched, on the thread of `a`. -/
def Ctx.FollowsOwn (s : State) (a : SId) (u : UId) : Ctx → Prop
  | .create c (.bind _) => (s.sched c).p = (s.ut u).p ∧ (s.ut u).p ≠ none
  | .create c (.insert _ p) => (s.sched c).p = (s.ut u).p ∧ (s.ut u).p ≠ none ∧ p = (s.ut u).p
  | .diskFlag c | .diskHandOff c => c = a
  | _ => True

section Uses

variable {s s' : State} {a : SId} {u : UId}

theorem FetchedOk.creates_home (h : FetchedOk s) (hu : u < s.heap) {c : SId} {pc : CreateAt}
    (hctx : (s.ut u).ctx = .create c pc) : (s.sched c).p = some 0 ∧ (s.ut u).p = some 0 := by
  obtain ⟨q, hq⟩ := Option.ne_none_iff_exists'.mp (h.creates u hu c (by rw [hctx]; rfl))
  rw [h.sound.one hq] at hq
  exact ⟨hq, (h.sound.ut u hu).home⟩

theorem FetchedOk.followsOwn (h : FetchedOk s) (hc : (s.sched a).curUthread = some u) :
    (s.ut u).ctx.FollowsOwn s a u := by
  have hu := (h.sound.cur hc).1
  cases hctx : (s.ut u).ctx with
  | create c pc =>
    obtain ⟨hp, hhome⟩ := h.creates_home hu hctx
    cases pc with
    | bind id => exact ⟨hp.trans hhome.symm, by rw [hhome]; simp⟩
    | insert id p =>
      have hok := (h.sound.ut u hu).ctx
      rw [hctx] at hok
      have hcap : some 0 = p := by
        rcases hok.2 with hnone | hsame
        · rw [hp] at hnone
          cases hnone
        · exact hp.symm.trans hsame
      exact ⟨hp.trans hhome.symm, by rw [hhome]; simp, hcap.symm.trans hhome.symm⟩
    | _ => trivial
  | diskFlag c => exact h.on hc (.inl hctx)
  | diskHandOff c => exact h.on hc (.inr hctx)
  | _ => trivial

/-- The last statement of `uthread_create`. -/
theorem create_insert_stmt {r : Reply} {c : SId} {id : Nat} {p : Option PId} {q : PId}
    (hs : step s (.stmt a r) = .ok s') (hc : (s.sched a).curUthread = some u)
    (hctx : (s.ut u).ctx = .create c (.insert id p)) (hq : (s.sched c).p = some q) :
    s' = returns a u 0 (created q id p s) := by
  rw [step_stmt (not_halted_of_step hs) hc] at hs
  simp only [uthreadStmt, hctx, createStmt] at hs
  obtain ⟨q', hq', hs⟩ := bind_ok hs
  cases (bound_ok hq').symm.trans hq
  cases hs
  rfl

end Uses

/-- **A sched fetched at entry is the right one when it is followed** in runs in which no p is
handed off while another uthread has fetched its sched, `uthread_create` is entered with a p
and no uthread is resumed while it runs: a new uthread is enqueued on its creator's p, and a
disk call clears the flag of its caller. -/
theorem fetched_is_own {s : State} (h : Reaches Undisturbed s) {a : SId} {u : UId}
    (hc : (s.sched a).curUthread = some u) :
    (s.ut u).ctx.FollowsOwn s a u ∧ ∀ r s', step s (.stmt a r) = .ok s' →
      (∀ c id p, (s.ut u).ctx = .create c (.insert id p) → ∃ q, (s.ut u).p = some q ∧
        (s'.p q).ready = (s.p q).ready ++ [s.heap] ∧ (s'.ut s.heap).p = some q) ∧
      (∀ c, (s.ut u).ctx = .diskFlag c → (s'.ut u).isWatingYieldSignal = false ∧
        ∀ v, v ≠ u → (s'.ut v).isWatingYieldSignal = (s.ut v).isWatingYieldSignal) := by
  have hok := FetchedOk.of_reaches h
  have hu := (hok.sound.cur hc).1
  have hfollows := hok.followsOwn hc
  refine ⟨hfollows, fun r s' hs => ⟨fun c id p hctx => ?_, fun c hctx => ?_⟩⟩
  · obtain ⟨hp, hhome⟩ := hok.creates_home hu hctx
    rw [hctx] at hfollows
    have hcap : p = some 0 := hfollows.2.2.trans hhome
    refine ⟨0, hhome, ?_⟩
    rw [create_insert_stmt hs hc hctx hp]
    constructor
    · show ((created 0 id p s).p 0).ready = _
      rw [created_p, if_pos rfl]
    · unfold returns
      rw [setUt_ut, if_neg (Nat.ne_of_gt hu)]
      show (Function.update s.ut s.heap _ s.heap).p = some 0
      rw [Function.update_self]
      exact hcap
  · rw [hctx] at hfollows
    obtain ⟨v, hv, rfl⟩ := diskFlag_stmt hs hc hctx
    rw [show c = a from hfollows] at hv
    cases hc.symm.trans hv
    rw [goto_flag, setUt_ut_self]
    refine ⟨rfl, fun w hw => ?_⟩
    rw [goto_flag, setUt_ut, if_neg hw]

/-! ### Runs that fetch -/

def undisturbedCheck (s : State) (act : Act) : Bool :=
  resumesSuspendedCheck s act &&
    match act with
    | .stmt a _ =>
      match (s.sched a).curUthread with
      | none => true
      | some u =>
        match (s.ut u).ctx with
        | .diskHandOff c => !handsOff c s ||
          (List.range s.heap).all fun v => v == u || (s.ut v).ctx.fetched != some c
        | .createGet => (s.sched a).p.isSome
        | _ => true
    | _ => true

theorem undisturbed_of_check {s : State} {act : Act} (hfew : Few s) (h : undisturbedCheck s act = true) :
    Undisturbed s act := by
  obtain ⟨hres, hstmt⟩ := Bool.and_eq_true_iff.mp h
  refine ⟨?_, ?_, resumesSuspended_of_check hfew hres⟩
  · rintro a r u c rfl hc hctx hoff v hv hne
    have hall : (List.range s.heap).all (fun v => v == u || (s.ut v).ctx.fetched != some c) = true := by
      simpa [hc, hctx, hoff] using hstmt
    have hv' := List.all_eq_true.mp hall v (List.mem_range.mpr hv)
    simpa [hne] using hv'
  · rintro a r u rfl hc hctx
    have hp : (s.sched a).p.isSome = true := by simpa [hc, hctx] using hstmt
    exact Option.isSome_iff_ne_none.mp hp

/-- Main is preempted in a call after it has fetched its sched, and the uthread it created runs. -/
def preemptedIn (c : Call) : List Act := boot ++ calls 0 c 1 ++ [.preempt 0] ++ scheds 0 8

/-- The other uthread yields, and main goes on up to where the new uthread gets its p. -/
def yieldsToCreator : List Act := preemptedIn .create ++ calls 0 .yield 2 ++ scheds 0 2 ++ stmts 0 6

/-- The other uthread hands the p off, and main goes on on the thread that has it then. -/
def handsOffFrom (c : Call) : List Act := preemptedIn c ++ calls 0 .disk 3 ++ scheds 1 5

theorem yieldsToCreator_enqueues : ∃ s s' id, Reaches Undisturbed s ∧ (s.sched 0).curUthread = some 0 ∧
    (s.ut 0).ctx = .create 0 (.insert id (some 0)) ∧ step s (.stmt 0 {}) = .ok s' ∧
    ∃ q, (s.ut 0).p = some q ∧ (s'.p q).ready = (s.p q).ready ++ [s.heap] ∧ (s'.ut s.heap).p = some q := by
  have hread : ((Run.checked step undisturbedCheck init yieldsToCreator).bind fun s =>
      (step s (.stmt 0 {})).toOption.map fun _ => ((s.sched 0).curUthread, (s.ut 0).ctx)) =
      some (some 0, .create 0 (.insert 2 (some 0))) := by decide +kernel
  obtain ⟨s, hs, hread⟩ := Option.bind_eq_some_iff.mp hread
  obtain ⟨s', hs', hread⟩ := Option.map_eq_some_iff.mp hread
  simp only [Prod.mk.injEq] at hread
  obtain ⟨hc, hctx⟩ := hread
  have hreach : Reaches Undisturbed s := by
    refine Run.reaches_of_checked (I := fun s => Sound s ∧ Few s) hs ⟨Sound.initial, Few.initial⟩ ?_ ?_
    · rintro t act t' ⟨hsnd, hfew⟩ - hstep
      exact ⟨hsnd.step hstep, hfew.step hsnd hstep⟩
    · rintro t act ⟨-, hfew⟩ hcheck
      exact undisturbed_of_check hfew hcheck
  have hstep := ok_of_toOption hs'
  exact ⟨s, s', 2, hreach, hc, hctx, hstep, ((fetched_is_own hreach hc).2 {} s' hstep).1 0 2 (some 0) hctx⟩

/-- Handed off meanwhile, the sched that main has fetched has no p, and in a disk call it is the
other uthread whose flag main would clear. -/
theorem handsOffFrom_follows_other :
    (∃ s id, exec (handsOffFrom .create ++ stmts 1 5) = .ok s ∧ (s.sched 1).curUthread = some 0 ∧
      (s.ut 0).ctx = .create 0 (.bind id) ∧ (s.sched 0).p = none ∧ (s.ut 0).p = some 0 ∧
      ¬(s.ut 0).ctx.FollowsOwn s 1 0) ∧
    ∃ s, exec (handsOffFrom .disk) = .ok s ∧ (s.sched 1).curUthread = some 0 ∧ (s.ut 0).ctx = .diskFlag 0 ∧
      (s.sched 0).curUthread = some 1 ∧ ¬(s.ut 0).ctx.FollowsOwn s 1 0 := by
  have hcreate : (exec (handsOffFrom .create ++ stmts 1 5)).toOption.map (fun s =>
      (decide ((s.sched 1).curUthread = some 0 ∧ (s.ut 0).ctx = .create 0 (.bind 2)),
        decide ((s.sched 0).p = none ∧ (s.ut 0).p = some 0))) = some (true, true) := by decide +kernel
  have hdisk : (exec (handsOffFrom .disk)).toOption.map (fun s =>
      decide ((s.sched 1).curUthread = some 0 ∧ (s.ut 0).ctx = .diskFlag 0 ∧ (s.sched 0).curUthread = some 1)) =
      some true := by decide +kernel
  obtain ⟨s, hs, hcreate⟩ := Option.map_eq_some_iff.mp hcreate
  obtain ⟨t, ht, hdisk⟩ := Option.map_eq_some_iff.mp hdisk
  simp only [Prod.mk.injEq, decide_eq_true_eq] at hcreate hdisk
  obtain ⟨⟨hc, hctx⟩, hp, hhome⟩ := hcreate
  obtain ⟨hc', hctx', hother⟩ := hdisk
  refine ⟨⟨s, 2, ok_of_toOption hs, hc, hctx, hp, hhome, ?_⟩, t, ok_of_toOption ht, hc', hctx', hother, ?_⟩
  · rw [hctx]
    rintro ⟨hsame, -⟩
    rw [hp, hhome] at hsame
    cases hsame
  · rw [hctx']
    exact Nat.zero_ne_one

end UthreadRuntime
