import UthreadRuntime.Safety.Records

/-! Reporting a timeout.

`uthread_read`, `uthread_connect` and `uthread_join` tell a timeout by the flag
`UT_ST_EXPIRED`, which the expiry pass sets and no statement clears. What a call reports is
what its waits were only if the flag was clear when they began. -/
namespace UthreadRuntime

open State

/-- The calls that report a timeout. -/
inductive Timed where
  | read | connect | join
  deriving DecidableEq, Repr

def IoKind.timed : IoKind → Option Timed
  | .read => some .read
  | .connect => some .connect
  | .accept | .write => none

def Call.timed : Call → Option Timed
  | .io c => c.kind.timed
  | .join _ _ => some .join
  | _ => none

/-- The call a context belongs to. -/
def Ctx.timed : Ctx → Option Timed
  | .io c _ | .register c _ | .sleep (.event c) _ => c.kind.timed
  | .join _ _ _ | .sleep (.join _ _) _ => some .join
  | _ => none

/-- The result, with the thread's `errno`, says that the call has timed out. -/
def Timed.reports (x : Int × Errno) : Timed → Prop
  | .read => x.1 = -2
  | .connect => x.1 = -1 ∧ x.2 = .etimedout
  | .join => x.1 = 1

/-- Where a call stands to its wait: outside, from its start to the test of the flag, or past
the test that found it expired. -/
inductive Phase where
  | outside | waiting | expired

def Ctx.phase : Ctx → Phase
  | .io _ .after => .waiting
  | .register _ .ctl => .outside
  | .register _ _ | .sleep _ _ => .waiting
  | .join _ _ .expired => .waiting
  | .join _ _ .unpublish | .join _ _ .resetRetval => .expired
  | _ => .outside

/-- In each phase the flag and the waits of the call agree. -/
def Phase.Agrees (flag : Bool) (expired : Prop) : Phase → Prop
  | .outside => ¬expired
  | .waiting => flag = true ↔ expired
  | .expired => expired

/-- What a record tells about its last call. -/
structure Told (r : Uthread) : Prop where
  belongs : r.hist.result = none → r.ctx.timed = r.hist.call.bind Call.timed
  back : r.hist.result ≠ none → r.ctx = .user
  phase : r.ctx.timed ≠ none → r.ctx.phase.Agrees (r.status.has .expired) (.expired ∈ r.hist.waits)
  truthful : ∀ x t, r.hist.result = some x → r.hist.call.bind Call.timed = some t →
    (t.reports x ↔ .expired ∈ r.hist.waits)

theorem Told.result_none {r : Uthread} (h : Told r) (hctx : r.ctx ≠ .user) : r.hist.result = none := by
  by_contra hres
  exact hctx (h.back hres)

/-- What others write does not show. -/
theorem Told.seen {r r' : Uthread} (h : Told r) (hs : Seen r r') : Told r' := by
  refine ⟨fun hres => ?_, fun hres => ?_, fun ht => ?_, fun x t hx ht => ?_⟩
  · rw [hs.ctx, hs.call]
    exact h.belongs (hs.result.symm.trans hres)
  · rw [hs.ctx]
    exact h.back fun hn => hres (hs.result.trans hn)
  · rw [hs.ctx] at ht ⊢
    have hflag : r'.status.has .expired = r.status.has .expired := by
      rcases hs.expired with hu | hflag
      · rw [hu] at ht
        exact absurd rfl ht
      · exact hflag
    have hag := h.phase ht
    rw [hflag, show (Wake.expired ∈ r'.hist.waits) = (Wake.expired ∈ r.hist.waits) from propext hs.waits]
    exact hag
  · rw [hs.waits]
    exact h.truthful x t (hs.result.symm.trans hx) (by rw [← hs.call]; exact ht)

/-- A wait that expires is that of the call. -/
theorem Told.expires {r r' : Uthread} {w : Wait} {k : SleepAt} (h : Told r) (hctx : r.ctx = .sleep w k)
    (he : Expires r r') : Told r' := by
  have hctx' : r'.ctx = .sleep w k := he.ctx.trans hctx
  have hres : r.hist.result = none := h.result_none (by rw [hctx]; simp)
  have hflag : r'.status.has .expired = true := by
    rcases he.expired with hu | hflag
    · rw [hctx] at hu
      cases hu
    · exact hflag
  refine ⟨fun _ => ?_, fun hne => absurd (he.result.trans hres) hne, fun _ => ?_, fun x t hx _ => ?_⟩
  · rw [he.ctx, he.call]
    exact h.belongs hres
  · rw [hctx']
    exact iff_of_true hflag he.waits
  · rw [he.result, hres] at hx
    cases hx

/-- The call goes on to another of its statements. -/
theorem Told.goes {r r' : Uthread} (h : Told r) (hctx : r.ctx ≠ .user) (hhist : r'.hist = r.hist)
    (htimed : r'.ctx.timed = r.ctx.timed)
    (hphase : r.ctx.timed ≠ none →
      r.ctx.phase.Agrees (r.status.has .expired) (.expired ∈ r.hist.waits) →
      r'.ctx.phase.Agrees (r'.status.has .expired) (.expired ∈ r.hist.waits)) : Told r' := by
  have hres : r.hist.result = none := h.result_none hctx
  refine ⟨fun _ => ?_, fun hne => ?_, fun ht => ?_, fun x t hx _ => ?_⟩
  · rw [htimed, hhist]
    exact h.belongs hres
  · rw [hhist] at hne
    exact absurd hres hne
  · rw [htimed] at ht
    rw [hhist]
    exact hphase ht (h.phase ht)
  · rw [hhist, hres] at hx
    cases hx

/-- The call returns. -/
theorem Told.returns {r r' : Uthread} {x : Int × Errno} (h : Told r) (hctx : r.ctx ≠ .user)
    (huser : r'.ctx = .user) (hhist : r'.hist = {r.hist with result := some x})
    (htrue : ∀ t, r.ctx.timed = some t →
      r.ctx.phase.Agrees (r.status.has .expired) (.expired ∈ r.hist.waits) →
      (t.reports x ↔ .expired ∈ r.hist.waits)) : Told r' := by
  have hres : r.hist.result = none := h.result_none hctx
  refine ⟨fun hn => ?_, fun _ => huser, fun ht => ?_, fun y t hy ht => ?_⟩
  · rw [hhist] at hn
    cases hn
  · rw [huser] at ht
    exact absurd rfl ht
  · rw [hhist] at hy ht ⊢
    cases hy
    have ht' : r.ctx.timed = some t := (h.belongs hres).trans ht
    exact htrue t ht' (h.phase (by rw [ht']; simp))

/-- Every record tells the truth. -/
def AllTold (s : State) : Prop := ∀ u, Told (s.ut u)

namespace AllTold

variable {s s' : State} {a : SId} {u : UId}

theorem seen (h : AllTold s) (hs : AllSeen s s') : AllTold s' := fun v => (h v).seen (hs v)

theorem setUt {f : Uthread → Uthread} (h : AllTold s) (hf : Told (f (s.ut u))) : AllTold (s.setUt u f) := by
  intro v
  rw [setUt_ut]
  split
  · exact hf
  · exact h v

theorem goto (h : AllTold s) {K k : Ctx} (hctx : (s.ut u).ctx = K) (hK : K ≠ .user)
    (htimed : k.timed = K.timed)
    (hphase : K.timed ≠ none →
      K.phase.Agrees ((s.ut u).status.has .expired) (.expired ∈ (s.ut u).hist.waits) →
      k.phase.Agrees ((s.ut u).status.has .expired) (.expired ∈ (s.ut u).hist.waits)) :
    AllTold (goto u k s) := by
  refine h.setUt ((h u).goes (by rw [hctx]; exact hK) rfl ?_ fun ht hag => ?_)
  · rw [hctx]
    exact htimed
  · rw [hctx] at ht hag
    exact hphase ht hag

/-- A statement that keeps the phase, with a change that does not show. -/
theorem changes (h : AllTold s) {K k : Ctx} {f : Uthread → Uthread} (hctx : (s.ut u).ctx = K)
    (hK : K ≠ .user) (hseen : Seen (s.ut u) (f (s.ut u))) (htimed : k.timed = K.timed)
    (hphase : k.phase = K.phase) : AllTold (UthreadRuntime.goto u k (s.setUt u f)) := by
  refine (h.seen (AllSeen.setUt hseen)).goto (K := K) ?_ hK htimed fun _ hag => ?_
  · rw [setUt_ut_self, hseen.ctx]
    exact hctx
  · rw [hphase]
    exact hag

theorem answers (h : AllTold s) {K : Ctx} {v : Int} (hctx : (s.ut u).ctx = K) (hK : K ≠ .user)
    (htrue : ∀ t, K.timed = some t →
      K.phase.Agrees ((s.ut u).status.has .expired) (.expired ∈ (s.ut u).hist.waits) →
      (t.reports (v, (s.sched a).errno) ↔ .expired ∈ (s.ut u).hist.waits)) :
    AllTold (returns a u v s) := by
  refine h.setUt ((h u).returns (by rw [hctx]; exact hK) rfl rfl fun t ht hag => ?_)
  rw [hctx] at ht hag
  exact htrue t ht hag

end AllTold

/-- The conditions on a statement: a wait of a call that reports timeouts begins with the flag
clear, and the kernel does not report the timeout of `connect` itself. -/
def Uthread.clean (r : Uthread) (e : Errno) : Bool :=
  match r.ctx with
  | .register c .ctl => c.kind.timed.isNone || !r.status.has .expired
  | .join _ _ .setRetval => !r.status.has .expired
  | .io c (.test ret) => !(c.kind == .connect && ret == -1 && e == .etimedout)
  | _ => true

theorem IoCall.loop_timed (c : IoCall) : c.loop.timed = c.kind.timed := by
  unfold IoCall.loop
  split <;> rfl

theorem IoCall.loop_phase (c : IoCall) : c.loop.phase = .outside := by
  unfold IoCall.loop
  split <;> rfl

section Statements

variable {s s' : State} {a : SId} {u : UId} {r : Reply} (h : AllTold s)
include h

/-- The test after a wait. -/
theorem AllTold.ioAfterStmt {c : IoCall} (hctx : (s.ut u).ctx = .io c .after) :
    AllTold (ioAfterStmt a u c s) := by
  have hloop : (c.kind.timed ≠ none → (s.ut u).status.has .expired = false) →
      AllTold (UthreadRuntime.goto u c.loop s) := by
    intro hflag
    refine h.goto hctx (by simp) c.loop_timed fun ht hag => ?_
    have hag' : (s.ut u).status.has .expired = true ↔ Wake.expired ∈ (s.ut u).hist.waits := hag
    rw [c.loop_phase]
    intro hw
    rw [hflag ht] at hag'
    cases hag'.mpr hw
  unfold UthreadRuntime.ioAfterStmt
  cases hk : c.kind with
  | accept => exact hloop fun ht => absurd (by rw [hk]; rfl) ht
  | write => exact hloop fun ht => absurd (by rw [hk]; rfl) ht
  | read =>
    dsimp only
    split
    · rename_i hflag
      refine h.answers hctx (by simp) fun t ht hag => ?_
      have ht' : c.kind.timed = some t := ht
      rw [hk] at ht'
      cases ht'
      exact iff_of_true rfl ((show _ ↔ _ from hag).mp hflag)
    · rename_i hflag
      exact hloop fun _ => by simpa using hflag
  | connect =>
    dsimp only
    split
    · rename_i hflag
      refine AllTold.answers (s := setErrno a .etimedout s) h hctx (by simp) fun t ht hag => ?_
      have ht' : c.kind.timed = some t := ht
      rw [hk] at ht'
      cases ht'
      exact iff_of_true ⟨rfl, by simp [setErrno]⟩ ((show _ ↔ _ from hag).mp hflag)
    · rename_i hflag
      exact hloop fun _ => by simpa using hflag

/-- Outside the wait the call goes on and has nothing to report. -/
theorem AllTold.ioStays {c : IoCall} {pc : IoAt} (hctx : (s.ut u).ctx = .io c pc) (hpc : pc ≠ .after) {k : Ctx}
    (ht : k.timed = c.kind.timed) (hk : k.phase = .outside) : AllTold (UthreadRuntime.goto u k s) := by
  refine h.goto hctx (by simp) ht fun _ hag => ?_
  rw [hk]
  rw [show (Ctx.io c pc).phase = .outside by cases pc <;> first | rfl | exact absurd rfl hpc] at hag
  exact hag

/-- Outside the wait no timeout may be reported. -/
theorem AllTold.ioReturns {c : IoCall} {pc : IoAt} (hctx : (s.ut u).ctx = .io c pc) (hpc : pc ≠ .after) {v : Int}
    (hv : ∀ t, c.kind.timed = some t → ¬t.reports (v, (s.sched a).errno)) : AllTold (returns a u v s) := by
  refine h.answers hctx (by simp) fun t ht hag => ?_
  rw [show (Ctx.io c pc).phase = .outside by cases pc <;> first | rfl | exact absurd rfl hpc] at hag
  exact iff_of_false (hv t ht) hag

theorem AllTold.ioUntimed {c : IoCall} {pc : IoAt} (hctx : (s.ut u).ctx = .io c pc) (hpc : pc ≠ .after)
    (hn : c.kind.timed = none) (v : Int) : AllTold (returns a u v s) := by
  refine h.ioReturns hctx hpc fun t ht => ?_
  rw [hn] at ht
  cases ht

theorem AllTold.ioHeadStmt {c : IoCall} (hctx : (s.ut u).ctx = .io c .head) : AllTold (ioHeadStmt a u c s) := by
  have hstay : ∀ {k : Ctx}, k.timed = c.kind.timed → k.phase = .outside → AllTold (UthreadRuntime.goto u k s) :=
    h.ioStays hctx (by simp)
  unfold UthreadRuntime.ioHeadStmt
  cases hk : c.kind with
  | accept => exact hstay rfl rfl
  | connect => exact hstay rfl rfl
  | read =>
    dsimp only
    split
    · refine h.ioReturns hctx (by simp) fun t ht => ?_
      rw [hk] at ht
      cases ht
      simp [Timed.reports]
    · exact hstay rfl rfl
  | write =>
    have hret := h.ioUntimed (a := a) hctx (by simp) (by rw [hk]; rfl)
    dsimp only
    split
    · exact hret _
    · split
      · exact hret _
      · exact hstay rfl rfl

theorem AllTold.ioTestStmt {c : IoCall} {ret : Int} (hctx : (s.ut u).ctx = .io c (.test ret))
    (hclean : (s.ut u).clean (s.sched a).errno = true) : AllTold (ioTestStmt a u c ret s) := by
  have hstay : ∀ {k : Ctx}, k.timed = c.kind.timed → k.phase = .outside → AllTold (UthreadRuntime.goto u k s) :=
    h.ioStays hctx (by simp)
  unfold Uthread.clean at hclean
  rw [hctx] at hclean
  unfold UthreadRuntime.ioTestStmt
  dsimp only at hclean ⊢
  cases hk : c.kind with
  | accept =>
    have hret := h.ioUntimed (a := a) hctx (by simp) (by rw [hk]; rfl)
    dsimp only
    split
    · split
      · exact hstay rfl rfl
      · split
        · exact hstay rfl rfl
        · exact hret _
    · exact hret _
  | connect =>
    dsimp only
    split
    · rename_i hneg
      split
      · exact hstay rfl rfl
      · refine h.ioReturns hctx (by simp) fun t ht => ?_
        rw [hk] at ht
        cases ht
        rintro ⟨-, herr⟩
        have herr' : (s.sched a).errno = .etimedout := herr
        simp [hk, hneg, herr'] at hclean
    · rename_i hneg
      refine h.ioReturns hctx (by simp) fun t ht => ?_
      rw [hk] at ht
      cases ht
      exact fun hx => hneg hx.1
  | read =>
    dsimp only
    split
    · refine h.ioReturns hctx (by simp) fun t ht => ?_
      rw [hk] at ht
      cases ht
      simp [Timed.reports]
    · exact hstay rfl rfl
  | write =>
    have hret := h.ioUntimed (a := a) hctx (by simp) (by rw [hk]; rfl)
    dsimp only
    split
    · exact hret _
    · split
      · exact hstay (by rw [hk]; rfl) rfl
      · split
        · exact hret _
        · exact hstay rfl rfl

theorem AllTold.ioRetestStmt {c : IoCall} {ret : Int} (hctx : (s.ut u).ctx = .io c (.retest ret)) :
    AllTold (ioRetestStmt a u c ret s) := by
  unfold UthreadRuntime.ioRetestStmt
  split
  · exact h.ioStays hctx (by simp) rfl rfl
  · split
    · rename_i hread
      refine h.ioReturns hctx (by simp) fun t ht => ?_
      rw [hread.1] at ht
      cases ht
      have hpos := hread.2
      show ¬ret = -2
      omega
    · exact h.ioStays hctx (by simp) c.loop_timed c.loop_phase

theorem AllTold.ioStmt {c : IoCall} {pc : IoAt} (hctx : (s.ut u).ctx = .io c pc)
    (hclean : (s.ut u).clean (s.sched a).errno = true) (hs : ioStmt a u c pc r s = .ok s') : AllTold s' := by
  cases pc with
  | after =>
    cases hs
    exact h.ioAfterStmt hctx
  | head =>
    cases hs
    exact h.ioHeadStmt hctx
  | fcntl =>
    unfold UthreadRuntime.ioStmt at hs
    dsimp only at hs
    split at hs
    · cases hs
      exact h.ioStays hctx (by simp) rfl rfl
    · cases hs
  | sys =>
    cases hs
    split
    · exact h.ioStays (k := .io c (.test r.ret)) hctx (by simp) rfl rfl
    · exact h.ioStays hctx (by simp) rfl rfl
  | test ret =>
    cases hs
    exact h.ioTestStmt hctx hclean
  | retest ret =>
    cases hs
    exact h.ioRetestStmt hctx

theorem AllTold.registerStmt {c : IoCall} {pc : RegisterAt} (hctx : (s.ut u).ctx = .register c pc)
    (hclean : (s.ut u).clean (s.sched a).errno = true) (hs : registerStmt a u c pc s = .ok s') :
    AllTold s' := by
  cases pc with
  | ctl =>
    obtain ⟨q, -, hs⟩ := bind_ok hs
    split at hs
    · cases hs
    · rename_i l _
      cases hs
      have hgo : AllTold (UthreadRuntime.goto u (.register c .status) s) := by
        refine h.goto hctx (by simp) rfl fun ht hag => ?_
        -- the wait begins with the flag clear
        have hclear : (s.ut u).status.has .expired = false := by
          have ht' : c.kind.timed ≠ none := ht
          unfold Uthread.clean at hclean
          rw [hctx] at hclean
          simpa [ht'] using hclean
        exact iff_of_false (by rw [hclear]; simp) hag
      exact hgo
  | status =>
    cases hs
    refine h.changes hctx (by simp) ⟨rfl, rfl, rfl, Iff.rfl, .inr ?_⟩ rfl rfl
    cases c.event <;> simp [UthreadEvent.waitSt]
  | key =>
    cases hs
    exact h.changes hctx (by simp) ⟨rfl, rfl, rfl, Iff.rfl, .inr rfl⟩ rfl rfl
  | insert =>
    obtain ⟨q, -, hs⟩ := bind_ok hs
    cases hs
    exact AllTold.goto (s := s.setP q _) h hctx (by simp) rfl fun _ hag => hag
  | unkey =>
    cases hs
    exact h.changes hctx (by simp) ⟨rfl, rfl, rfl, Iff.rfl, .inr rfl⟩ rfl rfl
  | unstatus =>
    cases hs
    refine h.changes hctx (by simp) ⟨rfl, rfl, rfl, Iff.rfl, .inr ?_⟩ rfl rfl
    cases c.event <;> simp [UthreadEvent.waitSt]

/-- A switch to the scheduler, after which the context is `k`. -/
theorem AllTold.switch {K k : Ctx} (hctx : (s.ut u).ctx = K) (hK : K ≠ .user) (htimed : k.timed = K.timed)
    (hphase : k.phase = K.phase) (hs : uthreadSwitched a u (UthreadRuntime.goto u k s) = .ok s') :
    AllTold s' := by
  refine (h.goto hctx hK htimed fun _ hag => ?_).seen (AllSeen.switched hs)
  rw [hphase]
  exact hag

theorem AllTold.schedSleepStmt {w : Wait} {pc : SleepAt} (hctx : (s.ut u).ctx = .sleep w pc)
    (hs : schedSleepStmt a u w pc r s = .ok s') : AllTold s' := by
  cases pc with
  | clock =>
    cases hs
    exact h.changes hctx (by simp) ⟨rfl, rfl, rfl, Iff.rfl, .inr rfl⟩ (by cases w <;> rfl) rfl
  | insert =>
    obtain ⟨q, -, hs⟩ := bind_ok hs
    split at hs
    · cases hs
    · cases hs
      exact AllTold.goto (s := s.setP q _) h hctx (by simp) (by cases w <;> rfl) fun _ hag => hag
  | mark =>
    cases hs
    exact h.changes hctx (by simp) ⟨rfl, rfl, rfl, Iff.rfl, .inr (by simp)⟩ (by cases w <;> rfl) rfl
  | flag =>
    cases hs
    exact h.changes hctx (by simp) ⟨rfl, rfl, rfl, Iff.rfl, .inr rfl⟩ (by cases w <;> rfl) rfl
  | yieldFlag =>
    cases hs
    exact h.changes hctx (by simp) ⟨rfl, rfl, rfl, Iff.rfl, .inr rfl⟩ (by cases w <;> rfl) rfl
  | switch => exact h.switch (k := .sleep w .wake) hctx (by simp) (by cases w <;> rfl) rfl hs
  | wake =>
    cases hs
    exact h.changes hctx (by simp) ⟨rfl, rfl, rfl, Iff.rfl, .inr (by simp)⟩ (by cases w <;> rfl)
      (by cases w <;> rfl)

theorem AllTold.joinStmt {t : UId} {v : Option Addr} {pc : JoinAt} (hctx : (s.ut u).ctx = .join t v pc)
    (hclean : (s.ut u).clean (s.sched a).errno = true) : AllTold (joinStmt a u t v pc s) := by
  -- the record of the target may be written; where it is the caller's own, nothing shows
  have hstay : ∀ {s₁ : State} {k : Ctx}, AllSeen s s₁ → k.timed = some .join →
      k.phase = (Ctx.join t v pc).phase → AllTold (UthreadRuntime.goto u k s₁) := by
    intro s₁ k hs₁ ht hk
    refine (h.seen hs₁).goto ((hs₁ u).ctx.trans hctx) (by simp) ht fun _ hag => ?_
    rw [hk]
    exact hag
  have hret : ∀ {s₁ : State} {x : Int}, AllSeen s s₁ → (Ctx.join t v pc).phase = .outside → x ≠ 1 →
      AllTold (returns a u x s₁) := by
    intro s₁ x hs₁ hout hx
    refine (h.seen hs₁).answers ((hs₁ u).ctx.trans hctx) (by simp) fun t' ht hag => ?_
    cases ht
    rw [hout] at hag
    exact iff_of_false hx hag
  have hwrite : ∀ f : Uthread → Uthread, (∀ x, Seen x (f x)) → AllSeen s (s.setUt t f) :=
    fun f hf => AllSeen.setUt (hf _)
  have hglobal : ∀ s₁ : State, s₁.ut = s.ut → AllSeen s s₁ := fun _ => AllSeen.of_eq
  unfold UthreadRuntime.joinStmt
  cases pc with
  | self =>
    dsimp only
    split
    · exact hret (hglobal _ rfl) rfl (by simp)
    · exact hstay (AllSeen.refl s) rfl rfl
  | detached =>
    dsimp only
    split
    · exact hret (hglobal _ rfl) rfl (by simp)
    · exact hstay (AllSeen.refl s) rfl rfl
  | taken =>
    dsimp only
    split
    · exact hret (hglobal _ rfl) rfl (by simp)
    · exact hstay (AllSeen.refl s) rfl rfl
  | exited =>
    dsimp only
    split
    · exact hret (hglobal _ rfl) rfl (by simp)
    · exact hstay (AllSeen.refl s) rfl rfl
  | publish => exact hstay (hwrite _ fun _ => ⟨rfl, rfl, rfl, Iff.rfl, .inr rfl⟩) rfl rfl
  | setRetval =>
    have hs₁ := hwrite (fun x => {x with retval := v}) fun _ => ⟨rfl, rfl, rfl, Iff.rfl, .inr rfl⟩
    refine (h.seen hs₁).goto ((hs₁ u).ctx.trans hctx) (by simp) rfl fun _ hag => ?_
    -- the wait begins with the flag clear
    have hclear : (s.ut u).status.has .expired = false := by
      unfold Uthread.clean at hclean
      rw [hctx] at hclean
      simpa using hclean
    have hflag : ((s.setUt t fun x => {x with retval := v}).ut u).status.has .expired = false := by
      rcases (hs₁ u).expired with huser | hsame
      · rw [hctx] at huser
        cases huser
      · exact hsame.trans hclear
    exact iff_of_false (by rw [hflag]; simp) hag
  | expired =>
    dsimp only
    split
    · rename_i hflag
      exact h.goto hctx (by simp) rfl fun _ hag => (show _ ↔ _ from hag).mp hflag
    · rename_i hflag
      exact h.goto hctx (by simp) rfl fun _ hag hw => hflag ((show _ ↔ _ from hag).mpr hw)
  | unpublish => exact hstay (hwrite _ fun _ => ⟨rfl, rfl, rfl, Iff.rfl, .inr rfl⟩) rfl rfl
  | resetRetval =>
    have hs₁ := hwrite (fun x => {x with retval := v}) fun _ => ⟨rfl, rfl, rfl, Iff.rfl, .inr rfl⟩
    refine (h.seen hs₁).answers ((hs₁ u).ctx.trans hctx) (by simp) fun t' ht hag => ?_
    cases ht
    exact iff_of_true rfl hag
  | free => exact hret (hglobal _ rfl) rfl (by simp)

theorem AllTold.exitStmt {v : Option Val} {pc : ExitAt} (hctx : (s.ut u).ctx = .exit v pc)
    (hs : exitStmt a u v pc s = .ok s') : AllTold s' := by
  cases pc with
  | mark =>
    cases hs
    refine h.changes hctx (by simp) ⟨rfl, rfl, rfl, Iff.rfl, .inr (by simp)⟩ rfl ?_
    cases v <;> rfl
  | store =>
    cases hs
    have hs₁ := storeRetval_ut u (v.getD 0) s
    have h₁ := h.seen (AllSeen.of_eq hs₁)
    exact h₁.goto (K := .exit v .store) (by rw [hs₁]; exact hctx) (by simp) rfl fun ht _ => absurd rfl ht
  | yieldFlag =>
    cases hs
    exact h.changes hctx (by simp) ⟨rfl, rfl, rfl, Iff.rfl, .inr rfl⟩ rfl rfl
  | switch => exact h.switch (k := .user) hctx (by simp) rfl rfl hs

/-- A call that reports no timeout goes on or returns. -/
theorem AllTold.untimed {s₁ : State} {K : Ctx} (hctx : (s.ut u).ctx = K) (hK : K ≠ .user)
    (htimed : K.timed = none) (hs₁ : AllSeen s s₁) :
    (∀ k : Ctx, k.timed = none → AllTold (UthreadRuntime.goto u k s₁)) ∧
    ∀ v, AllTold (returns a u v s₁) := by
  have h₁ := h.seen hs₁
  have hctx₁ := (hs₁ u).ctx.trans hctx
  refine ⟨fun k hk => ?_, fun v => ?_⟩
  · exact h₁.goto hctx₁ hK (hk.trans htimed.symm) fun ht _ => absurd htimed ht
  · refine h₁.answers hctx₁ hK fun t ht _ => ?_
    rw [htimed] at ht
    cases ht

theorem AllTold.createStmt {c : SId} {pc : CreateAt} (hctx : (s.ut u).ctx = .create c pc) (hu : u < s.heap)
    (hs : createStmt a u c pc r s = .ok s') : AllTold s' := by
  rcases createStmt_ok hs with ⟨s₀, pc', rfl, hut, -⟩ | rfl | ⟨id, p, q, -, -, rfl⟩
  · exact (h.untimed (a := a) hctx (by simp) rfl (AllSeen.of_eq hut)).1 _ rfl
  · exact (h.untimed hctx (by simp) rfl (AllSeen.refl s)).2 _
  · -- the new record has made no call
    have hcreated : AllTold (created q id p s) := by
      intro v
      show Told (Function.update s.ut s.heap _ v)
      rw [Function.update_apply]
      split
      · refine ⟨fun _ => rfl, fun hne => absurd rfl hne, fun ht => absurd rfl ht, fun x t hx => ?_⟩
        cases hx
      · exact h v
    have hold : ((created q id p s).ut u).ctx = .create c pc := by
      rw [created_ut_of_lt hu]
      exact hctx
    refine hcreated.answers hold (by simp) fun t ht _ => ?_
    cases ht

theorem AllTold.uthreadStmt (hu : u < s.heap) (hclean : (s.ut u).clean (s.sched a).errno = true)
    (hs : uthreadStmt a u r s = .ok s') : AllTold s' := by
  unfold UthreadRuntime.uthreadStmt at hs
  cases hctx : (s.ut u).ctx with
  | user => rw [hctx] at hs; cases hs
  | yieldFlag =>
    rw [hctx] at hs
    cases hs
    exact h.changes hctx (by simp) ⟨rfl, rfl, rfl, Iff.rfl, .inr rfl⟩ rfl rfl
  | yieldSwitch =>
    rw [hctx] at hs
    exact h.switch (k := .user) hctx (by simp) rfl rfl hs
  | sleep w pc =>
    rw [hctx] at hs
    exact h.schedSleepStmt hctx hs
  | register c pc =>
    rw [hctx] at hs
    exact h.registerStmt hctx hclean hs
  | io c pc =>
    rw [hctx] at hs
    exact h.ioStmt hctx hclean hs
  | join t v pc =>
    rw [hctx] at hs
    cases hs
    exact h.joinStmt hctx hclean
  | exit v pc =>
    rw [hctx] at hs
    exact h.exitStmt hctx hs
  | createGet =>
    rw [hctx] at hs
    cases hs
    exact (h.untimed (a := a) hctx (by simp) rfl (AllSeen.refl s)).1 _ rfl
  | createAlloc c =>
    rw [hctx] at hs
    have hun := h.untimed (a := a) hctx (by simp) rfl (AllSeen.refl s)
    dsimp only at hs
    split at hs
    · cases hs
      exact hun.1 _ rfl
    · cases hs
      exact hun.2 _
  | create c pc =>
    rw [hctx] at hs
    exact h.createStmt hctx hu hs
  | diskGet =>
    rw [hctx] at hs
    cases hs
    exact (h.untimed (a := a) hctx (by simp) rfl (AllSeen.refl s)).1 _ rfl
  | diskFlag c =>
    rw [hctx] at hs
    dsimp only at hs
    unfold diskFlagStmt at hs
    split at hs
    · cases hs
    · rename_i v _
      cases hs
      have hs₁ : AllSeen s (s.setUt v fun r => {r with isWatingYieldSignal := false}) :=
        AllSeen.setUt ⟨rfl, rfl, rfl, Iff.rfl, .inr rfl⟩
      exact (h.untimed (a := a) hctx (by simp) rfl hs₁).1 _ rfl
  | diskHandOff c =>
    rw [hctx] at hs
    rcases diskHandOffStmt_ok hs with ⟨-, rfl⟩ | ⟨q, n, rest, -, -, -, rfl⟩
    · exact (h.untimed (a := a) hctx (by simp) rfl (AllSeen.refl s)).1 _ rfl
    · exact (h.untimed (a := a) hctx (by simp) rfl (AllSeen.of_eq rfl)).1 _ rfl
  | diskCall =>
    rw [hctx] at hs
    cases hs
    unfold diskCallStmt
    refine (h.untimed hctx (by simp) rfl (AllSeen.of_eq ?_)).2 _
    split <;> rfl

end Statements

/-! ### Runs -/

/-- A call that has just been made has not waited. -/
theorem Told.made {r : Uthread} {k : Call} (hhist : r.hist = {call := some k})
    (htimed : r.ctx.timed = k.timed) (hphase : r.ctx.phase = .outside) : Told r := by
  refine ⟨fun _ => ?_, fun hne => ?_, fun _ => ?_, fun x t hx => ?_⟩
  · rw [hhist]
    exact htimed
  · rw [hhist] at hne
    exact absurd rfl hne
  · rw [hphase, hhist]
    exact List.not_mem_nil
  · rw [hhist] at hx
    cases hx

/-- A call that reports no timeout has nothing to tell in user code. -/
theorem Told.silent {r : Uthread} {k : Call} (huser : r.ctx = .user) (hcall : r.hist.call = some k)
    (htimed : k.timed = none) : Told r := by
  refine ⟨fun _ => ?_, fun _ => huser, fun ht => ?_, fun x t _ ht => ?_⟩
  · rw [huser, hcall]
    exact htimed.symm
  · rw [huser] at ht
    exact absurd rfl ht
  · rw [hcall] at ht
    exact absurd (htimed.symm.trans ht) (by simp)

theorem AllTold.enter {s s' : State} {a : SId} {u : UId} {k : Call} (h : AllTold s)
    (hctx : (s.ut u).ctx = .user) (hs : enter a u k s = .ok s') : AllTold s' := by
  have hgo : ∀ K : Ctx, K.timed = k.timed → K.phase = .outside →
      AllTold (UthreadRuntime.goto u K (s.setUt u fun v => {v with hist := {call := some k}})) := by
    intro K ht hK
    unfold UthreadRuntime.goto
    rw [setUt_setUt]
    exact h.setUt (Told.made rfl ht hK)
  have hret : k.timed = none → ∀ s₁, AllSeen (s.setUt u fun v => {v with hist := {call := some k}}) s₁ →
      AllTold (returns a u 0 s₁) := by
    intro ht s₁ hs₁
    have hmade : AllTold (s.setUt u fun v => {v with hist := {call := some k}}) :=
      h.setUt (Told.silent hctx rfl ht)
    refine (hmade.seen hs₁).setUt (Told.silent (k := k) rfl ?_ ht)
    have hcall := (hs₁ u).call
    rw [setUt_ut_self] at hcall
    exact hcall
  unfold UthreadRuntime.enter at hs
  cases k with
  | yield => cases hs; exact hgo _ rfl rfl
  | create => cases hs; exact hgo _ rfl rfl
  | join t r =>
    dsimp only at hs
    split at hs
    · cases hs
    · cases hs
      exact hgo _ rfl rfl
  | exit v => cases hs; exact hgo _ rfl rfl
  | finish =>
    dsimp only at hs
    split at hs
    · cases hs
    · cases hs
      exact hgo _ rfl rfl
  | mainEnd => cases hs; exact hgo _ rfl rfl
  | detach t =>
    dsimp only at hs
    split at hs
    · cases hs
    · cases hs
      exact hret rfl _ (AllSeen.setUt ⟨rfl, rfl, rfl, Iff.rfl, .inr (by simp)⟩)
  | disk => cases hs; exact hgo _ rfl rfl
  | io c =>
    dsimp only at hs
    split at hs
    · cases hs
      exact hgo _ rfl rfl
    · cases hs
  | close fd =>
    cases hs
    exact hret rfl _ (AllSeen.of_eq rfl)

/-- The context is that of a uthread in its wait. -/
def Ctx.asleep : Ctx → Bool
  | .sleep _ _ => true
  | _ => false

/-- The action lets the calls tell the truth: a statement is clean, and the expiry pass resumes
a uthread only in its wait. -/
def tellsTrue (s : State) : Act → Bool
  | .stmt a _ =>
    match (s.sched a).curUthread with
    | none => true
    | some u => (s.ut u).clean (s.sched a).errno
  | .sched a r =>
    match (s.sched a).pc, (s.sched a).p with
    | .expiry, some q =>
      match minSleeping s (s.p q).sleeping with
      | none => true
      | some u => decide (r.now < (s.ut u).wakeupTimeUsec) || (s.ut u).ctx.asleep
    | _, _ => true
  | _ => true

theorem AllTold.step {s s' : State} {act : Act} (h : AllTold s) (hsnd : Sound s)
    (hc : tellsTrue s act = true) (hs : step s act = .ok s') : AllTold s' := by
  unfold UthreadRuntime.step at hs
  split at hs
  · exact absurd hs stepHalted_ne_ok
  · cases act with
    | call a k =>
      dsimp only at hs
      split at hs
      · cases hs
      · split at hs
        · rename_i huser
          exact h.enter huser hs
        · cases hs
    | stmt a r =>
      dsimp only at hs
      split at hs
      · cases hs
      · rename_i u hcur
        simp only [tellsTrue, hcur] at hc
        exact h.uthreadStmt (hsnd.cur hcur).1 hc hs
    | preempt a =>
      dsimp only at hs
      split at hs
      · cases hs
      · rename_i u _
        split at hs
        · have hflag : AllSeen s (s.setUt u fun v => {v with isWatingYieldSignal := false}) :=
            AllSeen.setUt ⟨rfl, rfl, rfl, Iff.rfl, .inr rfl⟩
          exact h.seen (hflag.trans (AllSeen.switched hs))
        · cases hs
    | sched a r =>
      dsimp only at hs
      split at hs
      · intro v
        rcases schedRun_records hsnd hs v with hseen | ⟨q, hpc, hq, hmin, hdue, hexp⟩
        · exact (h v).seen hseen
        · simp only [tellsTrue, hpc, hq, hmin] at hc
          have hasleep : (s.ut v).ctx.asleep = true := by
            simpa [decide_eq_false (Nat.not_lt.mpr hdue)] using hc
          cases hctx : (s.ut v).ctx with
          | sleep w k => exact (h v).expires hctx hexp
          | _ => rw [hctx] at hasleep; cases hasleep
      · cases hs

theorem AllTold.initial : AllTold init := by
  intro u
  by_cases hu : u = 0
  · subst hu
    refine ⟨fun _ => rfl, fun hne => absurd rfl hne, fun ht => absurd rfl ht, fun x t hx => ?_⟩
    cases hx
  · rw [init_ut hu]
    refine ⟨fun _ => rfl, fun hne => absurd rfl hne, fun ht => absurd rfl ht, fun x t hx => ?_⟩
    cases hx

/-- Every call that has returned reports a timeout exactly when a wait of its own has expired. -/
def TimeoutsTruthful (s : State) : Prop :=
  ∀ u k t x, (s.ut u).hist.call = some k → Call.timed k = some t → (s.ut u).hist.result = some x →
    (t.reports x ↔ .expired ∈ (s.ut u).hist.waits)

/-- **Timeout reports are truthful, in every run whose waits begin with the flag clear.** -/
theorem timeouts_truthful {s : State} (hreach : Reaches (fun s act => tellsTrue s act = true) s) :
    TimeoutsTruthful s := by
  have hboth : Sound s ∧ AllTold s :=
    Sound.initial.invariant hreach AllTold.initial fun _ _ _ hs ht hc hstep => ht.step hs hc hstep
  intro u k t x hcall ht hres
  refine (hboth.2 u).truthful x t hres ?_
  rw [hcall]
  exact ht

/-- Main reads with nothing to read, and the wait of a second expires. -/
def expiredRead : List Act :=
  blockedRead 10 ++ scheds 0 5 ++ [.sched 0 {now := 1000000}] ++ stmts 0 4

theorem expiredRead_is_told : ∃ s, Reaches (fun s act => tellsTrue s act = true) s ∧
    TimeoutsTruthful s ∧ (s.ut 0).hist.result = some (-2, .eagain) ∧ (s.ut 0).hist.waits = [.expired] := by
  have hread : (Run.checked step tellsTrue init expiredRead).map (fun s =>
      ((s.ut 0).hist.result, (s.ut 0).hist.waits)) = some (some (-2, .eagain), [.expired]) := by
    decide +kernel
  obtain ⟨s, hs, hread⟩ := Option.map_eq_some_iff.mp hread
  simp only [Prod.mk.injEq] at hread
  have hreach : Reaches (fun s act => tellsTrue s act = true) s :=
    Run.reaches_of_checked (I := fun _ => True) hs trivial (fun _ _ _ _ _ _ => trivial) fun _ _ _ hc => hc
  exact ⟨s, hreach, timeouts_truthful hreach, hread⟩

/-- Main reads again and the descriptor becomes ready; the other uthread has finished. -/
def readAgain : List Act :=
  expiredRead ++ calls 0 (.io ⟨.read, 5, 1, 0⟩) 2 ++ [.stmt 0 {ret := -1, errno := .eagain}] ++
    List.replicate 12 (.stmt 0 {now := 1000000}) ++ scheds 0 3 ++ calls 0 .finish 3 ++ scheds 0 2 ++
    [.sched 0 {events := [⟨5, false⟩]}, .sched 0 {}] ++ stmts 0 4

/-- Main joins the other uthread, which exits. -/
def joinAfter : List Act :=
  expiredRead ++ calls 0 (.join 1 none) 12 ++ scheds 0 3 ++ calls 0 .finish 3 ++ scheds 0 8 ++ stmts 0 4

/-- After a read that has timed out, a read and a join that have not report timeouts. -/
theorem expiredRead_sticks :
    (∃ s, exec readAgain = .ok s ∧ (s.ut 0).hist.result = some (-2, .eagain) ∧
      (s.ut 0).hist.waits = [.event] ∧ ¬TimeoutsTruthful s) ∧
    ∃ s, exec joinAfter = .ok s ∧ (s.ut 0).hist.result = some (1, .eagain) ∧
      (s.ut 0).hist.waits = [.joined] ∧ ¬TimeoutsTruthful s := by
  refine ⟨?_, ?_⟩
  · obtain ⟨s, hs, hcall, hres, hwaits⟩ := exec_passes readAgain
      (fun s => (s.ut 0).hist.call = some (.io ⟨.read, 5, 1, 0⟩) ∧
        (s.ut 0).hist.result = some (-2, .eagain) ∧ (s.ut 0).hist.waits = [.event]) (by decide +kernel)
    refine ⟨s, hs, hres, hwaits, fun htrue => ?_⟩
    have hin := (htrue 0 _ .read _ hcall rfl hres).mp rfl
    rw [hwaits] at hin
    simp at hin
  · obtain ⟨s, hs, hcall, hres, hwaits⟩ := exec_passes joinAfter
      (fun s => (s.ut 0).hist.call = some (.join 1 none) ∧
        (s.ut 0).hist.result = some (1, .eagain) ∧ (s.ut 0).hist.waits = [.joined]) (by decide +kernel)
    refine ⟨s, hs, hres, hwaits, fun htrue => ?_⟩
    have hin := (htrue 0 _ .join _ hcall rfl hres).mp rfl
    rw [hwaits] at hin
    simp at hin

end UthreadRuntime
