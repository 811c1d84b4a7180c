import UthreadRuntime.Placement.Core

/-! What holds of every board.

`Inv` ties the containers to the modes. A uthread's progress changes its own task
and its own links and nothing else, so one lemma (`Inv.update`) carries the whole
invariant over such a change, and each stretch of a call needs only to say what
its own mode says. The moves that change more than one uthread, and those that
put a uthread on a sched or take it off, are in `Placement.Moves`. -/
namespace UthreadRuntime.Placement

open Board

/-- The key a wait for `g` is entered under. -/
def Goal.key : Goal → Int
  | .join _ => -1
  | .event fd e => waitKey fd e

/-- A descriptor that is waited for is one the kernel accepted. -/
def Goal.Valid : Goal → Prop
  | .join _ => True
  | .event fd _ => 0 ≤ fd

/-- The wait for `g` is published and not over. -/
def Task.WaitsFor (t : Task) (g : Goal) : Prop :=
  t.mode = .arming g ∨ t.mode = .linked g ∨
    (t.asleep = true ∧ (t.mode = .parking g ∨ t.mode = .parked g))

def Task.InTree (t : Task) : Prop := t.asleep = true ∨ ∃ g, t.mode = .linked g

/-- What a mode says of the rest of the record, and of being on a sched. -/
def Task.Wf (t : Task) (onCpu : Prop) : Prop :=
  match t.mode with
  | .free | .joined _ => t.asleep = false ∧ t.exited = false ∧ t.fdWait = -1
  | .choosing _ | .deciding _ => t.asleep = false ∧ t.exited = false ∧ t.fdWait = -1 ∧ onCpu
  | .registered fd _ => t.asleep = false ∧ t.exited = false ∧ t.fdWait = -1 ∧ onCpu ∧ 0 ≤ fd
  | .keyed fd e => t.asleep = false ∧ t.exited = false ∧ t.fdWait = waitKey fd e ∧ onCpu ∧ 0 ≤ fd
  | .arming g | .linked g =>
    t.asleep = false ∧ t.exited = false ∧ t.fdWait = g.key ∧ onCpu ∧ g.Valid
  | .parking g => t.exited = false ∧ g.Valid ∧ (t.fdWait = g.key ∨ t.asleep = false ∧ t.fdWait = -1)
  | .parked g => t.exited = false ∧ g.Valid ∧ (t.fdWait = g.key ∨ t.asleep = false ∧ t.fdWait = -1) ∧
    (onCpu → t.asleep = false)
  | .unkeying => t.asleep = false ∧ t.exited = false
  | .exiting => t.asleep = false ∧ t.exited = true ∧ t.fdWait = -1 ∧ onCpu

namespace Board

/-- What a join knows of its target. -/
def TargetOk (b : Board) (j : UId) : Prop :=
  match (b.task j).mode with
  | .choosing t => (b.task t).joined = none ∧ (b.task t).life ≠ .fresh
  | .deciding t => (b.task t).joined = none ∧ b.live t
  | .joined t => (b.task t).life = .freed
  | .parking (.join t) | .parked (.join t) => (b.task j).asleep = true ∨ (b.task t).life = .freed
  | _ => True

theorem TargetOk.mono {b b' : Board} {j : UId} (h : b.TargetOk j)
    (hmode : (b'.task j).mode = (b.task j).mode) (hasleep : (b'.task j).asleep = (b.task j).asleep)
    (hfreed : ∀ v, (b.task v).life = .freed → (b'.task v).life = .freed)
    (hlooks : (b.task j).mode.publishing = true → ∀ v, (b.task v).life ≠ .fresh →
      (b'.task v).life = (b.task v).life ∧ ((b.task v).joined = none → (b'.task v).joined = none)) :
    b'.TargetOk j := by
  unfold TargetOk live at h ⊢
  rw [hmode, hasleep]
  cases hm : (b.task j).mode with
  | choosing t =>
    rw [hm] at h hlooks
    obtain ⟨hlife, hjoined⟩ := hlooks rfl t h.2
    exact ⟨hjoined h.1, fun hf => h.2 (hlife.symm.trans hf)⟩
  | deciding t =>
    rw [hm] at h hlooks
    obtain ⟨hlife, hjoined⟩ := hlooks rfl t (by rw [h.2]; simp)
    exact ⟨hjoined h.1, hlife.trans h.2⟩
  | joined t =>
    rw [hm] at h
    exact hfreed t h
  | parking g =>
    cases g with
    | event fd e => trivial
    | join t =>
      rw [hm] at h
      exact h.imp_right (hfreed t)
  | parked g =>
    cases g with
    | event fd e => trivial
    | join t =>
      rw [hm] at h
      exact h.imp_right (hfreed t)
  | _ => trivial

end Board

/-- No uthread is in two places, and what a uthread has published is exactly what its
mode says. That every uthread is in some place is `Cover`. -/
structure Inv (b : Board) : Prop where
  cur_inj : ∀ {a c u}, b.cur a = some u → b.cur c = some u → a = c
  cur_live : ∀ {a u}, b.cur a = some u → b.live u
  cur_home : ∀ {a u}, b.cur a = some u → b.bound a = none ∨ b.bound a = (b.task u).home
  wf : ∀ {u}, b.live u → (b.task u).Wf (b.onCpu u)
  freed_exited : ∀ {u}, (b.task u).life = .freed → (b.task u).exited = true
  sleeping_iff : ∀ {q u}, b.sleeping q u ↔ b.live u ∧ (b.task u).home = some q ∧ (b.task u).InTree
  ready_mem : ∀ {q u}, u ∈ b.ready q → b.live u ∧ (b.task u).home = some q ∧
    (b.task u).asleep = false ∧ ¬b.onCpu u
  ready_nodup : ∀ q, (b.ready q).Nodup
  waiting_mem : ∀ {q u}, b.waiting q u → b.live u ∧ (b.task u).home = some q ∧
    ∃ fd e, (b.task u).WaitsFor (.event fd e)
  waiting_inj : ∀ {q u v}, b.waiting q u → b.waiting q v →
    (b.task u).fdWait = (b.task v).fdWait → u = v
  joined_iff : ∀ {t j}, b.live t →
    ((b.task t).joined = some j ↔ b.live j ∧ (b.task j).WaitsFor (.join t))
  waits_live : ∀ {t j}, b.live j → (b.task j).WaitsFor (.join t) → b.live t
  target : ∀ {j}, b.live j → b.TargetOk j
  interest_nonneg : ∀ {q fd}, b.interest q fd → 0 ≤ fd

/-- A uthread on a sched that has a p is at home there. -/
theorem Inv.home_of_cur {b : Board} {a : SId} {u : UId} {q : PId} (h : Inv b) (hc : b.cur a = some u)
    (hb : b.bound a = some q) : (b.task u).home = some q := by
  rcases h.cur_home hc with hn | hq
  · rw [hn] at hb
    cases hb
  · rw [← hq, hb]

/-! ### A uthread on a sched moves on -/

/-- Nothing but the task of `u`, the trees and who joins whom differ, and of the task
only what its own progress changes. -/
structure Only (u : UId) (b b' : Board) : Prop where
  cur : b'.cur = b.cur
  bound : b'.bound = b.bound
  ready : b'.ready = b.ready
  rest : ∀ v, v ≠ u → b'.task v = {b.task v with joined := (b'.task v).joined}
  life : (b'.task u).life = (b.task u).life
  home : (b'.task u).home = (b.task u).home

namespace Only

variable {b b' : Board} {u : UId} (h : Only u b b')
include h

theorem life_eq (v : UId) : (b'.task v).life = (b.task v).life := by
  by_cases hv : v = u
  · rw [hv, h.life]
  · rw [h.rest v hv]

theorem home_eq (v : UId) : (b'.task v).home = (b.task v).home := by
  by_cases hv : v = u
  · rw [hv, h.home]
  · rw [h.rest v hv]

theorem fdWait_eq {v : UId} (hv : v ≠ u) : (b'.task v).fdWait = (b.task v).fdWait := by
  rw [h.rest v hv]

theorem live_iff (v : UId) : b'.live v ↔ b.live v := by
  unfold live
  rw [h.life_eq]

theorem onCpu_eq (v : UId) : b'.onCpu v = b.onCpu v := by
  unfold onCpu
  rw [h.cur]

theorem waitsFor_iff {g : Goal} (hg : (b'.task u).WaitsFor g ↔ (b.task u).WaitsFor g) (v : UId) :
    (b'.task v).WaitsFor g ↔ (b.task v).WaitsFor g := by
  by_cases hv : v = u
  · rw [hv, hg]
  · rw [h.rest v hv]
    rfl

end Only

/-- The waiting tree of a board in which only `u` has moved: the other uthreads' links
are as they were, and `u`, if linked, has a key of its own. -/
structure WaitingOk (u : UId) (b b' : Board) : Prop where
  rest : ∀ q v, v ≠ u → (b'.waiting q v ↔ b.waiting q v)
  self : ∀ q, b'.waiting q u → (b.task u).home = some q ∧ ∃ fd e, (b'.task u).WaitsFor (.event fd e)
  key : ∀ q v, b'.waiting q u → v ≠ u → b.waiting q v → (b.task v).fdWait ≠ (b'.task u).fdWait

/-- The sleeping trees of such a board. -/
def SleepingOk (u : UId) (b b' : Board) : Prop :=
  ∀ q v, b'.sleeping q v ↔
    if v = u then (b.task u).home = some q ∧ (b'.task u).InTree else b.sleeping q v

/-- Who joins whom is as the modes say. -/
structure JoinsOk (b b' : Board) : Prop where
  joined_iff : ∀ t j, b.live t →
    ((b'.task t).joined = some j ↔ b.live j ∧ (b'.task j).WaitsFor (.join t))
  waits_live : ∀ t j, b.live j → (b'.task j).WaitsFor (.join t) → b.live t
  target : ∀ j, b.live j → b'.TargetOk j

theorem Inv.change {b b' : Board} {u : UId} (h : Inv b) (ho : Only u b b') (hlive : b.live u)
    (hready : ∀ q, u ∈ b.ready q → (b'.task u).asleep = false) (hwf : (b'.task u).Wf (b.onCpu u))
    (hsleep : SleepingOk u b b') (hwait : WaitingOk u b b') (hjoins : JoinsOk b b')
    (hinterest : ∀ q fd, b'.interest q fd → 0 ≤ fd) : Inv b' := by
  constructor
  case cur_inj =>
    rw [ho.cur]
    exact h.cur_inj
  case cur_live =>
    intro a v hc
    rw [ho.cur] at hc
    exact (ho.live_iff v).mpr (h.cur_live hc)
  case cur_home =>
    intro a v hc
    rw [ho.cur] at hc
    rw [ho.bound, ho.home_eq]
    exact h.cur_home hc
  case wf =>
    intro v hv
    rw [ho.onCpu_eq]
    by_cases hvu : v = u
    · rw [hvu]
      exact hwf
    · rw [ho.rest v hvu]
      exact h.wf ((ho.live_iff v).mp hv)
  case freed_exited =>
    intro v hv
    rw [ho.life_eq] at hv
    by_cases hvu : v = u
    · rw [hvu, hlive] at hv
      cases hv
    · rw [ho.rest v hvu]
      exact h.freed_exited hv
  case sleeping_iff =>
    intro q v
    rw [hsleep, ho.live_iff, ho.home_eq]
    by_cases hvu : v = u
    · simp [hvu, hlive]
    · rw [if_neg hvu, ho.rest v hvu]
      exact h.sleeping_iff
  case ready_mem =>
    intro q v hv
    rw [ho.ready] at hv
    obtain ⟨h1, h2, h3, h4⟩ := h.ready_mem hv
    rw [ho.live_iff, ho.home_eq, ho.onCpu_eq]
    refine ⟨h1, h2, ?_, h4⟩
    by_cases hvu : v = u
    · rw [hvu] at hv ⊢
      exact hready q hv
    · rw [ho.rest v hvu]
      exact h3
  case ready_nodup =>
    rw [ho.ready]
    exact h.ready_nodup
  case waiting_mem =>
    intro q v hv
    rw [ho.live_iff, ho.home_eq]
    by_cases hvu : v = u
    · subst hvu
      exact ⟨hlive, hwait.self q hv⟩
    · rw [ho.rest v hvu]
      exact h.waiting_mem ((hwait.rest q v hvu).mp hv)
  case waiting_inj =>
    intro q v w hv hw he
    by_cases hvu : v = u
    · by_cases hwu : w = u
      · rw [hvu, hwu]
      · subst hvu
        rw [ho.fdWait_eq hwu] at he
        exact absurd he.symm (hwait.key q w hv hwu ((hwait.rest q w hwu).mp hw))
    · by_cases hwu : w = u
      · subst hwu
        rw [ho.fdWait_eq hvu] at he
        exact absurd he (hwait.key q v hw hvu ((hwait.rest q v hvu).mp hv))
      · rw [ho.fdWait_eq hvu, ho.fdWait_eq hwu] at he
        exact h.waiting_inj ((hwait.rest q v hvu).mp hv) ((hwait.rest q w hwu).mp hw) he
  case joined_iff =>
    intro t j ht
    rw [ho.live_iff] at ht ⊢
    exact hjoins.joined_iff t j ht
  case waits_live =>
    intro t j hj hw
    rw [ho.live_iff] at hj ⊢
    exact hjoins.waits_live t j hj hw
  case target =>
    intro j hj
    exact hjoins.target j ((ho.live_iff j).mp hj)
  case interest_nonneg => exact hinterest _ _

/-- `u` moves on without beginning or ending a join. -/
theorem Inv.update {b b' : Board} {u : UId} (h : Inv b) (ho : Only u b b') (hlive : b.live u)
    (hready : ∀ q, u ∈ b.ready q → (b'.task u).asleep = false) (hwf : (b'.task u).Wf (b.onCpu u))
    (hsleep : SleepingOk u b b') (hwait : WaitingOk u b b')
    (hjoined : ∀ v, (b'.task v).joined = (b.task v).joined)
    (hjoin : ∀ t, (b'.task u).WaitsFor (.join t) ↔ (b.task u).WaitsFor (.join t))
    (htarget : b'.TargetOk u) (hinterest : ∀ q fd, b'.interest q fd → 0 ≤ fd) : Inv b' := by
  refine h.change ho hlive hready hwf hsleep hwait ⟨?_, ?_, ?_⟩ hinterest
  · intro t j ht
    rw [hjoined, ho.waitsFor_iff (hjoin t)]
    exact h.joined_iff ht
  · intro t j hj hw
    exact h.waits_live hj ((ho.waitsFor_iff (hjoin t) j).mp hw)
  · intro j hj
    by_cases hju : j = u
    · rw [hju]
      exact htarget
    · refine (h.target hj).mono (by rw [ho.rest j hju]) (by rw [ho.rest j hju])
        (fun v hv => (ho.life_eq v).trans hv) fun _ v _ => ⟨ho.life_eq v, fun hv => ?_⟩
      rw [hjoined]
      exact hv

@[simp] theorem setTask_self (b : Board) (u : UId) (t : Task) : (b.setTask u t).task u = t := by
  simp [setTask]

theorem setTask_other (b : Board) (t : Task) {u v : UId} (h : v ≠ u) :
    (b.setTask u t).task v = b.task v := by
  simp [setTask, h]

theorem only_setTask {b : Board} {u : UId} {t : Task} (hlife : t.life = (b.task u).life)
    (hhome : t.home = (b.task u).home) : Only u b (b.setTask u t) :=
  ⟨rfl, rfl, rfl, fun _ hv => by rw [setTask_other b t hv], by rw [setTask_self, hlife],
    by rw [setTask_self, hhome]⟩

theorem joined_setTask {b : Board} {u : UId} {t : Task} (hjoined : t.joined = (b.task u).joined)
    (v : UId) : ((b.setTask u t).task v).joined = (b.task v).joined := by
  by_cases hv : v = u
  · rw [hv, setTask_self, hjoined]
  · rw [setTask_other b t hv]

/-- The trees stay, and with them what `u` waits for. -/
theorem Inv.progress {b : Board} {u : UId} {t : Task} (h : Inv b) (hon : b.onCpu u)
    (hlife : t.life = (b.task u).life) (hhome : t.home = (b.task u).home)
    (hjoined : t.joined = (b.task u).joined) (hwf : t.Wf (b.onCpu u))
    (htree : t.InTree ↔ (b.task u).InTree)
    (hwaits : ∀ g, t.WaitsFor g ↔ (b.task u).WaitsFor g)
    (hkey : t.fdWait = (b.task u).fdWait ∨ ∀ g, ¬t.WaitsFor g)
    (htarget : (b.setTask u t).TargetOk u) : Inv (b.setTask u t) := by
  obtain ⟨a, ha⟩ := hon
  have hlive := h.cur_live ha
  refine h.update (only_setTask hlife hhome) hlive
    (fun q hq => absurd ⟨a, ha⟩ (h.ready_mem hq).2.2.2) ?_ (fun q v => ?_)
    ⟨fun _ _ _ => Iff.rfl, fun q hq => ?_, ?_⟩ (joined_setTask hjoined) (fun g => ?_) htarget
    fun _ _ => h.interest_nonneg
  · rw [setTask_self]
    exact hwf
  · rw [setTask_self]
    by_cases hv : v = u
    · rw [if_pos hv, hv, htree]
      show b.sleeping q u ↔ _
      rw [h.sleeping_iff]
      simp [hlive]
    · rw [if_neg hv]
      rfl
  · rw [setTask_self]
    obtain ⟨-, h2, fd, e, h3⟩ := h.waiting_mem hq
    exact ⟨h2, fd, e, (hwaits _).mpr h3⟩
  · intro q v hq hv hvq he
    rw [setTask_self] at he
    rcases hkey with hkey | hkey
    · rw [hkey] at he
      exact hv (h.waiting_inj hvq hq he)
    · obtain ⟨-, -, fd, e, h3⟩ := h.waiting_mem hq
      exact hkey _ ((hwaits _).mpr h3)
  · rw [setTask_self]
    exact hwaits _

section Progress

variable {b : Board} {a : SId} {u : UId} (h : Inv b) (hc : b.cur a = some u)
include h hc

theorem Inv.wf_of_mode {m : Mode} (hm : (b.task u).mode = m) :
    Task.Wf {b.task u with mode := m} (b.onCpu u) := by
  have hwf := h.wf (h.cur_live hc)
  rw [← hm]
  exact hwf

theorem Inv.choose {t : UId} (hm : (b.task u).mode = .free) (hj : (b.task t).joined = none)
    (hl : (b.task t).life ≠ .fresh) : Inv (b.setMode u (.choosing t)) := by
  have hwf := h.wf_of_mode hc hm
  simp only [Task.Wf] at hwf
  refine h.progress ⟨a, hc⟩ rfl rfl rfl ?_ ?_ ?_ (.inl rfl) ?_
  · exact ⟨hwf.1, hwf.2.1, hwf.2.2, a, hc⟩
  · simp [Task.InTree, hm]
  · simp [Task.WaitsFor, hm]
  · by_cases htu : t = u
    · simp_all [TargetOk]
    · simp_all [TargetOk, setTask_other]

theorem Inv.giveUp {t : UId} (hm : (b.task u).mode = .choosing t) : Inv (b.setMode u .free) := by
  have hwf := h.wf_of_mode hc hm
  simp only [Task.Wf] at hwf
  refine h.progress ⟨a, hc⟩ rfl rfl rfl ?_ ?_ ?_ (.inl rfl) ?_
  · exact ⟨hwf.1, hwf.2.1, hwf.2.2.1⟩
  · simp [Task.InTree, hm]
  · simp [Task.WaitsFor, hm]
  · simp [TargetOk]

theorem Inv.decide {t : UId} (hm : (b.task u).mode = .choosing t) (he : (b.task t).exited = false) :
    Inv (b.setMode u (.deciding t)) := by
  have hwf := h.wf_of_mode hc hm
  simp only [Task.Wf] at hwf
  have htarget := h.target (h.cur_live hc)
  simp only [TargetOk, hm] at htarget
  have hlive : b.live t := by
    cases hl : (b.task t).life with
    | fresh => exact absurd hl htarget.2
    | live => exact hl
    | freed => rw [h.freed_exited hl] at he; cases he
  refine h.progress ⟨a, hc⟩ rfl rfl rfl ?_ ?_ ?_ (.inl rfl) ?_
  · exact ⟨hwf.1, hwf.2.1, hwf.2.2.1, a, hc⟩
  · simp [Task.InTree, hm]
  · simp [Task.WaitsFor, hm]
  · by_cases htu : t = u
    · simp_all [TargetOk, live]
    · simp_all [TargetOk, live, setTask_other]

theorem Inv.key {fd : Int} {e : UthreadEvent} (hm : (b.task u).mode = .registered fd e) :
    Inv (b.setTask u {b.task u with fdWait := waitKey fd e, mode := .keyed fd e}) := by
  have hwf := h.wf_of_mode hc hm
  simp only [Task.Wf] at hwf
  refine h.progress ⟨a, hc⟩ rfl rfl rfl ?_ ?_ ?_ (.inr ?_) ?_
  · exact ⟨hwf.1, hwf.2.1, rfl, ⟨a, hc⟩, hwf.2.2.2.2⟩
  · simp [Task.InTree, hm]
  · simp [Task.WaitsFor, hm]
  · simp [Task.WaitsFor]
  · simp [TargetOk]

theorem Inv.mark {g : Goal} (hm : (b.task u).mode = .linked g) :
    Inv (b.setTask u {b.task u with asleep := true, mode := .parking g}) := by
  have hwf := h.wf_of_mode hc hm
  simp only [Task.Wf] at hwf
  refine h.progress ⟨a, hc⟩ rfl rfl rfl ?_ ?_ ?_ (.inl rfl) ?_
  · exact ⟨hwf.2.1, hwf.2.2.2.2, .inl hwf.2.2.1⟩
  · simp [Task.InTree, hm]
  · simp [Task.WaitsFor, hm]
  · cases g <;> simp [TargetOk]

theorem Inv.backJoined {t : UId} (hm : (b.task u).mode = .parked (.join t)) :
    Inv (b.setTask u {b.task u with asleep := false, mode := .joined t}) := by
  have hwf := h.wf_of_mode hc hm
  have htarget := h.target (h.cur_live hc)
  simp only [Task.Wf, Goal.key] at hwf
  have hs : (b.task u).asleep = false := hwf.2.2.2 ⟨a, hc⟩
  simp only [TargetOk, hm, hs] at htarget
  refine h.progress ⟨a, hc⟩ rfl rfl rfl ?_ ?_ ?_ (.inl rfl) ?_
  · exact ⟨rfl, hwf.1, hwf.2.2.1.elim id And.right⟩
  · simp [Task.InTree, hm, hs]
  · simp [Task.WaitsFor, hm, hs]
  · by_cases htu : t = u
    · simp_all [TargetOk]
    · simp_all [TargetOk, setTask_other]

theorem Inv.backEvent {fd : Int} {e : UthreadEvent} (hm : (b.task u).mode = .parked (.event fd e)) :
    Inv (b.setTask u {b.task u with asleep := false, mode := .unkeying}) := by
  have hwf := h.wf_of_mode hc hm
  simp only [Task.Wf] at hwf
  have hs : (b.task u).asleep = false := hwf.2.2.2 ⟨a, hc⟩
  refine h.progress ⟨a, hc⟩ rfl rfl rfl ?_ ?_ ?_ (.inl rfl) ?_
  · exact ⟨rfl, hwf.1⟩
  · simp [Task.InTree, hm, hs]
  · simp [Task.WaitsFor, hm, hs]
  · simp [TargetOk]

theorem Inv.unkey (hm : (b.task u).mode = .unkeying) :
    Inv (b.setTask u {b.task u with fdWait := -1, mode := .free}) := by
  have hwf := h.wf_of_mode hc hm
  simp only [Task.Wf] at hwf
  refine h.progress ⟨a, hc⟩ rfl rfl rfl ?_ ?_ ?_ (.inr ?_) ?_
  · exact ⟨hwf.1, hwf.2, rfl⟩
  · simp [Task.InTree, hm]
  · simp [Task.WaitsFor, hm]
  · simp [Task.WaitsFor]
  · simp [TargetOk]

theorem Inv.finishJoin {t : UId} (hm : (b.task u).mode = .joined t) : Inv (b.setMode u .free) := by
  have hwf := h.wf_of_mode hc hm
  simp only [Task.Wf] at hwf
  refine h.progress ⟨a, hc⟩ rfl rfl rfl ?_ ?_ ?_ (.inl rfl) ?_
  · exact hwf
  · simp [Task.InTree, hm]
  · simp [Task.WaitsFor, hm]
  · simp [TargetOk]

theorem Inv.exit (hm : (b.task u).mode = .free) :
    Inv (b.setTask u {b.task u with exited := true, mode := .exiting}) := by
  have hwf := h.wf_of_mode hc hm
  simp only [Task.Wf] at hwf
  refine h.progress ⟨a, hc⟩ rfl rfl rfl ?_ ?_ ?_ (.inl rfl) ?_
  · exact ⟨hwf.1, rfl, hwf.2.2, a, hc⟩
  · simp [Task.InTree, hm]
  · simp [Task.WaitsFor, hm]
  · simp [TargetOk]

end Progress

end UthreadRuntime.Placement
