import UthreadRuntime.Placement.Cover
import UthreadRuntime.Placement.Refinement
import UthreadRuntime.Safety.HandOff
import UthreadRuntime.Support.Agree
import Mathlib.Data.List.Nodup

/-! Every uthread is in exactly one place.

Library code runs to its end, or to the switch it makes, before anything else happens;
the timer hits a uthread only in its own function or in the blocking call of a disk
operation. Between two such stretches the containers, the status words and the joins
agree (`Partition`). -/
namespace UthreadRuntime

open State Placement

/-- In the uthread's own function, or in the blocking system call of a disk operation. -/
def Ctx.outside : Ctx → Bool
  | .user | .diskCall => true
  | _ => false

/-- A library call under way is finished, or gives the CPU up, before anything else happens. -/
def Atomic (s : State) (act : Act) : Prop :=
  ∀ a u, (s.sched a).curUthread = some u → (s.ut u).ctx.outside = false → ∃ r, act = .stmt a r

/-- No descriptor that is waited for is closed. -/
def KeepsWatched (s : State) (act : Act) : Prop :=
  ∀ a fd, act = .call a (.close fd) → ∀ q, fd ∉ (s.p q).interest.map Interest.fd

/-- No library call is under way. -/
def Quiet (s : State) : Prop := ∀ a u, (s.sched a).curUthread = some u → (s.ut u).ctx.outside = true

namespace State

def OnCpu (s : State) (u : UId) : Prop := ∃ a, (s.sched a).curUthread = some u
def InReady (s : State) (u : UId) : Prop := ∃ q, u ∈ (s.p q).ready
def InSleeping (s : State) (u : UId) : Prop := ∃ q, u ∈ (s.p q).sleeping
def InWaiting (s : State) (u : UId) : Prop := ∃ q, u ∈ (s.p q).waiting

/-- `cur_uthread` of exactly one sched and nowhere else; or once in the ready queue of its p
and nowhere else; or in the sleeping tree of its p and nowhere else. -/
def InOnePlace (s : State) (u : UId) : Prop :=
  ((∃! a, (s.sched a).curUthread = some u) ∧ ¬s.InReady u ∧ ¬s.InSleeping u) ∨
  (¬s.OnCpu u ∧ (∃ q, (s.ut u).p = some q ∧ (s.p q).ready.count u = 1 ∧
    ∀ r, u ∈ (s.p r).ready → r = q) ∧ ¬s.InSleeping u) ∨
  (¬s.OnCpu u ∧ ¬s.InReady u ∧ ∃ q, (s.ut u).p = some q ∧ u ∈ (s.p q).sleeping ∧
    ∀ r, u ∈ (s.p r).sleeping → r = q)

end State

structure Partition (s : State) : Prop where
  placed : ∀ u, (s.ut u).life = .live → s.InOnePlace u
  sleeping_iff : ∀ u, (s.ut u).life = .live → (s.InSleeping u ↔ (s.ut u).status.has .sleeping = true)
  waiting : ∀ q u, u ∈ (s.p q).waiting → u ∈ (s.p q).sleeping
  joined : ∀ t j, (s.ut t).life = .live → (s.ut t).utJoined = some j →
    (∃ q, (s.ut j).p = some q ∧ j ∈ (s.p q).sleeping) ∧ (s.ut j).fdWait = -1 ∧
    ∀ t', (s.ut t').life = .live → (s.ut t').utJoined = some j → t' = t
  freed : ∀ u, (s.ut u).life = .freed → ¬s.OnCpu u ∧ ¬s.InReady u ∧ ¬s.InSleeping u ∧ ¬s.InWaiting u

/-! ### Calm runs that keep what is watched -/

theorem cover_initial : Cover init.board := by
  have hlive : ∀ u, init.board.live u → u = 0 := by
    intro u hu
    by_contra h0
    have hl : (init.ut u).life = .live := hu
    rw [init_ut h0] at hl
    cases hl
  have hmain : init.board.task 0 = ⟨.live, some 0, false, false, none, -1, .free⟩ := rfl
  have hnone : ∀ u fd, init.board.live u → ¬(init.board.task u).Holds fd := by
    intro u fd hu hh
    rw [hlive u hu, hmain] at hh
    simp [Task.Holds, Task.WaitsFor] at hh
  constructor
  case placed =>
    intro u hu
    refine .inr (.inl ⟨0, ?_⟩)
    rw [hlive u hu]
    show 0 ∈ ([0] : List UId)
    simp
  case queued => exact fun hu _ hw => absurd (.inr ⟨_, hw⟩) (hnone _ _ hu)
  case watched => exact fun hu _ hh => absurd hh (hnone _ _ hu)
  case one_each => exact fun hu _ _ _ hh _ => absurd hh (hnone _ _ hu)

/-- Closing a descriptor nobody waits for leaves the board as it is. -/
theorem closed_unwatched {b : Board} {fd : Int} (h : ∀ q, ¬b.interest q fd) : b.closed fd = b := by
  have hi : (fun q f => b.interest q f ∧ f ≠ fd) = b.interest := by
    funext q f
    refine propext ⟨And.left, fun hf => ⟨hf, ?_⟩⟩
    rintro rfl
    exact h q hf
  unfold Board.closed
  rw [hi]

theorem cover_step {s s' : State} {act : Act} (hs : Sound s) (hi : Inv s.board) (hcov : Cover s.board)
    (hcalm : Calm s act) (hkeep : KeepsWatched s act) (hstep : step s act = .ok s') :
    Inv s'.board ∧ Cover s'.board := by
  refine ⟨inv_step hs hi hcalm hstep, ?_⟩
  rcases refines_step hs hi hcalm hstep with ⟨a, fd, hact, hb⟩ | hb | hm
  · rw [hb, closed_unwatched (hkeep a fd hact)]
    exact hcov
  · rw [hb]
    exact hcov
  · exact hcov.move hi hcalm.alone hm

/-- **In a calm run in which no watched descriptor is closed, no uthread is lost.** -/
theorem cover_of_reaches {s : State} (h : Reaches (fun s act => Calm s act ∧ KeepsWatched s act) s) :
    Cover s.board := by
  have hall : Sound s ∧ Inv s.board ∧ Cover s.board := by
    refine Sound.initial.invariant (I := fun s => Inv s.board ∧ Cover s.board) h ⟨inv_initial, cover_initial⟩ ?_
    rintro s act s' hs ⟨hi, hcov⟩ ⟨hcalm, hkeep⟩ hstep
    exact cover_step hs hi hcov hcalm hkeep hstep
  exact hall.2.2

/-! ### Atomic runs -/

theorem Ctx.mode_of_outside {c : Ctx} (h : c.outside = true) : c.mode = .free := by
  cases c with
  | user => rfl
  | diskCall => rfl
  | _ => cases h

theorem Atomic.calm {s : State} {act : Act} (h : Atomic s act) (hi : Inv s.board) : Calm s act := by
  intro a u hc
  cases ho : (s.ut u).ctx.outside
  · have hr := h a u hc ho
    exact ⟨fun _ => hr, fun _ => .inl hr⟩
  · have hm := Ctx.mode_of_outside ho
    constructor
    · intro hp
      rw [← Ctx.publishing_mode, hm] at hp
      cases hp
    · intro hsl
      obtain ⟨g, hg, -⟩ := (hi.wf (hi.cur_live (a := a) hc)).of_asleep hsl
      have hg' : (s.ut u).ctx.mode = .parking g ∨ (s.ut u).ctx.mode = .parked g := hg
      rw [hm] at hg'
      rcases hg' with hg' | hg' <;> cases hg'

/-- An atomic run is calm, whatever else its steps meet. -/
theorem calm_of_atomic_and {C : State → Act → Prop} {s : State}
    (h : Reaches (fun s act => (Atomic s act ∧ KeepsWatched s act) ∧ C s act) s) :
    Reaches (fun s act => (Calm s act ∧ KeepsWatched s act) ∧ C s act) s := by
  refine Run.Reaches.weaken (I := fun s => Sound s ∧ Inv s.board) h ⟨Sound.initial, inv_initial⟩ ?_ ?_
  · rintro s act s' ⟨hs, hi⟩ ⟨⟨hat, -⟩, -⟩ hstep
    exact ⟨hs.step hstep, inv_step hs hi (hat.calm hi) hstep⟩
  · rintro s act ⟨-, hi⟩ ⟨⟨hat, hkeep⟩, hC⟩
    exact ⟨⟨hat.calm hi, hkeep⟩, hC⟩

theorem calm_of_atomic {s : State} (h : Reaches (fun s act => Atomic s act ∧ KeepsWatched s act) s) :
    Reaches (fun s act => Calm s act ∧ KeepsWatched s act) s := by
  have hand := calm_of_atomic_and (C := fun _ _ => True) (h.mono fun _ _ hC => ⟨hC, trivial⟩)
  exact hand.mono fun _ _ hC => hC.1

/-! ### The partition -/

section Quiet

variable {s : State} (hs : Sound s) (hi : Inv s.board) (hq : Quiet s)
include hi hq

/-- A uthread on a sched has published nothing. -/
theorem Quiet.free {a : SId} {u : UId} (hc : (s.sched a).curUthread = some u) :
    (s.ut u).ctx.mode = .free ∧ (s.ut u).status.has .sleeping = false := by
  have hm := Ctx.mode_of_outside (hq a u hc)
  have hm' : (s.board.task u).mode = .free := hm
  have hwf := hi.wf (hi.cur_live (a := a) hc)
  simp only [Task.Wf, hm'] at hwf
  exact ⟨hm, hwf.1⟩

/-- Nobody is on the way into a wait: that is a call under way. -/
theorem Quiet.not_publishing {u : UId} (hu : (s.ut u).life = .live) :
    (s.ut u).ctx.mode.publishing = false := by
  rw [Bool.eq_false_iff]
  intro hp
  obtain ⟨a, ha⟩ := (hi.wf (u := u) hu).onCpu_of_publishing hp
  rw [(hq.free hi (a := a) ha).1] at hp
  cases hp

theorem Quiet.inTree_iff {u : UId} (hu : (s.ut u).life = .live) :
    (s.board.task u).InTree ↔ (s.ut u).status.has .sleeping = true := by
  refine ⟨?_, Or.inl⟩
  rintro (ha | ⟨g, hg⟩)
  · exact ha
  · have hp := hq.not_publishing hi hu
    have hg' : (s.ut u).ctx.mode = .linked g := hg
    rw [hg'] at hp
    cases hp

theorem Quiet.asleep_of_waits {u : UId} {g : Goal} (hu : (s.ut u).life = .live)
    (hw : (s.board.task u).WaitsFor g) : (s.ut u).status.has .sleeping = true := by
  have hp := hq.not_publishing hi hu
  rcases hw with hm | hm | hm
  · have hm' : (s.ut u).ctx.mode = .arming g := hm
    rw [hm'] at hp
    cases hp
  · have hm' : (s.ut u).ctx.mode = .linked g := hm
    rw [hm'] at hp
    cases hp
  · exact hm.1

theorem Quiet.not_onCpu_of_asleep {u : UId} (ha : (s.ut u).status.has .sleeping = true) : ¬s.OnCpu u := by
  rintro ⟨a, hc⟩
  rw [(hq.free hi hc).2] at ha
  cases ha

include hs

omit hq in
/-- A sleeper is in the tree of its p. -/
theorem Sound.sleeping_of_asleep {u : UId} (hu : (s.ut u).life = .live)
    (ha : (s.ut u).status.has .sleeping = true) :
    ∃ q, (s.ut u).p = some q ∧ u ∈ (s.p q).sleeping := by
  have hlt := hs.lt_of_life (u := u) (by rw [hu]; simp)
  have hp := (hs.ut u hlt).home
  exact ⟨0, hp, hi.sleeping_iff.mpr ⟨hu, hp, .inl ha⟩⟩

theorem Quiet.inOnePlace (hcov : Cover s.board) {u : UId} (hu : (s.ut u).life = .live) :
    s.InOnePlace u := by
  have hsleep : s.InSleeping u → (s.ut u).status.has .sleeping = true := by
    rintro ⟨q, hq'⟩
    exact (hq.inTree_iff hi hu).mp (hi.sleeping_iff.mp hq').2.2
  have hready : s.InReady u → (s.ut u).status.has .sleeping = false ∧ ¬s.OnCpu u := by
    rintro ⟨q, hq'⟩
    exact (hi.ready_mem hq').2.2
  rcases hcov.placed hu with ⟨a, ha⟩ | ⟨q, hr⟩ | ha
  · refine .inl ⟨⟨a, ha, fun c hc => hi.cur_inj hc ha⟩, fun hr => (hready hr).2 ⟨a, ha⟩, fun hsl => ?_⟩
    have hna := (hq.free hi (a := a) ha).2
    rw [hsleep hsl] at hna
    cases hna
  · obtain ⟨-, hp, hna, hoff⟩ := hi.ready_mem hr
    refine .inr (.inl ⟨hoff, ⟨q, hp, ?_, fun r hr' => ?_⟩, fun hsl => ?_⟩)
    · exact List.count_eq_one_of_mem (hi.ready_nodup q) hr
    · exact Option.some.inj ((hi.ready_mem hr').2.1.symm.trans hp)
    · have hna' : (s.ut u).status.has .sleeping = false := hna
      rw [hsleep hsl] at hna'
      cases hna'
  · obtain ⟨q, hp, hmem⟩ := hs.sleeping_of_asleep hi hu ha
    refine .inr (.inr ⟨hq.not_onCpu_of_asleep hi ha, fun hr => ?_, q, hp, hmem, fun r hr => ?_⟩)
    · have hna := (hready hr).1
      have ha' : (s.ut u).status.has .sleeping = true := ha
      rw [hna] at ha'
      cases ha'
    · exact Option.some.inj ((hi.sleeping_iff.mp hr).2.1.symm.trans hp)

end Quiet

/-- **The partition**, in every state between library calls of every run in which library
code is atomic. -/
theorem partition_of_reaches {s : State}
    (h : Reaches (fun s act => Atomic s act ∧ KeepsWatched s act) s) (hq : Quiet s) : Partition s := by
  have hcalm := calm_of_atomic h
  have hs := Sound.of_reaches h
  have hi := inv_of_reaches (hcalm.mono fun _ _ hc => hc.1)
  have hcov := cover_of_reaches hcalm
  constructor
  case placed => exact fun u hu => hq.inOnePlace hs hi hcov hu
  case sleeping_iff =>
    intro u hu
    constructor
    · rintro ⟨q, hmem⟩
      exact (hq.inTree_iff hi hu).mp (hi.sleeping_iff.mp hmem).2.2
    · intro ha
      obtain ⟨q, -, hmem⟩ := hs.sleeping_of_asleep hi hu ha
      exact ⟨q, hmem⟩
  case waiting =>
    intro q u hw
    obtain ⟨hu, hp, fd, e, hwait⟩ := hi.waiting_mem (b := s.board) hw
    exact hi.sleeping_iff.mpr ⟨hu, hp, .inl (hq.asleep_of_waits hi hu hwait)⟩
  case joined =>
    intro t j ht hj
    obtain ⟨hjl, hjw⟩ := (hi.joined_iff ht).mp hj
    refine ⟨hs.sleeping_of_asleep hi hjl (hq.asleep_of_waits hi hjl hjw),
      (hjw.key_eq (hi.wf hjl)).1, fun t' ht' hj' => ?_⟩
    have hg := hjw.goal_eq ((hi.joined_iff ht').mp hj').2
    cases hg
    rfl
  case freed =>
    intro u hu
    have hdead : ¬(s.ut u).life = .live := by
      rw [hu]
      simp
    refine ⟨?_, ?_, ?_, ?_⟩
    · rintro ⟨a, ha⟩
      exact hdead (hi.cur_live ha)
    · rintro ⟨q, hr⟩
      exact hdead (hi.ready_mem hr).1
    · rintro ⟨q, hr⟩
      exact hdead (hi.sleeping_iff.mp hr).1
    · rintro ⟨q, hr⟩
      exact hdead (hi.waiting_mem hr).1

/-! ### Checking a concrete run -/

/-- The action is a statement of the uthread on the thread of `a`. -/
def Act.isStmt (a : SId) : Act → Bool
  | .stmt c _ => c == a
  | _ => false

theorem Act.isStmt_iff {a : SId} {act : Act} : act.isStmt a = true ↔ ∃ r, act = .stmt a r := by
  cases act <;> simp [Act.isStmt]

/-- The check of all uthreads that run, on the scheds there are. -/
def forallCur (f : SId → UId → Bool) (s : State) : Bool :=
  (List.range maxProcs).all fun a =>
    match (s.sched a).curUthread with
    | none => true
    | some u => f a u

theorem Few.forallCur {s : State} (h : Few s) {f : SId → UId → Bool} (hf : forallCur f s = true)
    {a : SId} {u : UId} (hc : (s.sched a).curUthread = some u) : f a u = true := by
  have ha : a < maxProcs := by
    by_contra hge
    rw [(h.off a (Nat.le_of_not_lt hge)).1] at hc
    cases hc
  have hall := List.all_eq_true.mp hf a (List.mem_range.mpr ha)
  rw [hc] at hall
  exact hall

def Act.isClose : Act → Bool
  | .call _ (.close _) => true
  | _ => false

def atomicCheck (s : State) (act : Act) : Bool :=
  forallCur (fun a u => (s.ut u).ctx.outside || act.isStmt a) s && !act.isClose

theorem atomic_of_check {s : State} {act : Act} (hf : Few s) (h : atomicCheck s act = true) :
    Atomic s act ∧ KeepsWatched s act := by
  obtain ⟨hcur, hclose⟩ := Bool.and_eq_true_iff.mp h
  constructor
  · intro a u hc ho
    have hfu := hf.forallCur hcur hc
    rw [ho] at hfu
    exact Act.isStmt_iff.mp hfu
  · rintro a fd rfl
    cases hclose

/-- A run that passes the check is atomic. -/
theorem reaches_of_atomicCheck {acts : List Act} {s : State}
    (h : Run.checked step atomicCheck init acts = some s) :
    Reaches (fun s act => Atomic s act ∧ KeepsWatched s act) s := by
  refine Run.reaches_of_checked (I := fun s => Sound s ∧ Few s) h ⟨Sound.initial, Few.initial⟩ ?_ ?_
  · rintro s act s' ⟨hs, hf⟩ - hstep
    exact ⟨hs.step hstep, hf.step hs hstep⟩
  · rintro s act ⟨-, hf⟩ hcheck
    exact atomic_of_check hf hcheck

theorem calm_of_check {acts : List Act} {s : State}
    (h : Run.checked step atomicCheck init acts = some s) : Reaches Calm s :=
  (calm_of_atomic (reaches_of_atomicCheck h)).mono fun _ _ hC => hC.1

/-- A list of actions that passes the check is calm wherever a calm run takes it up. -/
theorem meets_of_atomicCheck {acts : List Act} {s₀ s : State} (hreach : Reaches Calm s₀)
    (h : Run.checked step atomicCheck s₀ acts = some s) : Run.meets step Calm s₀ acts := by
  refine Run.meets_of_checked (I := fun s => Sound s ∧ Few s ∧ Inv s.board) h
    ⟨Sound.of_reaches hreach, Few.of_reaches hreach, inv_of_reaches hreach⟩ ?_ ?_
  · rintro s act s' ⟨hs, hf, hi⟩ hcalm hstep
    exact ⟨hs.step hstep, hf.step hs hstep, inv_step hs hi hcalm hstep⟩
  · rintro s act ⟨hs, hf, hi⟩ hcheck
    exact (atomic_of_check hf hcheck).1.calm hi

/-- A run that passes the check and another one is calm and meets what the other tells. -/
theorem calm_of_checks {C : State → Act → Prop} {c : State → Act → Bool} {acts : List Act} {s : State}
    (hc : ∀ s act, c s act = true → C s act)
    (h : Run.checked step (fun s act => atomicCheck s act && c s act) init acts = some s) :
    Reaches (fun s act => (Calm s act ∧ KeepsWatched s act) ∧ C s act) s := by
  apply calm_of_atomic_and
  refine Run.reaches_of_checked (I := fun s => Sound s ∧ Few s) h ⟨Sound.initial, Few.initial⟩ ?_ ?_
  · rintro s act s' ⟨hs, hf⟩ - hstep
    exact ⟨hs.step hstep, hf.step hs hstep⟩
  · rintro s act ⟨-, hf⟩ hcheck
    obtain ⟨hat, hC⟩ := Bool.and_eq_true_iff.mp hcheck
    exact ⟨atomic_of_check hf hat, hc s act hC⟩

/-- Main has joined the uthread it created, which runs; another one is ready. -/
def joinedRun : List Act :=
  boot ++ calls 0 .create 8 ++ calls 0 (.join 1 none) 12 ++ scheds 0 8

theorem joinedRun_partition : ∃ s, Reaches (fun s act => Atomic s act ∧ KeepsWatched s act) s ∧
    Partition s ∧ (s.ut 1).utJoined = some 0 ∧ (s.sched 0).curUthread = some 1 ∧
    (s.p 0).ready = [2] ∧ (s.p 0).sleeping = [0] := by
  have hread : (Run.checked step atomicCheck init joinedRun).map (fun s =>
      (forallCur (fun _ u => (s.ut u).ctx.outside) s, (s.ut 1).utJoined, (s.sched 0).curUthread,
        (s.p 0).ready, (s.p 0).sleeping)) = some (true, some 0, some 1, [2], [0]) := by decide +kernel
  obtain ⟨s, hs, hread⟩ := Option.map_eq_some_iff.mp hread
  simp only [Prod.mk.injEq] at hread
  obtain ⟨hquiet, hrest⟩ := hread
  have hreach := reaches_of_atomicCheck hs
  refine ⟨s, hreach, partition_of_reaches hreach fun a u hc => ?_, hrest⟩
  exact (Few.of_reaches hreach).forallCur hquiet hc

end UthreadRuntime
