import UthreadRuntime.Model.Timer
import UthreadRuntime.Placement.Partition
import UthreadRuntime.Safety.Transfers
import UthreadRuntime.Ledger.Books

/-! Runs of the runtime with its timer.

`TickStep` lists what an action of the machine of `Model.Timer` does. What holds of the
runtime alone, in runs in which nobody is disturbed while publishing a wait, holds of it
here (`Solid`): an action of the runtime with its timer is one of the runtime, or writes
the flag of a uthread, or the timer, or neither. -/
namespace UthreadRuntime

open State Placement

inductive TickStep (s : Ticking) : TickAct → Ticking → Prop where
  | call {a : SId} {c : Call} {rt : State} : s.stage a = .uthread → step s.rt (.call a c) = .ok rt →
      TickStep s (.run (.call a c)) {s with rt := rt}
  | stmt {a : SId} {r : Reply} {u : UId} {rt : State} : s.stage a = .uthread →
      (s.rt.sched a).curUthread = some u → (s.rt.ut u).ctx.switching = false →
      step s.rt (.stmt a r) = .ok rt → TickStep s (.run (.stmt a r)) {s with rt := rt}
  | sched {a : SId} {r : Reply} {rt : State} : s.stage a = .sched → step s.rt (.sched a r) = .ok rt →
      (rt.sched a).curUthread = none → TickStep s (.run (.sched a r)) {s with rt := rt}
  | resume {a : SId} {r : Reply} {u : UId} {rt : State} : s.stage a = .sched →
      step s.rt (.sched a r) = .ok rt → (rt.sched a).curUthread = some u →
      TickStep s (.run (.sched a r)) {s with
        rt := rt
        stage := Function.update s.stage a .entering
        since := Function.update s.since u 0}
  | enter {a : SId} {u : UId} : s.stage a = .entering → (s.rt.sched a).curUthread = some u →
      TickStep s (.switch a) (s.setStage a .uthread)
  | leave {a : SId} {u : UId} : s.stage a = .uthread → (s.rt.sched a).curUthread = some u →
      (s.rt.ut u).ctx.switching = true → TickStep s (.switch a) (s.setStage a (.leaving true))
  | back {a : SId} {rt : State} : s.stage a = .leaving true → step s.rt (.stmt a {}) = .ok rt →
      TickStep s (.back a) ({s with rt := rt}.setStage a .sched)
  | interrupted {a : SId} {u : UId} {rt : State} : s.stage a = .leaving false →
      (s.rt.sched a).curUthread = some u → uthreadSwitched a u s.rt = .ok rt →
      TickStep s (.back a) ({s with rt := rt}.setStage a .sched)
  | deliver {a : SId} {u : UId} : s.pending a ≠ [] → s.stage a = .uthread →
      (s.rt.sched a).curUthread = some u → TickStep s (.deliver a) {s with
        rt := s.rt.setUt u fun v => {v with isWatingYieldSignal := false}
        stage := Function.update s.stage a (.leaving false)
        pending := Function.update s.pending a []}
  | tick {pending : SId → List UId} : tickNodes s.rt s.rt.timer.due s.pending = .ok pending →
      TickStep s .tick {s with
        rt := {s.rt with timer := s.rt.timer.turned}
        pending := pending
        since := fun u => s.since u + 1}

section Inversion

variable {s s' : Ticking}

/-- The runtime's own result, and what is made of it. -/
theorem bind_liftStop_ok {α β : Type} {x : Except Stop α} {f : α → Except TickStop β} {y : β}
    (h : (liftStop x >>= f) = .ok y) : ∃ z, x = .ok z ∧ f z = .ok y := by
  cases x with
  | ok z => exact ⟨z, rfl, h⟩
  | error e => cases h

theorem run_tickStep {act : Act} (h : s.run act = .ok s') : TickStep s (.run act) s' := by
  unfold Ticking.run at h
  split at h
  · rename_i hallows
    obtain ⟨rt, hrt, h⟩ := bind_liftStop_ok h
    cases act with
    | call a c =>
      cases h
      exact .call (by simpa [Ticking.allows] using hallows) hrt
    | stmt a r =>
      cases h
      simp only [Ticking.allows, Bool.and_eq_true, beq_iff_eq] at hallows
      obtain ⟨hstage, hcur⟩ := hallows
      split at hcur
      · cases hcur
      · rename_i u hc
        exact .stmt hstage hc (by simpa using hcur) hrt
    | preempt a => cases hallows
    | sched a r =>
      have hstage : s.stage a = .sched := by simpa [Ticking.allows] using hallows
      dsimp only [Act.thread] at h
      cases hc : (rt.sched a).curUthread with
      | none =>
        rw [hc] at h
        cases h
        exact .sched hstage hrt hc
      | some u =>
        rw [hc] at h
        cases h
        exact .resume hstage hrt hc
  · cases h

theorem switch_tickStep {a : SId} (h : s.switch a = .ok s') : TickStep s (.switch a) s' := by
  unfold Ticking.switch at h
  split at h
  · rename_i u hstage hc
    cases h
    exact .enter hstage hc
  · rename_i u hstage hc
    split at h
    · rename_i hsw
      cases h
      exact .leave hstage hc hsw
    · cases h
  · cases h

theorem back_tickStep {a : SId} (h : s.back a = .ok s') : TickStep s (.back a) s' := by
  unfold Ticking.back at h
  split at h
  · rename_i u hstage hc
    obtain ⟨rt, hrt, h⟩ := bind_liftStop_ok h
    cases h
    exact .back hstage hrt
  · rename_i u hstage hc
    obtain ⟨rt, hrt, h⟩ := bind_liftStop_ok h
    cases h
    exact .interrupted hstage hc hrt
  · cases h

theorem deliver_tickStep {a : SId} (h : s.deliver a = .ok s') : TickStep s (.deliver a) s' := by
  unfold Ticking.deliver at h
  split at h
  · cases h
  · rename_i hp
    split at h
    · cases h
    · rename_i u hc
      split at h
      · rename_i hstage
        cases h
        exact .deliver hp hstage hc
      · cases h

/-- **Every action that succeeds is one of the list.** -/
theorem tickStep_ok {act : TickAct} (h : s.step act = .ok s') : TickStep s act s' := by
  unfold Ticking.step at h
  split at h
  · cases h
  · cases act with
    | run act => exact run_tickStep h
    | switch a => exact switch_tickStep h
    | back a => exact back_tickStep h
    | deliver a => exact deliver_tickStep h
    | tick =>
      obtain ⟨pending, hp, h⟩ := bind_liftStop_ok h
      cases h
      exact .tick hp

end Inversion

/-! ### What holds of the runtime -/

/-- The action of the runtime alone that the action contains. -/
def Ticking.base (s : Ticking) : TickAct → Option Act
  | .run act => some act
  | .back a =>
    match s.stage a with
    | .leaving true => some (.stmt a {})
    | .leaving false => some (.preempt a)
    | _ => none
  | .switch _ | .deliver _ | .tick => none

/-- Nobody is disturbed while publishing a wait. -/
def CalmTick (s : Ticking) (act : TickAct) : Prop := ∀ b, s.base act = some b → Calm s.rt b

structure Solid (s : State) : Prop where
  sound : Sound s
  inv : Inv s.board

section Solid

variable {s s' : State} {a : SId} {u : UId}

theorem Solid.initial : Solid init := ⟨Sound.initial, inv_initial⟩

theorem Solid.base_step (h : Solid s) {act : Act} (hcalm : Calm s act) (hs : step s act = .ok s') : Solid s' :=
  ⟨h.sound.step hs, inv_step h.sound h.inv hcalm hs⟩

theorem Solid.flag (h : Solid s) (hc : (s.sched a).curUthread = some u) (b : Bool) :
    Solid (s.setUt u fun v => {v with isWatingYieldSignal := b}) := by
  have hu := (h.sound.cur hc).1
  refine ⟨h.sound.plain hu rfl rfl rfl rfl (h.sound.ut u hu).life (.inl rfl), ?_⟩
  rw [board_setUt_same s u rfl]
  exact h.inv

theorem Solid.timer (h : Solid s) (w : TimerWheel) : Solid {s with timer := w} :=
  ⟨h.sound.congr rfl rfl rfl rfl rfl, h.inv⟩

/-- A uthread that the handler took off its thread. -/
theorem Solid.switched (h : Solid s) (hcalm : Calm s (.preempt a)) (hc : (s.sched a).curUthread = some u)
    (hs : uthreadSwitched a u s = .ok s') : Solid s' := by
  have hu := (h.sound.cur hc).1
  refine ⟨h.sound.uthreadSwitched (h.sound.busy_of_cur hc) hu hs, ?_⟩
  have hb : s.board = s.board.setMode u (s.board.task u).mode := (setMode_same rfl).symm
  refine h.inv.move hcalm.alone (switched_move hb hc (fun _ => .inl rfl) (fun _ _ => ?_) hs)
  show (s.ut u).ctx.mode.publishing = false
  rw [Ctx.publishing_mode, Bool.eq_false_iff]
  intro hp
  obtain ⟨r, hr⟩ := (hcalm a u hc).1 hp
  cases hr

end Solid

theorem TickStep.solid {s s' : Ticking} {act : TickAct} (h : TickStep s act s') (hsolid : Solid s.rt)
    (hcalm : CalmTick s act) : Solid s'.rt := by
  cases h with
  | call _ hs => exact hsolid.base_step (hcalm _ rfl) hs
  | stmt _ _ _ hs => exact hsolid.base_step (hcalm _ rfl) hs
  | sched _ hs _ => exact hsolid.base_step (hcalm _ rfl) hs
  | resume _ hs _ => exact hsolid.base_step (hcalm _ rfl) hs
  | enter _ _ => exact hsolid
  | leave _ _ _ => exact hsolid
  | back hstage hs => exact hsolid.base_step (hcalm _ (by simp only [Ticking.base, hstage])) hs
  | interrupted hstage hc hs => exact hsolid.switched (hcalm _ (by simp only [Ticking.base, hstage])) hc hs
  | deliver _ _ hc => exact hsolid.flag hc false
  | tick _ => exact hsolid.timer _

theorem TickStep.few {s s' : Ticking} {act : TickAct} (h : TickStep s act s') (hfew : Few s.rt)
    (hsnd : Sound s.rt) : Few s'.rt := by
  cases h with
  | call _ hs => exact hfew.step hsnd hs
  | stmt _ _ _ hs => exact hfew.step hsnd hs
  | sched _ hs _ => exact hfew.step hsnd hs
  | resume _ hs _ => exact hfew.step hsnd hs
  | enter _ _ => exact hfew
  | leave _ _ _ => exact hfew
  | back _ hs => exact hfew.step hsnd hs
  | interrupted _ _ hs => exact hfew.still (Still.switched hs)
  | deliver _ _ _ => exact ⟨hfew.idle, hfew.off⟩
  | tick _ => exact ⟨hfew.idle, hfew.off⟩

/-! ### Checking a concrete run -/

def calmTickCheck (s : Ticking) (act : TickAct) : Bool :=
  match s.base act with
  | none => true
  | some b => atomicCheck s.rt b

/-- A run that passes this check and the ones of `c` meets `C`. -/
theorem reaches_of_tickChecks {C : Ticking → TickAct → Prop} {c : Ticking → TickAct → Bool}
    {acts : List TickAct} {s : Ticking} (hcalm : ∀ s act, C s act → CalmTick s act)
    (hc : ∀ s act, Solid s.rt → CalmTick s act → c s act = true → C s act)
    (h : Run.checked Ticking.step (fun s act => calmTickCheck s act && c s act) {} acts = some s) :
    Ticking.Reaches C s := by
  refine Run.reaches_of_checked (I := fun s => Solid s.rt ∧ Few s.rt) h ⟨Solid.initial, Few.initial⟩ ?_ ?_
  · rintro s act s' ⟨hsolid, hfew⟩ hC hs
    have hstep := tickStep_ok hs
    exact ⟨hstep.solid hsolid (hcalm s act hC), hstep.few hfew hsolid.sound⟩
  · rintro s act ⟨hsolid, hfew⟩ hcheck
    obtain ⟨hat, hC⟩ := Bool.and_eq_true_iff.mp hcheck
    refine hc s act hsolid (fun b hb => ?_) hC
    simp only [calmTickCheck, hb] at hat
    exact (atomic_of_check hfew hat).1.calm hsolid.inv

end UthreadRuntime
