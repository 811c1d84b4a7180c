import UthreadRuntime.Placement.Partition
import UthreadRuntime.Trees.Simulation

/-! The two machines in step.

A statement of a uthread, a preemption and a turn of the scheduler do to the trees and queues in
memory what they do to the lists. What they need of the state (`Tended`) holds wherever a calm run
gets, so a calm run with the trees and queues in memory is a run of the runtime, action by action. -/
namespace UthreadRuntime

open State Rb Tailq Run Placement

/-- The trees are those of `Hooked`, no key of a linked uthread is about to be set, and neither a
uthread that runs nor its joiner is queued. -/
structure Tended (s : State) : Prop extends Hooked s where
  joined : ∀ {a u j}, (s.sched a).curUthread = some u → (s.ut u).utJoined = some j →
    (s.ut j).life = .live ∧ ∀ r, j ∉ (s.p r).ready
  running : ∀ {a u}, (s.sched a).curUthread = some u → ∀ r, u ∉ (s.p r).ready
  clock : ∀ {a u w q}, (s.sched a).curUthread = some u → (s.ut u).ctx = .sleep w .clock → u ∉ (s.p q).sleeping
  key : ∀ {a u c q}, (s.sched a).curUthread = some u →
    (s.ut u).ctx = .register c .key ∨ (s.ut u).ctx = .register c .unkey → u ∉ (s.p q).waiting

/-- Who waits is not queued. -/
theorem Placement.Inv.not_ready_of_waits {b : Board} (h : Inv b) {u : UId} {g : Goal} {q : PId} (hlive : b.live u)
    (hw : (b.task u).WaitsFor g) : u ∉ b.ready q := by
  intro hu
  obtain ⟨-, -, hawake, hoff⟩ := h.ready_mem hu
  have hwf := h.wf hlive
  unfold Task.Wf at hwf
  rcases hw with hw | hw | ⟨hw, -⟩
  · rw [hw] at hwf
    exact hoff hwf.2.2.2.1
  · rw [hw] at hwf
    exact hoff hwf.2.2.2.1
  · rw [hawake] at hw
    cases hw

theorem tended_of_inv {s : State} (h : Inv s.board) : Tended s := by
  refine ⟨hooked_of_inv h, fun {a u j} hc hj => ?_, fun {a u} hc r => h.not_ready (a := a) hc,
    fun {a u w q} hc hctx hu => ?_, fun {a u c q} hc hctx hu => ?_⟩
  · obtain ⟨hlive, hwaits⟩ := (h.joined_iff (h.cur_live hc)).mp hj
    exact ⟨hlive, fun r => h.not_ready_of_waits hlive hwaits⟩
  · have hmode : (s.board.task u).mode = .arming w.goal := by
      show (s.ut u).ctx.mode = _
      rw [hctx]
      rfl
    obtain ⟨-, -, hin | ⟨g, hin⟩⟩ := h.sleeping_iff.mp hu
    · have hwf := h.wf (h.cur_live hc)
      simp only [Task.Wf, hmode] at hwf
      rw [hwf.1] at hin
      cases hin
    · rw [hmode] at hin
      cases hin
  · obtain ⟨-, -, fd, e, hw⟩ := h.waiting_mem hu
    have hmode : (s.board.task u).mode = (s.ut u).ctx.mode := rfl
    rcases hctx with hctx | hctx <;> rw [hctx] at hmode <;> simp [Task.WaitsFor, hmode, Ctx.mode] at hw

section Statements

variable {x : Concrete} {s s' : State} {a : SId} {u : UId} {q : PId} {r : Reply}

/-- A statement that touches no tree and no queue, and sets no key of a linked uthread. -/
theorem sameMembers_stmt (h : Rep x s) (ht : Tended s) (hc : (s.sched a).curUthread = some u)
    (hctx : (s.ut u).ctx.touchesLinks = false) (hs : uthreadStmt a u r s = .ok s') : SameMembers s s' := by
  have hmembers : s'.members = s.members := by
    have hl := blind_uthreadStmt a u r s.members hctx
    rw [hang_members, hs] at hl
    rw [Except.ok.inj hl, members_hang]
  cases (uthreadStmt_ok hs).links with
  | keeps hk => exact SameMembers.of_keepsLinks hk hmembers h.below
  | @own k k' f hk hown heq =>
    have hwake : ∀ q, u ∈ (s.p q).sleeping → (f (s.ut u)).wakeupTimeUsec = (s.ut u).wakeupTimeUsec := by
      intro q hu
      cases hown with
      | clock w => exact absurd hu (ht.clock hc hk)
      | _ => rfl
    have hkey : ∀ q, u ∈ (s.p q).waiting → (f (s.ut u)).fdWait = (s.ut u).fdWait := by
      intro q hu
      cases hown with
      | key c => exact absurd hu (ht.key hc (.inl hk))
      | unkey c => exact absurd hu (ht.key hc (.inr hk))
      | _ => rfl
    have hself : s'.ut u = {f (s.ut u) with ctx := k'} := by
      rw [heq]
      unfold goto
      rw [setUt_ut_self, setUt_ut_self]
    have hother : ∀ v, v ≠ u → s'.ut v = s.ut v := by
      intro v hv
      rw [heq, goto_ut_of_ne hv, setUt_ut, if_neg hv]
    refine ⟨hmembers, by rw [heq]; rfl, fun {q v} hv => ?_, fun {q v} hv => ?_⟩
    · by_cases hvu : v = u
      · subst hvu
        rw [hself]
        exact hwake q hv
      · rw [hother v hvu]
    · by_cases hvu : v = u
      · subst hvu
        rw [hself]
        exact hkey q hv
      · rw [hother v hvu]
  | sleeping hk _ _ | waiting hk _ _ _ =>
    rw [hk] at hctx
    cases hctx

theorem Rep.goto (h : Rep x s) (u : UId) (k : Ctx) :
    Rep {x with rt := UthreadRuntime.goto u k x.rt} (UthreadRuntime.goto u k s) :=
  h.keep (show SameMembers s (UthreadRuntime.goto u k s) from SameMembers.setUt rfl rfl) (congrArg (UthreadRuntime.goto u k) h.rt)

/-- A uthread that runs gives up its thread; where it will go on has been recorded. -/
theorem Rep.leave (h : Rep x s) (hsnd : Sound s) (ht : Tended s) (hc : (s.sched a).curUthread = some u) (f : Uthread → Uthread)
    (hf : ∀ v, f v = {v with isWatingYieldSignal := (f v).isWatingYieldSignal, ctx := (f v).ctx}) :
    Matches (Concrete.uthreadSwitched a u {x with rt := x.rt.setUt u f}) (uthreadSwitched a u (s.setUt u f)) := by
  have hlife : ∀ v, ((s.setUt u f).ut v).life = (s.ut v).life := setUt_keeps Uthread.life (by rw [hf])
  have hjoined : ((s.setUt u f).ut u).utJoined = (s.ut u).utJoined :=
    setUt_keeps Uthread.utJoined (by rw [hf]) u
  have hrep : Rep {x with rt := x.rt.setUt u f} (s.setUt u f) :=
    h.keep (SameMembers.setUt (by rw [hf]) (by rw [hf])) (congrArg (State.setUt u f) h.rt)
  have hk : Hooked (s.setUt u f) := by
    refine ht.toHooked.setUt (by rw [hf]) (by rw [hf]) (fun hs => ?_) fun _ _ => by rw [hf]
    rw [hf] at hs
    exact hs
  refine hrep.switched hk (hsnd.cur hc).1 (ht.running hc) fun j hj => ?_
  rw [hjoined] at hj
  obtain ⟨hlive, hout⟩ := ht.joined hc hj
  refine ⟨(hlife j).trans hlive, ?_, hout⟩
  by_contra hlt
  rw [hsnd.fresh j (Nat.not_lt.mp hlt)] at hlive
  cases hlive

/-- `RB_INSERT` into the sleeping tree fails exactly when the list refuses the uthread. -/
theorem Rep.linkSleeping (h : Rep x s) (hk : Hooked s) (hu : u < s.heap) (w : Wait) :
    Matches (x.schedSleepStmt a u w .insert r) (schedSleepStmt a u w .insert r s) := by
  unfold Concrete.schedSleepStmt UthreadRuntime.schedSleepStmt
  have hhome : x.rt.home u .sleepInsert = s.home u .sleepInsert := by
    rw [h.rt]
    rfl
  rw [hhome]
  refine (agrees_stopped _).bind fun q q' _ hq hqq => ?_
  subst hqq
  have hc : Compares (fun v v' => uthreadSleepCmp (s.ut v) (s.ut v')) (fun v => (s.ut v).wakeupTimeUsec) u
      (s.ut u).wakeupTimeUsec := ⟨(compares_sleep s (s.ut u)).neg, (compares_sleep s (s.ut u)).pos⟩
  have hout : ∀ j, j ≠ q → u ∉ (s.p j).sleeping := fun j hj hu =>
    hj (Option.some.inj ((hk.sleeping hu).2.symm.trans (home_ok hq)))
  have hins : insertSleeping s u (s.p q).sleeping =
      Tree.insert (fun v => (s.ut v).wakeupTimeUsec) u (s.p q).sleeping := rfl
  dsimp only
  rw [h.ut, hins]
  rcases h.sleeping.rbInsert hc (h.fuel_sleeping q) hout with ⟨hl, b, hrun⟩ | ⟨hl, f, hrun, hf⟩
  · rw [hl, hrun]
    rfl
  · rw [hl, hrun]
    have hlt : ∀ v ∈ u :: (s.p q).sleeping, v < s.heap := by
      intro v hv
      rcases List.mem_cons.mp hv with rfl | hv
      · exact hu
      · exact h.below (.inl hv)
    exact (h.setSleeping hf hlt).goto u (.sleep w .mark)

/-- `RB_INSERT` into the waiting tree leaves it alone exactly when the list does. -/
theorem Rep.linkWaiting (h : Rep x s) (hk : Hooked s) (hu : u < s.heap) (c : IoCall) :
    Matches (x.registerStmt a u c .insert) (registerStmt a u c .insert s) := by
  unfold Concrete.registerStmt UthreadRuntime.registerStmt
  have hhome : x.rt.home u .registerInsert = s.home u .registerInsert := by
    rw [h.rt]
    rfl
  rw [hhome]
  refine (agrees_stopped _).bind fun q q' _ hq hqq => ?_
  subst hqq
  have hc : Compares (fun v v' => uthreadWaitCmp (s.ut v) (s.ut v')) (fun v => (s.ut v).fdWait) u
      (s.ut u).fdWait := ⟨(compares_wait s (s.ut u)).neg, (compares_wait s (s.ut u)).pos⟩
  have hout : ∀ j, j ≠ q → u ∉ (s.p j).waiting := fun j hj hu =>
    hj (Option.some.inj ((hk.waiting hu).2.1.symm.trans (home_ok hq)))
  have hins : insertWaiting s u (s.p q).waiting =
      Tree.insert (fun v => (s.ut v).fdWait) u (s.p q).waiting := rfl
  dsimp only
  rw [h.ut, hins]
  rcases h.waiting.rbInsert hc (h.fuel_waiting q) hout with ⟨hl, b, hrun⟩ | ⟨hl, f, hrun, hf⟩
  · rw [hl, hrun]
    have hsame : SameMembers s (s.setP q fun v => {v with waiting := (s.p q).waiting}) := SameMembers.setP rfl
    have hrep : Rep x (s.setP q fun v => {v with waiting := (s.p q).waiting}) := by
      refine h.keep hsame ?_
      rw [h.rt]
      exact (hang_setP_members (fun _ _ => rfl) _ q s).symm
    exact hrep.goto u (.sleep (.event c) .clock)
  · rw [hl, hrun]
    have hlt : ∀ v ∈ u :: (s.p q).waiting, v < s.heap := by
      intro v hv
      rcases List.mem_cons.mp hv with rfl | hv
      · exact hu
      · exact h.below (.inr (.inl hv))
    exact (h.setWaiting hf hlt).goto u (.sleep (.event c) .clock)

/-- `TAILQ_INSERT_TAIL` of a new uthread. -/
theorem Rep.insertCreated (h : Rep x s) (hsnd : Sound s) (a c : SId) (u : UId) (id : Nat) (p : Option PId) :
    Matches (x.createStmt a u c (.insert id p) r) (createStmt a u c (.insert id p) r s) := by
  unfold Concrete.createStmt UthreadRuntime.createStmt
  have hbound : x.rt.bound c .create = s.bound c .create := by
    rw [h.rt]
    rfl
  have hheap : x.rt.heap = s.heap := by
    rw [h.rt]
    rfl
  dsimp only
  rw [hbound, hheap]
  refine (agrees_stopped _).bind fun q q' _ _ hqq => ?_
  subst hqq
  have hother : ∀ {v}, v < s.heap → (Concrete.allocated id p s).ut v = s.ut v :=
    fun hv => Function.update_of_ne (Nat.ne_of_lt hv) _ _
  have hsame : SameMembers s (Concrete.allocated id p s) := by
    refine ⟨rfl, Nat.le_succ _, fun hv => ?_, fun hv => ?_⟩
    · rw [hother (h.below (.inl hv))]
    · rw [hother (h.below (.inr (.inl hv)))]
  have halloc : Rep {x with rt := Concrete.allocated id p x.rt} (Concrete.allocated id p s) :=
    h.keep hsame (congrArg (Concrete.allocated id p) h.rt)
  have hout : ∀ r, s.heap ∉ ((Concrete.allocated id p s).p r).ready := fun r hr => Nat.lt_irrefl _ (hsnd.ready (q := r) hr)
  have hinsert := halloc.insertReady (q := q) hout (Nat.lt_succ_self s.heap)
  refine hinsert.bind (g := fun t => .ok (returns a u 0 t)) fun y t _ _ hyt => ?_
  exact hyt.keep (show SameMembers t (returns a u 0 t) from SameMembers.setUt rfl rfl)
    (congrArg (returns a u 0) hyt.rt)

/-- The hand-off looks whether the queue is empty. -/
theorem Rep.handOff (h : Rep x s) (u : UId) (c : SId) (r : Reply) :
    Matches (x.diskHandOffStmt u c r) (diskHandOffStmt u c r s) := by
  unfold Concrete.diskHandOffStmt UthreadRuntime.diskHandOffStmt
  rw [h.sched]
  cases (s.sched c).p with
  | none => exact h.goto u .diskCall
  | some q =>
    refine agrees_ite (by rw [(h.ready.holds q).isEmpty]) (fun _ => h.goto u .diskCall) fun _ => ?_
    have hidle : x.rt.schedIdle = s.schedIdle := by
      rw [h.rt]
      rfl
    rw [hidle]
    cases s.schedIdle with
    | nil => rfl
    | cons n rest =>
      refine agrees_ite Iff.rfl (fun _ => ?_) fun _ => rfl
      have hset : SameMembers s (s.setP q fun v => {v with sched := some n}) := SameMembers.setP rfl
      have hhanded : Rep {x with rt := handedOff c n q rest x.rt} (handedOff c n q rest s) := by
        have hbind : SameMembers (s.setP q fun v => {v with sched := some n}) (handedOff c n q rest s) :=
          SameMembers.of_eq rfl rfl rfl
        refine h.keep (hset.trans hbind) ?_
        rw [h.rt]
        exact congrArg (State.setSched c fun v => {v with p := none})
          (hang_setP (g := fun v => {v with sched := some n}) (fun _ _ => rfl) _ q
            (State.setSched n (fun v => {v with p := some q, pc := .another}) {s with schedIdle := rest})).symm
      exact hhanded.goto u .diskCall

/-- **A statement of a uthread.** -/
theorem Rep.uthreadStmt (h : Rep x s) (hsnd : Sound s) (ht : Tended s) (hc : (s.sched a).curUthread = some u)
    (r : Reply) : Matches (x.uthreadStmt a u r) (uthreadStmt a u r s) := by
  have hu : u < s.heap := (hsnd.cur hc).1
  have hblind : (s.ut u).ctx.touchesLinks = false →
      Matches (x.rest (UthreadRuntime.uthreadStmt a u r x.rt)) (UthreadRuntime.uthreadStmt a u r s) :=
    fun hctx => h.rest (blind_uthreadStmt a u r _ hctx) fun s' hs => sameMembers_stmt h ht hc hctx hs
  have hleave : ∀ k, Matches (Concrete.uthreadSwitched a u {x with rt := UthreadRuntime.goto u k x.rt})
      (uthreadSwitched a u (UthreadRuntime.goto u k s)) :=
    fun k => h.leave hsnd ht hc (fun v => {v with ctx := k}) fun _ => rfl
  unfold Concrete.uthreadStmt
  rw [h.ut]
  cases hctx : (s.ut u).ctx with
  | yieldSwitch =>
    unfold UthreadRuntime.uthreadStmt
    rw [hctx]
    exact hleave .user
  | sleep w pc =>
    have hrun : UthreadRuntime.uthreadStmt a u r s = schedSleepStmt a u w pc r s := by
      unfold UthreadRuntime.uthreadStmt
      rw [hctx]
    have hrun' : UthreadRuntime.uthreadStmt a u r x.rt = schedSleepStmt a u w pc r x.rt := by
      unfold UthreadRuntime.uthreadStmt
      rw [h.ut, hctx]
    rw [hrun]
    rw [hrun, hrun', hctx] at hblind
    cases pc with
    | insert => exact h.linkSleeping ht.toHooked hu w
    | switch => exact hleave (.sleep w .wake)
    | _ => exact hblind rfl
  | register c pc =>
    have hrun : UthreadRuntime.uthreadStmt a u r s = registerStmt a u c pc s := by
      unfold UthreadRuntime.uthreadStmt
      rw [hctx]
    have hrun' : UthreadRuntime.uthreadStmt a u r x.rt = registerStmt a u c pc x.rt := by
      unfold UthreadRuntime.uthreadStmt
      rw [h.ut, hctx]
    rw [hrun]
    rw [hrun, hrun', hctx] at hblind
    cases pc with
    | insert => exact h.linkWaiting ht.toHooked hu c
    | _ => exact hblind rfl
  | exit v pc =>
    have hrun : UthreadRuntime.uthreadStmt a u r s = exitStmt a u v pc s := by
      unfold UthreadRuntime.uthreadStmt
      rw [hctx]
    have hrun' : UthreadRuntime.uthreadStmt a u r x.rt = exitStmt a u v pc x.rt := by
      unfold UthreadRuntime.uthreadStmt
      rw [h.ut, hctx]
    rw [hrun]
    rw [hrun, hrun', hctx] at hblind
    cases pc with
    | switch => exact hleave .user
    | _ => exact hblind rfl
  | create c pc =>
    have hrun : UthreadRuntime.uthreadStmt a u r s = createStmt a u c pc r s := by
      unfold UthreadRuntime.uthreadStmt
      rw [hctx]
    have hrun' : UthreadRuntime.uthreadStmt a u r x.rt = createStmt a u c pc r x.rt := by
      unfold UthreadRuntime.uthreadStmt
      rw [h.ut, hctx]
    rw [hrun]
    rw [hrun, hrun', hctx] at hblind
    cases pc with
    | insert id p => exact h.insertCreated hsnd a c u id p
    | _ => exact hblind rfl
  | diskHandOff c =>
    unfold UthreadRuntime.uthreadStmt
    rw [hctx]
    exact h.handOff u c r
  | _ =>
    refine hblind ?_
    rw [hctx]
    rfl

/-- A call of user code. -/
theorem Rep.call (h : Rep x s) (a : SId) (c : Call) :
    Matches (x.rest (UthreadRuntime.step x.rt (.call a c))) (UthreadRuntime.step s (.call a c)) := by
  refine h.rest (f := fun t => UthreadRuntime.step t (.call a c)) ((blind_call a c).bare s) fun s' hs => ?_
  have hmembers := (blind_call a c).members hs
  cases step_ok hs with
  | call _ _ hent => exact SameMembers.of_keepsLinks hent.keepsLinks hmembers h.below

/-- **An action of the machine.** -/
theorem Rep.step (h : Rep x s) (hsnd : Sound s) (ht : Tended s) (act : Act) :
    Matches (x.step act) (UthreadRuntime.step s act) := by
  have hhalted : x.rt.halted = s.halted := by
    rw [h.rt]
    rfl
  cases hhalt : s.halted with
  | true =>
    unfold Concrete.step UthreadRuntime.step
    rw [if_pos (hhalted.trans hhalt), if_pos hhalt]
    unfold stepHalted
    split <;> rfl
  | false =>
  have hstep : ∀ {y : Except Halt Concrete} {z : Except Stop State}, Matches y z →
      Matches (if x.rt.halted then x.rest (stepHalted act) else y) (if s.halted then stepHalted act else z) := by
    intro y z hyz
    rwa [if_neg (by simp [hhalted, hhalt]), if_neg (by simp [hhalt])]
  cases act with
  | call a c =>
    unfold Concrete.step
    rw [if_neg (by simp [hhalted, hhalt])]
    exact h.call a c
  | stmt a r =>
    refine hstep ?_
    dsimp only
    rw [h.sched]
    cases hc : (s.sched a).curUthread with
    | none => rfl
    | some u => exact h.uthreadStmt hsnd ht hc r
  | preempt a =>
    refine hstep ?_
    dsimp only
    rw [h.sched]
    cases hc : (s.sched a).curUthread with
    | none => rfl
    | some u =>
      refine agrees_ite (by rw [h.ut]) (fun _ => ?_) fun _ => rfl
      exact h.leave hsnd ht hc (fun v => {v with isWatingYieldSignal := false}) fun _ => rfl
  | sched a r =>
    refine hstep ?_
    dsimp only
    rw [h.sched]
    cases hc : (s.sched a).curUthread with
    | none => exact h.schedRun ht.toHooked r
    | some u => rfl

end Statements

/-! ### Runs -/

theorem Rep.initial : Rep Concrete.init init := by
  refine ⟨rfl, ?_, ?_, ?_, fun {q u} hu => ?_⟩
  · have hs : (fun q => (init.p q).sleeping) = fun _ => [] := funext fun q => (init_links q).1
    rw [hs]
    exact Forest.represents_empty _
  · have hw : (fun q => (init.p q).waiting) = fun _ => [] := funext fun q => (init_links q).2.1
    rw [hw]
    exact Forest.represents_empty _
  · have hr : (fun q => (init.p q).ready) = Function.update (fun _ => []) 0 [0] := by
      funext q
      by_cases hq : q = 0
      · subst hq
        rfl
      · rw [init_p hq, Function.update_of_ne hq]
    have hinsert := (Queues.represents_empty (ι := PId) (α := UId)).insertTail (i := 0) (x := 0)
      fun _ => List.not_mem_nil
    obtain ⟨m, hrun, hm⟩ := hinsert
    have hget : Concrete.init.ready = m := Option.get_of_eq_some rfl hrun
    rw [hr, hget]
    exact hm
  · obtain ⟨hs, hw, -⟩ := init_links q
    rw [hs, hw] at hu
    rcases hu with hu | hu | hu
    · cases hu
    · cases hu
    · rw [(init_ready hu).2]
      exact Nat.zero_lt_one

/-- Wherever a calm run gets, the next action agrees. -/
theorem Rep.step_of_reaches {x : Concrete} {s : State} (h : Rep x s) (hreach : Reaches Calm s) (act : Act) :
    Matches (x.step act) (UthreadRuntime.step s act) :=
  h.step (Sound.of_reaches hreach) (tended_of_inv (inv_of_reaches hreach)) act

/-- **A calm list of actions does the same with the trees and queues in memory.** It ends in the same
state, the trees and queues having the uthreads of the lists, or it stops at the same action for the
same reason. -/
theorem concrete_exec {acts : List Act} (hcalm : Run.meets step Calm init acts) :
    Agrees SameStop Rep (Run.run Concrete.step Concrete.init acts) (exec acts) :=
  agrees_run (fun _ _ act h hreach _ => h.step_of_reaches hreach act) Rep.initial .start hcalm

/-- Main and the uthread it created wait for a descriptor each, and the second one's is ready. -/
def secondReady : List Act :=
  blockedRead 10 ++ scheds 0 8 ++ calls 0 (.io ⟨.read, 6, 1, 0⟩) 2 ++
    [.stmt 0 {ret := -1, errno := .eagain}] ++ stmts 0 6 ++ [.stmt 0 {now := 5}] ++ stmts 0 5 ++
    scheds 0 2 ++ [.sched 0 {events := [⟨6, false⟩]}] ++ scheds 0 1

theorem secondReady_run : Run.meets step Calm init secondReady ∧ ∃ s, exec secondReady = .ok s ∧
    (s.sched 0).curUthread = some 1 ∧ (s.p 0).sleeping = [0] ∧ (s.p 0).waiting = [0] := by
  have hread : (Run.checked step atomicCheck init secondReady).bind (fun _ =>
      (exec secondReady).toOption.map fun s => ((s.sched 0).curUthread, (s.p 0).sleeping, (s.p 0).waiting)) =
      some (some 1, [0], [0]) := by decide +kernel
  obtain ⟨s', hs', hread⟩ := Option.bind_eq_some_iff.mp hread
  obtain ⟨s, hs, hread⟩ := Option.map_eq_some_iff.mp hread
  simp only [Prod.mk.injEq] at hread
  exact ⟨meets_of_atomicCheck .start hs', s, ok_of_toOption hs, hread⟩

theorem secondReady_concrete : ∃ x s, Run.run Concrete.step Concrete.init secondReady = .ok x ∧
    exec secondReady = .ok s ∧ Rep x s ∧ (s.sched 0).curUthread = some 1 ∧ (s.p 0).sleeping = [0] ∧
    (s.p 0).waiting = [0] := by
  obtain ⟨hmeets, s, hs, hread⟩ := secondReady_run
  have hagree := concrete_exec hmeets
  rw [hs] at hagree
  obtain ⟨x, hx, hrep⟩ := hagree.of_ok
  exact ⟨x, s, hx, hs, hrep, hread⟩

/-! ### What is in the trees -/

theorem Ctx.mode_linked {k : Ctx} {g : Goal} : k.mode = .linked g ↔ ∃ w, k = .sleep w .mark ∧ w.goal = g := by
  constructor
  · intro h
    cases k with
    | sleep w pc =>
      cases pc with
      | mark => exact ⟨w, rfl, Mode.linked.inj h⟩
      | _ => cases h
    | join t v pc => cases pc <;> cases h
    | register c pc => cases pc <;> cases h
    | exit v pc => cases pc <;> cases h
    | _ => cases h
  · rintro ⟨w, rfl, rfl⟩
    rfl

/-- A red-black tree lies in the memory, in the order of the keys, with these nodes; none is
deeper than twice the logarithm of their number. -/
def HoldsExactly {κ : Type} [LinearOrder κ] (m : Memory UId) (key : UId → κ) (mem : UId → Prop) : Prop :=
  ∃ t, Holds m.field m t ∧ t.IsRedBlack ∧ Ascending key t.toList ∧ (∀ u, u ∈ t.toList ↔ mem u) ∧
    t.height ≤ 2 * Nat.log 2 (t.toList.length + 1)

theorem holdsExactly_of_represents {κ : Type} [LinearOrder κ] {m : Memory UId} {key : UId → κ} {l : List UId}
    {mem : UId → Prop} (h : Represents m key l) (hmem : ∀ u, u ∈ l ↔ mem u) : HoldsExactly m key mem := by
  obtain ⟨xs, ⟨t, ht, hrb, hasc, rfl⟩, hp⟩ := h
  exact ⟨t, ht, hrb, hasc, fun u => hp.mem_iff.trans (hmem u), hrb.height_le⟩

/-- The steps of a calm run with the trees in memory. -/
abbrev Concrete.Reaches : Concrete → Prop :=
  Run.Reaches Concrete.step (fun x act => Calm x.rt act) Concrete.init

/-- It follows a calm run of the runtime. -/
theorem Concrete.Reaches.follows {x : Concrete} (h : Concrete.Reaches x) :
    ∃ s, UthreadRuntime.Reaches Calm s ∧ Rep x s := by
  refine Run.Reaches.follow (D := Calm) (fun y t act hyt hreach _ => hyt.step_of_reaches hreach act)
    Rep.initial (fun y t act hyt hcalm => ?_) h
  rw [hyt.rt] at hcalm
  exact hcalm

/-- **What the trees and queues in memory hold, wherever a calm run gets.** The sleeping tree of a p
is red-black, ordered by wake-up times, and its nodes are the live uthreads of that p that are marked
asleep or about to be; the nodes of its waiting tree, ordered by their keys, are uthreads that wait
for an event; the entries of its ready queue are linked both ways and belong to live uthreads that
neither run nor sleep, each of them once; and no action follows a null pointer in a tree or a queue or
loses its way in one. -/
theorem concrete_trees {x : Concrete} (h : Concrete.Reaches x) (q : PId) :
    HoldsExactly (x.sleeping.tree q) (fun u => (x.rt.ut u).wakeupTimeUsec) (fun u =>
      (x.rt.ut u).life = .live ∧ (x.rt.ut u).p = some q ∧
        ((x.rt.ut u).status.has .sleeping = true ∨ ∃ w, (x.rt.ut u).ctx = .sleep w .mark)) ∧
    (∃ mem, HoldsExactly (x.waiting.tree q) (fun u => (x.rt.ut u).fdWait) mem ∧ ∀ u, mem u →
      (x.rt.ut u).life = .live ∧ (x.rt.ut u).p = some q ∧
        ∃ fd e, 0 ≤ fd ∧ (x.rt.ut u).fdWait = fdKey fd e.toNat ∧ (x.rt.ut u).task.WaitsFor (.event fd e)) ∧
    (∃ l, x.ready.Holds q l ∧ ∀ u ∈ l, (x.rt.ut u).life = .live ∧ (x.rt.ut u).p = some q ∧
      (x.rt.ut u).status.has .sleeping = false ∧ ∀ a, (x.rt.sched a).curUthread ≠ some u) ∧
    ∀ act, x.step act ≠ .error .links := by
  obtain ⟨s, hreach, hrep⟩ := h.follows
  have hinv := inv_of_reaches hreach
  have hmatch := hrep.step_of_reaches hreach
  have hut := hrep.ut
  refine ⟨?_, ⟨fun u => u ∈ (s.p q).waiting, ?_, fun u hu => ?_⟩, ⟨(s.p q).ready, hrep.ready.holds q, fun u hu => ?_⟩,
    fun act hact => ?_⟩
  · rw [hut]
    refine holdsExactly_of_represents (hrep.sleeping.tree q) fun u => ?_
    refine (hinv.sleeping_iff (q := q) (u := u)).trans (and_congr Iff.rfl (and_congr Iff.rfl (or_congr Iff.rfl ?_)))
    constructor
    · rintro ⟨g, hg⟩
      obtain ⟨w, hw, -⟩ := Ctx.mode_linked.mp hg
      exact ⟨w, hw⟩
    · rintro ⟨w, hw⟩
      exact ⟨w.goal, Ctx.mode_linked.mpr ⟨w, hw, rfl⟩⟩
  · rw [hut]
    exact holdsExactly_of_represents (hrep.waiting.tree q) fun _ => Iff.rfl
  · rw [hut]
    obtain ⟨hlive, hq, fd, e, hw⟩ := hinv.waiting_mem hu
    obtain ⟨hkey, hvalid⟩ := hw.key_eq (hinv.wf hlive)
    exact ⟨hlive, hq, fd, e, hvalid, hkey, hw⟩
  · rw [hut, hrep.sched]
    obtain ⟨hlive, hq, hawake, hoff⟩ := hinv.ready_mem (q := q) (u := u) hu
    exact ⟨hlive, hq, hawake, fun a ha => hoff ⟨a, ha⟩⟩
  · have hagree := hmatch act
    rw [hact] at hagree
    obtain ⟨e, -, he⟩ := hagree.to_error
    cases he

/-- What a calm run of the runtime does, a calm run with the trees in memory does. -/
theorem Concrete.Reaches.of_meets {acts : List Act} (hcalm : Run.meets UthreadRuntime.step Calm UthreadRuntime.init acts)
    {x : Concrete} (hrun : Run.run Concrete.step Concrete.init acts = .ok x) : Concrete.Reaches x := by
  refine Run.reaches_of_agrees (fun y t act hyt hreach _ => hyt.step_of_reaches hreach act)
    (fun y t act hyt hcalm => ?_) Rep.initial .start .start hcalm hrun
  rw [hyt.rt]
  exact hcalm

theorem secondReady_trees : ∃ x, Run.run Concrete.step Concrete.init secondReady = .ok x ∧
    HoldsExactly (x.sleeping.tree 0) (fun u => (x.rt.ut u).wakeupTimeUsec) (fun u =>
      (x.rt.ut u).life = .live ∧ (x.rt.ut u).p = some 0 ∧
        ((x.rt.ut u).status.has .sleeping = true ∨ ∃ w, (x.rt.ut u).ctx = .sleep w .mark)) ∧
    ∀ act, x.step act ≠ .error .links := by
  obtain ⟨hmeets, s, hs, -⟩ := secondReady_run
  have hagree := agrees_run (fun y t act hyt hreach _ => hyt.step_of_reaches hreach act) Rep.initial .start hmeets
  rw [show Run.run step init secondReady = .ok s from hs] at hagree
  obtain ⟨x, hx, -⟩ := hagree.of_ok
  obtain ⟨hsleeping, -, -, hnone⟩ := concrete_trees (Concrete.Reaches.of_meets hmeets hx) 0
  exact ⟨x, hx, hsleeping, hnone⟩

end UthreadRuntime
