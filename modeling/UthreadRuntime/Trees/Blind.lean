import UthreadRuntime.Model.Machine

/-! Code that touches no tree and no ready queue.

`hang l s` is the state with other trees and queues. A function that runs the same whatever they
are, and puts none of them in its result, is `Blind`: taken with the state's own this says that it
leaves them alone, and taken with empty ones that it can do without. -/
namespace UthreadRuntime

open State

/-- The uthreads in the two trees and in the ready queue of a p. -/
@[ext] structure Members where
  sleeping : List UId := []
  waiting : List UId := []
  ready : List UId := []

def P.members (p : P) : Members := ⟨p.sleeping, p.waiting, p.ready⟩

def State.members (s : State) : PId → Members := fun q => (s.p q).members

/-- The trees and the queue of a p are replaced. -/
def P.hang (l : Members) (p : P) : P := {p with sleeping := l.sleeping, waiting := l.waiting, ready := l.ready}

def State.hang (l : PId → Members) (s : State) : State := {s with p := fun q => (s.p q).hang (l q)}

/-- The state without its trees and queues. -/
def State.bare (s : State) : State := s.hang fun _ => {}

theorem hang_members (s : State) : s.hang s.members = s := rfl

@[simp] theorem members_hang (l : PId → Members) (s : State) : (s.hang l).members = l := rfl

@[simp] theorem hang_hang (l l' : PId → Members) (s : State) : (s.hang l).hang l' = s.hang l' := rfl

@[simp] theorem hang_ut (l : PId → Members) (s : State) : (s.hang l).ut = s.ut := rfl

@[simp] theorem hang_sched (l : PId → Members) (s : State) : (s.hang l).sched = s.sched := rfl

@[simp] theorem hang_heap (l : PId → Members) (s : State) : (s.hang l).heap = s.heap := rfl

/-- An update of a p that is about something else goes through. -/
theorem hang_setP {g : P → P} (hg : ∀ l p, g (P.hang l p) = (g p).hang l) (l : PId → Members) (q : PId) (s : State) :
    (s.setP q g).hang l = (s.hang l).setP q g := by
  unfold State.hang State.setP
  congr 1
  funext r
  by_cases hr : r = q
  · subst hr
    simp [hg]
  · simp [hr]

/-- An update of what is replaced does not show. -/
theorem hang_setP_members {g : P → P} (hg : ∀ l p, (g p).hang l = P.hang l p) (l : PId → Members) (q : PId) (s : State) :
    (s.setP q g).hang l = s.hang l := by
  unfold State.hang State.setP
  congr 1
  funext r
  by_cases hr : r = q
  · subst hr
    simp [hg]
  · simp [hr]

/-- The function neither looks at the trees and queues nor changes them. -/
def Blind (f : State → Except Stop State) : Prop := ∀ l s, f (s.hang l) = (f s).map (State.hang l)

theorem Blind.members {f : State → Except Stop State} (h : Blind f) {s s' : State} (hs : f s = .ok s') :
    s'.members = s.members := by
  have hl := h s.members s
  rw [hang_members, hs] at hl
  rw [Except.ok.inj hl, members_hang]

theorem Blind.bare {f : State → Except Stop State} (h : Blind f) (s : State) :
    f s.bare = (f s).map State.bare := h _ s

section Push
variable (l : PId → Members) (a : SId) (u : UId) (q : PId) (site : Site) (s : State)

theorem hang_ite (c : Prop) [Decidable c] (t : State) :
    (if c then s else t).hang l = if c then s.hang l else t.hang l := apply_ite ..

theorem map_ite (c : Prop) [Decidable c] (x y : Except Stop State) :
    (if c then x else y).map (State.hang l) = if c then x.map (State.hang l) else y.map (State.hang l) :=
  apply_ite ..

@[simp] theorem hang_home : (s.hang l).home u site = s.home u site := rfl

@[simp] theorem hang_bound : (s.hang l).bound a site = s.bound a site := rfl

@[simp] theorem hang_interest : ((s.hang l).p q).interest = (s.p q).interest := rfl

end Push

/-! ### Parts of statements -/

section Parts
variable (l : PId → Members) (a : SId) (u : UId) (q : PId) (s : State)

theorem hang_uthreadResume (k : SchedAt) :
    (uthreadResume a u k s).hang l = uthreadResume a u k (s.hang l) := by
  unfold uthreadResume
  cases hnew : (s.ut u).status.has .new with
  | true => simp only [hang_ut, hnew, if_true]; rfl
  | false => simp only [hang_ut, hnew]; rfl

theorem blind_epollDel (fd : Int) (site : Site) (e : Assertion) : Blind (epollDel u fd site e) := by
  intro l s
  simp only [epollDel, hang_home]
  cases s.home u site with
  | error e => rfl
  | ok q =>
    simp only [bind, Except.bind, hang_interest]
    cases epollCtlDel fd (s.p q).interest with
    | none => rfl
    | some i => exact congrArg Except.ok (hang_setP (fun _ _ => rfl) l q s).symm

theorem blind_uthreadFree : Blind (uthreadFree u) := by
  intro l s
  simp only [uthreadFree, map_ite]
  refine if_congr Iff.rfl rfl ?_
  cases hd : (s.ut u).status.has .detached with
  | true => simp only [hang_ut, hd, if_true]; rfl
  | false => simp only [hang_ut, hd]; rfl

end Parts

/-! ### Statements -/

section Statements
variable (a : SId) (u : UId) (r : Reply)

theorem blind_schedSleepStmt (w : Wait) {pc : SleepAt} (hi : pc ≠ .insert) (hs : pc ≠ .switch) :
    Blind (schedSleepStmt a u w pc r) := by
  intro l s
  cases pc with
  | insert => exact absurd rfl hi
  | switch => exact absurd rfl hs
  | _ => rfl

theorem blind_registerStmt (c : IoCall) {pc : RegisterAt} (hi : pc ≠ .insert) :
    Blind (registerStmt a u c pc) := by
  intro l s
  cases pc with
  | insert => exact absurd rfl hi
  | ctl =>
    simp only [registerStmt, hang_bound]
    cases s.bound a .register with
    | error e => rfl
    | ok q =>
      simp only [bind, Except.bind, hang_interest]
      cases epollCtlAdd c.fd c.event (s.p q).interest with
      | none => rfl
      | some i =>
        have hset := hang_setP (g := fun v => {v with interest := i}) (fun _ _ => rfl) l q
          {s with consumed := Function.update s.consumed u false}
        exact congrArg (fun t => Except.ok (goto u (.register c .status) t)) hset.symm
  | _ => rfl

theorem blind_ioStmt (c : IoCall) (pc : IoAt) : Blind (ioStmt a u c pc r) := by
  intro l s
  cases pc with
  | head =>
    refine congrArg Except.ok ?_
    unfold ioHeadStmt
    cases c.kind <;> simp only [hang_ite] <;> rfl
  | fcntl =>
    simp only [ioStmt, map_ite]
    rfl
  | sys =>
    have herr := hang_ite l (setErrno a r.errno s) (r.ret = -1) s
    exact congrArg (fun t => Except.ok (goto u (.io c (.test r.ret)) t)) herr.symm
  | test ret =>
    refine congrArg Except.ok ?_
    unfold ioTestStmt
    cases c.kind <;> simp only [hang_ite] <;> rfl
  | retest ret =>
    refine congrArg Except.ok ?_
    simp only [ioRetestStmt, hang_ite]
    rfl
  | after =>
    refine congrArg Except.ok ?_
    unfold ioAfterStmt
    cases c.kind <;> simp only [hang_ite] <;> rfl

theorem hang_joinStmt (t : UId) (v : Option Addr) (pc : JoinAt) (l : PId → Members) (s : State) :
    joinStmt a u t v pc (s.hang l) = (joinStmt a u t v pc s).hang l := by
  cases pc <;> simp only [joinStmt, hang_ite] <;> rfl

theorem hang_storeRetval (v : Val) (l : PId → Members) (s : State) :
    storeRetval u v (s.hang l) = (storeRetval u v s).hang l := by
  simp only [storeRetval, hang_ite]
  refine if_congr Iff.rfl ?_ rfl
  dsimp only [hang_ut]
  cases (s.ut u).retval <;> rfl

theorem blind_exitStmt (v : Option Val) {pc : ExitAt} (hs : pc ≠ .switch) : Blind (exitStmt a u v pc) := by
  intro l s
  cases pc with
  | switch => exact absurd rfl hs
  | store =>
    exact congrArg (fun t => Except.ok (goto u (.exit v .yieldFlag) t)) (hang_storeRetval u (v.getD 0) l s)
  | _ => rfl

theorem blind_createStmt (c : SId) {pc : CreateAt} (hi : ∀ id p, pc ≠ .insert id p) :
    Blind (createStmt a u c pc r) := by
  intro l s
  cases pc with
  | insert id p => exact absurd rfl (hi id p)
  | lock =>
    simp only [createStmt, map_ite]
    rfl
  | stack id =>
    simp only [createStmt, map_ite]
    rfl
  | _ => rfl

theorem blind_diskFlagStmt (c : SId) : Blind (diskFlagStmt u c) := by
  intro l s
  simp only [diskFlagStmt, hang_sched]
  cases (s.sched c).curUthread <;> rfl

theorem hang_diskCallStmt (l : PId → Members) (s : State) :
    diskCallStmt a u r (s.hang l) = (diskCallStmt a u r s).hang l :=
  congrArg (returns a u r.ret) (hang_ite l (setErrno a r.errno s) (r.ret = -1) s).symm

/-- The contexts whose next statement may touch a tree or a queue. -/
def Ctx.touchesLinks : Ctx → Bool
  | .yieldSwitch | .sleep _ .insert | .sleep _ .switch | .register _ .insert | .exit _ .switch => true
  | .create _ (.insert _ _) | .diskHandOff _ => true
  | _ => false

/-- **No other statement does.** -/
theorem blind_uthreadStmt {s : State} (l : PId → Members) (hctx : (s.ut u).ctx.touchesLinks = false) :
    uthreadStmt a u r (s.hang l) = (uthreadStmt a u r s).map (State.hang l) := by
  unfold uthreadStmt
  dsimp only [hang_ut]
  cases h : (s.ut u).ctx with
  | yieldSwitch =>
    rw [h] at hctx
    cases hctx
  | sleep w pc =>
    rw [h] at hctx
    refine blind_schedSleepStmt a u r w ?_ ?_ l s
    · rintro rfl
      cases hctx
    · rintro rfl
      cases hctx
  | register c pc =>
    rw [h] at hctx
    refine blind_registerStmt a u c ?_ l s
    rintro rfl
    cases hctx
  | exit v pc =>
    rw [h] at hctx
    refine blind_exitStmt a u v ?_ l s
    rintro rfl
    cases hctx
  | io c pc => exact blind_ioStmt a u r c pc l s
  | join t v pc => exact congrArg Except.ok (hang_joinStmt a u t v pc l s)
  | create c pc =>
    rw [h] at hctx
    refine blind_createStmt a u r c ?_ l s
    rintro id p rfl
    cases hctx
  | createAlloc c =>
    simp only [map_ite]
    rfl
  | diskFlag c => exact blind_diskFlagStmt u c l s
  | diskHandOff c =>
    rw [h] at hctx
    cases hctx
  | diskCall => exact congrArg Except.ok (hang_diskCallStmt a u r l s)
  | _ => rfl

theorem blind_enter (c : Call) : Blind (enter a u c) := by
  intro l s
  cases c with
  | join t v =>
    simp only [enter, map_ite]
    rfl
  | finish =>
    simp only [enter, map_ite]
    rfl
  | detach t =>
    simp only [enter, map_ite]
    rfl
  | io c =>
    simp only [enter, map_ite]
    rfl
  | _ => rfl

theorem blind_call (c : Call) : Blind fun s => step s (.call a c) := by
  intro l s
  simp only [step, map_ite]
  refine if_congr Iff.rfl rfl ?_
  simp only [hang_sched]
  cases (s.sched a).curUthread with
  | none => rfl
  | some u =>
    simp only [map_ite]
    exact if_congr Iff.rfl (blind_enter a u c l s) rfl

end Statements

/-! ### The scheduler -/

/-- The places of the loop whose next step may touch a tree or a queue. -/
def SchedAt.touchesLinks : SchedAt → Bool
  | .top | .expiry | .lastReady | .ready _ | .poll | .events | .handleWr _ _ => true
  | _ => false

theorem blind_schedRun {a : SId} {s : State} (r : Reply) (l : PId → Members)
    (hpc : (s.sched a).pc.touchesLinks = false) :
    schedRun a r (s.hang l) = (schedRun a r s).map (State.hang l) := by
  unfold schedRun
  dsimp only [hang_sched, hang_bound]
  cases h : (s.sched a).pc with
  | off => rfl
  | another =>
    cases s.bound a .another with
    | error e => rfl
    | ok q =>
      have hset := hang_setP (g := fun v => {v with tid := a}) (fun _ _ => rfl) l q s
      exact congrArg (fun t => Except.ok (setPc a .top t)) hset.symm
  | readyAfter last u => cases (s.sched a).p <;> rfl
  | pollCheck => cases (s.sched a).p <;> rfl
  | done =>
    simp only [map_ite]
    rfl
  | top | expiry | lastReady | ready _ | poll | events | handleWr _ _ =>
    rw [h] at hpc
    cases hpc

end UthreadRuntime
