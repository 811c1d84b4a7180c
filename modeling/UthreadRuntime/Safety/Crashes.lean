import UthreadRuntime.Placement.Registrations
import UthreadRuntime.Safety.Expiry
import UthreadRuntime.Safety.HandOff
import UthreadRuntime.Safety.Sleepers

/-! When the process dies.

A statement that follows a NULL pointer, or whose assertion fails, ends the process with all its
uthreads. `Fails` lists, for each action and each fault, what must hold before the action for it
to end in that fault, and nothing else does: what has no line there never fails. A few lines are
about a wait that nobody has published properly; in a calm run these are down to one, a join
whose ten seconds are over. -/
namespace UthreadRuntime

open State Placement

section Errors

variable {α β : Type} {s : State} {u : UId} {a : SId} {site : Site} {f : Fault}

theorem bind_error {x : Except Stop α} {g : α → Except Stop β} {e : Stop} :
    x >>= g = .error e ↔ x = .error e ∨ ∃ y, x = .ok y ∧ g y = .error e := by
  cases x with
  | error e' =>
    constructor
    · intro h
      cases h
      exact .inl rfl
    · rintro (h | ⟨y, h, -⟩)
      · cases h
        rfl
      · cases h
  | ok y =>
    constructor
    · exact fun h => .inr ⟨y, rfl, h⟩
    · rintro (h | ⟨z, h, hg⟩)
      · cases h
      · cases h
        exact hg

theorem bound_error {e : Stop} :
    s.bound a site = .error e ↔ (s.sched a).p = none ∧ e = .fault (.nullP site) := by
  unfold State.bound
  cases (s.sched a).p with
  | none => simp [eq_comm]
  | some q => simp

/-- A statement that first follows the p of its sched. -/
theorem bound_bind_error {g : PId → Except Stop β} {e : Stop} : s.bound a site >>= g = .error e ↔
    ((s.sched a).p = none ∧ e = .fault (.nullP site)) ∨ ∃ q, (s.sched a).p = some q ∧ g q = .error e := by
  rw [bind_error, bound_error]
  refine or_congr Iff.rfl (exists_congr fun q => and_congr_left fun _ => ?_)
  exact ⟨bound_ok, bound_of_some⟩

end Errors

/-! ### Giving the CPU back -/

section Switch

variable {s : State} {a : SId} {u : UId} {f : Fault}

theorem wakeJoined_succeeds (hj : ∀ j, (s.ut u).utJoined = some j → (s.ut j).p = some 0) :
    ∃ s', wakeJoined u s = .ok s' := by
  unfold wakeJoined
  split
  · exact ⟨s, rfl⟩
  · rename_i j hjoined
    obtain ⟨s₁, hs₁⟩ := uthreadDeschedSleep_succeeds (hj j hjoined)
    have hp : (s₁.ut j).p = some 0 := (uthreadDeschedSleep_p hs₁).trans (hj j hjoined)
    rw [hs₁]
    dsimp only [bind, Except.bind]
    rw [home_of_some hp]
    exact ⟨_, rfl⟩

theorem uthreadFree_no_fault : uthreadFree u s ≠ .error (.fault f) := by
  unfold uthreadFree
  split <;> simp

theorem uthreadSwitched_fault (hj : ∀ j, (s.ut u).utJoined = some j → (s.ut j).p = some 0) :
    uthreadSwitched a u s = .error (.fault f) ↔
      (s.sched a).p = none ∧ (s.ut u).Plain ∧ f = .nullP .resumeReady := by
  have hbound : ((idleCpu a s).sched a).p = (s.sched a).p := by simp [idleCpu]
  unfold Uthread.Plain uthreadSwitched
  show (if (s.ut u).status.has .exited then wakeJoined u (idleCpu a s) >>= fun s => uthreadFree u s
    else if (s.ut u).status.has .sleeping then .ok (idleCpu a s)
    else (idleCpu a s).bound a .resumeReady >>= fun q => .ok (insertReady q u (idleCpu a s))) = _ ↔ _
  split
  · rename_i he
    obtain ⟨s₁, hs₁⟩ := wakeJoined_succeeds (s := idleCpu a s) hj
    rw [hs₁, he]
    constructor
    · exact fun hf => absurd hf uthreadFree_no_fault
    · rintro ⟨-, ⟨hne, -⟩, -⟩
      cases hne
  · rename_i he
    split
    · rename_i hsl
      rw [hsl]
      simp
    · rename_i hsl
      rw [bound_bind_error, hbound]
      simp [he, hsl]

/-- The same, after a change that no test of the switch looks at. -/
theorem uthreadSwitched_setUt_fault (h : Sound s) (hu : u < s.heap) {g : Uthread → Uthread}
    (hstatus : (g (s.ut u)).status = (s.ut u).status) (hjoined : (g (s.ut u)).utJoined = (s.ut u).utJoined)
    (hp : (g (s.ut u)).p = (s.ut u).p) :
    uthreadSwitched a u (s.setUt u g) = .error (.fault f) ↔
      (s.sched a).p = none ∧ (s.ut u).Plain ∧ f = .nullP .resumeReady := by
  have hj : ∀ j, ((s.setUt u g).ut u).utJoined = some j → ((s.setUt u g).ut j).p = some 0 := by
    intro j hj
    rw [setUt_ut_self, hjoined] at hj
    rw [setUt_ut]
    split
    · rw [hp]
      exact (h.ut u hu).home
    · exact (h.ut j ((h.ut u hu).joined j hj)).home
  rw [uthreadSwitched_fault hj]
  unfold Uthread.Plain
  rw [setUt_ut_self, hstatus]
  rfl

end Switch

/-! ### Library code -/

/-- The faults that the next statement of `u` ends in, by where it stands. -/
inductive StmtFails (s : State) (a : SId) (u : UId) (r : Reply) : Ctx → Fault → Prop where
  | switch {k k' : Ctx} : Switches k k' → (s.sched a).p = none → (s.ut u).Plain →
      StmtFails s a u r k (.nullP .resumeReady)
  | unbound {c : IoCall} : (s.sched a).p = none → StmtFails s a u r (.register c .ctl) (.nullP .register)
  | watched {c : IoCall} {q : PId} : (s.sched a).p = some q →
      c.fd < 0 ∨ c.fd ∈ (s.p q).interest.map Interest.fd →
      StmtFails s a u r (.register c .ctl) (.assertion .registerAdd)
  | sameInstant {w : Wait} {q : PId} {v : UId} : (s.ut u).p = some q → v ∈ (s.p q).sleeping →
      (s.ut v).wakeupTimeUsec = (s.ut u).wakeupTimeUsec →
      StmtFails s a u r (.sleep w .insert) (.assertion .sleepInsert)
  | fcntl {c : IoCall} : r.ok = false → StmtFails s a u r (.io c .fcntl) (.assertion .fcntl)
  | create {c : SId} {id : Nat} {p : Option PId} : (s.sched c).p = none →
      StmtFails s a u r (.create c (.insert id p)) (.nullP .create)
  | noCur {c : SId} : (s.sched c).curUthread = none → StmtFails s a u r (.diskFlag c) .nullCur
  | noSched {c : SId} : handsOff c s = true → s.schedIdle = [] → StmtFails s a u r (.diskHandOff c) .nullSched
  | noThread {c : SId} : handsOff c s = true → s.schedIdle ≠ [] → r.ok = false →
      StmtFails s a u r (.diskHandOff c) (.assertion .threadCreate)

/-- The statements that can fail. -/
def Ctx.mayFail : Ctx → Bool
  | .yieldSwitch | .sleep _ .switch | .exit _ .switch => true
  | .register _ .ctl | .sleep _ .insert | .io _ .fcntl | .create _ (.insert _ _) => true
  | .diskFlag _ | .diskHandOff _ => true
  | _ => false

section Statements

variable {s : State} {a : SId} {u : UId} {r : Reply} {f : Fault}

theorem StmtFails.mayFail {k : Ctx} (h : StmtFails s a u r k f) : k.mayFail = true := by
  cases h with
  | switch hk _ _ => cases hk <;> rfl
  | _ => rfl

/-- A statement that ends in no fault, where none is listed. -/
theorem fault_iff_of_safe {k : Ctx} {x : Except Stop State} (hk : k.mayFail = false)
    (hx : x ≠ .error (.fault f)) : x = .error (.fault f) ↔ StmtFails s a u r k f := by
  refine iff_of_false hx fun hf => ?_
  rw [hf.mayFail] at hk
  cases hk

/-- A switch of library code, to a sched that may have lost its p. -/
theorem switch_fault (h : Sound s) (hu : u < s.heap) {k k' : Ctx} (hk : Switches k k') :
    uthreadSwitched a u (goto u k' s) = .error (.fault f) ↔ StmtFails s a u r k f := by
  unfold goto
  rw [uthreadSwitched_setUt_fault h hu rfl rfl rfl]
  constructor
  · rintro ⟨hn, hp, rfl⟩
    exact .switch hk hn hp
  · intro hf
    cases hf with
    | switch _ hn hp => exact ⟨hn, hp, rfl⟩
    | _ => cases hk

theorem registerStmt_fault (h : Sound s) (hu : u < s.heap) {c : IoCall} {pc : RegisterAt} :
    registerStmt a u c pc s = .error (.fault f) ↔ StmtFails s a u r (.register c pc) f := by
  cases pc with
  | ctl =>
    unfold registerStmt
    dsimp only
    rw [bound_bind_error]
    constructor
    · rintro (⟨hn, he⟩ | ⟨q, hq, he⟩)
      · cases he
        exact .unbound hn
      · unfold epollCtlAdd at he
        split at he
        · rename_i hl
          split at hl
          · rename_i hfd
            cases he
            exact .watched hq hfd
          · cases hl
        · cases he
    · intro hf
      cases hf with
      | unbound hn => exact .inl ⟨hn, rfl⟩
      | @watched _ q hq hfd =>
        refine .inr ⟨q, hq, ?_⟩
        unfold epollCtlAdd
        rw [if_pos hfd]
      | switch hk _ _ => cases hk
  | insert =>
    unfold registerStmt
    dsimp only
    rw [home_of_some (h.ut u hu).home]
    exact fault_iff_of_safe rfl (by rintro ⟨⟩)
  | _ => exact fault_iff_of_safe rfl (by rintro ⟨⟩)

theorem schedSleepStmt_fault (h : Sound s) (hu : u < s.heap) {w : Wait} {pc : SleepAt} :
    schedSleepStmt a u w pc r s = .error (.fault f) ↔ StmtFails s a u r (.sleep w pc) f := by
  have hhome := (h.ut u hu).home
  cases pc with
  | insert =>
    unfold schedSleepStmt
    dsimp only
    rw [home_of_some hhome]
    dsimp only [bind, Except.bind]
    constructor
    · intro he
      split at he
      · rename_i hins
        cases he
        obtain ⟨v, hv, heq⟩ := Tree.insert_eq_none hins
        exact .sameInstant hhome hv heq
      · cases he
    · intro hf
      cases hf with
      | @sameInstant _ q v hq hv heq =>
        rw [hhome] at hq
        cases hq
        cases hins : insertSleeping s u (s.p 0).sleeping with
        | none => rfl
        | some t => exact absurd heq ((Tree.insert_eq_some hins).2 v hv)
      | switch hk _ _ => cases hk
  | switch => exact switch_fault h hu (.sleep w)
  | _ => exact fault_iff_of_safe rfl (by rintro ⟨⟩)

theorem createStmt_fault {c : SId} {pc : CreateAt} :
    createStmt a u c pc r s = .error (.fault f) ↔ StmtFails s a u r (.create c pc) f := by
  cases pc with
  | insert id p =>
    unfold createStmt
    dsimp only
    rw [bound_bind_error]
    constructor
    · rintro (⟨hn, he⟩ | ⟨q, -, he⟩)
      · cases he
        exact .create hn
      · cases he
    · intro hf
      cases hf with
      | create hn => exact .inl ⟨hn, rfl⟩
      | switch hk _ _ => cases hk
  | lock =>
    refine fault_iff_of_safe rfl ?_
    unfold createStmt
    dsimp only
    split <;> simp
  | stack id =>
    refine fault_iff_of_safe rfl ?_
    unfold createStmt
    dsimp only
    split <;> simp
  | _ => exact fault_iff_of_safe rfl (by rintro ⟨⟩)

theorem diskFlagStmt_fault {c : SId} :
    diskFlagStmt u c s = .error (.fault f) ↔ StmtFails s a u r (.diskFlag c) f := by
  unfold diskFlagStmt
  cases hc : (s.sched c).curUthread with
  | none =>
    constructor
    · rintro ⟨⟩
      exact .noCur hc
    · intro hf
      cases hf with
      | noCur _ => rfl
      | switch hk _ _ => cases hk
  | some v =>
    constructor
    · rintro ⟨⟩
    · intro hf
      cases hf with
      | noCur hn =>
        rw [hc] at hn
        cases hn
      | switch hk _ _ => cases hk

/-- The hand-off fails only once its test has passed. -/
theorem diskHandOffStmt_fault {c : SId} :
    diskHandOffStmt u c r s = .error (.fault f) ↔ StmtFails s a u r (.diskHandOff c) f := by
  by_cases hh : handsOff c s = true
  · obtain ⟨q, hq, hr⟩ := handsOff_iff.mp hh
    have hne : (s.p q).ready.isEmpty = false := by simpa using hr
    unfold diskHandOffStmt
    rw [hq]
    dsimp only
    rw [hne, if_neg (by simp)]
    cases hidle : s.schedIdle with
    | nil =>
      constructor
      · rintro ⟨⟩
        exact .noSched hh hidle
      · intro hf
        cases hf with
        | noSched _ _ => rfl
        | noThread _ hn _ => exact absurd hidle hn
        | switch hk _ _ => cases hk
    | cons n rest =>
      have hcons : s.schedIdle ≠ [] := by
        rw [hidle]
        simp
      dsimp only
      cases hok : r.ok with
      | true =>
        constructor
        · rintro ⟨⟩
        · intro hf
          cases hf with
          | noSched _ hn => exact absurd hn hcons
          | noThread _ _ hn =>
            rw [hok] at hn
            cases hn
          | switch hk _ _ => cases hk
      | false =>
        constructor
        · rintro ⟨⟩
          exact .noThread hh hcons hok
        · intro hf
          cases hf with
          | noSched _ hn => exact absurd hn hcons
          | noThread _ _ _ => rfl
          | switch hk _ _ => cases hk
  · have hsafe : diskHandOffStmt u c r s = .ok (goto u .diskCall s) := by
      unfold diskHandOffStmt
      unfold handsOff at hh
      split
      · rfl
      · rename_i q hq
        rw [hq] at hh
        rw [if_pos (by simpa using hh)]
    rw [hsafe]
    constructor
    · rintro ⟨⟩
    · intro hf
      cases hf with
      | noSched hn _ | noThread hn _ _ => exact absurd hn hh
      | switch hk _ _ => cases hk

/-- **The faults of library code are the listed ones.** -/
theorem uthreadStmt_fault (h : Sound s) (hu : u < s.heap) :
    uthreadStmt a u r s = .error (.fault f) ↔ StmtFails s a u r (s.ut u).ctx f := by
  have hok : ∀ {k : Ctx} (x : State), k.mayFail = false →
      ((.ok x : Except Stop State) = .error (.fault f) ↔ StmtFails s a u r k f) :=
    fun x hk => fault_iff_of_safe hk (by rintro ⟨⟩)
  unfold uthreadStmt
  cases hctx : (s.ut u).ctx with
  | user => exact fault_iff_of_safe rfl (by simp)
  | yieldFlag => exact hok _ rfl
  | yieldSwitch => exact switch_fault h hu .yield
  | sleep w pc => exact schedSleepStmt_fault h hu
  | register c pc => exact registerStmt_fault h hu
  | io c pc =>
    cases pc with
    | fcntl =>
      show ioStmt a u c .fcntl r s = _ ↔ _
      unfold ioStmt
      dsimp only
      split
      · rename_i hr
        constructor
        · rintro ⟨⟩
        · intro hf
          cases hf with
          | fcntl hn =>
            rw [hr] at hn
            cases hn
          | switch hk _ _ => cases hk
      · rename_i hr
        constructor
        · rintro ⟨⟩
          exact .fcntl (by simpa using hr)
        · intro hf
          cases hf with
          | fcntl _ => rfl
          | switch hk _ _ => cases hk
    | _ => exact hok _ rfl
  | join t v pc => exact hok _ rfl
  | exit v pc =>
    cases pc with
    | switch => exact switch_fault h hu (.exit v)
    | _ => exact hok _ rfl
  | createGet => exact hok _ rfl
  | createAlloc c =>
    dsimp only
    split <;> exact hok _ rfl
  | create c pc => exact createStmt_fault
  | diskGet => exact hok _ rfl
  | diskFlag c => exact diskFlagStmt_fault
  | diskHandOff c => exact diskHandOffStmt_fault
  | diskCall => exact hok _ rfl

theorem enter_no_fault {k : Call} : enter a u k s ≠ .error (.fault f) := by
  unfold enter
  cases k with
  | join t v => dsimp only; split <;> simp
  | finish => dsimp only; split <;> simp
  | detach t => dsimp only; split <;> simp
  | io c => dsimp only; split <;> simp
  | _ => simp

end Statements

/-! ### The scheduler loop -/

/-- Where the loop follows the p of its sched without a test. -/
def SchedAt.site : SchedAt → Option Site
  | .another => some .another
  | .lastReady => some .schedLastReady
  | .ready _ => some .schedReady
  | .poll => some .poll
  | .handleWr _ _ => some .deschedEvent
  | _ => none

/-- A uthread is linked under the event, and its descriptor is not watched. -/
def Stranded (s : State) (q : PId) (fd : Int) (e : UthreadEvent) : Prop :=
  (∃ u, findWaiting s (waitKey fd e) (s.p q).waiting = some u) ∧ fd ∉ (s.p q).interest.map Interest.fd

/-- The time of the least sleeper of `q` has come. -/
def DueFirst (s : State) (q : PId) (u : UId) (now : Nat) : Prop :=
  minSleeping s (s.p q).sleeping = some u ∧ (s.ut u).wakeupTimeUsec ≤ now

/-- The faults that the next step of the loop of `a` ends in. -/
inductive SchedFails (s : State) (a : SId) (r : Reply) : Fault → Prop where
  | unbound {site : Site} : (s.sched a).p = none → (s.sched a).pc.site = some site →
      SchedFails s a r (.nullP site)
  | unwatched {q : PId} {u : UId} : (s.sched a).pc = .expiry → (s.sched a).p = some q → DueFirst s q u r.now →
      ¬Watched s u → SchedFails s a r (.assertion .cancelDel)
  | pollFails {q : PId} : (s.sched a).pc = .poll → (s.sched a).p = some q →
      uthreadMinTimeout s (s.p q) r.now r.now2 ≠ 0 → (s.p q).ready = [] → r.ok = false →
      SchedFails s a r (.assertion .epollWait)
  | strandedRd {q : PId} {e : EpollEvent} : (s.sched a).pc = .events → (s.sched a).p = some q →
      (s.p q).numNewEvents ≠ 0 → (s.p q).eventlist[(s.p q).numNewEvents - 1]? = some e →
      Stranded s q e.fd .rd → SchedFails s a r (.assertion .eventDel)
  | strandedWr {q : PId} {fd : Int} {eof : Bool} : (s.sched a).pc = .handleWr fd eof →
      (s.sched a).p = some q → Stranded s q fd .wr → SchedFails s a r (.assertion .eventDel)

section Loop

variable {s : State} {a : SId} {u : UId} {q : PId} {r : Reply} {f : Fault}

theorem epollDel_fault {fd : Int} {site : Site} {e : Assertion} (hp : (s.ut u).p = some q) :
    epollDel u fd site e s = .error (.fault f) ↔
      fd ∉ (s.p q).interest.map Interest.fd ∧ f = .assertion e := by
  unfold epollDel epollCtlDel
  rw [home_of_some hp]
  dsimp only [bind, Except.bind]
  by_cases hfd : fd ∈ (s.p q).interest.map Interest.fd
  · rw [if_pos hfd]
    simp [hfd]
  · rw [if_neg hfd]
    simp [hfd, eq_comm]

theorem resumeExpired_succeeds (h : Sound s) (hu : u < s.heap) (hnew : (s.ut u).status.has .new = false)
    (hq : (s.sched a).p = some q) (hw : Watched s u) : ∃ s', resumeExpired a u s = .ok s' := by
  obtain ⟨s₁, hs₁⟩ := uthreadCancelEvent_succeeds h hu hnew hq hw
  obtain ⟨h₁, hheap, -⟩ := h.uthreadCancelEvent hu hnew hs₁
  obtain ⟨s₂, hs₂⟩ := uthreadDeschedSleep_succeeds (h₁.ut u (by rw [hheap]; exact hu)).home
  unfold resumeExpired
  rw [hs₁]
  dsimp only [bind, Except.bind]
  rw [hs₂]
  exact ⟨_, rfl⟩

theorem resumeExpired_fails (h : Sound s) (hu : u < s.heap) (hw : ¬Watched s u) :
    resumeExpired a u s = .error (.fault (.assertion .cancelDel)) := by
  have hhome := (h.ut u hu).home
  have hdel : epollDel u (fdOnly (s.ut u).fdWait) .cancelEvent .cancelDel
      (s.setUt u fun v => {v with status := clearWait v.status}) =
      .error (.fault (.assertion .cancelDel)) := by
    rw [epollDel_fault (q := 0) (by rw [setUt_ut_self]; exact hhome)]
    exact ⟨fun hin => hw ⟨0, hhome, hin⟩, rfl⟩
  unfold resumeExpired uthreadCancelEvent
  dsimp only
  rw [hdel]
  rfl

/-- The expiry of a wait fails exactly when its descriptor is not watched. -/
theorem resumeExpired_fault (h : Sound s) (hu : u < s.heap) (hnew : (s.ut u).status.has .new = false)
    (hq : (s.sched a).p = some q) :
    resumeExpired a u s = .error (.fault f) ↔ ¬Watched s u ∧ f = .assertion .cancelDel := by
  by_cases hw : Watched s u
  · obtain ⟨s', hs'⟩ := resumeExpired_succeeds h hu hnew hq hw
    rw [hs']
    simp [hw]
  · rw [resumeExpired_fails h hu hw]
    simp [hw, eq_comm]

theorem uthreadResumeExpired_fault (h : Sound s) (hpc : (s.sched a).pc = .expiry) :
    uthreadResumeExpired a r s = .error (.fault f) ↔ SchedFails s a r f := by
  have hother : ∀ {P : Prop}, SchedFails s a r f →
      (∀ q u, (s.sched a).p = some q → DueFirst s q u r.now → ¬Watched s u → f = .assertion .cancelDel → P) →
      P := by
    intro P hf hP
    cases hf with
    | unbound _ hsite => rw [hpc] at hsite; cases hsite
    | unwatched _ hq hdue hw => exact hP _ _ hq hdue hw rfl
    | pollFails hp _ _ _ _ | strandedRd hp _ _ _ _ | strandedWr hp _ _ => rw [hpc] at hp; cases hp
  unfold uthreadResumeExpired
  cases hq : (s.sched a).p with
  | none =>
    refine iff_of_false (by simp) fun hf => hother hf fun q u hq' _ _ _ => ?_
    rw [hq] at hq'
    cases hq'
  | some q =>
    dsimp only
    cases hmin : minSleeping s (s.p q).sleeping with
    | none =>
      refine iff_of_false (by simp) fun hf => hother hf fun q' u hq' hdue _ _ => ?_
      rw [hq] at hq'
      cases hq'
      rw [hdue.1] at hmin
      cases hmin
    | some u =>
      dsimp only
      split
      · rename_i hle
        obtain ⟨hu, hnew⟩ := h.sleeping (Tree.min_mem hmin)
        rw [resumeExpired_fault h hu hnew hq]
        constructor
        · rintro ⟨hw, rfl⟩
          exact .unwatched hpc hq ⟨hmin, hle⟩ hw
        · refine fun hf => hother hf fun q' v hq' hdue hw he => ?_
          rw [hq] at hq'
          cases hq'
          rw [hdue.1] at hmin
          cases hmin
          exact ⟨hw, he⟩
      · rename_i hle
        refine iff_of_false (by simp) fun hf => hother hf fun q' v hq' hdue _ _ => ?_
        rw [hq] at hq'
        cases hq'
        rw [hdue.1] at hmin
        cases hmin
        exact hle hdue.2

/-- Who is found under an event has the descriptor that was looked for. -/
theorem handleEvent_fault (h : Sound s) (hq : (s.sched a).p = some q) {fd : Int} {ev : UthreadEvent}
    {isEof : Bool} {k : SchedAt} : handleEvent a fd ev isEof k s = .error (.fault f) ↔
      Stranded s q fd ev ∧ f = .assertion .eventDel := by
  obtain ⟨found, s₁, hd⟩ := uthreadDeschedEvent_succeeds h hq fd ev.toNat
  obtain ⟨q', hq', hfind, hcase⟩ := uthreadDeschedEvent_ok hd
  rw [hq] at hq'
  cases hq'
  unfold handleEvent Stranded
  rw [hd]
  dsimp only [bind, Except.bind]
  rcases hcase with ⟨rfl, rfl⟩ | ⟨u, rfl, hsl⟩
  · refine iff_of_false (by simp) ?_
    rintro ⟨⟨⟨u, hu⟩, -⟩, -⟩
    rw [hfind] at hu
    cases hu
  · have hkey : (s₁.ut u).fdWait = waitKey fd ev := by
      have hsame : (s₁.ut u).fdWait = (s.ut u).fdWait := by
        rcases uthreadDeschedSleep_ok hsl with ⟨-, rfl⟩ | ⟨-, q, -, rfl⟩
        · rfl
        · exact setUt_keeps Uthread.fdWait rfl u
      rw [hsame]
      exact (Tree.find_eq_some hfind).2
    have hp : (s₁.ut u).p = some q := by
      have hone := h.one hq
      rw [hone]
      exact deschedEvent_found_p h hd
    dsimp only
    rw [hkey, fdOnly_waitKey, if_pos rfl]
    have hhome : ((s₁.setUt u fun v => {v with status := clearWait v.status}).ut u).p = some q := by
      rw [setUt_ut_self]
      exact hp
    have hdel := @epollDel_fault _ _ q f fd .handleEvent .eventDel hhome
    rw [setUt_p, SameInterest.deschedEvent hd q] at hdel
    constructor
    · intro he
      rcases bind_error.mp he with he | ⟨s₂, -, he⟩
      · exact ⟨⟨⟨u, hfind⟩, (hdel.mp he).1⟩, (hdel.mp he).2⟩
      · cases he
    · rintro ⟨⟨-, hfd⟩, hf⟩
      exact bind_error.mpr (.inl (hdel.mpr ⟨hfd, hf⟩))

theorem uthreadPoll_fault (hpc : (s.sched a).pc = .poll) :
    uthreadPoll a r s = .error (.fault f) ↔ SchedFails s a r f := by
  unfold uthreadPoll
  rw [bound_bind_error]
  constructor
  · rintro (⟨hn, he⟩ | ⟨q, hq, he⟩)
    · cases he
      exact .unbound hn (by rw [hpc]; rfl)
    · dsimp only at he
      rw [setP_p_self] at he
      split at he
      · rename_i ht
        split at he
        · split at he <;> simp at he
        · rename_i hr
          cases he
          exact .pollFails hpc hq ht.1 (by simpa using ht.2) (by simpa using hr)
      · cases he
  · intro hf
    cases hf with
    | unbound hn hsite =>
      rw [hpc] at hsite
      cases hsite
      exact .inl ⟨hn, rfl⟩
    | @pollFails q _ hq ht hready hr =>
      refine .inr ⟨q, hq, ?_⟩
      dsimp only
      rw [setP_p_self, if_pos ⟨ht, by simp [hready]⟩, hr]
      rfl
    | unwatched hp _ _ _ | strandedRd hp _ _ _ _ | strandedWr hp _ _ =>
      rw [hpc] at hp
      cases hp

/-- The loop has taken the event and looks for who waits to read. -/
theorem takeEvent_fault (h : Sound s) (hq : (s.sched a).p = some q) :
    takeEvent a q s = .error (.fault f) ↔
      ∃ e, (s.p q).eventlist[(s.p q).numNewEvents - 1]? = some e ∧ Stranded s q e.fd .rd ∧
        f = .assertion .eventDel := by
  unfold takeEvent
  dsimp only
  cases he : (s.p q).eventlist[(s.p q).numNewEvents - 1]? with
  | none =>
    refine iff_of_false (by simp) ?_
    rintro ⟨e, hn, -⟩
    cases hn
  | some e =>
    show handleEvent a e.fd .rd e.hup (.handleWr e.fd e.hup) (tookEvent a q e s) = _ ↔ _
    have ht := (h.tookEvent (h.busy_of_p hq) q e).1
    have hqt : ((tookEvent a q e s).sched a).p = some q := ((tookEvent_local a q e s).bound a).trans hq
    have hstranded : Stranded (tookEvent a q e s) q e.fd .rd ↔ Stranded s q e.fd .rd := by
      unfold Stranded findWaiting
      rw [tookEvent_ut, tookEvent_p, if_pos rfl]
    rw [handleEvent_fault ht hqt, hstranded]
    constructor
    · exact fun hf => ⟨e, rfl, hf⟩
    · rintro ⟨e', he', hf⟩
      cases he'
      exact hf

/-- A turn of the loop that only follows the p. -/
theorem follows_fault {site : Site} {g : PId → Except Stop State} (hsite : (s.sched a).pc.site = some site)
    (hpc : (s.sched a).pc ≠ .poll ∧ ∀ fd eof, (s.sched a).pc ≠ .handleWr fd eof)
    (hg : ∀ q, g q ≠ .error (.fault f)) :
    s.bound a site >>= g = .error (.fault f) ↔ SchedFails s a r f := by
  rw [bound_bind_error]
  constructor
  · rintro (⟨hn, he⟩ | ⟨q, -, he⟩)
    · cases he
      exact .unbound hn hsite
    · exact absurd he (hg q)
  · intro hf
    cases hf with
    | unbound hn hs =>
      rw [hsite] at hs
      cases hs
      exact .inl ⟨hn, rfl⟩
    | pollFails hp _ _ _ _ => exact absurd hp hpc.1
    | strandedWr hp _ _ => exact absurd hp (hpc.2 _ _)
    | unwatched hp _ _ _ | strandedRd hp _ _ _ _ =>
      rw [hp] at hsite
      cases hsite

/-- A turn of the loop that cannot fail. -/
theorem turn_fault {x : Except Stop State} (hx : x ≠ .error (.fault f)) (hsite : (s.sched a).pc.site = none)
    (hpc : (s.sched a).pc ≠ .expiry ∧ (s.sched a).pc ≠ .events) : x = .error (.fault f) ↔ SchedFails s a r f := by
  refine iff_of_false hx fun hf => ?_
  cases hf with
  | unbound _ hs =>
    rw [hsite] at hs
    cases hs
  | unwatched hp _ _ _ => exact hpc.1 hp
  | strandedRd hp _ _ _ _ => exact hpc.2 hp
  | pollFails hp _ _ _ _ | strandedWr hp _ _ =>
    rw [hp] at hsite
    cases hsite

/-- **The faults of the loop are the listed ones.** -/
theorem schedRun_fault (h : Sound s) : schedRun a r s = .error (.fault f) ↔ SchedFails s a r f := by
  unfold schedRun
  cases hpc : (s.sched a).pc with
  | off => exact turn_fault (by simp) (by rw [hpc]; rfl) (by simp [hpc])
  | another => exact follows_fault (by rw [hpc]; rfl) (by simp [hpc]) fun q => by simp
  | top =>
    refine turn_fault ?_ (by rw [hpc]; rfl) (by simp [hpc])
    dsimp only
    split <;> simp
  | expiry => exact uthreadResumeExpired_fault h hpc
  | lastReady => exact follows_fault (by rw [hpc]; rfl) (by simp [hpc]) fun q => by simp
  | ready last =>
    refine follows_fault (by rw [hpc]; rfl) (by simp [hpc]) fun q => ?_
    split <;> simp
  | readyAfter last u =>
    refine turn_fault ?_ (by rw [hpc]; rfl) (by simp [hpc])
    dsimp only
    split <;> simp
  | pollCheck =>
    refine turn_fault ?_ (by rw [hpc]; rfl) (by simp [hpc])
    dsimp only
    split <;> simp
  | poll => exact uthreadPoll_fault hpc
  | events =>
    have hother : ∀ {P : Prop}, SchedFails s a r f → (∀ q e, (s.sched a).p = some q →
        (s.p q).numNewEvents ≠ 0 → (s.p q).eventlist[(s.p q).numNewEvents - 1]? = some e →
        Stranded s q e.fd .rd → f = .assertion .eventDel → P) → P := by
      intro P hf hP
      cases hf with
      | unbound _ hsite => rw [hpc] at hsite; cases hsite
      | strandedRd _ hq hn he hst => exact hP _ _ hq hn he hst rfl
      | unwatched hp _ _ _ | pollFails hp _ _ _ _ | strandedWr hp _ _ => rw [hpc] at hp; cases hp
    dsimp only
    cases hq : (s.sched a).p with
    | none =>
      refine iff_of_false (by simp) fun hf => hother hf fun q e hq' _ _ _ _ => ?_
      rw [hq] at hq'
      cases hq'
    | some q =>
      dsimp only
      split
      · rename_i hn
        refine iff_of_false (by simp) fun hf => hother hf fun q' e hq' hne _ _ _ => ?_
        rw [hq] at hq'
        cases hq'
        exact hne hn
      · rename_i hn
        rw [takeEvent_fault h hq]
        constructor
        · rintro ⟨e, he, hst, rfl⟩
          exact .strandedRd hpc hq hn he hst
        · refine fun hf => hother hf fun q' e hq' _ he hst hfault => ?_
          rw [hq] at hq'
          cases hq'
          exact ⟨e, he, hst, hfault⟩
  | handleWr fd eof =>
    dsimp only
    cases hq : (s.sched a).p with
    | none =>
      have hnull : handleEvent a fd .wr eof .events s = .error (.fault (.nullP .deschedEvent)) := by
        unfold handleEvent uthreadDeschedEvent State.bound
        rw [hq]
        rfl
      rw [hnull]
      constructor
      · rintro ⟨⟩
        exact .unbound hq (by rw [hpc]; rfl)
      · intro hf
        cases hf with
        | unbound _ hsite =>
          rw [hpc] at hsite
          cases hsite
          rfl
        | strandedWr _ hq' _ =>
          rw [hq] at hq'
          cases hq'
        | unwatched hp _ _ _ | pollFails hp _ _ _ _ | strandedRd hp _ _ _ _ =>
          rw [hpc] at hp
          cases hp
    | some q =>
      rw [handleEvent_fault h hq]
      constructor
      · rintro ⟨hst, rfl⟩
        exact .strandedWr hpc hq hst
      · intro hf
        cases hf with
        | strandedWr hp hq' hst =>
          rw [hpc] at hp
          cases hp
          rw [hq] at hq'
          cases hq'
          exact ⟨hst, rfl⟩
        | unbound hn _ =>
          rw [hq] at hn
          cases hn
        | unwatched hp _ _ _ | pollFails hp _ _ _ _ | strandedRd hp _ _ _ _ =>
          rw [hpc] at hp
          cases hp
  | done =>
    refine turn_fault ?_ (by rw [hpc]; rfl) (by simp [hpc])
    dsimp only
    split
    · split <;> simp
    · simp

end Loop

/-! ### Every action -/

/-- The faults that an action ends in, by those of the loop. -/
def Fails (loop : SId → Reply → Fault → Prop) (s : State) : Act → Fault → Prop
  | .call _ _, _ => False
  | .stmt a r, f => ∃ u, (s.sched a).curUthread = some u ∧ StmtFails s a u r (s.ut u).ctx f
  | .preempt a, f => ∃ u, (s.sched a).curUthread = some u ∧ (s.ut u).isWatingYieldSignal = true ∧
      (s.sched a).p = none ∧ (s.ut u).Plain ∧ f = .nullP .resumeReady
  | .sched a r, f => (s.sched a).curUthread = none ∧ loop a r f

/-- An action ends the process by fault `f`: the program goes on and the action fails, or
`free_source()` has been called and the loop of the first sched goes on. -/
def Dies (loop : SId → Reply → Fault → Prop) (s : State) (act : Act) (f : Fault) : Prop :=
  (s.halted = false ∧ Fails loop s act f) ∨
    (s.halted = true ∧ (∃ r, act = .sched 0 r) ∧ f = .freedStack)

theorem stepHalted_fault {act : Act} {f : Fault} :
    stepHalted act = .error (.fault f) ↔ (∃ r, act = .sched 0 r) ∧ f = .freedStack := by
  unfold stepHalted
  split
  · simp [eq_comm]
  · rename_i hact
    refine iff_of_false (by simp) ?_
    rintro ⟨⟨r, rfl⟩, -⟩
    exact hact r rfl

theorem Sound.step_fault {s : State} (h : Sound s) (act : Act) (f : Fault) :
    step s act = .error (.fault f) ↔ Dies (SchedFails s) s act f := by
  unfold step Dies
  cases hhalt : s.halted with
  | true =>
    rw [if_pos rfl, stepHalted_fault]
    simp
  | false =>
    simp only [Bool.false_eq_true, if_false, true_and, false_and, or_false]
    cases act with
    | call a c =>
      refine iff_of_false ?_ id
      dsimp only
      split
      · simp
      · split
        · exact enter_no_fault
        · simp
    | stmt a r =>
      unfold Fails
      dsimp only
      cases hc : (s.sched a).curUthread with
      | none => simp
      | some u =>
        dsimp only
        rw [uthreadStmt_fault h (h.cur hc).1]
        simp
    | preempt a =>
      unfold Fails
      dsimp only
      cases hc : (s.sched a).curUthread with
      | none => simp
      | some u =>
        dsimp only
        cases hflag : (s.ut u).isWatingYieldSignal with
        | false => simp [hflag]
        | true =>
          rw [if_pos rfl]
          unfold handler
          rw [uthreadSwitched_setUt_fault h (h.cur hc).1 rfl rfl rfl]
          simp [hflag]
    | sched a r =>
      unfold Fails
      dsimp only
      cases hc : (s.sched a).curUthread with
      | none =>
        dsimp only
        rw [schedRun_fault h]
        simp
      | some u => simp

/-- **A step of a calm run dies exactly of the listed causes**, each under its own fault. The
assertion that an event's uthread waits for its descriptor is not among them. -/
theorem step_fails_iff {s : State} (h : Reaches Calm s) (act : Act) (f : Fault) :
    step s act = .error (.fault f) ↔ Dies (SchedFails s) s act f :=
  (Sound.of_reaches h).step_fault act f

/-- The second reader of a microsecond that is taken already, up to the link. -/
def sameInstant : List Act := joinThenRead ++ [.stmt 0 {now := 9000000}]

theorem sameInstant_dies : ∃ s, Reaches Calm s ∧ (s.p 0).sleeping = [0] ∧
    (s.ut 0).wakeupTimeUsec = (s.ut 1).wakeupTimeUsec ∧
    step s (.stmt 0 {}) = .error (.fault (.assertion .sleepInsert)) := by
  have hread : (Run.checked step atomicCheck init sameInstant).map (fun s =>
      decide (s.halted = false ∧ (s.sched 0).curUthread = some 1 ∧
        (s.ut 1).ctx = .sleep (.event ⟨.read, 5, 1, 0⟩) .insert ∧ (s.p 0).sleeping = [0] ∧
        (s.ut 1).p = some 0 ∧ (s.ut 0).wakeupTimeUsec = (s.ut 1).wakeupTimeUsec)) = some true := by
    decide +kernel
  obtain ⟨s, hs, hread⟩ := Option.map_eq_some_iff.mp hread
  obtain ⟨h1, h2, h3, h4, h5, h6⟩ := of_decide_eq_true hread
  have hreach : Reaches Calm s := calm_of_check hs
  refine ⟨s, hreach, h4, h6, (step_fails_iff hreach _ _).mpr (.inl ⟨h1, 1, h2, ?_⟩)⟩
  rw [h3]
  exact .sameInstant (v := 0) h5 (by rw [h4]; exact List.mem_singleton_self 0) h6

/-! ### Calm runs -/

section Calm

variable {s : State} {a : SId} {u : UId} {q : PId} {r : Reply} {f : Fault}

/-- The modes of who is in the sleeping tree are those of a sleep. -/
theorem Ctx.sleep_of_linked {k : Ctx} {g : Goal}
    (h : k.mode = .linked g ∨ k.mode = .parking g ∨ k.mode = .parked g) :
    ∃ w pc, k = .sleep w pc ∧ w.goal = g := by
  cases k with
  | sleep w pc =>
    refine ⟨w, pc, rfl, ?_⟩
    cases pc <;> simp_all [Ctx.mode]
  | join t v pc => cases pc <;> simp [Ctx.mode] at h
  | register c pc => cases pc <;> simp [Ctx.mode] at h
  | exit v pc => cases pc <;> simp [Ctx.mode] at h
  | _ => simp [Ctx.mode] at h

/-- A sleeper has no descriptor to drop exactly when it sleeps in a join. -/
theorem MirrorInv.not_watched_iff (h : MirrorInv s) (hu : u ∈ (s.p q).sleeping) :
    ¬Watched s u ↔ ∃ t v pc, (s.ut u).ctx = .sleep (.join t v) pc := by
  obtain ⟨hl, hp, htree⟩ := h.inv.sleeping_iff.mp (show s.board.sleeping q u from hu)
  have hlt := (h.sound.sleeping hu).1
  constructor
  · intro hw
    have hmode : ∃ g, (s.board.task u).WaitsFor g ∧ ((s.ut u).ctx.mode = .linked g ∨
        (s.ut u).ctx.mode = .parking g ∨ (s.ut u).ctx.mode = .parked g) := by
      rcases htree with ha | ⟨g, hg⟩
      · obtain ⟨g, hg, -⟩ := (h.inv.wf hl).of_asleep ha
        exact ⟨g, .inr (.inr ⟨ha, hg⟩), .inr hg⟩
      · exact ⟨g, .inr (.inl hg), .inl hg⟩
    obtain ⟨g, hg, hm⟩ := hmode
    obtain ⟨w, pc, hctx, rfl⟩ := Ctx.sleep_of_linked hm
    cases w with
    | join t v => exact ⟨t, v, pc, hctx⟩
    | event c =>
      have hkey : (s.ut u).fdWait = waitKey c.fd c.event := (hg.key_eq (h.inv.wf hl)).1
      refine absurd ⟨q, hp, ?_⟩ hw
      rw [hkey, fdOnly_waitKey]
      exact h.cover.watched hl hp (.inr ⟨c.event, hg⟩)
  · rintro ⟨t, v, pc, hctx⟩
    exact h.sound.not_watched_of_join hlt hctx

end Calm

theorem Dies.congr {s : State} {loop loop' : SId → Reply → Fault → Prop}
    (h : ∀ a r f, loop a r f ↔ loop' a r f) (act : Act) (f : Fault) :
    Dies loop s act f ↔ Dies loop' s act f := by
  refine or_congr_left (and_congr_right fun _ => ?_)
  cases act with
  | sched a r => exact and_congr_right fun _ => h a r f
  | _ => exact Iff.rfl

end UthreadRuntime
