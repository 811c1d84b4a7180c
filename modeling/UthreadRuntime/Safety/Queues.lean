import UthreadRuntime.Safety.Events
import UthreadRuntime.Support.Fifo

/-! The ready phase.

The loop of `_sched_run` over the ready queue remembers the last uthread of the queue and
stops once it has run that one. The uthreads it resumes put themselves, their joiners and the
uthreads they create at the tail, so a phase runs the uthreads that were queued when it
started, in their order, and leaves what was added. -/
namespace UthreadRuntime

open State Fifo

section Grows

variable {s s' : State} {a : SId} {u : UId} (q : PId)

theorem unlinkSleeper_ready (r : PId) (s : State) :
    ((unlinkSleeper r u s).p q).ready = (s.p q).ready := by
  unfold unlinkSleeper
  rw [setUt_p]
  exact setP_keeps P.ready rfl q

theorem deschedSleep_keepsReady (h : uthreadDeschedSleep u s = .ok s') :
    (s'.p q).ready = (s.p q).ready := by
  rcases uthreadDeschedSleep_ok h with ⟨-, rfl⟩ | ⟨-, r, -, rfl⟩
  · rfl
  · exact unlinkSleeper_ready q r s

theorem deschedEvent_keepsReady {fd e : Int} {found : Option UId}
    (h : uthreadDeschedEvent a fd e s = .ok (found, s')) : (s'.p q).ready = (s.p q).ready := by
  obtain ⟨r, -, -, ⟨-, rfl⟩ | ⟨v, -, hv⟩⟩ := uthreadDeschedEvent_ok h
  · rfl
  · rw [deschedSleep_keepsReady q hv]
    exact setP_keeps P.ready rfl q

theorem dropInterest_ready (r : PId) (fd : Int) (s : State) :
    ((dropInterest r fd s).p q).ready = (s.p q).ready :=
  setP_keeps P.ready rfl q

theorem cancelEvent_keepsReady (h : uthreadCancelEvent a u s = .ok s') :
    (s'.p q).ready = (s.p q).ready := by
  obtain ⟨r, s₁, -, -, rfl, ⟨-, rfl⟩ | ⟨-, found, hd⟩⟩ := uthreadCancelEvent_ok h
  · exact dropInterest_ready q r _ _
  · rw [setUt_p, deschedEvent_keepsReady q hd]
    exact dropInterest_ready q r _ _

theorem handleEvent_keepsReady {fd : Int} {ev : UthreadEvent} {isEof : Bool} {k : SchedAt}
    (h : handleEvent a fd ev isEof k s = .ok s') : (s'.p q).ready = (s.p q).ready := by
  rcases handleEvent_ok h with ⟨s₁, hd, rfl⟩ | ⟨v, s₁, s₂, hd, -, hdel, rfl⟩
  · have hkeeps := deschedEvent_keepsReady q hd
    exact hkeeps
  · obtain ⟨r, -, -, rfl⟩ := epollDel_ok hdel
    rw [(uthreadResume_p a v k _).1, ← deschedEvent_keepsReady q hd]
    exact dropInterest_ready q r fd _

/-- Only the tail grows. -/
theorem insertReady_isPrefix (r : PId) (s : State) : (s.p q).ready <+: ((insertReady r u s).p q).ready := by
  unfold insertReady
  rw [setP_p]
  split
  · rename_i hr
    rw [hr]
    exact List.prefix_append _ _
  · exact List.prefix_rfl

theorem uthreadSwitched_isPrefix (h : uthreadSwitched a u s = .ok s') :
    (s.p q).ready <+: (s'.p q).ready := by
  rcases uthreadSwitched_ok h with ⟨-, s₁, hw, -, rfl⟩ | ⟨-, -, rfl⟩ | ⟨-, -, r, -, rfl⟩
  · rcases wakeJoined_ok hw with ⟨-, rfl⟩ | ⟨j, r, s₂, -, hd, -, rfl⟩
    · exact List.prefix_rfl
    · have hkeeps := deschedSleep_keepsReady q hd
      have hgrows := insertReady_isPrefix (u := j) q r
        (s₂.setUt j fun v => {v with hist := {v.hist with waits := .joined :: v.hist.waits}})
      rw [setUt_p, hkeeps] at hgrows
      exact hgrows
  · exact List.prefix_rfl
  · exact insertReady_isPrefix q r (idleCpu a s)

/-- **Library code puts uthreads at the tail of a ready queue and takes none from it.** -/
theorem Stmt.ready_isPrefix {r : Reply} (h : Stmt a u r s s') : (s.p q).ready <+: (s'.p q).ready := by
  have hsame : ∀ (s₀ : State), (s₀.p q).ready = (s.p q).ready → (s.p q).ready <+: (s₀.p q).ready :=
    fun _ h₀ => h₀ ▸ List.prefix_rfl
  have herr : ∀ {s₀ : State}, (s₀ = s ∨ ∃ e, s₀ = setErrno a e s) → (s.p q).ready <+: (s₀.p q).ready := by
    rintro s₀ (rfl | ⟨e, rfl⟩)
    · exact List.prefix_rfl
    · exact List.prefix_rfl
  have hset : ∀ (r : PId) (g : P → P), (g (s.p r)).ready = (s.p r).ready →
      (s.p q).ready <+: ((s.setP r g).p q).ready :=
    fun r g hg => hsame _ (setP_keeps P.ready hg q)
  cases h with
  | io _ h₀ _ =>
    have hgrows := herr h₀
    exact hgrows
  | ioReturns _ h₀ | diskCall _ h₀ =>
    have hgrows := herr h₀
    exact hgrows
  | @linkSleeping _ r t _ _ _ =>
    have hgrows := hset r (fun v => {v with sleeping := t}) rfl
    exact hgrows
  | @linkWaiting _ r _ _ =>
    have hgrows := hset r
      (fun v => {v with waiting := (insertWaiting s u (s.p r).waiting).getD (s.p r).waiting}) rfl
    exact hgrows
  | @watch _ r l _ _ _ =>
    have hgrows := hset r (fun v => {v with interest := l}) rfl
    exact hgrows
  | store _ =>
    refine hsame _ ?_
    rw [storeRetval_eq]
    rfl
  | switch _ _ hsw =>
    have hgrows := uthreadSwitched_isPrefix q hsw
    exact hgrows
  | @created _ id p r _ _ =>
    have hgrows := insertReady_isPrefix (u := s.heap) q r {s with
      ut := Function.update s.ut s.heap
        {id := id, status := .only .new, p := p, fdWait := -1, isWatingYieldSignal := true, life := .live}
      heap := s.heap + 1}
    exact hgrows
  | @handOff c n r rest _ _ _ _ =>
    have hgrows := hset r (fun v => {v with sched := some n}) rfl
    exact hgrows
  | _ => exact List.prefix_rfl

theorem Entered.keepsReady {c : Call} (h : Entered a u s c s') : (s'.p q).ready = (s.p q).ready := by
  cases h with
  | goes _ _ _ => rfl
  | detach _ => rfl
  | close => rfl

/-- The action is a turn of the loop over the ready queue of `q`. -/
def takesReady (q : PId) (s : State) : Act → Bool
  | .sched a _ =>
    match (s.sched a).pc with
    | .ready _ => decide ((s.sched a).p = some q)
    | _ => false
  | _ => false

theorem SchedStep.ready_isPrefix {r : Reply} (h : SchedStep a r s s')
    (hno : takesReady q s (.sched a r) = false) : (s.p q).ready <+: (s'.p q).ready := by
  have hsame : ∀ (s₀ : State), (s₀.p q).ready = (s.p q).ready → (s.p q).ready <+: (s₀.p q).ready :=
    fun _ h₀ => h₀ ▸ List.prefix_rfl
  cases h with
  | goes _ => exact List.prefix_rfl
  | halted _ => exact List.prefix_rfl
  | @another r _ _ =>
    exact hsame (s.setP r fun v => {v with tid := a}) (setP_keeps P.ready rfl q)
  | expired _ _ _ _ hcancel hsl =>
    refine hsame _ ?_
    rw [(uthreadResume_p a _ _ _).1]
    exact (deschedSleep_keepsReady q hsl).trans (cancelEvent_keepsReady q hcancel)
  | @ready r v rest last hpc hr _ =>
    refine hsame _ ?_
    rw [(uthreadResume_p a _ _ _).1, setP_p, if_neg]
    rintro rfl
    simp only [takesReady, hpc, hr, decide_true, Bool.true_eq_false] at hno
  | @noPoll r _ _ =>
    exact hsame (s.setP r fun v => {v with numNewEvents := 0}) (setP_keeps P.ready rfl q)
  | @polled r _ _ _ =>
    refine hsame _ ?_
    show ((UthreadRuntime.polled r _ (s.setP r fun v => {v with numNewEvents := 0})).p q).ready = _
    unfold UthreadRuntime.polled
    rw [setP_keeps P.ready rfl q]
    exact setP_keeps P.ready rfl q
  | @took r e _ _ _ _ _ hh =>
    refine hsame _ ?_
    rw [handleEvent_keepsReady q hh, tookEvent_p]
    split
    · rename_i hr
      rw [hr]
    · rfl
  | handled _ hh => exact hsame _ (handleEvent_keepsReady q hh)

/-- A step that is not such a turn takes no uthread from the queue. -/
theorem step_ready_isPrefix {act : Act} (h : step s act = .ok s') (hno : takesReady q s act = false) :
    (s.p q).ready <+: (s'.p q).ready := by
  cases step_ok h with
  | call _ _ hent => exact (hent.keepsReady q) ▸ List.prefix_rfl
  | stmt _ hst => exact hst.ready_isPrefix q
  | preempt _ _ hsw =>
    have hgrows := uthreadSwitched_isPrefix q hsw
    exact hgrows
  | sched _ hss => exact hss.ready_isPrefix q hno

/-- A turn resumes the first uthread of the queue, if there is one. -/
theorem step_takesReady {act : Act} (h : step s act = .ok s') (ht : takesReady q s act = true) :
    ∃ a r last, act = .sched a r ∧ (s.sched a).curUthread = none ∧ (s.sched a).pc = .ready last ∧
      (s.sched a).p = some q ∧
      (((s.p q).ready = [] ∧ s' = setPc a .pollCheck s) ∨
        ∃ u rest, (s.p q).ready = u :: rest ∧ (s'.p q).ready = rest ∧
          (s'.sched a).curUthread = some u ∧ (s'.sched a).pc = .readyAfter last u) := by
  unfold takesReady at ht
  split at ht
  · rename_i a r
    split at ht
    · rename_i last hpc
      have hq := of_decide_eq_true ht
      cases step_ok h with
      | sched hc hss =>
        refine ⟨a, r, last, rfl, hc, hpc, hq, ?_⟩
        cases hss with
        | goes hgo =>
          rw [hpc] at hgo
          cases hgo with
          | empty _ hr hempty =>
            obtain rfl := Option.some.inj (hr.symm.trans hq)
            exact .inl ⟨hempty, rfl⟩
        | @ready r' u rest last' hpc' hr hready =>
          obtain rfl := Option.some.inj (hr.symm.trans hq)
          cases hpc.symm.trans hpc'
          refine .inr ⟨u, rest, hready, ?_, uthreadResume_cur a u _ _, uthreadResume_pc a u _ _⟩
          rw [(uthreadResume_p a u _ _).1, setP_p_self]
        | another h₁ _ | expired h₁ _ _ _ _ _ | noPoll h₁ _ | polled h₁ _ _ | took h₁ _ _ _ _
        | handled h₁ _ | halted h₁ =>
          rw [hpc] at h₁
          cases h₁
    · cases ht
  · cases ht

end Grows

/-- What a step takes from the ready queue of `q` and puts into it: a turn of the loop over the
queue takes the uthread it resumes, any other step puts what it adds. -/
def noteReady (q : PId) (s : State) (act : Act) (s' : State) (g : Flow UId) : Flow UId :=
  if takesReady q s act then {g with taken := g.taken ++ (s'.sched act.thread).curUthread.toList}
  else {g with put := g.put ++ (s'.p q).ready.drop (s.p q).ready.length}

theorem noteReady_carries {s s' : State} {act : Act} {q : PId} {g : Flow UId} {l : List UId}
    (hg : g.Carries l (s.p q).ready) (hs : step s act = .ok s') :
    (noteReady q s act s' g).Carries l (s'.p q).ready := by
  unfold noteReady
  split
  · rename_i ht
    obtain ⟨a, r, last, rfl, hc, -, -, ⟨-, rfl⟩ | ⟨u, rest, hready, hrest, hcur, -⟩⟩ :=
      step_takesReady q hs ht
    · have hnone : ((setPc a .pollCheck s).sched a).curUthread = none := by
        unfold setPc
        rw [setSched_sched_self]
        exact hc
      simp only [Act.thread, hnone, Option.toList_none, List.append_nil]
      exact hg
    · rw [hready] at hg
      rw [hrest]
      simp only [Act.thread, hcur, Option.toList_some]
      exact hg.take
  · rename_i ht
    exact hg.grow (step_ready_isPrefix q hs (Bool.eq_false_iff.mpr ht))

/-- The action is a turn of the loop of `a`. -/
def Act.turnOf (a : SId) : Act → Bool
  | .sched c _ => c == a
  | _ => false

theorem Act.eq_of_turnOf {a : SId} {act : Act} (h : act.turnOf a = true) : ∃ r, act = .sched a r := by
  cases act with
  | sched c r =>
    obtain rfl : c = a := by simpa [Act.turnOf] using h
    exact ⟨r, rfl⟩
  | call _ _ => cases h
  | stmt _ _ => cases h
  | preempt _ => cases h

/-- A thread that runs no uthread can only take turns. -/
theorem turnOf_of_idle {s s' : State} {act : Act} (hs : step s act = .ok s')
    (hc : (s.sched act.thread).curUthread = none) : act.turnOf act.thread = true := by
  cases step_ok hs with
  | call hc' _ _ => exact absurd (hc.symm.trans hc') nofun
  | stmt hc' _ => exact absurd (hc.symm.trans hc') nofun
  | preempt hc' _ _ => exact absurd (hc.symm.trans hc') nofun
  | sched _ _ => exact beq_self_eq_true _

/-- A sched that takes no turn and is not handed over stays bound and at its place, and no
uthread gets onto its thread. -/
theorem step_apart {s s' : State} {act : Act} {a : SId} {q : PId} (hsnd : Sound s)
    (hs : step s act = .ok s') (hturn : act.turnOf a = false) (hoff : a ∉ handingOff s act)
    (hq : (s.sched a).p = some q) :
    (s'.sched a).p = some q ∧ (s'.sched a).pc = (s.sched a).pc ∧
      ((s'.sched a).curUthread = (s.sched a).curUthread ∨ (s'.sched a).curUthread = none) := by
  rcases step_frame hs with ⟨c, r, rfl, -, hrun⟩ | ⟨-, hstill⟩ |
      ⟨c, r, u, rfl, hcur, d, q', n, rest, hctx, hq', hready, hidle, rfl⟩
  · have hca : a ≠ c := by
      rintro rfl
      simp [Act.turnOf] at hturn
    have hl := schedRun_local hrun
    exact ⟨(hl.bound a).trans hq, hl.pc a hca, .inl (hl.cur a hca)⟩
  · refine ⟨(hstill.bound a).trans hq, hstill.pc a, ?_⟩
    by_cases ha : a = act.thread
    · rw [ha]
      exact hstill.self
    · exact .inl (hstill.cur a ha)
  · have had : a ≠ d := by
      rintro rfl
      exact hoff (handingOff_of_handsOver hcur hctx hq' hready)
    obtain ⟨hn, hnd, -⟩ := hsnd.idle_ne hq' hidle
    have han : a ≠ n := by
      rintro rfl
      exact hsnd.busy_of_p hq hn
    have hsched : (goto u .diskCall (handedOff d n q' rest s)).sched a = s.sched a := by
      show (handedOff d n q' rest s).sched a = _
      rw [handedOff_sched hnd, if_neg had, if_neg han]
    rw [hsched]
    exact ⟨hq, rfl, .inl rfl⟩

/-- Where the loop stands in the phase that found the queue `l`, with what it has taken so far,
the uthread on its thread and the number of its turns. -/
inductive PhaseAt (l : List UId) (g : Flow UId) (cur : Option UId) (n : Nat) : SchedAt → Prop where
  | next : g.taken.length < l.length → cur = none → n = 2 * g.taken.length + 1 →
      PhaseAt l g cur n (.ready l.getLast?)
  | nothing : l = [] → g.taken = [] → g.put = [] → cur = none → n = 1 → PhaseAt l g cur n (.ready none)
  | running {u : UId} : g.taken.length ≤ l.length → g.taken.getLast? = some u →
      (cur = none ∨ cur = some u) → n = 2 * g.taken.length → PhaseAt l g cur n (.readyAfter l.getLast? u)
  | ended : g.taken.length = l.length → cur = none → n ≤ 2 * l.length + 2 → PhaseAt l g cur n .pollCheck

namespace PhaseAt

variable {l : List UId} {g : Flow UId} {cur : Option UId} {n : Nat} {k : SchedAt}

theorem length_le (h : PhaseAt l g cur n k) : g.taken.length ≤ l.length := by
  cases h with
  | next hlt _ _ => exact Nat.le_of_lt hlt
  | nothing _ ht _ _ _ =>
    rw [ht]
    exact Nat.zero_le _
  | running hle _ _ _ => exact hle
  | ended hl _ _ => exact Nat.le_of_eq hl

theorem loop (h : PhaseAt l g cur n k) :
    k = .pollCheck ∨ (∃ last, k = .ready last) ∨ ∃ last u, k = .readyAfter last u := by
  cases h with
  | next _ _ _ => exact .inr (.inl ⟨_, rfl⟩)
  | nothing _ _ _ _ _ => exact .inr (.inl ⟨_, rfl⟩)
  | running _ _ _ _ => exact .inr (.inr ⟨_, _, rfl⟩)
  | ended _ _ _ => exact .inl rfl

theorem turns_le (h : PhaseAt l g cur n k) : n ≤ 2 * l.length + 2 := by
  cases h with
  | next hlt _ hn => omega
  | nothing _ _ _ _ hn => omega
  | running hle _ _ hn => omega
  | ended _ _ hn => exact hn

end PhaseAt

structure InPhase (a : SId) (q : PId) (l : List UId) (s : State) (g : Flow UId) (n : Nat) : Prop where
  sound : Sound s
  bound : (s.sched a).p = some q
  carries : g.Carries l (s.p q).ready
  place : PhaseAt l g (s.sched a).curUthread n (s.sched a).pc

/-- The action does not end the phase of `a` that found the queue `l`: the loop of `a` does not
go on from its end, `a` keeps its p, and with nothing queued there is no uthread that could do
anything meanwhile. -/
def StaysInPhase (a : SId) (l : List UId) (s : State) (act : Act) : Prop :=
  (act.turnOf a = true → (s.sched a).pc ≠ .pollCheck) ∧ a ∉ handingOff s act ∧ (l = [] → act.thread = a)

instance (a : SId) (l : List UId) (s : State) (act : Act) : Decidable (StaysInPhase a l s act) :=
  inferInstanceAs (Decidable (_ ∧ _ ∧ _))

section Phase

variable {a : SId} {q : PId} {l : List UId} {s s' : State} {g : Flow UId} {n : Nat}

/-- The first turn reads the last uthread of the queue. -/
theorem InPhase.start {r : Reply} (hsnd : Sound s) (hpc : (s.sched a).pc = .lastReady)
    (hq : (s.sched a).p = some q) (hs : step s (.sched a r) = .ok s') :
    InPhase a q (s.p q).ready s' (noteReady q s (.sched a r) s' {}) 1 := by
  have hcarries := noteReady_carries (.start (s.p q).ready) hs
  have hsnd' := hsnd.step hs
  cases step_ok hs with
  | sched hc hss =>
    cases hss with
    | goes hgo =>
      rw [hpc] at hgo
      cases hgo with
      | last hr =>
        obtain rfl := Option.some.inj (hr.symm.trans hq)
        rename_i q
        have hsched : (setPc a (.ready (s.p q).ready.getLast?) s).sched a =
            {s.sched a with pc := .ready (s.p q).ready.getLast?} := by
          unfold setPc
          rw [setSched_sched_self]
        have hnote : noteReady q s (.sched a r) (setPc a (.ready (s.p q).ready.getLast?) s) {} = {} := by
          simp [noteReady, takesReady, hpc, setPc]
        refine ⟨hsnd', by rw [hsched]; exact hq, hcarries, ?_⟩
        rw [hsched, hnote]
        dsimp only
        rw [hc]
        cases hready : (s.p q).ready with
        | nil => exact .nothing rfl rfl rfl rfl rfl
        | cons u rest => exact .next (Nat.succ_pos _) rfl rfl
    | another h₁ _ | expired h₁ _ _ _ _ _ | ready h₁ _ _ | noPoll h₁ _ | polled h₁ _ _ | took h₁ _ _ _ _
    | handled h₁ _ | halted h₁ =>
      rw [hpc] at h₁
      cases h₁

/-- What the other threads and the resumed uthread do leaves the phase where it is. -/
theorem InPhase.apart {act : Act} (h : InPhase a q l s g n) (hs : step s act = .ok s')
    (hturn : act.turnOf a = false) (hin : StaysInPhase a l s act) :
    InPhase a q l s' (noteReady q s act s' g) n := by
  obtain ⟨-, hoff, halone⟩ := hin
  obtain ⟨hq, hpc, hcur⟩ := step_apart h.sound hs hturn hoff h.bound
  have hno : takesReady q s act = false := by
    by_contra ht
    obtain ⟨c, r, -, rfl, -, -, hc, -⟩ := step_takesReady q hs (Bool.not_eq_false _ ▸ ht)
    obtain rfl := h.sound.bound_inj hc h.bound
    simp [Act.turnOf] at hturn
  have hnone : (s.sched a).curUthread = none → (s'.sched a).curUthread = none := by
    intro hc
    rcases hcur with hcur | hcur
    · exact hcur.trans hc
    · exact hcur
  have htaken : (noteReady q s act s' g).taken = g.taken := by
    unfold noteReady
    rw [hno]
    rfl
  refine ⟨h.sound.step hs, hq, noteReady_carries h.carries hs, ?_⟩
  have hplace := h.place
  rw [hpc]
  generalize (s.sched a).pc = k at hplace ⊢
  cases hplace with
  | next hlt hc hn => exact .next (by rw [htaken]; exact hlt) (hnone hc) (by rw [htaken]; exact hn)
  | nothing hl ht hp hc hn =>
    -- with nothing on its thread, `a` could only take a turn
    have hact : act.thread = a := halone hl
    have hidle := turnOf_of_idle hs (hact.symm ▸ hc)
    rw [hact, hturn] at hidle
    cases hidle
  | @running u hle hlast hc hn =>
    refine .running (by rw [htaken]; exact hle) (by rw [htaken]; exact hlast) ?_ (by rw [htaken]; exact hn)
    rcases hcur with hcur | hcur
    · rw [hcur]
      exact hc
    · exact .inl hcur
  | ended hl hc hn => exact .ended (by rw [htaken]; exact hl) (hnone hc) hn

/-- The place of the phase after a turn at the queue: its next uthread runs, or there was none. -/
theorem InPhase.takes {r : Reply} {last : Option UId} (h : InPhase a q l s g n)
    (hs : step s (.sched a r) = .ok s') (hpc : (s.sched a).pc = .ready last) :
    PhaseAt l (noteReady q s (.sched a r) s' g) (s'.sched a).curUthread (n + 1) (s'.sched a).pc := by
  have ht : takesReady q s (.sched a r) = true := by
    simp only [takesReady, hpc, h.bound, decide_true]
  have hplace := h.place
  rw [hpc] at hplace
  obtain ⟨b, _, last', hact, hc, hpc', -, ⟨hempty, rfl⟩ | ⟨u, rest, hready, hrest, hcur, hafter⟩⟩ :=
    step_takesReady q hs ht
  · cases hact
    have hnote : noteReady q s (.sched a r) (setPc a .pollCheck s) g = g := by
      simp [noteReady, ht, Act.thread, setPc, hc]
    have hlen : l.length ≤ g.taken.length := (hempty ▸ h.carries).length_le
    rw [hnote]
    simp only [setPc, setSched_sched_self]
    cases hplace with
    | next hlt _ _ => exact absurd hlen (Nat.not_le.mpr hlt)
    | nothing hl htk _ _ hn =>
      refine .ended ?_ hc (by omega)
      rw [hl, htk]
  · cases hact
    cases hpc.symm.trans hpc'
    have hnote : (noteReady q s (.sched a r) s' g).taken = g.taken ++ [u] := by
      simp [noteReady, ht, Act.thread, hcur]
    rw [hafter, hcur]
    cases hplace with
    | next hlt _ hn =>
      refine .running ?_ ?_ (.inr rfl) ?_
      · rw [hnote, List.length_append, List.length_singleton]
        exact hlt
      · rw [hnote, List.getLast?_concat]
      · rw [hnote, List.length_append, List.length_singleton]
        omega
    | nothing hl htk hput _ _ =>
      have hnil := h.carries
      unfold Flow.Carries at hnil
      rw [hl, htk, hput, hready] at hnil
      cases hnil

/-- The place of the phase after the turn that compares with the last uthread. -/
theorem InPhase.compares {r : Reply} {last : Option UId} {u : UId} (h : InPhase a q l s g n) (hnd : l.Nodup)
    (hs : step s (.sched a r) = .ok s') (hpc : (s.sched a).pc = .readyAfter last u) :
    PhaseAt l (noteReady q s (.sched a r) s' g) (s'.sched a).curUthread (n + 1) (s'.sched a).pc := by
  have hno : takesReady q s (.sched a r) = false := by
    simp only [takesReady, hpc]
  have hplace := h.place
  cases step_ok hs with
  | sched hc hss =>
    cases hss with
    | @goes k hgo =>
      have hnote : (noteReady q s (.sched a r) (setPc a k s) g).taken = g.taken := by
        unfold noteReady
        rw [hno]
        rfl
      have hsched : (setPc a k s).sched a = {s.sched a with pc := k} := by
        unfold setPc
        rw [setSched_sched_self]
      rw [hsched]
      generalize noteReady q s (.sched a r) (setPc a k s) g = g' at hnote ⊢
      rw [hpc] at hgo hplace
      cases hplace with
      | running hle hlast _ hn =>
        have hiff := h.carries.last_iff hnd hle hlast
        rw [← hnote] at hiff hle hn
        cases hgo with
        | detached _ _ hp =>
          rw [h.bound] at hp
          cases hp
        | again _ _ hr =>
          dsimp only
          split
          · rename_i hl
            have hall := hiff.mp hl
            exact .ended hall hc (by omega)
          · rename_i hl
            have hlt := Nat.lt_of_le_of_ne hle fun he => hl (hiff.mpr he)
            exact .next hlt hc (by omega)
    | another h₁ _ | expired h₁ _ _ _ _ _ | ready h₁ _ _ | noPoll h₁ _ | polled h₁ _ _ | took h₁ _ _ _ _
    | handled h₁ _ | halted h₁ =>
      rw [hpc] at h₁
      cases h₁

/-- A turn resumes the next uthread of the queue, or finds that the last one has run. -/
theorem InPhase.turn {r : Reply} (h : InPhase a q l s g n) (hnd : l.Nodup)
    (hs : step s (.sched a r) = .ok s') (hin : StaysInPhase a l s (.sched a r)) :
    InPhase a q l s' (noteReady q s (.sched a r) s' g) (n + 1) := by
  have hpoll : (s.sched a).pc ≠ .pollCheck := hin.1 (by simp [Act.turnOf])
  have hbound : (s'.sched a).p = some q :=
    ((schedRun_local (step_sched_ok hs)).bound a).trans h.bound
  refine ⟨h.sound.step hs, hbound, noteReady_carries h.carries hs, ?_⟩
  have hplace := h.place
  cases hpc : (s.sched a).pc with
  | ready last => exact h.takes hs hpc
  | readyAfter last u => exact h.compares hnd hs hpc
  | _ =>
    rw [hpc] at hplace hpoll
    cases hplace
    try exact absurd rfl hpoll

theorem InPhase.step {act : Act} (h : InPhase a q l s g n) (hnd : l.Nodup) (hs : step s act = .ok s')
    (hin : StaysInPhase a l s act) :
    InPhase a q l s' (noteReady q s act s' g) (n + if act.turnOf a then 1 else 0) := by
  by_cases hturn : act.turnOf a = true
  · rw [if_pos hturn]
    obtain ⟨r, rfl⟩ := Act.eq_of_turnOf hturn
    exact h.turn hnd hs hin
  · rw [if_neg hturn]
    exact h.apart hs (Bool.eq_false_iff.mpr hturn) hin

theorem InPhase.run {acts : List Act} (h : InPhase a q l s g n) (hnd : l.Nodup)
    (hrun : Run.run UthreadRuntime.step s acts = .ok s')
    (hin : Run.each UthreadRuntime.step (fun t act _ => StaysInPhase a l t act) s acts) :
    InPhase a q l s' (Run.tally UthreadRuntime.step (noteReady q) s g acts)
      (n + acts.countP (Act.turnOf a)) :=
  Run.tally_counted (J := InPhase a q l) hrun hin h fun _ _ _ _ _ h hin hs => h.step hnd hs hin

end Phase

theorem InPhase.goesOn {a : SId} {q : PId} {l : List UId} {s : State} {g : Flow UId} {n : Nat}
    (h : InPhase a q l s g n) (hpc : (s.sched a).pc ≠ .pollCheck) (hc : (s.sched a).curUthread = none)
    (hhalt : s.halted = false) (r : Reply) : ∃ s', UthreadRuntime.step s (.sched a r) = .ok s' := by
  have hstep : UthreadRuntime.step s (.sched a r) = schedRun a r s := by
    simp only [UthreadRuntime.step, hhalt, hc, Bool.false_eq_true, if_false]
  have hready : ∀ last, (s.sched a).pc = .ready last → ∃ s', schedRun a r s = .ok s' := by
    intro last hk
    simp only [schedRun, hk, bound_of_some h.bound]
    cases hr : (s.p q).ready with
    | nil => exact ⟨setPc a .pollCheck s, by simp only [bind, Except.bind, hr]⟩
    | cons u rest =>
      exact ⟨uthreadResume a u (.readyAfter last u) (s.setP q fun v => {v with ready := rest}),
        by simp only [bind, Except.bind, hr]⟩
  rw [hstep]
  have hplace := h.place
  generalize hk : (s.sched a).pc = k at hplace hpc
  cases hplace with
  | next _ _ _ => exact hready _ hk
  | nothing _ _ _ _ _ => exact hready _ hk
  | running _ _ _ _ =>
    simp only [schedRun, hk, h.bound]
    exact ⟨_, rfl⟩
  | ended _ _ _ => exact absurd rfl hpc

/-! ### From phase to phase -/

end UthreadRuntime
