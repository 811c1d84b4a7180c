import UthreadRuntime.Placement.Partition

/-! The batch of events.

`epoll_wait` fills the event list of a p, and the loop of the sched bound to it takes the
entries from the last one on. A uthread that an entry resumes may hand the p to another
sched, whose loop starts at the top and comes to `_uthread_poll` before the entries that
are left. -/
namespace UthreadRuntime

open State Placement

/-- The entries of the event list that are still to be taken. -/
def P.unread (p : P) : List EpollEvent := p.eventlist.take p.numNewEvents

/-- The entry that is taken is the last of the unread ones. -/
theorem P.unread_took {p : P} {e : EpollEvent} (hn : p.numNewEvents ≠ 0)
    (he : p.eventlist[p.numNewEvents - 1]? = some e) :
    p.unread = p.eventlist.take (p.numNewEvents - 1) ++ [e] := by
  obtain ⟨n, hn'⟩ := Nat.exists_eq_succ_of_ne_zero hn
  rw [hn'] at he
  unfold P.unread
  rw [hn', List.take_add_one]
  simp only [Nat.succ_eq_add_one, Nat.add_sub_cancel] at he ⊢
  rw [he]
  rfl

/-- The loop is at the entries of the event list. -/
def SchedAt.inBatch : SchedAt → Bool
  | .events | .handleWr _ _ => true
  | _ => false

/-- The sched whose p the action hands off. -/
def handingOff (s : State) : Act → Option SId
  | .stmt a _ =>
    match (s.sched a).curUthread with
    | none => none
    | some u =>
      match (s.ut u).ctx with
      | .diskHandOff c => if handsOff c s then some c else none
      | _ => none
  | _ => none

theorem handingOff_of_handsOver {s : State} {a c : SId} {u : UId} {q : PId} {r : Reply}
    (hc : (s.sched a).curUthread = some u) (hctx : (s.ut u).ctx = .diskHandOff c)
    (hq : (s.sched c).p = some q) (hready : (s.p q).ready ≠ []) :
    c ∈ handingOff s (.stmt a r) := by
  simp only [handingOff, hc, hctx, handsOff_iff.mpr ⟨q, hq, hready⟩, if_true, Option.mem_def]

/-- A p is handed off only when the entries of its event list have all been taken. -/
def HandsOffDrained (s : State) (act : Act) : Prop :=
  ∀ c ∈ handingOff s act, ∀ q ∈ (s.sched c).p, (s.p q).numNewEvents = 0

instance (s : State) (act : Act) : Decidable (HandsOffDrained s act) :=
  inferInstanceAs (Decidable (∀ c ∈ handingOff s act, ∀ q ∈ (s.sched c).p, (s.p q).numNewEvents = 0))

/-- Where the entries are that `epoll_wait` has placed. -/
structure Batch (s : State) : Prop where
  length : ∀ q, (s.p q).numNewEvents ≤ (s.p q).eventlist.length
  kept : ∀ q, (s.p q).posted.Perm ((s.p q).taken ++ (s.p q).unread)
  loop : ∀ q, (s.p q).numNewEvents ≠ 0 → ∃ a, (s.sched a).p = some q ∧ (s.sched a).pc.inBatch = true

/-- The event lists are the same, and the loops at them still are. -/
theorem Batch.keep {s s' : State} (h : Batch s)
    (hev : ∀ q, (s'.p q).eventlist = (s.p q).eventlist ∧ (s'.p q).numNewEvents = (s.p q).numNewEvents ∧
      (s'.p q).posted = (s.p q).posted ∧ (s'.p q).taken = (s.p q).taken)
    (hloop : ∀ q a, (s.p q).numNewEvents ≠ 0 → (s.sched a).p = some q → (s.sched a).pc.inBatch = true →
      (s'.sched a).p = some q ∧ (s'.sched a).pc.inBatch = true) : Batch s' := by
  refine ⟨fun q => ?_, fun q => ?_, fun q hn => ?_⟩
  · obtain ⟨h1, h2, -, -⟩ := hev q
    rw [h1, h2]
    exact h.length q
  · obtain ⟨h1, h2, h3, h4⟩ := hev q
    unfold P.unread
    rw [h1, h2, h3, h4]
    exact h.kept q
  · rw [(hev q).2.1] at hn
    obtain ⟨a, ha, hpc⟩ := h.loop q hn
    exact ⟨a, hloop q a hn ha hpc⟩

/-- A hand-off takes no loop away from entries that are left. -/
theorem Batch.handedOff {s : State} {c n : SId} {q : PId} {rest : List SId} (h : Batch s)
    (hsnd : Sound s) (hq : (s.sched c).p = some q) (hidle : s.schedIdle = n :: rest)
    (hdrained : (s.p q).numNewEvents = 0) : Batch (handedOff c n q rest s) := by
  obtain ⟨hn, hnc, -⟩ := hsnd.idle_ne hq hidle
  refine h.keep (fun r => ?_) fun r a hr ha hpc => ?_
  · rw [handedOff_p]
    split
    · rename_i hrq
      subst hrq
      exact ⟨rfl, rfl, rfl, rfl⟩
    · exact ⟨rfl, rfl, rfl, rfl⟩
  · have hac : a ≠ c := by
      rintro rfl
      obtain rfl : r = q := Option.some.inj (ha.symm.trans hq)
      exact hr hdrained
    have han : a ≠ n := by
      rintro rfl
      rw [(hsnd.idle a hn).1] at ha
      cases ha
    rw [handedOff_sched hnc, if_neg hac, if_neg han]
    exact ⟨ha, hpc⟩

/-- The loops of the other scheds are where they were. -/
theorem Batch.ofLocal {s s' : State} {a : SId} (h : Batch s) (hl : Local a s s')
    (hev : ∀ q, (s'.p q).eventlist = (s.p q).eventlist ∧ (s'.p q).numNewEvents = (s.p q).numNewEvents ∧
      (s'.p q).posted = (s.p q).posted ∧ (s'.p q).taken = (s.p q).taken)
    (hown : ∀ q, (s.p q).numNewEvents ≠ 0 → (s.sched a).p = some q → (s.sched a).pc.inBatch = true →
      (s'.sched a).pc.inBatch = true) : Batch s' := by
  refine h.keep hev fun q b hn hb hpc => ⟨(hl.bound b).trans hb, ?_⟩
  by_cases hba : b = a
  · subst hba
    exact hown q hn hb hpc
  · rw [hl.pc b hba]
    exact hpc

/-- The loop that comes to the poll has left no entry behind. -/
theorem Batch.drained {s : State} {a : SId} {q : PId} (h : Batch s) (hsnd : Sound s)
    (hpc : (s.sched a).pc = .poll) (hq : (s.sched a).p = some q) : (s.p q).numNewEvents = 0 := by
  by_contra hn
  obtain ⟨b, hb, hin⟩ := h.loop q hn
  obtain rfl := hsnd.bound_inj hb hq
  rw [hpc] at hin
  cases hin

/-- What `_uthread_poll` leaves in the list is all unread. -/
theorem Batch.poll {s : State} {a : SId} {q : PId} {g : P → P} {l : List EpollEvent} (h : Batch s)
    (hsnd : Sound s) (hpc : (s.sched a).pc = .poll) (hq : (s.sched a).p = some q)
    (hunread : (g (s.p q)).unread = l) (hlen : (g (s.p q)).numNewEvents ≤ (g (s.p q)).eventlist.length)
    (hposted : (g (s.p q)).posted = (s.p q).posted ++ l) (htaken : (g (s.p q)).taken = (s.p q).taken) :
    Batch (setPc a .events (s.setP q g)) := by
  have hdrained := h.drained hsnd hpc hq
  have hother : ∀ b, b ≠ a → (setPc a .events (s.setP q g)).sched b = s.sched b := by
    intro b hb
    unfold setPc
    rw [setSched_sched, if_neg hb]
    rfl
  have hp : ∀ r, (setPc a .events (s.setP q g)).p r = if r = q then g (s.p q) else s.p r :=
    fun r => setP_p s q r g
  refine ⟨fun r => ?_, fun r => ?_, fun r hn => ?_⟩
  · rw [hp]
    split
    · exact hlen
    · exact h.length r
  · rw [hp]
    split
    · have hkept := h.kept q
      unfold P.unread at hkept
      rw [hdrained, List.take_zero, List.append_nil] at hkept
      rw [hunread, hposted, htaken]
      exact hkept.append_right l
    · exact h.kept r
  · rw [hp] at hn
    split at hn
    · rename_i hr
      refine ⟨a, ?_, ?_⟩
      · simp [setPc, hq, hr]
      · simp [setPc, SchedAt.inBatch]
    · rename_i hr
      obtain ⟨b, hb, hin⟩ := h.loop r hn
      have hba : b ≠ a := by
        rintro rfl
        exact hr (Option.some.inj (hb.symm.trans hq))
      refine ⟨b, ?_, ?_⟩
      · rw [hother b hba]
        exact hb
      · rw [hother b hba]
        exact hin

theorem tookEvent_p (a : SId) (q : PId) (e : EpollEvent) (s : State) (r : PId) :
    (tookEvent a q e s).p r =
      if r = q then {s.p q with numNewEvents := (s.p q).numNewEvents - 1, taken := (s.p q).taken ++ [e]}
      else s.p r := by
  have hp := setP_p s q r fun v => {v with numNewEvents := v.numNewEvents - 1, taken := v.taken ++ [e]}
  unfold tookEvent
  dsimp only
  split <;> exact hp

theorem tookEvent_waiting (a : SId) (q : PId) (e : EpollEvent) (s : State) :
    ((tookEvent a q e s).p q).waiting = (s.p q).waiting := by
  rw [tookEvent_p, if_pos rfl]

/-- The entry that is taken moves from the unread ones to the taken ones. -/
theorem Batch.took {s s' : State} {a : SId} {q : PId} {e : EpollEvent} (h : Batch s)
    (hpc : (s.sched a).pc = .events) (hq : (s.sched a).p = some q) (hn : (s.p q).numNewEvents ≠ 0)
    (he : (s.p q).eventlist[(s.p q).numNewEvents - 1]? = some e)
    (hs : handleEvent a e.fd .rd e.hup (.handleWr e.fd e.hup) (tookEvent a q e s) = .ok s') : Batch s' := by
  have hl : Local a s s' := (tookEvent_local a q e s).trans (handleEvent_local hs)
  have hev : ∀ r, (s'.p r).eventlist = (s.p r).eventlist ∧ (s'.p r).posted = (s.p r).posted := by
    intro r
    obtain ⟨h1, -, h3, -⟩ := (handleEvent_events hs).2 r
    rw [h1, h3, tookEvent_p]
    split
    · rename_i hr
      rw [hr]
      exact ⟨rfl, rfl⟩
    · exact ⟨rfl, rfl⟩
  have hcount : ∀ r, (s'.p r).numNewEvents =
      if r = q then (s.p q).numNewEvents - 1 else (s.p r).numNewEvents := by
    intro r
    rw [((handleEvent_events hs).2 r).2.1, tookEvent_p]
    split <;> rfl
  have htaken : ∀ r, (s'.p r).taken = if r = q then (s.p q).taken ++ [e] else (s.p r).taken := by
    intro r
    rw [((handleEvent_events hs).2 r).2.2.2, tookEvent_p]
    split <;> rfl
  have hlast := P.unread_took hn he
  refine ⟨fun r => ?_, fun r => ?_, fun r hr => ?_⟩
  · rw [(hev r).1, hcount]
    split
    · rename_i hrq
      rw [hrq]
      exact Nat.le_trans (Nat.sub_le _ 1) (h.length q)
    · exact h.length r
  · unfold P.unread
    rw [(hev r).1, (hev r).2, hcount, htaken]
    split
    · rename_i hrq
      rw [hrq]
      have hkept := h.kept q
      rw [hlast] at hkept
      refine hkept.trans ?_
      rw [List.append_assoc]
      exact List.Perm.append_left _ List.perm_append_comm
    · exact h.kept r
  · rw [hcount] at hr
    split at hr
    · rename_i hrq
      refine ⟨a, ?_, ?_⟩
      · rw [hl.bound, hrq]
        exact hq
      · rw [handleEvent_pc hs]
        rfl
    · obtain ⟨b, hb, hin⟩ := h.loop r hr
      have hba : b ≠ a := by
        rintro rfl
        rename_i hrq
        exact hrq (Option.some.inj (hb.symm.trans hq))
      refine ⟨b, ?_, ?_⟩
      · rw [hl.bound]
        exact hb
      · rw [hl.pc b hba]
        exact hin

theorem Batch.schedRun {s s' : State} {a : SId} {r : Reply} (h : Batch s) (hsnd : Sound s)
    (hs : schedRun a r s = .ok s') : Batch s' := by
  have hl := schedRun_local hs
  -- a loop that is not at the entries is not the one that holds them
  have hout : (s.sched a).pc.inBatch = false → ∀ q, (s.p q).numNewEvents ≠ 0 → (s.sched a).p = some q →
      (s.sched a).pc.inBatch = true → (s'.sched a).pc.inBatch = true := by
    intro hf q _ _ ht
    rw [hf] at ht
    cases ht
  cases schedRun_ok hs with
  | goes hgo =>
    refine h.ofLocal hl (fun q => ⟨rfl, rfl, rfl, rfl⟩) fun q hn hq hin => ?_
    generalize (s.sched a).pc = k at hgo hin
    cases hgo with
    | gone hp =>
      rw [hp] at hq
      cases hq
    | handled hq' hz =>
      obtain rfl := Option.some.inj (hq'.symm.trans hq)
      exact absurd hz hn
    | _ => cases hin
  | another hpc _ =>
    refine h.ofLocal hl
      (Aside.setP (g := fun v => {v with tid := a}) fun _ => ⟨rfl, rfl, rfl, rfl⟩).events (hout ?_)
    rw [hpc]
    rfl
  | @expired q u s₁ s₂ hpc _ _ _ hcancel hsl =>
    refine h.ofLocal hl (fun r => ?_) (hout ?_)
    · rw [(uthreadResume_p a u .expiry (notedExpiry u s₂)).1]
      exact (Aside.expired hcancel hsl).events r
    · rw [hpc]
      rfl
  | @ready q u rest last hpc _ _ =>
    refine h.ofLocal hl (fun r => ?_) (hout ?_)
    · rw [(uthreadResume_p a u _ _).1]
      exact (Aside.setP (g := fun v => {v with ready := rest}) fun _ => ⟨rfl, rfl, rfl, rfl⟩).events r
    · rw [hpc]
      rfl
  | noPoll hpc hq =>
    exact h.poll hsnd hpc hq (l := []) rfl (Nat.zero_le _) (List.append_nil _).symm rfl
  | @polled q hpc hq _ =>
    have hset : polled q r.events (s.setP q fun v => {v with numNewEvents := 0}) =
        s.setP q fun v => {v with
          interest := disarm r.events v.interest
          eventlist := r.events
          numNewEvents := r.events.length
          posted := v.posted ++ r.events} := by
      simp [polled, State.setP]
    rw [hset]
    exact h.poll hsnd hpc hq (l := r.events) List.take_length (Nat.le_refl _) rfl rfl
  | took hpc hq hn he hh => exact h.took hpc hq hn he hh
  | handled hpc hh =>
    refine h.ofLocal hl (handleEvent_events hh).2 fun _ _ _ _ => ?_
    rw [handleEvent_pc hh]
    rfl
  | halted hpc =>
    refine h.ofLocal hl (fun q => ⟨rfl, rfl, rfl, rfl⟩) (hout ?_)
    rw [hpc]
    rfl

theorem Batch.step {s s' : State} {act : Act} (h : Batch s) (hsnd : Sound s)
    (hc : HandsOffDrained s act) (hs : step s act = .ok s') : Batch s' := by
  rcases step_frame hs with ⟨a, r, -, -, hrun⟩ | ⟨-, hstill⟩ |
      ⟨a, r, u, rfl, hcur, c, q, n, rest, hctx, hq, hready, hidle, rfl⟩
  · exact h.schedRun hsnd hrun
  · refine h.keep hstill.events fun q a _ hb hpc => ⟨(hstill.bound a).trans hb, ?_⟩
    rw [hstill.pc]
    exact hpc
  · have hdrained := hc c (handingOff_of_handsOver hcur hctx hq hready) q hq
    have hh := h.handedOff hsnd hq hidle hdrained
    exact ⟨hh.length, hh.kept, hh.loop⟩

theorem Batch.initial : Batch init := by
  have hz : ∀ q, (init.p q).eventlist = [] ∧ (init.p q).numNewEvents = 0 ∧ (init.p q).posted = [] ∧
      (init.p q).taken = [] := by
    intro q
    by_cases hq : q = 0
    · rw [hq]
      exact ⟨rfl, rfl, rfl, rfl⟩
    · rw [init_p hq]
      exact ⟨rfl, rfl, rfl, rfl⟩
  refine ⟨fun q => ?_, fun q => ?_, fun q hn => absurd (hz q).2.1 hn⟩
  · rw [(hz q).2.1]
    exact Nat.zero_le _
  · unfold P.unread
    rw [(hz q).1, (hz q).2.1, (hz q).2.2.1, (hz q).2.2.2]
    exact List.Perm.refl _

theorem Batch.of_reaches {s : State} (h : Reaches HandsOffDrained s) : Batch s :=
  (Sound.initial.invariant h Batch.initial fun _ _ _ hs hb hc hstep => hb.step hs hc hstep).2

/-! ### No entry is dropped -/

/-- The uthread, and no other, is linked under the event. -/
structure WaitsFor (s : State) (q : PId) (fd : Int) (ev : UthreadEvent) (u : UId) : Prop where
  mem : u ∈ (s.p q).waiting
  key : (s.ut u).fdWait = fdKey fd ev.toNat
  only : ∀ v ∈ (s.p q).waiting, (s.ut v).fdWait = fdKey fd ev.toNat → v = u

/-- The sched's next step passes an entry of the event list of `q` to `handle_event`. -/
structure TakesNext (s : State) (a : SId) (q : PId) (e : EpollEvent) : Prop where
  cur : (s.sched a).curUthread = none
  pc : (s.sched a).pc = .events
  bound : (s.sched a).p = some q
  some : (s.p q).numNewEvents ≠ 0
  entry : (s.p q).eventlist[(s.p q).numNewEvents - 1]? = Option.some e

/-- Every entry placed in an event list was passed to `handle_event` or is still to be taken,
none is left when `_uthread_poll` is about to reset the count, and an entry that is passed
on resumes the uthread that waits for it, to read or to write. -/
structure NoneDropped (s : State) : Prop where
  kept : ∀ q, (s.p q).posted.Perm ((s.p q).taken ++ (s.p q).unread)
  reset : ∀ a q, (s.sched a).pc = .poll → (s.sched a).p = some q →
    (s.p q).posted.Perm (s.p q).taken
  reads : ∀ a q e r s', TakesNext s a q e → step s (.sched a r) = .ok s' →
    (s'.p q).taken = (s.p q).taken ++ [e] ∧ (s'.sched a).pc = .handleWr e.fd e.hup ∧
    (s'.sched a).p = some q ∧ ∀ u, WaitsFor s q e.fd .rd u → (s'.sched a).curUthread = some u
  writes : ∀ a q fd eof r s', (s.sched a).curUthread = none → (s.sched a).pc = .handleWr fd eof →
    (s.sched a).p = some q → step s (.sched a r) = .ok s' →
    ∀ u, WaitsFor s q fd .wr u → (s'.sched a).curUthread = some u

/-- The uthread that waits for an event is the one it resumes. -/
theorem WaitsFor.resumes {s s' : State} {a : SId} {q : PId} {fd : Int} {ev : UthreadEvent} {u : UId}
    {isEof : Bool} {k : SchedAt} (hw : WaitsFor s q fd ev u) (hq : (s.sched a).p = some q)
    (hs : handleEvent a fd ev isEof k s = .ok s') : (s'.sched a).curUthread = some u := by
  have hfind : ∀ {found s₁}, uthreadDeschedEvent a fd ev.toNat s = .ok (found, s₁) → found = some u := by
    intro found s₁ hd
    obtain ⟨q', hq', hf, -⟩ := uthreadDeschedEvent_ok hd
    obtain rfl : q' = q := Option.some.inj (hq'.symm.trans hq)
    cases found with
    | none => exact absurd hw.key (Tree.find_eq_none hf u hw.mem)
    | some v =>
      obtain ⟨hv, hkv⟩ := Tree.find_eq_some hf
      rw [hw.only v hv hkv]
  rcases handleEvent_ok hs with ⟨s₁, hd, -⟩ | ⟨v, s₁, s₂, hd, -, -, rfl⟩
  · cases hfind hd
  · cases hfind hd
    exact uthreadResume_cur a u k _

theorem step_sched_ok {s s' : State} {a : SId} {r : Reply} (hs : step s (.sched a r) = .ok s') :
    schedRun a r s = .ok s' := by
  rcases step_frame hs with ⟨b, t, hact, -, hrun⟩ | ⟨hno, -⟩ | ⟨b, t, u, hact, -, -⟩
  · cases hact
    exact hrun
  · exact absurd rfl (hno a r)
  · cases hact

/-- **No readiness event is dropped, in every calm run whose hand-offs find the batch drained.** -/
theorem no_event_dropped {s : State} (hreach : Reaches (fun s act => Calm s act ∧ HandsOffDrained s act) s) :
    NoneDropped s := by
  have hsnd := Sound.of_reaches hreach
  have hb := Batch.of_reaches (hreach.mono fun _ _ h => h.2)
  refine ⟨hb.kept, fun a q hpc hq => ?_, fun a q e r s' ht hs => ?_, fun a q fd eof r s' _ hpc hq hs u hw => ?_⟩
  · have hkept := hb.kept q
    unfold P.unread at hkept
    rw [hb.drained hsnd hpc hq, List.take_zero, List.append_nil] at hkept
    exact hkept
  · have hrun := step_sched_ok hs
    have hbound := ((schedRun_local hrun).bound a).trans ht.bound
    simp only [schedRun, ht.pc, ht.bound, if_neg ht.some] at hrun
    obtain ⟨e', he', hh⟩ := takeEvent_ok hrun
    obtain rfl : e' = e := Option.some.inj (he'.symm.trans ht.entry)
    refine ⟨?_, handleEvent_pc hh, hbound, fun u hw => ?_⟩
    · rw [((handleEvent_events hh).2 q).2.2.2, tookEvent_p, if_pos rfl]
    · -- taking the entry leaves the waiting tree and the keys alone
      have hut := tookEvent_ut a q e' s
      have hwt := tookEvent_waiting a q e' s
      have hw' : WaitsFor (tookEvent a q e' s) q e'.fd .rd u :=
        ⟨by rw [hwt]; exact hw.mem, by rw [hut]; exact hw.key, by rw [hwt, hut]; exact hw.only⟩
      exact hw'.resumes (((tookEvent_local a q e' s).bound a).trans ht.bound) hh
  · have hrun := step_sched_ok hs
    simp only [schedRun, hpc] at hrun
    exact hw.resumes hq hrun

/-- The uthread on the first thread starts to read `fd`, finds nothing and sleeps, at time `now`. -/
def sleepsReading (fd : Int) (now : Nat) : List Act :=
  calls 0 (.io ⟨.read, fd, 1, 0⟩) 2 ++ [.stmt 0 {ret := -1, errno := .eagain}] ++
    List.replicate 12 (.stmt 0 {now := now})

/-- Main and the uthread it created sleep, each for a descriptor, and one poll reports both;
the first entry is taken, and its uthread has read one byte. -/
def twoEvents : List Act :=
  boot ++ sleepsReading 5 0 ++ scheds 0 8 ++ sleepsReading 6 1 ++
    scheds 0 2 ++ [.sched 0 {events := [⟨5, false⟩, ⟨6, false⟩]}] ++ scheds 0 1 ++
    List.replicate 9 (.stmt 0 {ret := 1})

/-- Both entries are taken, then the p is handed off, and the new loop comes to its poll. -/
theorem twoEvents_kept : ∃ s, Reaches (fun s act => Calm s act ∧ HandsOffDrained s act) s ∧ NoneDropped s ∧
    (s.sched 1).pc = .poll ∧ (s.p 0).taken.length = 2 ∧ (s.p 0).waiting = [] := by
  have hread : (Run.checked step (fun s act => atomicCheck s act && decide (HandsOffDrained s act)) init
      (twoEvents ++ calls 0 .yield 2 ++ scheds 0 2 ++ List.replicate 9 (.stmt 0 {ret := 1}) ++
        calls 0 .yield 2 ++ scheds 0 6 ++ calls 0 .disk 3 ++ scheds 1 5 ++ calls 1 .yield 2 ++
        scheds 1 2)).map (fun s => ((s.sched 1).pc, (s.p 0).taken.length, (s.p 0).waiting)) =
      some (.poll, 2, []) := by
    decide +kernel
  obtain ⟨s, hs, hread⟩ := Option.map_eq_some_iff.mp hread
  simp only [Prod.mk.injEq] at hread
  have hreach : Reaches (fun s act => Calm s act ∧ HandsOffDrained s act) s :=
    (calm_of_checks (C := HandsOffDrained) (fun _ _ h => of_decide_eq_true h) hs).mono
      fun _ _ h => ⟨h.1.1, h.2⟩
  exact ⟨s, hreach, no_event_dropped hreach, hread⟩

/-- The uthread creates another and hands the p off while the entry of main is unread. The
new sched comes to its poll, resets the count, and main is left waiting for a descriptor that
is disarmed. -/
theorem twoEvents_dropped : ∃ s s',
    exec (twoEvents ++ calls 0 .create 8 ++ calls 0 .disk 3 ++ scheds 1 5 ++ calls 1 .yield 2 ++
      scheds 1 2) = .ok s ∧ (s.sched 1).pc = .poll ∧ ¬NoneDropped s ∧
    step s (.sched 1 {}) = .ok s' ∧ (s'.p 0).numNewEvents = 0 ∧ (s'.p 0).waiting = [0] ∧
    (s'.p 0).interest = [⟨5, .rd, false⟩] ∧ (s'.p 0).taken = [⟨6, false⟩] := by
  have hread : (exec (twoEvents ++ calls 0 .create 8 ++ calls 0 .disk 3 ++ scheds 1 5 ++
      calls 1 .yield 2 ++ scheds 1 2)).bind (fun s => (step s (.sched 1 {})).map fun s' =>
        (decide ((s.sched 1).pc = .poll ∧ (s.sched 1).p = some 0 ∧ (s.p 0).posted.length = 2 ∧
            (s.p 0).taken.length = 1),
          decide ((s'.p 0).numNewEvents = 0 ∧ (s'.p 0).waiting = [0] ∧
            (s'.p 0).interest = [⟨5, .rd, false⟩] ∧ (s'.p 0).taken = [⟨6, false⟩]))) =
      .ok (true, true) := by decide +kernel
  obtain ⟨s, hs, hread⟩ := bind_ok hread
  obtain ⟨s', hs', hread⟩ := map_ok hread
  simp only [Prod.mk.injEq, decide_eq_true_eq] at hread
  obtain ⟨⟨hpc, hq, hposted, htaken⟩, hafter⟩ := hread
  refine ⟨s, s', hs, hpc, fun hnone => ?_, hs', hafter⟩
  have hlen := (hnone.reset 1 0 hpc hq).length_eq
  rw [hposted, htaken] at hlen
  cases hlen

end UthreadRuntime
