import UthreadRuntime.Model.Poll
import UthreadRuntime.Safety.Passes
import Mathlib.Data.Rat.Floor
import Mathlib.Tactic.Positivity
import Mathlib.Tactic.Ring

/-! The timeout of `epoll_wait`, and the time its calls take.

`_uthread_poll` may block the thread until the first sleeper is due, and no longer. The time is
handed to `epoll_wait` as an `int` of milliseconds; somebody who sleeps without a timeout is due in
34 years, and an `int` holds 24 days. A call that a signal cuts short is made again with all of the
timeout, whatever has passed of it. -/
namespace UthreadRuntime

open State Placement

/-! ### Microseconds and milliseconds -/

theorem truncate_eq_floor {x : ℚ} (h : 0 ≤ x) : truncate x = ⌊x⌋ := by
  unfold truncate
  rw [Int.tdiv_eq_ediv_of_nonneg (Rat.num_nonneg.mpr h)]
  exact Rat.floor_def'.symm

/-- Seconds and nanoseconds together are the microseconds, in both branches. -/
theorem pollTimespec_millis (usecs : Nat) : (pollTimespec usecs).millis = (usecs : ℚ) / (1000 : Nat) := by
  have hnsec : pollTimespec usecs = ⟨usecs / 1000000, usecs % 1000000 * 1000⟩ := by
    unfold pollTimespec
    dsimp only
    split
    · rw [Nat.mod_eq_of_lt (by omega)]
    · rw [Nat.mod_eq_of_lt (by omega), Nat.mod_eq_of_lt (a := usecs) (by omega)]
  have hsplit : ((1000000 * (usecs / 1000000) + usecs % 1000000 : Nat) : ℚ) = usecs :=
    congrArg Nat.cast (Nat.div_add_mod usecs 1000000)
  rw [hnsec]
  unfold Timespec.millis
  push_cast at hsplit ⊢
  rw [← hsplit]
  ring

/-- The timeout is the microseconds in whole milliseconds. -/
theorem pollMillis_eq (usecs : Nat) : pollMillis usecs = (usecs / 1000 : Nat) := by
  unfold pollMillis
  rw [pollTimespec_millis, truncate_eq_floor (by positivity), Rat.floor_natCast_div_natCast]
  exact (Int.natCast_ediv usecs 1000).symm

theorem epollTimeout_eq_some {s : State} {q : PId} {now now2 : Nat} {timeout : Int} :
    epollTimeout s q now now2 = some timeout ↔
      (s.p q).ready = [] ∧ uthreadMinTimeout s (s.p q) now now2 ≠ 0 ∧
        timeout = (uthreadMinTimeout s (s.p q) now now2 / 1000 : Nat) := by
  unfold epollTimeout
  dsimp only
  rw [pollMillis_eq]
  split
  · rename_i h
    obtain ⟨husecs, hready⟩ := h
    rw [List.isEmpty_iff] at hready
    exact ⟨fun ht => ⟨hready, husecs, (Option.some.inj ht).symm⟩, fun ht => congrArg some ht.2.2.symm⟩
  · rename_i h
    constructor
    · intro ht
      cases ht
    · rintro ⟨hready, husecs, -⟩
      exact absurd ⟨husecs, List.isEmpty_iff.mpr hready⟩ h

theorem epollTimeout_of_usecs {s : State} {q : PId} {now now2 usecs : Nat} (hready : (s.p q).ready = [])
    (h : uthreadMinTimeout s (s.p q) now now2 = usecs) (hne : usecs ≠ 0) :
    epollTimeout s q now now2 = some (usecs / 1000 : Nat) := by
  subst h
  exact epollTimeout_eq_some.mpr ⟨hready, hne, rfl⟩

/-! ### The range -/

/-- The timeout is in `int`, and is the microseconds rounded down. -/
structure TimeoutOk (usecs : Nat) (timeout : Int) : Prop where
  nonneg : 0 ≤ timeout
  le_max : timeout ≤ maxTimeout
  le_usecs : 1000 * timeout ≤ usecs
  usecs_lt : (usecs : Int) < 1000 * (timeout + 1)

/-- Whatever `_uthread_poll` hands to `epoll_wait` is as it should be. -/
def ArgumentOk (s : State) (q : PId) (now now2 : Nat) : Prop :=
  ∀ timeout, epollTimeout s q now now2 = some timeout →
    TimeoutOk (uthreadMinTimeout s (s.p q) now now2) timeout

/-- The wake-up time is less than 2³¹ milliseconds after the reading, in 64 bits. -/
def InReach (w now2 : Nat) : Prop :=
  (now2 ≤ w ∧ w < now2 + 2 ^ 31 * 1000) ∨ (w < now2 ∧ w + 2 ^ 64 < now2 + 2 ^ 31 * 1000)

/-- The rounding is right for all times; the range is not. -/
theorem timeoutOk_iff (usecs : Nat) : TimeoutOk usecs (usecs / 1000 : Nat) ↔ usecs < 2 ^ 31 * 1000 := by
  constructor
  · intro h
    have hmax := h.le_max
    unfold maxTimeout at hmax
    omega
  · intro h
    refine ⟨Int.natCast_nonneg _, ?_, ?_, ?_⟩
    · unfold maxTimeout
      omega
    · omega
    · omega

theorem lt_iff_inReach {w now2 : Nat} (hw : w < 2 ^ 64) (h : now2 < 2 ^ 64) :
    (w + 2 ^ 64 - now2) % 2 ^ 64 < 2 ^ 31 * 1000 ↔ InReach w now2 := by
  unfold InReach
  by_cases hle : now2 ≤ w
  · rw [sub_mod_of_le hle hw]
    omega
  · rw [Nat.mod_eq_of_lt (by omega)]
    omega

/-- Wake-up times are of 64 bits. -/
theorem Earliest.lt_of_reaches {C : State → Act → Prop} {s : State} {q : PId} {w : Nat} (h : Reaches C s)
    (he : Earliest s (s.p q).sleeping w) : w < 2 ^ 64 := by
  obtain ⟨⟨u, hu, rfl⟩, -⟩ := he
  refine wakes_of_reaches h (W := fun t => t < 2 ^ 64) (by decide) (fun _ _ _ _ _ _ _ _ => ?_) u
    ((Sound.of_reaches h).sleeping hu).1
  exact Nat.mod_lt _ (by decide)

/-- The time until the first sleeper is due is an `int` of milliseconds if the sleeper is in reach. -/
theorem Earliest.lt_iff {s : State} {q : PId} {w now now2 : Nat} (h : Earliest s (s.p q).sleeping w)
    (hw : w < 2 ^ 64) (h2 : now2 < 2 ^ 64) :
    uthreadMinTimeout s (s.p q) now now2 < 2 ^ 31 * 1000 ↔ (now < w → InReach w now2) := by
  rw [uthreadMinTimeout_earliest h]
  split
  · rename_i hlt
    rw [lt_iff_inReach hw h2]
    exact ⟨fun hr _ => hr, fun hr => hr hlt⟩
  · rename_i hle
    exact iff_of_true (by decide) fun hlt => absurd hlt hle

theorem argumentOk_iff_lt {s : State} {q : PId} {now now2 : Nat} : ArgumentOk s q now now2 ↔
    ((s.p q).ready = [] → uthreadMinTimeout s (s.p q) now now2 < 2 ^ 31 * 1000) := by
  constructor
  · intro hok hready
    by_cases husecs : uthreadMinTimeout s (s.p q) now now2 = 0
    · rw [husecs]
      decide
    · exact (timeoutOk_iff _).mp (hok _ (epollTimeout_of_usecs hready rfl husecs))
  · intro hlt timeout ht
    obtain ⟨hready, -, rfl⟩ := epollTimeout_eq_some.mp ht
    exact (timeoutOk_iff _).mpr (hlt hready)

/-- **The timeout is right exactly when the first sleeper is in reach**, in every state that a calm
run reaches. It is not when all sleep without a timeout, nor when the clock passes the wake-up time
between its two readings. -/
theorem epoll_argument_iff {s : State} (h : Reaches Calm s) (q : PId) (now : Nat) {now2 : Nat}
    (h2 : now2 < 2 ^ 64) : ArgumentOk s q now now2 ↔
      ((s.p q).ready = [] → ∀ w, Earliest s (s.p q).sleeping w → now < w → InReach w now2) := by
  rw [argumentOk_iff_lt]
  refine forall_congr' fun _ => ?_
  by_cases hnil : (s.p q).sleeping = []
  · rw [uthreadMinTimeout_nil hnil]
    exact iff_of_true (by decide) fun w hw => absurd hnil hw.ne_nil
  · obtain ⟨w, hw⟩ := exists_earliest s hnil
    rw [hw.lt_iff (hw.lt_of_reaches h) h2]
    constructor
    · intro hr w' hw'
      rw [hw'.unique hw]
      exact hr
    · exact fun hr => hr w hw

/-- Main and the uthread it created both read, and the loop comes to `_uthread_poll`; the first of
them is due at one second. -/
theorem bothWait_polls : ∃ s, Reaches Calm s ∧ (s.sched 0).pc = .poll ∧
    (s.sched 0).p = some 0 ∧ (s.p 0).ready = [] ∧ Earliest s (s.p 0).sleeping 1000000 := by
  have hread : (Run.checked step atomicCheck init (bothWait ++ scheds 0 1)).map (fun s =>
      decide ((s.sched 0).pc = .poll ∧ (s.sched 0).p = some 0 ∧ (s.p 0).ready = [] ∧
        (s.p 0).sleeping = [1, 0] ∧ (s.ut 1).wakeupTimeUsec = 1000001 ∧
        (s.ut 0).wakeupTimeUsec = 1000000)) = some true := by decide +kernel
  obtain ⟨s, hs, hread⟩ := Option.map_eq_some_iff.mp hread
  obtain ⟨hpc, hq, hready, hsleeping, hwake, hwake'⟩ := of_decide_eq_true hread
  refine ⟨s, calm_of_check hs, hpc, hq, hready, ?_⟩
  rw [hsleeping]
  refine ⟨⟨0, by decide, hwake'⟩, fun u hu => ?_⟩
  rcases List.mem_pair.mp hu with rfl | rfl <;> omega

/-- The thread may be blocked for a second. -/
theorem bothWait_argument_ok : ∃ s, Reaches Calm s ∧ (s.sched 0).pc = .poll ∧
    epollTimeout s 0 0 0 = some 1000 ∧ ArgumentOk s 0 0 0 := by
  obtain ⟨s, hreach, hpc, -, hready, hfirst⟩ := bothWait_polls
  have husecs : uthreadMinTimeout s (s.p 0) 0 0 = 1000000 := uthreadMinTimeout_earliest hfirst 0 0
  refine ⟨s, hreach, hpc, epollTimeout_of_usecs hready husecs (by decide), ?_⟩
  refine (epoll_argument_iff hreach 0 0 (by decide)).mpr fun _ w hw _ => ?_
  rw [hw.unique hfirst]
  exact .inl ⟨by decide, by decide⟩

/-- The uthread on the first thread starts to accept on `fd`, finds nobody and sleeps, at time `now`. -/
def sleepsAccepting (fd : Int) (now : Nat) : List Act :=
  calls 0 (.io ⟨.accept, fd, 1, 0⟩) 1 ++ [.stmt 0 {ret := -1, errno := .eagain}] ++
    List.replicate 11 (.stmt 0 {now := now})

/-- Main and the uthread it created both accept, and the loop comes to `_uthread_poll`. -/
def bothAccept : List Act :=
  boot ++ sleepsAccepting 5 0 ++ scheds 0 8 ++ sleepsAccepting 6 1 ++ scheds 0 2

/-- Nobody has a timeout: the thread is to be blocked for 34 years, which is no `int`. -/
theorem bothAccept_out_of_range : ∃ s, Reaches Calm s ∧ (s.sched 0).pc = .poll ∧
    (∀ u ∈ (s.p 0).sleeping, ∃ c, (s.ut u).ctx = .sleep (.event c) .wake ∧ c.timeout = 0) ∧
    epollTimeout s 0 0 0 = some 1073741824000 ∧ maxTimeout < 1073741824000 ∧ ¬ArgumentOk s 0 0 0 := by
  have hread : (Run.checked step atomicCheck init bothAccept).map (fun s =>
      decide ((s.sched 0).pc = .poll ∧ (s.p 0).ready = [] ∧ (s.p 0).sleeping = [1, 0] ∧
        (s.ut 0).ctx = .sleep (.event ⟨.accept, 5, 1, 0⟩) .wake ∧
        (s.ut 1).ctx = .sleep (.event ⟨.accept, 6, 1, 0⟩) .wake ∧
        uthreadMinTimeout s (s.p 0) 0 0 = 1073741824000000)) = some true := by decide +kernel
  obtain ⟨s, hs, hread⟩ := Option.map_eq_some_iff.mp hread
  obtain ⟨hpc, hready, hsleeping, hctx, hctx', husecs⟩ := of_decide_eq_true hread
  have htimeout : epollTimeout s 0 0 0 = some 1073741824000 := epollTimeout_of_usecs hready husecs (by decide)
  refine ⟨s, calm_of_check hs, hpc, fun u hu => ?_, htimeout, by decide, fun hok => ?_⟩
  · rw [hsleeping] at hu
    rcases List.mem_pair.mp hu with rfl | rfl
    · exact ⟨_, hctx', rfl⟩
    · exact ⟨_, hctx, rfl⟩
  · have hmax := (hok _ htimeout).le_max
    revert hmax
    decide

/-- Whoever goes to sleep has a timeout, and reads the clock not after `now`. -/
def SleepsBy (now : Nat) (s : State) (act : Act) : Prop :=
  ∀ b r v w, act = .stmt b r → (s.sched b).curUthread = some v → (s.ut v).ctx = .sleep w .clock →
    r.now ≤ now ∧ w.mescs ≠ 0

/-- With timeouts and a clock that does not go back, no sleeper is more than ten seconds away. -/
theorem Earliest.le_of_sleepsBy {s : State} {q : PId} {w now : Nat} (h : Reaches (SleepsBy now) s)
    (he : Earliest s (s.p q).sleeping w) : w ≤ now + 10000000 := by
  obtain ⟨⟨u, hu, rfl⟩, -⟩ := he
  refine wakes_of_reaches h (W := fun t => t ≤ now + 10000000) (Nat.zero_le _) (fun _ b r v w hc hb hctx => ?_) u
    ((Sound.of_reaches h).sleeping hu).1
  obtain ⟨hnow, hms⟩ := hc b r v w rfl hb hctx
  have hle := w.mescs_le
  unfold wakeupTime
  rw [if_neg hms]
  exact (Nat.mod_le _ _).trans (by omega)

/-- **Where everybody sleeps with a timeout and the clock does not pass the first wake-up time
between its readings, the thread is blocked for ten seconds at most.** -/
theorem timed_argument_ok {s : State} {now now2 : Nat}
    (h : Reaches (fun s act => Calm s act ∧ SleepsBy now s act) s) (q : PId) (hle : now ≤ now2)
    (hpass : ∀ w, Earliest s (s.p q).sleeping w → w ≤ now ∨ now2 ≤ w) :
    ArgumentOk s q now now2 ∧ ∀ timeout, epollTimeout s q now now2 = some timeout → timeout ≤ 10000 := by
  have husecs : uthreadMinTimeout s (s.p q) now now2 ≤ 10000000 := by
    by_cases hnil : (s.p q).sleeping = []
    · rw [uthreadMinTimeout_nil hnil]
      decide
    · obtain ⟨w, hw⟩ := exists_earliest s hnil
      have hfar := hw.le_of_sleepsBy (h.mono fun _ _ hC => hC.2)
      have hlt := hw.lt_of_reaches h
      rw [uthreadMinTimeout_earliest hw]
      split
      · rename_i hdue
        have hnext : now2 ≤ w := (hpass w hw).resolve_left (Nat.not_le.mpr hdue)
        rw [sub_mod_of_le hnext hlt]
        omega
      · exact Nat.zero_le _
  constructor
  · exact argumentOk_iff_lt.mpr fun _ => Nat.lt_of_le_of_lt husecs (by decide)
  · intro timeout ht
    obtain ⟨-, -, rfl⟩ := epollTimeout_eq_some.mp ht
    omega

/-! ### The loop around the call -/

/-- A call that a signal cuts short. -/
def EpollCall.cut (took : Nat) : EpollCall := ⟨took, .interrupted⟩

section Loop

variable {timeout : Int} {l : List Interest} {clock : Nat}

theorem mayTake_iff {took : Nat} :
    mayTake timeout took = true ↔ (0 ≤ timeout → timeout ≤ maxTimeout → (took : Int) ≤ 1000 * timeout) := by
  unfold mayTake
  rw [decide_eq_true_iff, and_imp]

theorem epollWaits_events {took : Nat} {es : List EpollEvent} (htake : mayTake timeout took = true)
    (hes : pollable l es = true) (calls : List EpollCall) :
    epollWaits timeout l clock (⟨took, .events es⟩ :: calls) = .ok (es, clock + took) := by
  rw [epollWaits, if_pos htake]
  exact if_pos hes

theorem epollWaits_cut {d : Nat} (htake : mayTake timeout d = true) (calls : List EpollCall) :
    epollWaits timeout l clock (.cut d :: calls) = epollWaits timeout l (clock + d) calls := by
  have hcall : mayTake timeout (EpollCall.cut d).took = true := htake
  rw [epollWaits, if_pos hcall]
  rfl

/-- Calls that are cut short add up on the clock. -/
theorem epollWaits_cuts {cuts : List Nat} (h : ∀ d ∈ cuts, mayTake timeout d = true) (calls : List EpollCall) :
    epollWaits timeout l clock (cuts.map EpollCall.cut ++ calls) =
      epollWaits timeout l (clock + cuts.sum) calls := by
  induction cuts generalizing clock with
  | nil => rfl
  | cons d cuts ih =>
    rw [List.map_cons, List.cons_append, epollWaits_cut (h d List.mem_cons_self),
      ih fun e he => h e (List.mem_cons_of_mem d he), List.sum_cons, Nat.add_assoc]

/-- What the loop comes to is what its last call reported, and the clock has not gone back. -/
theorem epollWaits_ok {calls : List EpollCall} {es : List EpollEvent} {clock' : Nat}
    (h : epollWaits timeout l clock calls = .ok (es, clock')) : pollable l es = true ∧ clock ≤ clock' := by
  induction calls generalizing clock with
  | nil => cases h
  | cons c calls ih =>
    rw [epollWaits] at h
    split at h
    · split at h
      · obtain ⟨hes, hle⟩ := ih h
        exact ⟨hes, by omega⟩
      · cases h
      · split at h
        · rename_i hes
          cases h
          exact ⟨hes, Nat.le_add_right _ _⟩
        · cases h
    · cases h

/-- **Each call prolongs the wait by up to the timeout.** -/
theorem epollWaits_le {calls : List EpollCall} {es : List EpollEvent} {clock' : Nat} (hnonneg : 0 ≤ timeout)
    (hmax : timeout ≤ maxTimeout) (h : epollWaits timeout l clock calls = .ok (es, clock')) :
    (clock' : Int) ≤ clock + calls.length * (1000 * timeout) := by
  induction calls generalizing clock with
  | nil => cases h
  | cons c calls ih =>
    rw [epollWaits] at h
    have hlen : ((c :: calls).length : Int) * (1000 * timeout) =
        calls.length * (1000 * timeout) + 1000 * timeout := by
      rw [List.length_cons]
      push_cast
      ring
    have hrest : 0 ≤ (calls.length : Int) * (1000 * timeout) :=
      Int.mul_nonneg (Int.natCast_nonneg _) (by omega)
    rw [hlen]
    split at h
    · rename_i htake
      have htook := mayTake_iff.mp htake hnonneg hmax
      split at h
      · have hle := ih h
        push_cast at hle
        omega
      · cases h
      · split at h
        · cases h
          push_cast
          omega
        · cases h
    · cases h

/-- The bound is attained: every call may be cut short at its end. -/
theorem epollWaits_attained (m n : Nat) :
    epollWaits m l clock ((List.replicate n (1000 * m)).map EpollCall.cut ++ [⟨1000 * m, .events []⟩]) =
      .ok ([], clock + (n + 1) * (1000 * m)) := by
  have hfull : mayTake m (1000 * m) = true := mayTake_iff.mpr fun _ _ => by omega
  have hcuts : ∀ d ∈ List.replicate n (1000 * m), mayTake m d = true := by
    intro d hd
    rw [List.eq_of_mem_replicate hd]
    exact hfull
  have hsum : (n + 1) * (1000 * m) = n * (1000 * m) + 1000 * m := Nat.succ_mul n (1000 * m)
  rw [epollWaits_cuts hcuts, epollWaits_events hfull rfl, List.sum_replicate_nat, hsum, Nat.add_assoc]

end Loop

/-! ### The poll with its clock -/

section Poll

variable {s s' : State} {a : SId} {q : PId} {now now2 : Nat}

theorem epollTimeout_reset (s : State) (q : PId) (now now2 : Nat) :
    epollTimeout (s.setP q fun v => {v with numNewEvents := 0}) q now now2 = epollTimeout s q now now2 := by
  unfold epollTimeout
  rw [uthreadMinTimeout_setP (fun v => {v with numNewEvents := 0}) fun _ => rfl, setP_p_self]

theorem uthreadPollTimed_eq (hq : (s.sched a).p = some q) (now now2 : Nat) (calls : List EpollCall) :
    uthreadPollTimed a now now2 calls s =
      match epollTimeout s q now now2 with
      | none => .ok (setPc a .events (s.setP q fun v => {v with numNewEvents := 0}), now2)
      | some timeout => (epollWaits timeout (s.p q).interest now2 calls).map fun x =>
          (setPc a .events (polled q x.1 (s.setP q fun v => {v with numNewEvents := 0})), x.2) := by
  have hinterest : ((s.setP q fun v => {v with numNewEvents := 0}).p q).interest = (s.p q).interest := by
    rw [setP_p_self]
  unfold uthreadPollTimed
  rw [bound_of_some hq]
  simp only [bind, Except.bind, epollTimeout_reset, hinterest]
  cases epollTimeout s q now now2 with
  | none => rfl
  | some timeout =>
    dsimp only
    cases epollWaits timeout (s.p q).interest now2 calls <;> rfl

theorem uthreadPoll_eq (hq : (s.sched a).p = some q) (r : Reply) :
    uthreadPoll a r s =
      match epollTimeout s q r.now r.now2 with
      | none => .ok (setPc a .events (s.setP q fun v => {v with numNewEvents := 0}))
      | some _ =>
        if r.ok then
          if pollable (s.p q).interest r.events then
            .ok (setPc a .events (polled q r.events (s.setP q fun v => {v with numNewEvents := 0})))
          else .error .disabled
        else .error (.fault (.assertion .epollWait)) := by
  unfold uthreadPoll
  rw [bound_of_some hq]
  simp only [bind, Except.bind]
  rw [uthreadMinTimeout_setP (fun v => {v with numNewEvents := 0}) fun _ => rfl, setP_p_self]
  unfold epollTimeout
  dsimp only
  split <;> rfl

/-- **The poll with its clock is a poll**: but for the time it takes, it is the one whose answer is
that of the last call. -/
theorem uthreadPollTimed_refines {calls : List EpollCall} {clock : Nat}
    (h : uthreadPollTimed a now now2 calls s = .ok (s', clock)) :
    now2 ≤ clock ∧ ∃ es, uthreadPoll a {now, now2, events := es} s = .ok s' := by
  have hbound := h
  obtain ⟨q, hq, -⟩ := bind_ok hbound
  have hq := bound_ok hq
  rw [uthreadPollTimed_eq hq] at h
  cases ht : epollTimeout s q now now2 with
  | none =>
    rw [ht] at h
    cases h
    refine ⟨Nat.le_refl _, [], ?_⟩
    rw [uthreadPoll_eq hq, ht]
  | some timeout =>
    rw [ht] at h
    obtain ⟨⟨es, clock'⟩, hwaits, heq⟩ := map_ok h
    cases heq
    obtain ⟨hes, hle⟩ := epollWaits_ok hwaits
    refine ⟨hle, es, ?_⟩
    rw [uthreadPoll_eq hq, ht]
    exact (if_pos rfl).trans (if_pos hes)

/-- And every poll is one with a clock, on which its only call takes no time. -/
theorem uthreadPoll_timed {r : Reply} (h : uthreadPoll a r s = .ok s') :
    uthreadPollTimed a r.now r.now2 [⟨0, .events r.events⟩] s = .ok (s', r.now2) := by
  have hbound := h
  obtain ⟨q, hq, -⟩ := bind_ok hbound
  have hq := bound_ok hq
  rw [uthreadPoll_eq hq] at h
  rw [uthreadPollTimed_eq hq]
  cases ht : epollTimeout s q r.now r.now2 with
  | none =>
    rw [ht] at h
    cases h
    rfl
  | some timeout =>
    rw [ht] at h
    dsimp only at h ⊢
    split at h
    · split at h
      · rename_i hes
        cases h
        have htake : mayTake timeout 0 = true := mayTake_iff.mpr fun h0 _ => by omega
        rw [epollWaits_events htake hes]
        rfl
      · cases h
    · cases h

/-- The calls may be cut short after these times. -/
def MayCut (s : State) (q : PId) (now now2 : Nat) (cuts : List Nat) : Prop :=
  ∀ timeout, epollTimeout s q now now2 = some timeout → ∀ d ∈ cuts, mayTake timeout d = true

/-- The calls being cut short after these times, and however the last one ends, `_uthread_poll`
returns within the time that it asked for, and having waited at all, not after the first sleeper
is due. -/
def WaitsInTime (s : State) (a : SId) (q : PId) (now now2 : Nat) (cuts : List Nat) : Prop :=
  ∀ took es, MayCut s q now now2 [took] → pollable (s.p q).interest es = true →
    ∃ s' clock, uthreadPollTimed a now now2 (cuts.map EpollCall.cut ++ [⟨took, .events es⟩]) s = .ok (s', clock) ∧
      clock ≤ now2 + uthreadMinTimeout s (s.p q) now now2 ∧
      ((epollTimeout s q now now2).isSome → ∀ w, Earliest s (s.p q).sleeping w → clock ≤ w)

/-- The calls add up to what the cuts and the last call have taken. -/
theorem uthreadPollTimed_returns {cuts : List Nat} {timeout : Int} {took : Nat} {es : List EpollEvent}
    (hq : (s.sched a).p = some q) (ht : epollTimeout s q now now2 = some timeout)
    (hcuts : ∀ d ∈ cuts, mayTake timeout d = true) (htook : mayTake timeout took = true)
    (hes : pollable (s.p q).interest es = true) :
    ∃ s', uthreadPollTimed a now now2 (cuts.map EpollCall.cut ++ [⟨took, .events es⟩]) s =
      .ok (s', now2 + cuts.sum + took) := by
  refine ⟨setPc a .events (polled q es (s.setP q fun v => {v with numNewEvents := 0})), ?_⟩
  rw [uthreadPollTimed_eq hq, ht]
  dsimp only
  rw [epollWaits_cuts hcuts, epollWaits_events htook hes]
  rfl

/-- What is to be shown of the times alone: the last call may take all of its timeout. -/
theorem waitsInTime_iff_sum {cuts : List Nat} (hq : (s.sched a).p = some q) (hcuts : MayCut s q now now2 cuts) :
    WaitsInTime s a q now now2 cuts ↔
      ∀ timeout, epollTimeout s q now now2 = some timeout → ∀ took, mayTake timeout took = true →
        cuts.sum + took ≤ uthreadMinTimeout s (s.p q) now now2 ∧
        ∀ w, Earliest s (s.p q).sleeping w → now2 + cuts.sum + took ≤ w := by
  have hmay : ∀ {timeout took}, epollTimeout s q now now2 = some timeout →
      (MayCut s q now now2 [took] ↔ mayTake timeout took = true) := by
    intro timeout took ht
    constructor
    · exact fun h => h timeout ht took List.mem_cons_self
    · intro h timeout' ht' d hd
      rw [List.mem_singleton.mp hd, ← Option.some.inj (ht.symm.trans ht')]
      exact h
  constructor
  · intro h timeout ht took htook
    have hnil : pollable (s.p q).interest [] = true := rfl
    obtain ⟨s₁, hs₁⟩ := uthreadPollTimed_returns hq ht (hcuts timeout ht) htook hnil
    obtain ⟨s₂, clock, hs₂, husecs, hfirst⟩ := h took [] ((hmay ht).mpr htook) hnil
    cases hs₁.symm.trans hs₂
    exact ⟨by omega, hfirst (by rw [ht]; rfl)⟩
  · intro h took es htook hes
    cases ht : epollTimeout s q now now2 with
    | none =>
      refine ⟨setPc a .events (s.setP q fun v => {v with numNewEvents := 0}), now2, ?_,
        Nat.le_add_right _ _, fun hsome => ?_⟩
      · rw [uthreadPollTimed_eq hq, ht]
      · cases hsome
    | some timeout =>
      have htook := (hmay ht).mp htook
      obtain ⟨s₁, hs₁⟩ := uthreadPollTimed_returns hq ht (hcuts timeout ht) htook hes
      obtain ⟨husecs, hfirst⟩ := h timeout ht took htook
      exact ⟨s₁, _, hs₁, by omega, fun _ => hfirst⟩

/-- A last call of full length is in time if the cuts fit into what the rounding has left over. -/
theorem lastCall_iff (usecs sum : Nat) :
    (∀ took, mayTake (usecs / 1000 : Nat) took = true → sum + took ≤ usecs) ↔
      usecs < 2 ^ 31 * 1000 ∧ sum ≤ usecs % 1000 := by
  constructor
  · intro h
    have hrange : usecs < 2 ^ 31 * 1000 := by
      by_contra hout
      -- no `int`: the call may take any time
      have hlong := h (usecs + 1) (mayTake_iff.mpr fun _ hmax => by unfold maxTimeout at hmax; omega)
      omega
    have hfull := h (1000 * (usecs / 1000)) (mayTake_iff.mpr fun _ _ => by omega)
    exact ⟨hrange, by omega⟩
  · rintro ⟨hrange, hsum⟩ took htook
    have hle := mayTake_iff.mp htook (Int.natCast_nonneg _) (by unfold maxTimeout; omega)
    omega

/-- The time that is asked for, when the call is made and the first sleeper is not due yet. -/
theorem Earliest.usecs_eq {w : Nat} (h : Earliest s (s.p q).sleeping w) (hw : w < 2 ^ 64) (hle : now2 ≤ w)
    (husecs : uthreadMinTimeout s (s.p q) now now2 ≠ 0) : uthreadMinTimeout s (s.p q) now now2 = w - now2 := by
  rw [uthreadMinTimeout_earliest h] at husecs ⊢
  split
  · exact sub_mod_of_le hle hw
  · rename_i hdue
    rw [if_neg hdue] at husecs
    exact absurd rfl husecs

theorem waitsInTime_iff_usecs {cuts : List Nat} (h : Reaches Calm s) (hq : (s.sched a).p = some q)
    (hcuts : MayCut s q now now2 cuts) :
    WaitsInTime s a q now now2 cuts ↔
      ((s.p q).ready = [] → uthreadMinTimeout s (s.p q) now now2 ≠ 0 →
        uthreadMinTimeout s (s.p q) now now2 < 2 ^ 31 * 1000 ∧
        cuts.sum ≤ uthreadMinTimeout s (s.p q) now now2 % 1000 ∧
        ∀ w, Earliest s (s.p q).sleeping w → now2 ≤ w) := by
  rw [waitsInTime_iff_sum hq hcuts]
  constructor
  · intro hin hready husecs
    have hcall := hin _ (epollTimeout_of_usecs hready rfl husecs)
    obtain ⟨hrange, hsum⟩ := (lastCall_iff _ _).mp fun took htook => (hcall took htook).1
    refine ⟨hrange, hsum, fun w hw => ?_⟩
    have hnow := (hcall 0 (mayTake_iff.mpr fun _ _ => by omega)).2 w hw
    omega
  · intro hin timeout ht took htook
    obtain ⟨hready, husecs, rfl⟩ := epollTimeout_eq_some.mp ht
    obtain ⟨hrange, hsum, hnow⟩ := hin hready husecs
    have hle := (lastCall_iff _ _).mpr ⟨hrange, hsum⟩ took htook
    refine ⟨hle, fun w hw => ?_⟩
    have hnow := hnow w hw
    rw [hw.usecs_eq (hw.lt_of_reaches h) hnow husecs] at hle
    omega

theorem Earliest.usecs_ne_zero_iff {w : Nat} (h : Earliest s (s.p q).sleeping w) (hw : w < 2 ^ 64)
    (h2 : now2 < 2 ^ 64) : uthreadMinTimeout s (s.p q) now now2 ≠ 0 ↔ now < w ∧ w ≠ now2 := by
  rw [uthreadMinTimeout_earliest h]
  split
  · rename_i hlt
    have hzero : (w + 2 ^ 64 - now2) % 2 ^ 64 = 0 ↔ w = now2 := by omega
    rw [ne_eq, hzero]
    exact ⟨fun hne => ⟨hlt, hne⟩, fun hne => hne.2⟩
  · rename_i hle
    exact ⟨fun hne => absurd rfl hne, fun hlt => absurd hlt.1 hle⟩

/-- The cuts together are no longer than what the rounding has left over of the time until the first
sleeper is due. -/
def CutsFit (s : State) (q : PId) (now now2 : Nat) (cuts : List Nat) : Prop :=
  (s.p q).ready = [] →
    ((s.p q).sleeping = [] → cuts.sum = 0) ∧
    ∀ w, Earliest s (s.p q).sleeping w → now < w → w ≠ now2 →
      now2 < w ∧ w < now2 + 2 ^ 31 * 1000 ∧ cuts.sum ≤ (w - now2) % 1000

theorem waitsInTime_iff_cutsFit {cuts : List Nat} (h : Reaches Calm s) (hq : (s.sched a).p = some q)
    (h2 : now2 < 2 ^ 64) (hcuts : MayCut s q now now2 cuts) :
    WaitsInTime s a q now now2 cuts ↔ CutsFit s q now now2 cuts := by
  rw [waitsInTime_iff_usecs h hq hcuts]
  refine forall_congr' fun _ => ?_
  by_cases hnil : (s.p q).sleeping = []
  · have hnone : ∀ w, ¬Earliest s (s.p q).sleeping w := fun w hw => hw.ne_nil hnil
    rw [uthreadMinTimeout_nil hnil]
    constructor
    · intro hin
      obtain ⟨-, hsum, -⟩ := hin (by decide)
      exact ⟨fun _ => by omega, fun w hw => absurd hw (hnone w)⟩
    · rintro ⟨hsum, -⟩ -
      have hsum := hsum hnil
      exact ⟨by decide, by omega, fun w hw => absurd hw (hnone w)⟩
  · obtain ⟨w, hw⟩ := exists_earliest s hnil
    have hlt := hw.lt_of_reaches h
    have hne : uthreadMinTimeout s (s.p q) now now2 ≠ 0 ↔ now < w ∧ w ≠ now2 := hw.usecs_ne_zero_iff hlt h2
    constructor
    · intro hin
      refine ⟨fun he => absurd he hnil, fun w' hw' hnow hother => ?_⟩
      obtain rfl := hw'.unique hw
      obtain ⟨hrange, hsum, hfirst⟩ := hin (hne.mpr ⟨hnow, hother⟩)
      have hle := hfirst w' hw
      rw [hw.usecs_eq hlt hle (hne.mpr ⟨hnow, hother⟩)] at hrange hsum
      omega
    · rintro ⟨-, hfit⟩ husecs
      obtain ⟨hnow, hother⟩ := hne.mp husecs
      obtain ⟨hle, hrange, hsum⟩ := hfit w hw hnow hother
      rw [hw.usecs_eq hlt (Nat.le_of_lt hle) husecs]
      refine ⟨by omega, hsum, fun w' hw' => ?_⟩
      rw [hw'.unique hw]
      omega

/-- One cut after a millisecond is too much, unless the time that is asked for is less. -/
theorem usecs_lt_of_all (h : Reaches Calm s) (hq : (s.sched a).p = some q)
    (hall : ∀ cuts, MayCut s q now now2 cuts → WaitsInTime s a q now now2 cuts) (hready : (s.p q).ready = [])
    (husecs : uthreadMinTimeout s (s.p q) now now2 ≠ 0) : uthreadMinTimeout s (s.p q) now now2 < 1000 := by
  by_contra hlong
  have hcut : MayCut s q now now2 [1000] := by
    intro timeout ht d hd
    obtain ⟨-, -, rfl⟩ := epollTimeout_eq_some.mp ht
    rw [List.mem_singleton.mp hd]
    exact mayTake_iff.mpr fun _ _ => by omega
  obtain ⟨-, hsum, -⟩ := (waitsInTime_iff_usecs h hq hcut).mp (hall _ hcut) hready husecs
  have hleft := Nat.mod_lt (uthreadMinTimeout s (s.p q) now now2) (show 0 < 1000 by decide)
  have hone : [1000].sum = 1000 := rfl
  omega

/-- Nothing is cut from a call that takes no time. -/
theorem MayCut.sum_eq_zero {cuts : List Nat} (h : MayCut s q now now2 cuts) (hready : (s.p q).ready = [])
    (husecs : uthreadMinTimeout s (s.p q) now now2 ≠ 0) (hlt : uthreadMinTimeout s (s.p q) now now2 < 1000) :
    cuts.sum = 0 := by
  refine List.sum_eq_zero fun d hd => ?_
  have htake := mayTake_iff.mp (h _ (epollTimeout_of_usecs hready rfl husecs) d hd)
    (Int.natCast_nonneg _) (by unfold maxTimeout; omega)
  omega

theorem all_waitsInTime_iff (h : Reaches Calm s) (hq : (s.sched a).p = some q)
    (h2 : now2 < 2 ^ 64) :
    (∀ cuts, MayCut s q now now2 cuts → WaitsInTime s a q now now2 cuts) ↔
      ((s.p q).ready = [] → (s.p q).sleeping ≠ [] ∧
        ∀ w, Earliest s (s.p q).sleeping w → now < w → now2 ≤ w ∧ w < now2 + 1000) := by
  constructor
  · intro hall hready
    have hshort := usecs_lt_of_all h hq hall hready
    refine ⟨fun hnil => ?_, fun w hw hnow => ?_⟩
    · rw [uthreadMinTimeout_nil hnil] at hshort
      exact absurd (hshort (by decide)) (by decide)
    · by_cases heq : w = now2
      · omega
      · have hlt := hw.lt_of_reaches h
        have husecs := (hw.usecs_ne_zero_iff hlt h2).mpr ⟨hnow, heq⟩
        have huncut : MayCut s q now now2 [] := fun _ _ d hd => by cases hd
        obtain ⟨-, -, hfirst⟩ := (waitsInTime_iff_usecs h hq huncut).mp (hall _ huncut) hready husecs
        have hle := hfirst w hw
        have hlast := hshort husecs
        rw [hw.usecs_eq hlt hle husecs] at hlast
        omega
  · intro hnear cuts hcuts
    refine (waitsInTime_iff_cutsFit h hq h2 hcuts).mpr fun hready => ?_
    obtain ⟨hne, hdue⟩ := hnear hready
    refine ⟨fun hnil => absurd hnil hne, fun w hw hnow hother => ?_⟩
    obtain ⟨hle, hlt⟩ := hdue w hw hnow
    have hw64 := hw.lt_of_reaches h
    have husecs := (hw.usecs_ne_zero_iff hw64 h2).mpr ⟨hnow, hother⟩
    have hsum := hcuts.sum_eq_zero hready husecs (by rw [hw.usecs_eq hw64 hle husecs]; omega)
    omega

/-- **Interruptions do not prolong the wait exactly when, together, they fit into what the rounding
has left over**; and none can prolong it only if the first sleeper is due within a millisecond. -/
theorem interrupted_poll_iff (h : Reaches Calm s) (hq : (s.sched a).p = some q)
    (now : Nat) (h2 : now2 < 2 ^ 64) :
    (∀ cuts, MayCut s q now now2 cuts →
      (WaitsInTime s a q now now2 cuts ↔ CutsFit s q now now2 cuts)) ∧
    ((∀ cuts, MayCut s q now now2 cuts → WaitsInTime s a q now now2 cuts) ↔
      ((s.p q).ready = [] → (s.p q).sleeping ≠ [] ∧
        ∀ w, Earliest s (s.p q).sleeping w → now < w → now2 ≤ w ∧ w < now2 + 1000)) :=
  ⟨fun _ hcuts => waitsInTime_iff_cutsFit h hq h2 hcuts, all_waitsInTime_iff h hq h2⟩

end Poll

/-- A microsecond later 999 milliseconds are asked for, which leaves 999 microseconds for the
interruptions. -/
theorem bothWait_cut_in_time : ∃ s, Reaches Calm s ∧ (s.sched 0).pc = .poll ∧
    epollTimeout s 0 1 1 = some 999 ∧ WaitsInTime s 0 0 1 1 [400, 500] := by
  obtain ⟨s, hreach, hpc, hq, hready, hfirst⟩ := bothWait_polls
  have husecs : uthreadMinTimeout s (s.p 0) 1 1 = 999999 := uthreadMinTimeout_earliest hfirst 1 1
  have htimeout : epollTimeout s 0 1 1 = some 999 := epollTimeout_of_usecs hready husecs (by decide)
  have hcuts : MayCut s 0 1 1 [400, 500] := by
    intro timeout ht
    rw [← Option.some.inj (htimeout.symm.trans ht)]
    decide
  refine ⟨s, hreach, hpc, htimeout, ?_⟩
  refine ((interrupted_poll_iff hreach hq 1 (by decide)).1 _ hcuts).mpr fun _ => ?_
  refine ⟨fun hnil => absurd hnil hfirst.ne_nil, fun w hw _ _ => ?_⟩
  rw [hw.unique hfirst]
  decide

/-- A signal comes just before the second is over: the thread is blocked for two. -/
theorem bothWait_overruns : ∃ s s', Reaches Calm s ∧ (s.sched 0).pc = .poll ∧
    uthreadMinTimeout s (s.p 0) 0 0 = 1000000 ∧ Earliest s (s.p 0).sleeping 1000000 ∧
    MayCut s 0 0 0 [999999, 1000000] ∧
    uthreadPollTimed 0 0 0 [.cut 999999, ⟨1000000, .events []⟩] s = .ok (s', 1999999) ∧
    ¬WaitsInTime s 0 0 0 0 [999999] := by
  obtain ⟨s, hreach, hpc, hq, hready, hfirst⟩ := bothWait_polls
  have husecs : uthreadMinTimeout s (s.p 0) 0 0 = 1000000 := uthreadMinTimeout_earliest hfirst 0 0
  have htimeout : epollTimeout s 0 0 0 = some 1000 := epollTimeout_of_usecs hready husecs (by decide)
  have hreturns : ∃ s', uthreadPollTimed 0 0 0 [.cut 999999, ⟨1000000, .events []⟩] s = .ok (s', 1999999) :=
    uthreadPollTimed_returns hq htimeout (List.forall_mem_singleton.mpr (by decide)) (by decide) rfl
  obtain ⟨s', hs'⟩ := hreturns
  refine ⟨s, s', hreach, hpc, husecs, hfirst, ?_, hs', fun hin => ?_⟩
  · intro timeout ht
    rw [← Option.some.inj (htimeout.symm.trans ht)]
    decide
  · have hlast : MayCut s 0 0 0 [1000000] := by
      intro timeout ht
      rw [← Option.some.inj (htimeout.symm.trans ht)]
      decide
    obtain ⟨s₂, clock, hs₂, hle, -⟩ := hin 1000000 [] hlast rfl
    cases hs'.symm.trans hs₂
    rw [husecs] at hle
    revert hle
    decide

end UthreadRuntime
