import UthreadRuntime.Model.Resume

/-! The scheduler loop (`_sched_run` and what it calls, `uthread_sched.c`).

One step takes the thread of sched `a` from one place of the loop to the next, or
to the uthread it resumes; the place it will go on at is then already recorded. -/
namespace UthreadRuntime

open State

def setPc (a : SId) (k : SchedAt) (s : State) : State := s.setSched a fun v => {v with pc := k}

/-- `_sched_work_done` -/
def schedWorkDone (p : P) : Bool := p.ready.isEmpty && p.sleeping.isEmpty && p.waiting.isEmpty

/-- The uthread at the head of the sleeping tree, its time having come, is resumed. -/
def resumeExpired (a : SId) (u : UId) (s : State) : Except Stop State := do
  let s ← uthreadCancelEvent a u s
  let s ← uthreadDeschedSleep u s
  .ok (uthreadResume a u .expiry (s.setUt u fun v =>
    {v with status := v.status.add .expired, hist := {v.hist with waits := .expired :: v.hist.waits}}))

/-- One turn of the loop of `_uthread_resume_expired`. -/
def uthreadResumeExpired (a : SId) (r : Reply) (s : State) : Except Stop State :=
  match (s.sched a).p with
  | none => .ok (setPc a .lastReady s)
  | some q =>
    match minSleeping s (s.p q).sleeping with
    | none => .ok (setPc a .lastReady s)
    | some u =>
      if (s.ut u).wakeupTimeUsec ≤ r.now then resumeExpired a u s else .ok (setPc a .lastReady s)

/-- `_uthread_min_timeout`, with its two readings of the clock. -/
def uthreadMinTimeout (s : State) (p : P) (now now2 : Nat) : Nat :=
  match minSleeping s p.sleeping with
  | none => 1000000
  | some u =>
    let min := (s.ut u).wakeupTimeUsec
    if min > now then (min + 2 ^ 64 - now2) % 2 ^ 64 else 0

/-- What `epoll_wait` may report: at most 1024 distinct armed members of the interest set. -/
def pollable (l : List Interest) (es : List EpollEvent) : Bool :=
  decide (es.length ≤ 1024) && decide (es.map EpollEvent.fd).Nodup &&
    es.all fun e => l.any fun i => i.fd == e.fd && i.armed

/-- A reported member of the interest set is one-shot: it stays, disarmed. -/
def disarm (es : List EpollEvent) (l : List Interest) : List Interest :=
  l.map fun i => if i.fd ∈ es.map EpollEvent.fd then {i with armed := false} else i

/-- `_uthread_poll`; a call of `epoll_wait` cut short by a signal is repeated, so the
answer is that of the last call. -/
def uthreadPoll (a : SId) (r : Reply) (s : State) : Except Stop State := do
  let q ← s.bound a .poll
  let s := s.setP q fun v => {v with numNewEvents := 0}
  if uthreadMinTimeout s (s.p q) r.now r.now2 ≠ 0 ∧ (s.p q).ready.isEmpty then
    if r.ok then
      if pollable (s.p q).interest r.events then
        .ok (setPc a .events (s.setP q fun v =>
          {v with
            interest := disarm r.events v.interest
            eventlist := r.events
            numNewEvents := r.events.length
            posted := v.posted ++ r.events}))
      else .error .disabled
    else .error (.fault (.assertion .epollWait))
  else .ok (setPc a .events s)

/-- `handle_event`; the loop goes on at `k`. -/
def handleEvent (a : SId) (fd : Int) (ev : UthreadEvent) (isEof : Bool) (k : SchedAt) (s : State) :
    Except Stop State := do
  let (found, s) ← uthreadDeschedEvent a fd ev.toNat s
  match found with
  | none => .ok (setPc a k s)
  | some u =>
    if fd = fdOnly (s.ut u).fdWait then do
      let s ← epollDel u fd .handleEvent .eventDel
        (s.setUt u fun v => {v with status := clearWait v.status})
      let s := s.setUt u fun v =>
        {v with
          status := if isEof then v.status.add .fdeof else v.status
          hist := {v.hist with waits := .event :: v.hist.waits}}
      .ok (uthreadResume a u k s)
    else .error (.fault (.assertion .eventFd))

/-- The context is that of a uthread which has put `fd` in the interest set and has not yielded yet. -/
def Ctx.registering (fd : Int) : Ctx → Bool
  | .register c .status | .register c .key | .register c .insert => c.fd == fd
  | .sleep _ .wake => false
  | .sleep (.event c) _ => c.fd == fd
  | _ => false

/-- History only: an event reported for `q` meets a uthread between registering and yielding. -/
def markConsumed (q : PId) (fd : Int) (s : State) : State :=
  {s with consumed := fun u =>
    (decide ((s.ut u).p = some q) && (s.ut u).ctx.registering fd) || s.consumed u}

/-- The last unread entry of the event list is taken and dispatched for reading. -/
def takeEvent (a : SId) (q : PId) (s : State) : Except Stop State :=
  let id := (s.p q).numNewEvents - 1
  match (s.p q).eventlist[id]? with
  | none => .error .disabled
  | some e =>
    let s := s.setP q fun v => {v with numNewEvents := id, taken := v.taken ++ [e]}
    let s := if e.hup then s.setSched a fun v => {v with errno := .econnreset} else s
    handleEvent a e.fd .rd e.hup (.handleWr e.fd e.hup) (markConsumed q e.fd s)

/-- One step of `_sched_run` on the thread of `a`. -/
def schedRun (a : SId) (r : Reply) (s : State) : Except Stop State :=
  match (s.sched a).pc with
  | .off => .error .disabled
  | .another => do
    let q ← s.bound a .another
    .ok (setPc a .top (s.setP q fun v => {v with tid := a}))
  | .top =>
    match (s.sched a).p with
    | none => .ok (setPc a .done s)
    | some q => .ok (setPc a (if schedWorkDone (s.p q) then .done else .expiry) s)
  | .expiry => uthreadResumeExpired a r s
  | .lastReady => do
    let q ← s.bound a .schedLastReady
    .ok (setPc a (.ready (s.p q).ready.getLast?) s)
  | .ready last => do
    let q ← s.bound a .schedReady
    match (s.p q).ready with
    | [] => .ok (setPc a .pollCheck s)
    | u :: rest => .ok (uthreadResume a u (.readyAfter last u) (s.setP q fun v => {v with ready := rest}))
  | .readyAfter last u =>
    match (s.sched a).p with
    | none => .ok (setPc a .pollCheck s)
    | some _ => .ok (setPc a (if last = some u then .pollCheck else .ready last) s)
  | .pollCheck =>
    match (s.sched a).p with
    | none => .ok (setPc a .done s)
    | some _ => .ok (setPc a .poll s)
  | .poll => uthreadPoll a r s
  | .events =>
    match (s.sched a).p with
    | none => .ok (setPc a .top s)
    | some q => if (s.p q).numNewEvents = 0 then .ok (setPc a .top s) else takeEvent a q s
  | .handleWr fd eof => handleEvent a fd .wr eof .events s
  | .done =>
    if s.nUthread = 0 then
      -- the lock that is taken before free_source() is never given back
      if s.mutex.isSome then .error .disabled else .ok {s with halted := true}
    else .ok (setPc a .top s)

end UthreadRuntime
