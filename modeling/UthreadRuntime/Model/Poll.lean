import UthreadRuntime.Model.Inversion
import Mathlib.Data.Rat.Defs

/-! The wait of `_uthread_poll`, on a clock.

`uthreadPoll` takes the answer of `epoll_wait` as it finally comes. Here the timeout that is
handed to it is computed, and each of its calls takes time: a call that a signal cuts short is
made again, and the clock goes on. -/
namespace UthreadRuntime

open State

/-! ### The timeout -/

/-- `struct timespec`; what `_uthread_poll` stores in it fits its signed fields. -/
structure Timespec where
  tvSec : Nat := 0
  tvNsec : Nat := 0

/-- Microseconds as seconds and nanoseconds, in 64 bits. -/
def pollTimespec (usecs : Nat) : Timespec :=
  let tvSec := usecs / 1000000
  if tvSec ≠ 0 then {tvSec, tvNsec := usecs % 1000000 * 1000 % 2 ^ 64}
  else {tvSec, tvNsec := usecs * 1000 % 2 ^ 64}

/-- `t.tv_sec*1000.0 + t.tv_nsec/1000000.0`, exactly. -/
def Timespec.millis (t : Timespec) : ℚ := t.tvSec * 1000 + t.tvNsec / 1000000

/-- A conversion to an integer type drops the fraction. -/
def truncate (x : ℚ) : Int := x.num.tdiv x.den

def pollMillis (usecs : Nat) : Int := truncate (pollTimespec usecs).millis

/-- The timeout of the calls of `epoll_wait`, or none if `_uthread_poll` returns before them. -/
def epollTimeout (s : State) (q : PId) (now now2 : Nat) : Option Int :=
  let usecs := uthreadMinTimeout s (s.p q) now now2
  if usecs ≠ 0 ∧ (s.p q).ready.isEmpty then some (pollMillis usecs) else none

/-! ### The calls -/

/-- What a call of `epoll_wait` returns; `interrupted` is `-1` with `EINTR`. -/
inductive EpollResult where
  | events (es : List EpollEvent)
  | interrupted
  | failed
  deriving DecidableEq

/-- A call and its length in microseconds. -/
structure EpollCall where
  took : Nat
  result : EpollResult

/-- `INT_MAX` -/
def maxTimeout : Int := 2147483647

/-- How long a call may last. A negative timeout is none, and for a value that is not in `int`
the conversion is not defined, so that nothing can be relied on. -/
def mayTake (timeout : Int) (took : Nat) : Bool :=
  decide (0 ≤ timeout ∧ timeout ≤ maxTimeout → took ≤ 1000 * timeout)

/-- The loop around `epoll_wait`: what it reported in the end, and when. -/
def epollWaits (timeout : Int) (l : List Interest) (clock : Nat) :
    List EpollCall → Except Stop (List EpollEvent × Nat)
  | [] => .error .disabled
  | c :: calls =>
    if mayTake timeout c.took then
      match c.result with
      -- once more, and the timeout is not computed anew
      | .interrupted => epollWaits timeout l (clock + c.took) calls
      | .failed => .error (.fault (.assertion .epollWait))
      | .events es => if pollable l es then .ok (es, clock + c.took) else .error .disabled
    else .error .disabled

/-- `_uthread_poll`; the clock is that of the second reading when the first call begins. -/
def uthreadPollTimed (a : SId) (now now2 : Nat) (calls : List EpollCall) (s : State) :
    Except Stop (State × Nat) := do
  let q ← s.bound a .poll
  let s := s.setP q fun v => {v with numNewEvents := 0}
  match epollTimeout s q now now2 with
  | none => .ok (setPc a .events s, now2)
  | some timeout => do
    let (es, clock) ← epollWaits timeout (s.p q).interest now2 calls
    .ok (setPc a .events (polled q es s), clock)

end UthreadRuntime
