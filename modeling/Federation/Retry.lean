/-
  Retrying with exponential backoff.

  * `Backoff.delayAfter`: how long to wait after an attempt;
  * `Backoff.retryIf`: attempts until one succeeds, fails for good, or uses up the budget;
  * `RetryPolicy`: the same in milliseconds, as the federation's processes are set up with it.

  A wait grows in floating-point seconds and is rounded to nanoseconds.
-/
import Federation.Numeric.Decimal

namespace Federation

/-! ## Spans of time -/

def nanosPerMilli : Nat := 1000000
def nanosPerSecond : Nat := 1000000000

/-- A span as seconds: the whole ones, and the rest as a quotient. -/
def secondsOfNanos (n : Nat) : Double :=
  Double.ofNat (n / nanosPerSecond) +
    Double.ofNat (n % nanosPerSecond) / Double.ofNat nanosPerSecond

/-- The whole number of nanoseconds that is nearest to `m * 2 ^ e` seconds, of two the even one. -/
def nanosOfParts (m : Nat) (e : Int) : Nat :=
  if 0 ≤ e then m * nanosPerSecond * twoTo e.toNat
  else Format.shiftRound (m * nanosPerSecond) (-e).toNat false

/-- Seconds as a span; what is no number, or endless, is none. -/
def nanosOfSeconds (x : Double) : Nat :=
  match x.unpack with
  | .finite false m e => nanosOfParts m e
  | _ => 0

/-- The milliseconds a sleep takes: it ends with the first one that is not too early. -/
def sleepMillis (nanos : Nat) : Nat := (nanos + (nanosPerMilli - 1)) / nanosPerMilli

/-! ## Waiting -/

/-- How waits grow. -/
structure Backoff where
  /-- The first wait, in nanoseconds. -/
  base : Nat
  /-- No wait is longer than this; in nanoseconds. -/
  limit : Nat
  /-- The share of a wait by which it may be longer or shorter; waits are given here without. -/
  jitter : Double
  deriving DecidableEq, Repr

/-- What retrying does, in order. -/
inductive RetryEvent where
  /-- An attempt, which is told its number. -/
  | attempt (n : Nat)
  /-- A wait, in nanoseconds. -/
  | wait (nanos : Nat)
  deriving DecidableEq, Repr

namespace RetryEvent

def attempt? : RetryEvent → Option Nat
  | attempt n => some n
  | wait _ => none

def wait? : RetryEvent → Option Nat
  | attempt _ => none
  | wait nanos => some nanos

end RetryEvent

/-- How retrying went: what came of it, and all that was done on the way. -/
structure RetryOutcome (ε α : Type) where
  result : Except ε α
  events : List RetryEvent

namespace RetryOutcome

variable {ε α : Type}

/-- The numbers of the attempts made. -/
def attempts (o : RetryOutcome ε α) : List Nat := o.events.filterMap RetryEvent.attempt?

/-- The waits between them, in nanoseconds. -/
def delays (o : RetryOutcome ε α) : List Nat := o.events.filterMap RetryEvent.wait?

end RetryOutcome

namespace Backoff

/-- Doublings stop here. -/
def maxDoublings : Nat := 30

/-- The wait after attempt `n`, counted from zero, before it is limited. -/
def doubled (b : Backoff) (n : Nat) : Nat :=
  nanosOfSeconds (Double.ofNat (twoTo (min n maxDoublings)) * secondsOfNanos b.base)

/-- The wait after attempt `n` in nanoseconds; one that is subject to jitter is cut to whole
milliseconds. -/
def delayAfter (b : Backoff) (n : Nat) : Nat :=
  let delay := min (b.doubled n) b.limit
  if b.jitter.le .zero then delay else delay / nanosPerMilli * nanosPerMilli

variable {ε α : Type}

/-- Attempts from number `n` on.  The budget says which attempt is the last. -/
def attemptFrom (b : Backoff) (maxRetries : Nat) (retryable : ε → Bool) (op : Nat → Except ε α)
    (n : Nat) : RetryOutcome ε α :=
  match op n with
  | .ok a => ⟨.ok a, [.attempt n]⟩
  | .error e =>
    if maxRetries ≤ n ∨ retryable e = false then ⟨.error e, [.attempt n]⟩
    else
      let rest := b.attemptFrom maxRetries retryable op (n + 1)
      ⟨rest.result, .attempt n :: .wait (b.delayAfter n) :: rest.events⟩
termination_by maxRetries - n

/-- Retry as long as the errors are retryable and the budget lasts.  The operation is told the
number of the attempt. -/
def retryIf (b : Backoff) (maxRetries : Nat) (retryable : ε → Bool) (op : Nat → Except ε α) :
    RetryOutcome ε α :=
  b.attemptFrom maxRetries retryable op 0

/-- Retry whatever the error is. -/
def retry (b : Backoff) (maxRetries : Nat) (op : Nat → Except ε α) : RetryOutcome ε α :=
  b.retryIf maxRetries (fun _ => true) op

end Backoff

/-! ## Policies -/

structure RetryPolicy where
  maxRetries : Nat
  /-- In milliseconds. -/
  baseDelay : Nat
  /-- In milliseconds. -/
  maxDelay : Nat
  jitter : Double
  deriving DecidableEq, Repr

namespace RetryPolicy

def default : RetryPolicy := ⟨5, 50, 1500, ⟨0x3fd0000000000000⟩⟩

def withMaxRetries (p : RetryPolicy) (n : Nat) : RetryPolicy := { p with maxRetries := n }

def backoff (p : RetryPolicy) : Backoff :=
  ⟨p.baseDelay * nanosPerMilli, p.maxDelay * nanosPerMilli, p.jitter⟩

/-- The wait after attempt `n` in nanoseconds. -/
def delayAfter (p : RetryPolicy) (n : Nat) : Nat := p.backoff.delayAfter n

variable {ε α : Type}

def retryIf (p : RetryPolicy) (retryable : ε → Bool) (op : Nat → Except ε α) : RetryOutcome ε α :=
  p.backoff.retryIf p.maxRetries retryable op

def retry (p : RetryPolicy) (op : Nat → Except ε α) : RetryOutcome ε α :=
  p.backoff.retry p.maxRetries op

end RetryPolicy

end Federation
