/-
  Waiting for a round.

  A long poll reads the current model, and if the round is not there yet, subscribes to the
  announcements, waits for one or for its deadline, and reads again.  Each of these happens on its
  own, so that anything may happen in between.
-/
import Federation.Round.Engine

namespace Federation

/-- The longest wait, in milliseconds. -/
def maxWait : Nat := 30000

structure LongPoll where
  id : String
  minRound : Nat
  /-- How long to wait at most; zero is not at all. -/
  timeout : Nat
  deriving DecidableEq, Repr

/-- How far a long poll has come. -/
inductive LongPollPhase where
  | reading
  | subscribing
  | waiting (deadline : Nat)
  | rereading
  | finished (result : Except FederationError ModelView)

namespace LongPoll

variable {σ : Type} [AggregationStrategy σ]

/-- Does this model end the wait before it begins? -/
def satisfiedBy (p : LongPoll) (v : ModelView) : Bool :=
  decide (p.minRound ≤ v.round) || decide (p.timeout = 0)

/-- One step at a time of the waiter's clock; `instant` is the time of the engine's clock.  A step
that cannot be taken yet leaves everything as it is. -/
def step (p : LongPoll) (clock instant : Nat) (e : RoundEngine σ) :
    LongPollPhase → LongPollPhase × RoundEngine σ
  | .reading =>
    match e.latest instant p.id with
    | (.error error, e) => (.finished (.error error), e)
    | (.ok v, e) => (if p.satisfiedBy v then .finished (.ok v) else .subscribing, e)
  | .subscribing => (.waiting (clock + min p.timeout maxWait), e)
  | .waiting deadline =>
    if p.minRound ≤ e.state.announced || deadline ≤ clock then (.rereading, e)
    else (.waiting deadline, e)
  | .rereading =>
    let (result, e) := e.latest instant p.id
    (.finished result, e)
  | .finished result => (.finished result, e)

/-- Steps until nothing more can be done at this time. -/
def settle (p : LongPoll) (clock instant : Nat) (e : RoundEngine σ) (phase : LongPollPhase) :
    LongPollPhase × RoundEngine σ :=
  let (phase, e) := p.step clock instant e phase
  let (phase, e) := p.step clock instant e phase
  let (phase, e) := p.step clock instant e phase
  p.step clock instant e phase

end LongPoll

/-- When a phase ends by itself. -/
def LongPollPhase.deadline? : LongPollPhase → Option Nat
  | .waiting deadline => some deadline
  | _ => none

def LongPollPhase.result? : LongPollPhase → Option (Except FederationError ModelView)
  | .finished result => some result
  | _ => none

end Federation
