/-
  The aggregator's side of the federation's calls.

  * `FederationService`: a round engine and the file its models are published to;
  * `join`, `submit`, `beginLatest`, `answerLatest`: the three calls, on messages;
  * `watch`: the watchdog that closes rounds which have been open for too long.
-/
import Federation.Aggregator.Publisher
import Federation.Round.LongPoll
import Federation.Wire.Message
import Federation.Wire.Status

namespace Federation

open Disk (Program)
open Wire

structure FederationService (σ : Type) where
  engine : RoundEngine σ
  publisher : Publisher

namespace FederationService

variable {σ : Type} [AggregationStrategy σ]

def create (engine : RoundEngine σ) (output : Option String) : FederationService σ :=
  ⟨engine, .create output⟩

def publish (s : FederationService σ) (v : ModelView) : Program (FederationService σ) := do
  return { s with publisher := ← s.publisher.publish v }

/-- Publish the model of a round that was closed. -/
def publishClosed (s : FederationService σ) : Option ModelView → Program (FederationService σ)
  | some v => s.publish v
  | none => return s

/-! ## Joining -/

def joinResponse (o : JoinOutcome) : JoinResponse :=
  ⟨o.view.model, o.view.round, o.view.version, o.newlyJoined⟩

def join (s : FederationService σ) (now : Nat) (r : JoinRequest) :
    Except Status JoinResponse × FederationService σ :=
  let (result, engine) := s.engine.join now r.collaboratorId
  ((result.map joinResponse).mapError Status.ofError, { s with engine := engine })

/-! ## Submitting -/

/-- The largest number of pending updates an acknowledgement can tell. -/
def maxPending : Nat := 4294967295

def submitAck (o : SubmitOutcome) : SubmitAck :=
  ⟨true, o.round, o.closed.isSome, min o.pending maxPending⟩

/-- Apply a submitted update.  The model of a round that it closed is published before the
acknowledgement. -/
def submit (s : FederationService σ) (now : Nat) (m : UpdateMessage) :
    Program (Except Status SubmitAck × FederationService σ) :=
  let (result, engine) := s.engine.submit now m.collaboratorId m.toUpdate
  let s := { s with engine := engine }
  match result with
  | .error e => return (.error (.ofError e), s)
  | .ok o => do return (.ok (submitAck o), ← s.publishClosed o.closed)

/-! ## The latest model -/

/-- The long poll behind a request for the latest model. -/
def longPoll (r : GetModelRequest) : LongPoll := ⟨r.collaboratorId, r.minRound, r.waitMs⟩

/-- What a long poll that is over is answered with. -/
def answerLatest (result : Except FederationError ModelView) : Except Status ModelSnapshot :=
  (result.map .ofView).mapError .ofError

/-- A server that shuts down lets nobody wait: those who do read the model once more. -/
def drain : LongPollPhase → LongPollPhase
  | .subscribing | .waiting _ => .rereading
  | phase => phase

/-! ## The watchdog -/

/-- The watchdog looks four times in the time it allows a round, but not more often than this. -/
def shortestPeriod : Nat := 250

/-- Milliseconds between two looks. -/
def watchPeriod (timeout : Nat) : Nat := max (timeout / 4) shortestPeriod

/-- One look of the watchdog. -/
def look (s : FederationService σ) (now timeout : Nat) : Program (FederationService σ) :=
  let (result, engine) := s.engine.closeIfOverdue now timeout
  let s := { s with engine := engine }
  match result with
  | .ok closed => s.publishClosed closed
  | .error _ => return s

/-- Looks at some times, one after the other. -/
def lookAt (s : FederationService σ) (timeout : Nat) : List Nat → Program (FederationService σ)
  | [] => return s
  | now :: rest => do (← s.look now timeout).lookAt timeout rest

/-- When the watchdog looks within a span of time; the first look is at the start. -/
def lookTimes (start timeout span : Nat) : List Nat :=
  (List.range (span / watchPeriod timeout + 1)).map fun k => start + k * watchPeriod timeout

/-- Let the watchdog run for a span of time. -/
def watch (s : FederationService σ) (start timeout span : Nat) : Program (FederationService σ) :=
  s.lookAt timeout (lookTimes start timeout span)

end FederationService

end Federation
