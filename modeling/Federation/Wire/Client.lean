/-
  The collaborator's side of the federation's calls.

  * `Client.joined`, `Client.submitted`, `Client.fetched`: what an answer from the wire means;
  * `Client.join`, `Client.submit`: calls that arrive, and whose answers arrive;
  * `Client.limit`: how long a call may take;
  * `Fate`: what else can become of a call: it may never be connected, and messages may get lost.
-/
import Federation.Aggregator.Service
import Federation.Collaborator.Machine
import Federation.Wire.Network

namespace Federation.Wire

open Disk (Program)

/-! ## Calls that arrive -/

namespace Client

def joined (answer : Except Status JoinResponse) : Except FederationError ModelView :=
  (answer.map JoinResponse.view).mapError Status.toError

def submitted (answer : Except Status SubmitAck) : Except FederationError SubmitReceipt :=
  (answer.map fun a => ⟨a.currentRound, a.roundClosed⟩).mapError Status.toError

def fetched (answer : Except Status ModelSnapshot) : Except FederationError ModelView :=
  (answer.map ModelSnapshot.view).mapError Status.toError

variable {σ : Type} [AggregationStrategy σ]

def join (s : FederationService σ) (now : Nat) (id : String) :
    Except FederationError ModelView × FederationService σ :=
  let (answer, s) := s.join now ⟨id⟩
  (joined answer, s)

def submit (s : FederationService σ) (now : Nat) (id : String) (u : ModelUpdate) :
    Program (Except FederationError SubmitReceipt × FederationService σ) := do
  let (answer, s) ← s.submit now (.ofUpdate id u)
  return (submitted answer, s)

/-- The long poll that a request for the latest model becomes on the other side. -/
def longPoll (id : String) (minRound wait : Nat) : LongPoll :=
  FederationService.longPoll (.ofWait id minRound wait)

/-- The end of that long poll as the client sees it. -/
def latest (result : Except FederationError ModelView) : Except FederationError ModelView :=
  fetched (FederationService.answerLatest result)

end Client

/-- How long a call may take: as long as the settings say, and a long poll as much longer as it is
to wait. -/
def Client.limit (rpcTimeout : Nat) : Demand → Nat
  | .latest _ wait => rpcTimeout + wait
  | _ => rpcTimeout

/-! ## Calls that fail on the way -/

/-- Decimal digits without the zeros at the end, after a point; nothing when none are left. -/
def fractionText (digits : List Char) : String :=
  let kept := (digits.reverse.dropWhile (· = '0')).reverse
  if kept.isEmpty then "" else "." ++ String.ofList kept

/-- A number with leading zeros, three digits wide. -/
def threeDigits (n : Nat) : List Char :=
  [digitOf (n / 100 % 10), digitOf (n / 10 % 10), digitOf (n % 10)]

/-- A span of milliseconds in the largest unit that fits. -/
def spanText (milliseconds : Nat) : String :=
  if milliseconds = 0 then "0ns"
  else if milliseconds < 1000 then s!"{milliseconds}ms"
  else toString (milliseconds / 1000) ++ fractionText (threeDigits (milliseconds % 1000)) ++ "s"

/-- A call that got no answer in the time it is allowed. -/
def timedOut (limit : Nat) : FederationError :=
  .transport ("call timed out after " ++ spanText limit)

/-- A call that could not be connected; one that is allowed no time at all is given up first. -/
def unconnected (e : ConnectError) (limit : Nat) : FederationError :=
  if limit = 0 then timedOut 0 else e.status.toError

/-- What becomes of a call. -/
inductive Fate where
  | answered
  | requestLost
  | answerLost
  | unconnected (e : ConnectError)
  deriving DecidableEq, Repr

/-- A call with its fate.  It changes the other side only if the request arrives. -/
def Fate.carry {S α : Type} (fate : Fate) (limit : Nat)
    (call : S → Except FederationError α × S) (s : S) : Except FederationError α × S :=
  match fate with
  | answered => call s
  | requestLost => (.error (timedOut limit), s)
  | answerLost => (.error (timedOut limit), (call s).2)
  | unconnected e => (.error (Wire.unconnected e limit), s)

end Federation.Wire
