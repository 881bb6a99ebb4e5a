/-
  Histories of a round engine: calls by anyone, in any order.
-/
import Federation.Round.Engine

namespace Federation

/-- One call of an operation. -/
inductive RoundCall where
  | join (id : String)
  | submit (id : String) (update : ModelUpdate)
  | latest (id : String)
  | forceClose
  | closeIfOverdue (timeout : Nat)
  deriving DecidableEq, Repr

/-- What a call is answered with when it succeeds. -/
inductive RoundAnswer where
  | joined (outcome : JoinOutcome)
  | submitted (outcome : SubmitOutcome)
  | shown (view : ModelView)
  /-- The outcome of an attempt to close the round. -/
  | closing (view : Option ModelView)
  deriving DecidableEq, Repr

namespace RoundAnswer

/-- The model the answer shows, if it shows one. -/
def view? : RoundAnswer → Option ModelView
  | joined o => some o.view
  | submitted o => o.closed
  | shown v => some v
  | closing v => v

/-- The model of a round that this call closed. -/
def closed? : RoundAnswer → Option ModelView
  | joined _ | shown _ => none
  | submitted o => o.closed
  | closing v => v

end RoundAnswer

namespace RoundEngine

variable {σ : Type} [AggregationStrategy σ]

/-- Carry out a call at a time. -/
def perform (e : RoundEngine σ) (now : Nat) (call : RoundCall) : Result σ RoundAnswer :=
  match call with
  | .join id => wrap .joined (e.join now id)
  | .submit id u => wrap .submitted (e.submit now id u)
  | .latest id => wrap .shown (e.latest now id)
  | .forceClose => wrap .closing (e.forceClose now)
  | .closeIfOverdue timeout => wrap .closing (e.closeIfOverdue now timeout)
where
  wrap {α : Type} (f : α → RoundAnswer) (r : Result σ α) : Result σ RoundAnswer :=
    (r.1.map f, r.2)

/-- A call with its time and what came of it. -/
structure Event where
  now : Nat
  call : RoundCall
  result : Except FederationError RoundAnswer

/-- Calls one after the other: what happened, and the engine left behind. -/
def history (e : RoundEngine σ) : List (Nat × RoundCall) → List Event × RoundEngine σ
  | [] => ([], e)
  | (now, call) :: rest =>
    let (result, e) := e.perform now call
    let (events, e) := e.history rest
    (⟨now, call, result⟩ :: events, e)

/-- The engine after some calls. -/
def after (e : RoundEngine σ) (calls : List (Nat × RoundCall)) : RoundEngine σ :=
  (e.history calls).2

end RoundEngine

end Federation
