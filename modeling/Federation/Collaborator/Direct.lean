/-
  A collaborator and an aggregator in the same process.

  The calls of a collaborator go to the round engine itself, with nothing in between.
-/
import Federation.Collaborator.Machine
import Federation.Round.LongPoll

namespace Federation.RoundEngine

variable {σ : Type} [AggregationStrategy σ]

def joinDirectly (e : RoundEngine σ) (now : Nat) (id : String) : Result σ ModelView :=
  let (result, e) := e.join now id
  (result.map (·.view), e)

def submitDirectly (e : RoundEngine σ) (now : Nat) (id : String) (u : ModelUpdate) :
    Result σ SubmitReceipt :=
  let (result, e) := e.submit now id u
  (result.map fun o => ⟨o.round, o.closed.isSome⟩, e)

end Federation.RoundEngine
