/-
  Strategies with a record of what they were asked.

  * `Recorded`: a strategy and every aggregation it was asked for;
  * `RoundEngine.unrecorded`: the engine without the record;
  * `perform_unrecorded`: the record changes nothing about what the engine does.
-/
import Federation.Round.History

namespace Federation

/-- One aggregation that a strategy was asked for. -/
structure AggregationCall where
  current : Blob
  contributions : List Contribution
  result : Except AggregationError Blob

structure Recorded (σ : Type) where
  inner : σ
  /-- Every aggregation so far, the latest last. -/
  calls : List AggregationCall

namespace Recorded

variable {σ : Type}

def fresh (strategy : σ) : Recorded σ := ⟨strategy, []⟩

/-- The aggregations that made a new model. -/
def closes (r : Recorded σ) : Nat := r.calls.countP fun c => c.result.isOk

variable [AggregationStrategy σ]

instance : AggregationStrategy (Recorded σ) where
  name r := AggregationStrategy.name r.inner
  aggregate r current contributions :=
    let (result, inner) := AggregationStrategy.aggregate r.inner current contributions
    (result, ⟨inner, r.calls ++ [⟨current, contributions, result⟩]⟩)

theorem calls_of_aggregate {r r' : Recorded σ} {current : Blob} {cs : List Contribution}
    {result : Except AggregationError Blob}
    (h : AggregationStrategy.aggregate r current cs = (result, r')) :
    r'.calls = r.calls ++ [⟨current, cs, result⟩] := by
  cases h
  rfl

theorem inner_of_aggregate {r r' : Recorded σ} {current : Blob} {cs : List Contribution}
    {result : Except AggregationError Blob}
    (h : AggregationStrategy.aggregate r current cs = (result, r')) :
    AggregationStrategy.aggregate r.inner current cs = (result, r'.inner) := by
  cases h
  rfl

end Recorded

namespace RoundEngine

variable {σ : Type}

/-- The engine without the record. -/
def unrecorded (e : RoundEngine (Recorded σ)) : RoundEngine σ where
  rules := e.rules
  state := {
    round := e.state.round
    version := e.state.version
    model := e.state.model
    pending := e.state.pending
    members := e.state.members
    strategy := e.state.strategy.inner
    openedAt := e.state.openedAt
    firstPendingAt := e.state.firstPendingAt
    announced := e.state.announced }

variable (e : RoundEngine (Recorded σ)) (now : Nat)

theorem enroll_unrecorded (id : String) :
    e.unrecorded.enroll now id = ((e.enroll now id).1, (e.enroll now id).2.unrecorded) := by
  unfold enroll
  rw [show e.unrecorded.isMember id = e.isMember id from rfl,
    show e.unrecorded.rules = e.rules from rfl]
  cases e.isMember id with
  | true => rfl
  | false =>
    cases e.rules.membership.autoRegister with
    | false => rfl
    | true => rcases e.rules.mayJoin id with error | ⟨⟩ <;> rfl

variable [AggregationStrategy σ]

theorem aggregate_unrecorded (cs : List Contribution) :
    e.unrecorded.aggregate now cs =
      ((e.aggregate now cs).1, (e.aggregate now cs).2.unrecorded) := by
  simp only [aggregate, unrecorded, AggregationStrategy.aggregate]
  rcases AggregationStrategy.aggregate e.state.strategy.inner e.state.model cs with ⟨r | r, s⟩ <;>
    rfl

theorem submitByMode_unrecorded (id : String) (u : ModelUpdate) :
    e.unrecorded.submitByMode now id u =
      ((e.submitByMode now id u).1, (e.submitByMode now id u).2.unrecorded) := by
  unfold submitByMode
  rw [show e.unrecorded.rules = e.rules from rfl]
  split
  · unfold submitSync
    rw [show e.unrecorded.isLate u = e.isLate u from rfl]
    split
    · rfl
    · simp only [aggregate_unrecorded]
      rw [show e.unrecorded.state.pending = e.state.pending from rfl,
        show e.unrecorded.state.members = e.state.members from rfl]
      split <;> rfl
  · next limit _ =>
    unfold submitAsync
    rw [show e.unrecorded.tooStale limit u = e.tooStale limit u from rfl]
    split
    · rfl
    · simp only [aggregate_unrecorded]
      rfl

theorem submit_unrecorded (id : String) (u : ModelUpdate) :
    e.unrecorded.submit now id u = ((e.submit now id u).1, (e.submit now id u).2.unrecorded) := by
  unfold submit
  split
  · rfl
  · rw [enroll_unrecorded]
    rcases e.enroll now id with ⟨r | r, e'⟩
    · rfl
    · simp only [submitByMode_unrecorded]
      rcases e'.submitByMode now id u with ⟨r | r, e''⟩
      · rfl
      · cases r <;> rfl

theorem forceClose_unrecorded :
    e.unrecorded.forceClose now = ((e.forceClose now).1, (e.forceClose now).2.unrecorded) := by
  unfold forceClose
  rw [aggregate_unrecorded]
  rw [show e.unrecorded.rules = e.rules from rfl,
    show e.unrecorded.state.pending = e.state.pending from rfl]
  split
  · rfl
  · rcases e.aggregate now (roundContributions e.state.pending) with ⟨r | r, e'⟩ <;> rfl

/-- **Keeping a record changes nothing** about the answers and the engine that is left. -/
theorem perform_unrecorded (call : RoundCall) :
    e.unrecorded.perform now call =
      ((e.perform now call).1, (e.perform now call).2.unrecorded) := by
  cases call with
  | join id =>
    simp only [perform, perform.wrap, join]
    rw [show e.unrecorded.rules = e.rules from rfl]
    split <;> rfl
  | submit id u => simp only [perform, perform.wrap, submit_unrecorded]
  | latest id =>
    simp only [perform, perform.wrap, latest]
    split
    · rfl
    · rw [show e.unrecorded.isMember id = e.isMember id from rfl]
      split <;> rfl
  | forceClose => simp only [perform, perform.wrap, forceClose_unrecorded]
  | closeIfOverdue timeout =>
    simp only [perform, perform.wrap, closeIfOverdue]
    rw [show e.unrecorded.isOverdue now timeout = e.isOverdue now timeout from rfl]
    split
    · rw [forceClose_unrecorded]
    · rfl

end RoundEngine

end Federation
