/-
  Strategies that are asked for one aggregation after the other.

  A strategy may remember what it was asked, so an answer depends on all requests before it.

  * `AggregationRequest`, `after`, `answers`: requests in a row, the strategy that is left, and what
    it answered;
  * `after_append`, `answers_append`: requests after other requests;
  * `FailsSafely.after_skip`, `FailsSafely.answers_skip`: a request that failed may be left out;
  * `failed_aggregation_forgotten`: so it is with the built-in strategies.
-/
import Federation.Proofs.Aggregation.Outcome

namespace Federation

/-- What a strategy is asked for. -/
structure AggregationRequest where
  current : Blob
  updates : List Contribution
  deriving DecidableEq, Repr

namespace AggregationStrategy

variable {σ : Type} [AggregationStrategy σ]

def answer (s : σ) (r : AggregationRequest) : Except AggregationError Blob :=
  (aggregate s r.current r.updates).1

/-- The strategy that is left by requests in a row. -/
def after (s : σ) : List AggregationRequest → σ
  | [] => s
  | r :: rs => after (aggregate s r.current r.updates).2 rs

/-- What is answered to requests in a row. -/
def answers (s : σ) : List AggregationRequest → List (Except AggregationError Blob)
  | [] => []
  | r :: rs => answer s r :: answers (aggregate s r.current r.updates).2 rs

@[simp] theorem length_answers (s : σ) (rs : List AggregationRequest) :
    (answers s rs).length = rs.length := by
  induction rs generalizing s with
  | nil => rfl
  | cons r rs ih => simp [answers, ih]

theorem after_append (s : σ) (rs later : List AggregationRequest) :
    after s (rs ++ later) = after (after s rs) later := by
  induction rs generalizing s with
  | nil => rfl
  | cons r rs ih => exact ih _

theorem answers_append (s : σ) (rs later : List AggregationRequest) :
    answers s (rs ++ later) = answers s rs ++ answers (after s rs) later := by
  induction rs generalizing s with
  | nil => rfl
  | cons r rs ih => exact congrArg (answer s r :: ·) (ih _)

/-! ## Failures -/

namespace FailsSafely

variable {s : σ} {earlier : List AggregationRequest} {failed : AggregationRequest}
  {err : AggregationError}

theorem unchanged (h : FailsSafely σ) (hf : answer s failed = .error err) :
    (aggregate s failed.current failed.updates).2 = s :=
  h s failed.current failed.updates err _ (Prod.ext hf rfl)

/-- Without a request that failed the strategy comes to the same. -/
theorem after_skip (h : FailsSafely σ) (hf : answer (after s earlier) failed = .error err)
    (later : List AggregationRequest) :
    after s (earlier ++ failed :: later) = after s (earlier ++ later) := by
  rw [after_append, after_append, after, h.unchanged hf]

/-- All other requests are answered as they are without one that failed. -/
theorem answers_skip (h : FailsSafely σ) (hf : answer (after s earlier) failed = .error err)
    (later : List AggregationRequest) :
    (answers s (earlier ++ failed :: later)).eraseIdx earlier.length =
      answers s (earlier ++ later) := by
  have hlength := length_answers s earlier
  rw [answers_append, answers_append, answers, h.unchanged hf, ← hlength,
    List.eraseIdx_append_of_length_le le_rfl, Nat.sub_self, List.eraseIdx_cons_zero]

end FailsSafely

end AggregationStrategy

namespace Strategy

open AggregationStrategy

/-- **A failed aggregation is forgotten.**  Take any built-in strategy, within any number of blends,
and any requests.  A request that fails leaves it exactly as it was, and whatever comes after is
answered, and leaves the strategy, as if that request had never been made. -/
theorem failed_aggregation_forgotten (s : Strategy) (earlier : List AggregationRequest)
    (failed : AggregationRequest) (err : AggregationError)
    (hf : answer (after s earlier) failed = .error err) :
    after s (earlier ++ [failed]) = after s earlier ∧
      ∀ later, (answers s (earlier ++ failed :: later)).eraseIdx earlier.length =
          answers s (earlier ++ later) ∧
        after s (earlier ++ failed :: later) = after s (earlier ++ later) := by
  have hskip := failsSafely.after_skip hf
  refine ⟨?_, fun later => ⟨failsSafely.answers_skip hf later, hskip later⟩⟩
  have := hskip []
  rwa [List.append_nil] at this

/-- A step of an optimizer within two blends, then an update of three bytes. -/
theorem forgotten_within_blends :
    let half : Double := ⟨0x3fe0000000000000⟩
    let s := blend (blend (fedOpt .default) half half) half half
    let step : AggregationRequest := ⟨[0, 0, 128, 63], [⟨"a", [0, 0, 0, 64], 1, 0⟩]⟩
    let broken : AggregationRequest :=
      ⟨[0, 0, 128, 63], [⟨"a", [0, 0, 0, 64], 1, 0⟩, ⟨"b", [1, 2, 3], 1, 0⟩]⟩
    after s [step] ≠ s ∧ answer (after s [step]) broken = .error (.malformedBlob 3) ∧
      after s [step, broken] = after s [step] ∧
      (answers s [step, broken, step]).eraseIdx 1 = answers s [step, step] := by
  intro half s step broken
  have hf : answer (after s [step]) broken = .error (.malformedBlob 3) := by decide +kernel
  obtain ⟨hsame, hlater⟩ := failed_aggregation_forgotten s [step] broken _ hf
  exact ⟨by decide +kernel, hf, hsame, (hlater [step]).1⟩

end Strategy

end Federation
