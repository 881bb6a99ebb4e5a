/-
  What the optimizer remembers, over all requests.

  * `priorCounts`: how many weights the prior models had that requests were answered on;
  * `Optimizer.Tracks`: the moments are as many as the last of these numbers, and the step counts how
    often it came in a row;
  * `Optimizer.aggregate_cases`: a request leaves the optimizer alone or makes it take a step;
  * `Tracks.advance`, `tracks_after`: a step keeps track, and so does every run;
  * `Tracks.getElem?_moved`: a coordinate of a step, from what was sent in and remembered;
  * `moments_track_model`: all of it, over every run.
-/
import Federation.Proofs.Aggregation.Coordinates
import Federation.Proofs.Aggregation.Requests

namespace Federation

open AggregationStrategy

/-! ## Requests -/

namespace AggregationStrategy

variable {σ : Type} [AggregationStrategy σ]

/-- How many weights the prior models had, of the requests that had one and were answered with a
model. -/
def priorCounts (s : σ) (rs : List AggregationRequest) : List Nat :=
  ((rs.zip (answers s rs)).filter fun q => q.2.isOk && !q.1.current.isEmpty).map fun q =>
    q.1.current.length / 4

theorem priorCounts_concat (s : σ) (rs : List AggregationRequest) (r : AggregationRequest) :
    priorCounts s (rs ++ [r]) = priorCounts s rs ++
      if (answer (after s rs) r).isOk && !r.current.isEmpty then [r.current.length / 4] else [] := by
  unfold priorCounts
  rw [answers_append, List.zip_append (length_answers s rs).symm, List.filter_append,
    List.map_append]
  congr 1
  show (List.filter _ [(r, answer (after s rs) r)]).map _ = _
  rw [List.filter_singleton]
  cases (answer (after s rs) r).isOk && !r.current.isEmpty <;> rfl

theorem length_priorCounts_le (s : σ) (rs : List AggregationRequest) :
    (priorCounts s rs).length ≤ rs.length := by
  unfold priorCounts
  rw [List.length_map]
  refine (List.length_filter_le ..).trans ?_
  rw [List.length_zip, length_answers, Nat.min_self]

end AggregationStrategy

/-! ## Optimizers -/

/-- An optimizer is a strategy by itself. -/
instance : AggregationStrategy Optimizer := ⟨fun _ => "fedopt", Strategy.aggregateOpt⟩

theorem after_fedOpt (o : Optimizer) (rs : List AggregationRequest) :
    after (Strategy.fedOpt o) rs = .fedOpt (after o rs) := by
  induction rs generalizing o with
  | nil => rfl
  | cons r rs ih => exact ih _

theorem answers_fedOpt (o : Optimizer) (rs : List AggregationRequest) :
    answers (Strategy.fedOpt o) rs = answers o rs := by
  induction rs generalizing o with
  | nil => rfl
  | cons r rs ih => exact congrArg (answer o r :: ·) (ih _)

namespace Optimizer

/-- The optimizer with its settings, and nothing remembered. -/
def forgotten (o : Optimizer) : Optimizer := { o with step := 0, momentum := [], velocity := [] }

theorem forgotten_advance (o : Optimizer) (mean prior : List Single) :
    (o.advance mean prior).2.forgotten = o.forgotten := by
  simp only [forgotten, advance, fitTo]
  split <;> rfl

/-- A request is answered without the moments or not at all, or else the optimizer takes a step from
the prior model toward the mean of the updates. -/
theorem aggregate_cases (o : Optimizer) (r : AggregationRequest) :
    (aggregate o r.current r.updates).2 = o ∧
        ((answer o r).isOk && !r.current.isEmpty) = false ∨
      r.current ≠ [] ∧ ∃ d, decodeRound r.current r.updates = .ok d ∧
        d.prior = some (weightChunks r.current) ∧
        aggregate o r.current r.updates =
          (.ok (encodeWeights (o.advance (sampleMean d r.updates) (weightChunks r.current)).1),
            (o.advance (sampleMean d r.updates) (weightChunks r.current)).2) := by
  show ((Strategy.aggregateOpt o r.current r.updates).2 = o ∧
    ((Strategy.aggregateOpt o r.current r.updates).1.isOk && !r.current.isEmpty) = false) ∨ _
  cases hd : decodeRound r.current r.updates with
  | error err =>
    left
    rw [show Strategy.aggregateOpt o r.current r.updates = (.error err, o) by
      rw [Strategy.aggregateOpt, hd]]
    exact ⟨rfl, rfl⟩
  | ok d =>
    have hprior := (decodeRound_ok hd).2.2.1
    by_cases hne : r.current = []
    · left
      rw [if_pos hne] at hprior
      rw [show Strategy.aggregateOpt o r.current r.updates =
        (.ok (encodeWeights (sampleMean d r.updates)), o) by
          simp only [Strategy.aggregateOpt, hd, hprior], hne]
      exact ⟨rfl, rfl⟩
    · right
      rw [if_neg hne] at hprior
      refine ⟨hne, d, rfl, hprior, ?_⟩
      show Strategy.aggregateOpt o r.current r.updates = _
      simp only [Strategy.aggregateOpt, hd, hprior]

/-- The mean of the updates of a round has a coordinate for each of the prior model. -/
theorem length_sampleMean {r : AggregationRequest} {d : DecodedRound} (hne : r.current ≠ [])
    (hd : decodeRound r.current r.updates = .ok d) :
    (sampleMean d r.updates).length = (weightChunks r.current).length := by
  obtain ⟨hu, hc, -, hlength, hw⟩ := decodeRound_ok hd
  refine length_weightedMean _ (fun hnil => hu ?_) fun w hmem => ?_
  · exact List.length_eq_zero_iff.1 (by rw [← hlength, hnil]; rfl)
  · rw [hw w hmem, roundLength_of_prior hne, length_weightChunks]

/-! ## Keeping track -/

/-- The moments are as many as the last of these numbers of weights, and the step counts how often
it came in a row. -/
structure Tracks (o : Optimizer) (counts : List Nat) : Prop where
  momentum : o.momentum.length = counts.getLast?.getD 0
  velocity : o.velocity.length = counts.getLast?.getD 0
  step : o.step = (counts.rtakeWhile (· = o.momentum.length)).length

namespace Tracks

variable {o : Optimizer} {counts : List Nat} {mean prior : List Single}

theorem length_velocity (h : o.Tracks counts) : o.velocity.length = o.momentum.length :=
  h.velocity.trans h.momentum.symm

/-- The number of a step: one after a change of the number of weights, and one more than that of the
step before otherwise. -/
theorem nextStep_fitTo (h : o.Tracks counts) (hlt : counts.length < maxInt32) (n : Nat) :
    nextStep (o.fitTo n).step = ((counts ++ [n]).rtakeWhile (· = n)).length := by
  rw [List.rtakeWhile_concat_pos _ _ _ (by simp), List.length_append, List.length_singleton]
  unfold fitTo
  split
  · next hn =>
    have hle : (counts.rtakeWhile (· = n)).length ≤ counts.length :=
      (List.rtakeWhile_suffix _ _).length_le
    have hstep : o.step = (counts.rtakeWhile (· = n)).length := by rw [h.step, hn]
    rw [nextStep, if_neg (by omega), hstep]
    rfl
  · next hn =>
    -- the row ends before the last number, which is another one
    have hnil : counts.rtakeWhile (· = n) = [] := by
      rcases List.eq_nil_or_concat' counts with rfl | ⟨before, m, rfl⟩
      · rfl
      · rw [h.momentum, List.getLast?_concat] at hn
        exact List.rtakeWhile_concat_neg _ _ _ (by simpa using hn)
    rw [hnil]
    rfl

/-- A step keeps track. -/
theorem advance (h : o.Tracks counts) (hlt : counts.length < maxInt32)
    (hmean : mean.length = prior.length) :
    (o.advance mean prior).2.Tracks (counts ++ [prior.length]) := by
  obtain ⟨hm, hv⟩ := fitTo_lengths h.length_velocity prior.length
  have hmoved : (o.advance mean prior).2.momentum.length = prior.length := by
    simp only [Optimizer.advance, List.length_map]
    rw [length_moveAll _ _ _ _ _ _ _ hmean.symm (hm.trans hmean.symm) (hv.trans hmean.symm), hmean]
  refine ⟨?_, ?_, ?_⟩
  · rw [hmoved, List.getLast?_concat, Option.getD_some]
  · rw [length_velocity_advance, hmoved, List.getLast?_concat, Option.getD_some]
  · rw [hmoved]
    exact h.nextStep_fitTo hlt prior.length

end Tracks

/-- An optimizer that starts out keeps track over every run that its counter can count. -/
theorem tracks_after {o : Optimizer} (ho : o.forgotten = o) (rs : List AggregationRequest)
    (hrs : rs.length ≤ maxInt32) :
    (after o rs).Tracks (priorCounts o rs) ∧ (after o rs).forgotten = o := by
  induction rs using List.reverseRecOn with
  | nil =>
    refine ⟨?_, ho⟩
    rw [← ho]
    exact ⟨rfl, rfl, rfl⟩
  | append_singleton rs r ih =>
    rw [List.length_append, List.length_singleton] at hrs
    obtain ⟨htracks, hforgotten⟩ := ih (by omega)
    rw [after_append, priorCounts_concat]
    show (aggregate (after o rs) r.current r.updates).2.Tracks _ ∧
      (aggregate (after o rs) r.current r.updates).2.forgotten = o
    rcases aggregate_cases (after o rs) r with ⟨hsame, hidle⟩ | ⟨hne, d, hd, -, hstep⟩
    · rw [hsame, hidle, if_neg Bool.false_ne_true, List.append_nil]
      exact ⟨htracks, hforgotten⟩
    · have hok : ((answer (after o rs) r).isOk && !r.current.isEmpty) = true := by
        have hnonempty : r.current.isEmpty = false := by simpa using hne
        rw [answer, hstep, hnonempty]
        rfl
      have hlt : (priorCounts o rs).length < maxInt32 :=
        (length_priorCounts_le o rs).trans_lt (by omega)
      rw [hstep, hok, if_pos rfl, ← length_weightChunks, forgotten_advance]
      exact ⟨htracks.advance hlt (length_sampleMean hne hd), hforgotten⟩

/-! ## Steps by coordinates -/

/-- The coordinates of a step. -/
def moved (o : Optimizer) (mean prior : List Single) : List (Single × Double × Double) :=
  let o := o.fitTo prior.length
  o.moveAll (bias o.beta1 (nextStep o.step)) (bias o.beta2 (nextStep o.step)) mean prior o.momentum
    o.velocity

/-- What a step reads by the numbers of the prior model's coordinates is there. -/
def Reads (o : Optimizer) (mean prior : List Single) : Prop :=
  ∀ i < prior.length, i < mean.length ∧ i < (o.fitTo prior.length).momentum.length ∧
    i < (o.fitTo prior.length).velocity.length

theorem Tracks.reads {o : Optimizer} {counts : List Nat} {mean prior : List Single}
    (h : o.Tracks counts) (hmean : mean.length = prior.length) : o.Reads mean prior := by
  obtain ⟨hm, hv⟩ := fitTo_lengths h.length_velocity prior.length
  intro i hi
  exact ⟨hmean.symm ▸ hi, hm.symm ▸ hi, hv.symm ▸ hi⟩

/-- The moments that a step starts out from: zero on the first step with this number of weights, and
what is remembered after that. -/
theorem Tracks.getElem?_fitTo {o : Optimizer} {counts : List Nat} (h : o.Tracks counts)
    (hlt : counts.length < maxInt32) {n i : Nat} (hi : i < n) :
    (o.fitTo n).momentum[i]? = momentAt (nextStep (o.fitTo n).step) o.momentum[i]? ∧
      (o.fitTo n).velocity[i]? = momentAt (nextStep (o.fitTo n).step) o.velocity[i]? := by
  unfold momentAt
  by_cases hn : o.momentum.length = n
  · have hfit : o.fitTo n = o := if_pos hn
    have hstep : nextStep (o.fitTo n).step ≠ 1 := by
      rw [h.nextStep_fitTo hlt n, List.rtakeWhile_concat_pos _ _ _ (by simp)]
      rcases List.eq_nil_or_concat' counts with rfl | ⟨before, m, rfl⟩
      · have hnil : o.momentum.length = 0 := h.momentum
        omega
      · have hm : m = n := by
          rw [← hn, h.momentum, List.getLast?_concat, Option.getD_some]
        rw [hm, List.rtakeWhile_concat_pos _ _ _ (by simp)]
        simp only [List.length_append, List.length_singleton]
        omega
    rw [if_neg hstep, if_neg hstep, hfit]
    exact ⟨rfl, rfl⟩
  · have hfit : o.fitTo n = { o with
        step := 0, momentum := List.replicate n Double.zero
        velocity := List.replicate n Double.zero } := if_neg hn
    rw [hfit]
    simp only [List.getElem?_replicate, if_pos hi]
    exact ⟨rfl, rfl⟩

/-- A coordinate of a step, from what was sent in and remembered. -/
theorem Tracks.getElem?_moved {o : Optimizer} {counts : List Nat} (h : o.Tracks counts)
    (hlt : counts.length < maxInt32) (vectors : List (List Single)) (updates : List Contribution)
    (prior : List Single) (i : Nat) :
    (o.moved (weightedMean vectors (sampleWeights updates)) prior)[i]? =
      o.forgotten.stepAt (nextStep (o.fitTo prior.length).step) (updates.map (·.sampleCount))
        prior[i]? (vectors.map (·[i]?)) o.momentum[i]? o.velocity[i]? := by
  have hcoordinate : ∀ b₁ b₂ a p m v, (o.fitTo prior.length).moveCoordinate b₁ b₂ a p m v =
      o.forgotten.moveCoordinate b₁ b₂ a p m v := by
    intro b₁ b₂ a p m v
    unfold fitTo
    split <;> rfl
  obtain ⟨hbeta₁, hbeta₂⟩ : (o.fitTo prior.length).beta1 = o.forgotten.beta1 ∧
      (o.fitTo prior.length).beta2 = o.forgotten.beta2 := by
    unfold fitTo
    split <;> exact ⟨rfl, rfl⟩
  unfold moved stepAt
  simp only [getElem?_moveAll, getElem?_weightedMean, sampleWeights_eq, hcoordinate, hbeta₁, hbeta₂]
  cases meanAt (vectors.map (·[i]?)) (weightsOf (updates.map (·.sampleCount))) with
  | none => rfl
  | some a =>
    cases hp : prior[i]? with
    | none => rfl
    | some p =>
      obtain ⟨hm, hv⟩ := h.getElem?_fitTo hlt (List.getElem?_eq_some_iff.1 hp).1
      rw [hm, hv]

/-- A coordinate of the step that a request makes an optimizer take: a function of that coordinate of
the prior model, the updates and the moments before, the number of the step and the samples. -/
def coordinate (settings before after : Optimizer) (r : AggregationRequest) (i : Nat) :
    Option (Single × Double × Double) :=
  settings.stepAt after.step (r.updates.map (·.sampleCount)) (weightAt i r.current)
    (r.updates.map fun u => weightAt i u.model) before.momentum[i]? before.velocity[i]?

/-- A request answered with a model, coordinate by coordinate: all that is read by index is there,
and the weights of the model and the new moments are the coordinates of one step. -/
structure ByCoordinate (settings before after : Optimizer) (r : AggregationRequest)
    (model : Blob) : Prop where
  reads : ∃ d, decodeRound r.current r.updates = .ok d ∧
    before.Reads (sampleMean d r.updates) (weightChunks r.current)
  weight : ∀ i, weightAt i model = (coordinate settings before after r i).map (·.1)
  momentum : ∀ i, after.momentum[i]? = (coordinate settings before after r i).map (·.2.1)
  velocity : ∀ i, after.velocity[i]? = (coordinate settings before after r i).map (·.2.2)

theorem Tracks.byCoordinate {o : Optimizer} {counts : List Nat} (h : o.Tracks counts)
    (hlt : counts.length < maxInt32) {r : AggregationRequest} (hne : r.current ≠ [])
    {d : DecodedRound} (hd : decodeRound r.current r.updates = .ok d) :
    ByCoordinate o.forgotten o (o.advance (sampleMean d r.updates) (weightChunks r.current)).2 r
      (encodeWeights (o.advance (sampleMean d r.updates) (weightChunks r.current)).1) := by
  have hmoved : ∀ i, (o.moved (sampleMean d r.updates) (weightChunks r.current))[i]? =
      coordinate o.forgotten o
        (o.advance (sampleMean d r.updates) (weightChunks r.current)).2 r i := by
    intro i
    have := h.getElem?_moved hlt d.updates r.updates (weightChunks r.current) i
    rwa [updates_of_decodeRound hd, List.map_map, ← updates_of_decodeRound hd] at this
  refine ⟨⟨d, hd, h.reads (length_sampleMean hne hd)⟩, fun i => ?_, fun i => ?_, fun i => ?_⟩
  · rw [weightAt, weightChunks_encodeWeights, ← hmoved]
    exact List.getElem?_map ..
  · rw [← hmoved]
    exact List.getElem?_map ..
  · rw [← hmoved]
    exact List.getElem?_map ..

/-- **The moments track the model.**  Take an optimizer with any hyperparameters and any requests,
fewer than its counter can count.  It has as many moments of either kind as the prior model had
weights in the last request with a prior model that was answered, and none when there was no such
request; its step is the number of these requests since that number of weights changed last.  On each
of them everything that is read by index is there, and a coordinate of the new model and of the new
moments comes from that coordinate of the prior model, the updates and the moments before, from the
number of the step and the samples, and from nothing else. -/
theorem moments_track_model (params : NameMap Double) (rs : List AggregationRequest)
    (hrs : rs.length < 2 ^ 31) :
    let start := ofHyperparameters params
    after (Strategy.fedOpt start) rs = .fedOpt (after start rs) ∧
    answers (Strategy.fedOpt start) rs = answers start rs ∧
    (after start rs).Tracks (priorCounts start rs) ∧
    ∀ earlier r later model, rs = earlier ++ r :: later → r.current ≠ [] →
      answer (after start earlier) r = .ok model →
      ByCoordinate start (after start earlier) (after start (earlier ++ [r])) r model := by
  intro start
  have hcount : rs.length ≤ maxInt32 := Nat.le_of_lt_succ hrs
  refine ⟨after_fedOpt start rs, answers_fedOpt start rs, (tracks_after rfl rs hcount).1, ?_⟩
  rintro earlier r later model rfl hne hanswer
  rw [List.length_append, List.length_cons] at hcount
  obtain ⟨htracks, hforgotten⟩ := tracks_after (rfl : start.forgotten = start) earlier (by omega)
  have hlt : (priorCounts start earlier).length < maxInt32 :=
    (length_priorCounts_le start earlier).trans_lt (by omega)
  rcases aggregate_cases (after start earlier) r with ⟨-, hidle⟩ | ⟨-, d, hd, -, hstep⟩
  · have hnonempty : r.current.isEmpty = false := by simpa using hne
    rw [hanswer, hnonempty] at hidle
    cases hidle
  · have hafter : after start (earlier ++ [r]) =
        (aggregate (after start earlier) r.current r.updates).2 := after_append ..
    have hmodel := Except.ok.inj (hanswer.symm.trans (congrArg Prod.fst hstep))
    have hcoordinates := htracks.byCoordinate hlt hne hd
    rw [hforgotten] at hcoordinates
    rw [hmodel, hafter, hstep]
    exact hcoordinates

/-- A step, a round that fails, another step, and then a prior model of two weights. -/
theorem moments_of_grown_model :
    let start := ofHyperparameters .empty
    let step : AggregationRequest := ⟨[0, 0, 128, 63], [⟨"a", [0, 0, 0, 64], 1, 0⟩]⟩
    let broken : AggregationRequest := ⟨[0, 0, 128, 63], [⟨"a", [1, 2, 3], 1, 0⟩]⟩
    let wide : AggregationRequest :=
      ⟨[0, 0, 128, 63, 0, 0, 128, 63], [⟨"a", [0, 0, 0, 64, 0, 0, 0, 63], 1, 0⟩]⟩
    let rs := [step, broken, step, wide]
    rs.length < 2 ^ 31 ∧ priorCounts start rs = [1, 1, 2] ∧ (after start rs).Tracks [1, 1, 2] ∧
      (after start [step, broken, step]).step = 2 ∧ (after start rs).step = 1 ∧
      answer (after start [step, broken]) step = .ok [255, 255, 255, 63] ∧
      ByCoordinate start (after start [step, broken]) (after start [step, broken, step]) step
        [255, 255, 255, 63] := by
  intro start step broken wide rs
  have hlength : rs.length < 2 ^ 31 := by decide
  have hcounts : priorCounts start rs = [1, 1, 2] := by decide +kernel
  have hanswer : answer (after start [step, broken]) step = .ok [255, 255, 255, 63] := by
    decide +kernel
  obtain ⟨-, -, htracks, hsteps⟩ := moments_track_model .empty rs hlength
  exact ⟨hlength, hcounts, hcounts ▸ htracks, by decide +kernel, by decide +kernel, hanswer,
    hsteps [step, broken] step [wide] _ rfl (by decide) hanswer⟩

end Optimizer

end Federation
