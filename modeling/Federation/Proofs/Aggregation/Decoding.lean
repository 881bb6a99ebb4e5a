/-
  Which rounds can be decoded, and into what.

  * `length_encodeWeights`, `length_weightChunks`, `weightChunks_encodeWeights`: four bytes to a
    weight, and the weight from four bytes;
  * `faultOf`, `faultIn`: what can be wrong with an update, and the first fault of all;
  * `decodeUpdates_some`: the first fault is told, and without one everything is decoded;
  * `length_of_mem_decodeUpdates`: decoded updates have the expected number of weights;
  * `roundLength`, `decodeRound_eq`: the length that the updates of a round should have, and what
    is left of a round to decode once its prior model is;
  * `decodeRound_ok`: what can be known of a round that has been decoded;
  * `decodeRound_of_lengths`: a round of whole weights and one length can be decoded.
-/
import Mathlib
import Federation.Aggregation.Contribution

namespace Federation

/-! ## Weights -/

@[simp] theorem length_bytesOfWeight (w : Single) : (bytesOfWeight w).length = 4 := rfl

theorem length_encodeWeights (ws : List Single) : (encodeWeights ws).length = 4 * ws.length := by
  induction ws with
  | nil => rfl
  | cons w ws ih =>
    rw [encodeWeights, List.flatMap_cons, List.length_append, length_bytesOfWeight]
    rw [encodeWeights] at ih
    rw [ih, List.length_cons]; omega

theorem length_weightChunks (blob : Blob) : (weightChunks blob).length = blob.length / 4 := by
  induction blob using weightChunks.induct with
  | case1 a b c d rest ih => simp only [weightChunks, List.length_cons, ih]; omega
  | case2 blob h =>
    rcases blob with _ | ⟨a, _ | ⟨b, _ | ⟨c, _ | ⟨d, rest⟩⟩⟩⟩
    · rfl
    · simp [weightChunks]
    · simp [weightChunks]
    · simp [weightChunks]
    · exact absurd rfl (h a b c d rest)

/-- Weights are read back from their bytes. -/
theorem weightChunks_encodeWeights (ws : List Single) : weightChunks (encodeWeights ws) = ws := by
  induction ws with
  | nil => rfl
  | cons w ws ih =>
    have hlt : w.bits.toNat < 2 ^ 32 := w.bits.toNat_lt
    have hbytes : w.bits.toNat % 256 + 256 * (w.bits.toNat / 256 % 256) +
        65536 * (w.bits.toNat / 65536 % 256) + 16777216 * (w.bits.toNat / 16777216 % 256) =
          w.bits.toNat := by omega
    have hw : weightOfBytes (UInt8.ofNat w.bits.toNat) (UInt8.ofNat (w.bits.toNat / 256))
        (UInt8.ofNat (w.bits.toNat / 65536)) (UInt8.ofNat (w.bits.toNat / 16777216)) = w := by
      simp only [weightOfBytes, UInt8.toNat_ofNat', Nat.reducePow, hbytes, UInt32.ofNat_toNat]
    change weightOfBytes _ _ _ _ :: weightChunks (encodeWeights ws) = _
    rw [hw, ih]

theorem decodeWeights_of_whole {blob : Blob} (h : blob.length % 4 = 0) :
    decodeWeights blob = .ok (weightChunks blob) := if_pos h

theorem decodeWeights_ok {blob : Blob} {ws : List Single} (h : decodeWeights blob = .ok ws) :
    blob.length % 4 = 0 ∧ blob.length = 4 * ws.length := by
  unfold decodeWeights at h
  split at h
  · next hm =>
    cases h
    refine ⟨hm, ?_⟩
    rw [length_weightChunks]; omega
  · cases h

/-! ## Updates -/

/-- What is wrong with the update of an identity that should hold `n` weights. -/
def faultOf (n : Nat) (id : String) (model : Blob) : Option AggregationError :=
  if model.length % 4 ≠ 0 then some (.malformedBlob model.length)
  else if model.length ≠ 4 * n then some (.lengthMismatch id n (model.length / 4))
  else none

theorem faultOf_eq_none {n : Nat} {id : String} {model : Blob} :
    faultOf n id model = none ↔ model.length = 4 * n := by
  unfold faultOf
  split_ifs with h4 hn
  · simp only [false_iff]
    omega
  · simpa using hn
  · simpa using hn

/-- The first of the faults of a round. -/
def faultIn (n : Nat) (updates : List Contribution) : Option AggregationError :=
  updates.findSome? fun u => faultOf n u.collaborator u.model

theorem faultIn_eq_none {n : Nat} {updates : List Contribution} :
    faultIn n updates = none ↔ ∀ u ∈ updates, u.model.length = 4 * n := by
  simp only [faultIn, List.findSome?_eq_none_iff, faultOf_eq_none]

theorem faultIn_cons (n : Nat) (u : Contribution) (us : List Contribution) :
    faultIn n (u :: us) = (faultOf n u.collaborator u.model).or (faultIn n us) := by
  rw [faultIn, List.findSome?_cons]
  cases faultOf n u.collaborator u.model <;> rfl

/-- An update is looked at before the ones behind it. -/
theorem decodeUpdates_cons (n : Nat) (u : Contribution) (us : List Contribution) :
    decodeUpdates (some n) (u :: us) =
      match faultOf n u.collaborator u.model with
      | some err => .error err
      | none => (decodeUpdates (some n) us).map (weightChunks u.model :: ·) := by
  have hcount := length_weightChunks u.model
  rw [decodeUpdates]
  unfold faultOf
  split_ifs with hwhole hlength
  · rw [decodeWeights, if_neg hwhole]
    rfl
  · have hn : ¬ n = u.model.length / 4 := by omega
    rw [decodeWeights_of_whole (by omega)]
    simp only [bind, Except.bind, hcount, if_neg hn]
  · have hn : n = (weightChunks u.model).length := by omega
    rw [decodeWeights_of_whole (by omega)]
    simp only [bind, Except.bind, if_pos hn]
    cases decodeUpdates (some n) us <;> rfl

/-- The first fault is told, and without one everything is decoded. -/
theorem decodeUpdates_some (n : Nat) (updates : List Contribution) :
    decodeUpdates (some n) updates =
      match faultIn n updates with
      | some err => .error err
      | none => .ok (updates.map fun u => weightChunks u.model) := by
  induction updates with
  | nil => rfl
  | cons u us ih =>
    rw [decodeUpdates_cons, ih, faultIn_cons]
    cases faultOf n u.collaborator u.model with
    | some err => rfl
    | none => cases faultIn n us <;> rfl

/-- While no number of weights is expected, that of the first update is. -/
theorem decodeUpdates_none (u : Contribution) (us : List Contribution) :
    decodeUpdates none (u :: us) = decodeUpdates (some (u.model.length / 4)) (u :: us) := by
  rw [decodeUpdates, decodeUpdates]
  cases hw : decodeWeights u.model with
  | error err => rfl
  | ok w =>
    have hlength : u.model.length / 4 = w.length := by
      have := (decodeWeights_ok hw).2
      omega
    simp only [bind, Except.bind, hlength, if_pos]

theorem decodeUpdates_of_lengths {n : Nat} {updates : List Contribution}
    (h : ∀ u ∈ updates, u.model.length = 4 * n) :
    decodeUpdates (some n) updates = .ok (updates.map fun u => weightChunks u.model) := by
  rw [decodeUpdates_some, faultIn_eq_none.2 h]

theorem decodeUpdates_eq_error_iff {n : Nat} {updates : List Contribution}
    {err : AggregationError} :
    decodeUpdates (some n) updates = .error err ↔ faultIn n updates = some err := by
  rw [decodeUpdates_some]
  cases faultIn n updates with
  | none => exact ⟨nofun, nofun⟩
  | some fault => simp

/-- Decoded updates have the expected number of weights. -/
theorem length_of_mem_decodeUpdates {n : Nat} {updates : List Contribution}
    {ws : List (List Single)} (h : decodeUpdates (some n) updates = .ok ws) :
    ws.length = updates.length ∧ ∀ w ∈ ws, w.length = n := by
  rw [decodeUpdates_some] at h
  cases hf : faultIn n updates with
  | some err => rw [hf] at h; cases h
  | none =>
    rw [hf] at h
    cases h
    refine ⟨List.length_map .., fun w hw => ?_⟩
    obtain ⟨u, hu, rfl⟩ := List.mem_map.1 hw
    rw [length_weightChunks, faultIn_eq_none.1 hf u hu]
    omega

/-! ## Rounds -/

/-- The length that the updates of a round should have: that of the prior model or, when there is
none, that of the first update. -/
def roundLength (current : Blob) (updates : List Contribution) : Nat :=
  if current = [] then (updates.head?.map (·.model.length)).getD 0 else current.length

@[simp] theorem roundLength_of_prior {current : Blob} (hne : current ≠ [])
    (updates : List Contribution) : roundLength current updates = current.length := if_neg hne

@[simp] theorem roundLength_nil_cons (u : Contribution) (us : List Contribution) :
    roundLength [] (u :: us) = u.model.length := rfl

/-- Once there are updates and the prior model is whole weights, the updates decide. -/
theorem decodeRound_eq {current : Blob} {updates : List Contribution} (hu : updates ≠ [])
    (hc : current.length % 4 = 0) :
    decodeRound current updates =
      (decodeUpdates (some (roundLength current updates / 4)) updates).map
        (⟨if current = [] then none else some (weightChunks current), ·⟩) := by
  obtain ⟨u, us, rfl⟩ := List.exists_cons_of_ne_nil hu
  rw [decodeRound, if_neg (by simp)]
  cases current with
  | nil =>
    simp only [List.isEmpty_nil, if_pos, bind, Except.bind, pure, Except.pure, Option.map_none,
      decodeUpdates_none, roundLength_nil_cons]
    cases decodeUpdates (some (u.model.length / 4)) (u :: us) <;> rfl
  | cons byte bytes =>
    rw [roundLength_of_prior (by simp), decodeWeights_of_whole hc]
    simp only [List.isEmpty_cons, Bool.false_eq_true, if_false, Functor.map, Except.map, bind,
      Except.bind, Option.map_some, length_weightChunks]
    cases decodeUpdates (some ((byte :: bytes).length / 4)) (u :: us) <;> rfl

/-- A prior model that is no whole number of weights is told before any update is looked at. -/
theorem decodeRound_of_broken {current : Blob} {updates : List Contribution} (hu : updates ≠ [])
    (hc : current.length % 4 ≠ 0) :
    decodeRound current updates = .error (.malformedBlob current.length) := by
  have hne : current ≠ [] := by
    rintro rfl
    exact hc rfl
  rw [decodeRound, if_neg (by simpa using hu), if_neg (by simpa using hne), decodeWeights,
    if_neg hc]
  rfl

/-- Of a round with faults the first one is told. -/
theorem decodeRound_eq_error_iff_faultIn {current : Blob} {updates : List Contribution}
    {err : AggregationError} (hu : updates ≠ []) (hc : current.length % 4 = 0) :
    decodeRound current updates = .error err ↔
      faultIn (roundLength current updates / 4) updates = some err := by
  rw [decodeRound_eq hu hc, ← decodeUpdates_eq_error_iff]
  cases decodeUpdates (some (roundLength current updates / 4)) updates with
  | error fault => simp [Except.map]
  | ok ws => exact ⟨nofun, nofun⟩

theorem decodeRound_of_lengths {n : Nat} {current : Blob} {updates : List Contribution}
    (hc : current.length = 4 * n) (hne : current ≠ []) (hu : updates ≠ [])
    (h : ∀ u ∈ updates, u.model.length = 4 * n) :
    decodeRound current updates =
      .ok ⟨some (weightChunks current), updates.map fun u => weightChunks u.model⟩ := by
  rw [decodeRound_eq hu (by omega), roundLength_of_prior hne,
    decodeUpdates_of_lengths fun u hu => (h u hu).trans (by omega), if_neg hne]
  rfl

/-- What can be known of a round that has been decoded. -/
theorem decodeRound_ok {current : Blob} {updates : List Contribution} {d : DecodedRound}
    (h : decodeRound current updates = .ok d) :
    updates ≠ [] ∧ current.length % 4 = 0 ∧
      d.prior = (if current = [] then none else some (weightChunks current)) ∧
      d.updates.length = updates.length ∧
      ∀ w ∈ d.updates, w.length = roundLength current updates / 4 := by
  have hu : updates ≠ [] := by
    rintro rfl
    cases h
  have hc : current.length % 4 = 0 := by
    by_contra hc
    rw [decodeRound_of_broken hu hc] at h
    cases h
  rw [decodeRound_eq hu hc] at h
  cases hd : decodeUpdates (some (roundLength current updates / 4)) updates with
  | error err => rw [hd] at h; cases h
  | ok ws =>
    rw [hd] at h
    cases h
    exact ⟨hu, hc, rfl, length_of_mem_decodeUpdates hd⟩

/-- The updates of a decoded round are theirs, one by one. -/
theorem updates_of_decodeRound {current : Blob} {updates : List Contribution} {d : DecodedRound}
    (h : decodeRound current updates = .ok d) :
    d.updates = updates.map fun u => weightChunks u.model := by
  obtain ⟨hu, hc, -⟩ := decodeRound_ok h
  rw [decodeRound_eq hu hc, decodeUpdates_some] at h
  cases hf : faultIn (roundLength current updates / 4) updates with
  | some err => rw [hf] at h; cases h
  | none =>
    rw [hf] at h
    cases h
    rfl

/-- Without a model there is no prior to decode. -/
theorem prior_of_decodeRound_nil {updates : List Contribution} {d : DecodedRound}
    (h : decodeRound [] updates = .ok d) : d.prior = none :=
  (decodeRound_ok h).2.2.1

/-- With a model it is the prior, and all updates have as many weights. -/
theorem decodeRound_prior {current : Blob} {updates : List Contribution} {d : DecodedRound}
    (h : decodeRound current updates = .ok d) (hne : current ≠ []) :
    updates ≠ [] ∧ ∃ prior, decodeWeights current = .ok prior ∧ d.prior = some prior ∧
      d.updates.length = updates.length ∧ ∀ w ∈ d.updates, w.length = prior.length := by
  obtain ⟨hu, hc, hprior, hlength, hw⟩ := decodeRound_ok h
  refine ⟨hu, weightChunks current, decodeWeights_of_whole hc, ?_, hlength, fun w hmem => ?_⟩
  · rw [hprior, if_neg hne]
  · rw [hw w hmem, roundLength_of_prior hne, length_weightChunks]

end Federation
