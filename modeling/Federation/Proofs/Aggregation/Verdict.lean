/-
  Which rounds are aggregated, and what is told of the others.

  The judgements do not speak of strategies, so the verdict on a round is the same whichever is
  asked and whatever it remembers.

  * `Contribution.Fits`, `Contribution.Fault`: an update of the length that is asked for, and what
    can be wrong with one;
  * `SoundRound`, `RoundFault`: a round that can be aggregated, and the fault that is told of one
    that cannot;
  * `faultIn_roundLength_iff`: the search for a fault stops at the first update that has one;
  * `decodeRound_eq_error_iff`, `exists_decodeRound_iff`: the decoder follows these judgements;
  * `aggregate_verdict`: and so does every strategy.
-/
import Federation.Proofs.Aggregation.Outcome

namespace Federation

/-! ## Judgements -/

/-- The update is whole weights and as long as it should be. -/
def Contribution.Fits (u : Contribution) (length : Nat) : Prop :=
  u.model.length % 4 = 0 ∧ u.model.length = length

/-- What is wrong with an update that should have a length.  One that is no whole number of weights
is not compared with others. -/
inductive Contribution.Fault (u : Contribution) (length : Nat) : AggregationError → Prop
  | malformed : u.model.length % 4 ≠ 0 → Fault u length (.malformedBlob u.model.length)
  | mismatch : u.model.length % 4 = 0 → u.model.length ≠ length →
      Fault u length (.lengthMismatch u.collaborator (length / 4) (u.model.length / 4))

/-- A round that can be aggregated. -/
structure SoundRound (current : Blob) (updates : List Contribution) : Prop where
  some_update : updates ≠ []
  whole_prior : current.length % 4 = 0
  fits : ∀ u ∈ updates, u.Fits (roundLength current updates)

/-- The fault that is told of a round: the lack of updates, then one of the prior model, then that
of the first update that has any. -/
inductive RoundFault (current : Blob) : List Contribution → AggregationError → Prop
  | empty : RoundFault current [] .emptyRound
  | prior {updates} : updates ≠ [] → current.length % 4 ≠ 0 →
      RoundFault current updates (.malformedBlob current.length)
  | update {before u after err} : current.length % 4 = 0 →
      (∀ v ∈ before, v.Fits (roundLength current (before ++ u :: after))) →
      u.Fault (roundLength current (before ++ u :: after)) err →
      RoundFault current (before ++ u :: after) err

/-! ## Single updates -/

section
variable {length : Nat} {u : Contribution} {err : AggregationError}

theorem faultOf_eq_none_iff_fits (h : length % 4 = 0) :
    faultOf (length / 4) u.collaborator u.model = none ↔ u.Fits length := by
  rw [faultOf_eq_none, Contribution.Fits]
  omega

/-- The update is looked at with the length of whole weights, or with its own. -/
theorem faultOf_eq_some_iff (h : length % 4 = 0 ∨ u.model.length = length) :
    faultOf (length / 4) u.collaborator u.model = some err ↔ u.Fault length err := by
  unfold faultOf
  constructor
  · intro hf
    split_ifs at hf with hwhole hlength
    · cases hf
      exact .malformed hwhole
    · cases hf
      exact .mismatch (by omega) (by omega)
  · rintro (hwhole | ⟨hwhole, hlength⟩)
    · rw [if_pos hwhole]
    · rw [if_neg (by omega), if_pos (by omega)]

end

/-! ## Rounds -/

section
variable {current : Blob} {updates : List Contribution} {err : AggregationError}

/-- The length that is asked for is one of whole weights, or the first update has set it. -/
theorem roundLength_cons (hc : current.length % 4 = 0) (u : Contribution)
    (us : List Contribution) :
    roundLength current (u :: us) % 4 = 0 ∨ u.model.length = roundLength current (u :: us) := by
  by_cases hne : current = []
  · rw [hne, roundLength_nil_cons]
    exact Or.inr rfl
  · rw [roundLength_of_prior hne]
    exact Or.inl hc

/-- Behind whole weights the length is one of whole weights too. -/
theorem roundLength_append (hc : current.length % 4 = 0) {before : List Contribution}
    (hbefore : ∀ v ∈ before, v.model.length % 4 = 0) (u : Contribution)
    (after : List Contribution) :
    roundLength current (before ++ u :: after) % 4 = 0 ∨
      before = [] ∧ u.model.length = roundLength current (before ++ u :: after) := by
  cases before with
  | nil => exact (roundLength_cons hc u after).imp_right (⟨rfl, ·⟩)
  | cons v vs =>
    rcases roundLength_cons hc v (vs ++ u :: after) with hwhole | hset
    · exact Or.inl hwhole
    · -- the length was set by an update that is whole weights itself
      have hv := hbefore v List.mem_cons_self
      rw [hset] at hv
      exact Or.inl hv

/-- The search for a fault stops at the first update that has one. -/
theorem faultIn_roundLength_iff (hc : current.length % 4 = 0) :
    faultIn (roundLength current updates / 4) updates = some err ↔
      ∃ before u after, updates = before ++ u :: after ∧
        (∀ v ∈ before, v.Fits (roundLength current updates)) ∧
        u.Fault (roundLength current updates) err := by
  rw [faultIn, List.findSome?_eq_some_iff]
  constructor
  · rintro ⟨before, u, after, rfl, hfault, hbefore⟩
    have hwhole : ∀ v ∈ before, v.model.length % 4 = 0 := fun v hv => by
      have := faultOf_eq_none.1 (hbefore v hv)
      omega
    refine ⟨before, u, after, rfl, ?_⟩
    rcases roundLength_append hc hwhole u after with hlength | ⟨rfl, hset⟩
    · exact ⟨fun v hv => (faultOf_eq_none_iff_fits hlength).1 (hbefore v hv),
        (faultOf_eq_some_iff (Or.inl hlength)).1 hfault⟩
    · exact ⟨List.forall_mem_nil _, (faultOf_eq_some_iff (Or.inr hset)).1 hfault⟩
  · rintro ⟨before, u, after, rfl, hbefore, hfault⟩
    refine ⟨before, u, after, rfl, ?_⟩
    rcases roundLength_append hc (fun v hv => (hbefore v hv).1) u after with hlength | ⟨rfl, hset⟩
    · exact ⟨(faultOf_eq_some_iff (Or.inl hlength)).2 hfault,
        fun v hv => (faultOf_eq_none_iff_fits hlength).2 (hbefore v hv)⟩
    · exact ⟨(faultOf_eq_some_iff (Or.inr hset)).2 hfault, List.forall_mem_nil _⟩

/-- It finds nothing when all updates fit. -/
theorem faultIn_roundLength_eq_none_iff (hc : current.length % 4 = 0) :
    faultIn (roundLength current updates / 4) updates = none ↔
      ∀ u ∈ updates, u.Fits (roundLength current updates) := by
  rw [faultIn_eq_none]
  constructor
  · intro h u hu
    obtain ⟨first, rest, rfl⟩ := List.exists_cons_of_ne_nil (List.ne_nil_of_mem hu)
    have hfirst := h first List.mem_cons_self
    have hlength := h u hu
    -- the first update may be the one that has set the length
    have hset := roundLength_cons hc first rest
    exact ⟨by omega, by omega⟩
  · intro h u hu
    obtain ⟨hwhole, hlength⟩ := h u hu
    omega

/-- The decoder tells of the fault that is judged. -/
theorem decodeRound_eq_error_iff :
    decodeRound current updates = .error err ↔ RoundFault current updates err := by
  constructor
  · intro h
    by_cases hu : updates = []
    · subst hu
      cases h
      exact .empty
    by_cases hc : current.length % 4 = 0
    · obtain ⟨before, u, after, rfl, hbefore, hfault⟩ :=
        (faultIn_roundLength_iff hc).1 ((decodeRound_eq_error_iff_faultIn hu hc).1 h)
      exact .update hc hbefore hfault
    · rw [decodeRound_of_broken hu hc] at h
      cases h
      exact .prior hu hc
  · rintro (_ | ⟨hu, hc⟩ | ⟨hc, hbefore, hfault⟩)
    · rfl
    · exact decodeRound_of_broken hu hc
    · exact (decodeRound_eq_error_iff_faultIn (by simp) hc).2
        ((faultIn_roundLength_iff hc).2 ⟨_, _, _, rfl, hbefore, hfault⟩)

/-- It succeeds on the sound rounds. -/
theorem exists_decodeRound_iff :
    (∃ d, decodeRound current updates = .ok d) ↔ SoundRound current updates := by
  constructor
  · rintro ⟨d, hd⟩
    obtain ⟨hu, hc, -⟩ := decodeRound_ok hd
    refine ⟨hu, hc, (faultIn_roundLength_eq_none_iff hc).1 ?_⟩
    cases hf : faultIn (roundLength current updates / 4) updates with
    | none => rfl
    | some err =>
      rw [(decodeRound_eq_error_iff_faultIn hu hc).2 hf] at hd
      cases hd
  · rintro ⟨hu, hc, hfits⟩
    cases hd : decodeRound current updates with
    | ok d => exact ⟨d, rfl⟩
    | error err =>
      have hf := (decodeRound_eq_error_iff_faultIn hu hc).1 hd
      rw [(faultIn_roundLength_eq_none_iff hc).2 hfits] at hf
      cases hf

end

namespace Strategy

/-- **The verdict on a round.**  Whatever the strategy and whatever it remembers, it aggregates a
round iff there are updates, the prior model is whole weights, and every update is whole weights and
as long as the prior model or, when there is none, as the first update.  Of any other round the same
fault is told by all: that there are no updates, then that the prior model is no whole number of
weights, then what is wrong with the first update that does not fit. -/
theorem aggregate_verdict (s : Strategy) (current : Blob) (updates : List Contribution) :
    ((∃ model, (s.aggregate current updates).1 = .ok model) ↔ SoundRound current updates) ∧
      ∀ err, (s.aggregate current updates).1 = .error err ↔ RoundFault current updates err := by
  rw [← exists_decodeRound_iff]
  simp only [← decodeRound_eq_error_iff]
  cases hd : decodeRound current updates with
  | error fault =>
    rw [aggregate_of_decodeRound_error hd]
    simp
  | ok d =>
    obtain ⟨model, s', hag, -⟩ := aggregate_of_decodeRound_ok hd s
    rw [hag]
    simp

end Strategy

end Federation
