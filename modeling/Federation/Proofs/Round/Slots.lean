/-
  The slots of an open round, against the updates that were accepted in it.

  * `arrivals`: the identities in a list of accepted updates, by first arrival;
  * `latestOf`: the last update of an identity;
  * `Collects`: slots in the order of first arrival that hold the last update of each identity;
  * `IsRound`: contributions that stand for a list of accepted updates in this way;
  * `Collects.mergeSlot`: filling a slot accepts one more update;
  * `IsRound.unique`: accepted updates have only one list of contributions.
-/
import Federation.Proofs.NameMap
import Federation.Round.State

namespace Federation

/-- The identities of accepted updates, each where it came first. -/
def arrivals : List (String × ModelUpdate) → List String
  | [] => []
  | a :: rest => a.1 :: (arrivals rest).filter (· ≠ a.1)

/-- The last update of an identity. -/
def latestOf (id : String) (accepted : List (String × ModelUpdate)) : Option ModelUpdate :=
  (accepted.filter (·.1 = id)).getLast?.map (·.2)

/-- Slots that hold exactly the accepted updates of a round. -/
structure Collects (accepted : List (String × ModelUpdate)) (slots : List PendingSlot) : Prop where
  order : slots.map (·.collaborator) = arrivals accepted
  latest : ∀ slot ∈ slots, latestOf slot.collaborator accepted = some slot.update

/-- Contributions that stand for exactly the accepted updates of a round: one for each identity, in
the order of first arrival, with what the last update of the identity said. -/
structure IsRound (accepted : List (String × ModelUpdate)) (cs : List Contribution) : Prop where
  order : cs.map (·.collaborator) = arrivals accepted
  latest : ∀ c ∈ cs, ∃ u, latestOf c.collaborator accepted = some u ∧
    c = ⟨c.collaborator, u.model, u.sampleCount, 0⟩

/-! ## First arrivals -/

theorem mem_arrivals {id : String} {accepted : List (String × ModelUpdate)} :
    id ∈ arrivals accepted ↔ id ∈ accepted.map (·.1) := by
  induction accepted with
  | nil => simp [arrivals]
  | cons a rest ih =>
    simp only [arrivals, List.mem_cons, List.mem_filter, ih, List.map_cons, decide_eq_true_eq]
    by_cases h : id = a.1 <;> simp [h]

theorem nodup_arrivals (accepted : List (String × ModelUpdate)) : (arrivals accepted).Nodup := by
  induction accepted with
  | nil => exact List.nodup_nil
  | cons a rest ih =>
    refine List.nodup_cons.2 ⟨fun h => ?_, ih.filter _⟩
    simp [List.mem_filter] at h

theorem arrivals_append (accepted : List (String × ModelUpdate)) (id : String) (u : ModelUpdate) :
    arrivals (accepted ++ [(id, u)]) =
      if id ∈ arrivals accepted then arrivals accepted else arrivals accepted ++ [id] := by
  induction accepted with
  | nil => simp [arrivals]
  | cons a rest ih =>
    simp only [List.cons_append, arrivals, ih, List.mem_cons, List.mem_filter, decide_eq_true_eq]
    by_cases ha : id = a.1
    · -- the identity came first with `a`, and is filtered out behind it
      subst ha
      by_cases hr : a.1 ∈ arrivals rest <;> simp [hr, List.filter_append]
    · by_cases hr : id ∈ arrivals rest <;> simp [ha, hr, List.filter_append]

/-! ## Last updates -/

theorem latestOf_append (accepted : List (String × ModelUpdate)) (id id' : String)
    (u : ModelUpdate) :
    latestOf id' (accepted ++ [(id, u)]) = if id = id' then some u else latestOf id' accepted := by
  unfold latestOf
  rw [List.filter_append]
  by_cases h : id = id' <;> simp [h]

/-! ## Slots -/

theorem map_collaborator_mergeSlot (id : String) (u : ModelUpdate) (slots : List PendingSlot) :
    (mergeSlot id u slots).map (·.collaborator) =
      if id ∈ slots.map (·.collaborator) then slots.map (·.collaborator)
      else slots.map (·.collaborator) ++ [id] := by
  induction slots with
  | nil => simp [mergeSlot]
  | cons slot slots ih =>
    unfold mergeSlot
    split
    · next h => simp [h]
    · next h =>
      have h' : id ≠ slot.collaborator := fun he => h he.symm
      simp only [List.map_cons, ih, List.mem_cons, h', false_or]
      split <;> rfl

theorem mem_mergeSlot {id : String} {u : ModelUpdate} {slot : PendingSlot}
    {slots : List PendingSlot} (hn : (slots.map (·.collaborator)).Nodup) :
    slot ∈ mergeSlot id u slots ↔ slot = ⟨id, u⟩ ∨ (slot ∈ slots ∧ slot.collaborator ≠ id) := by
  induction slots with
  | nil => simp [mergeSlot]
  | cons s slots ih =>
    obtain ⟨hs, hn⟩ := List.nodup_cons.1 hn
    unfold mergeSlot
    split
    · next h =>
      have hne : ∀ t ∈ slots, t.collaborator ≠ id := fun t ht he =>
        hs (List.mem_map.2 ⟨t, ht, he.trans h.symm⟩)
      simp only [List.mem_cons]
      constructor
      · rintro (rfl | ht)
        · exact Or.inl rfl
        · exact Or.inr ⟨Or.inr ht, hne _ ht⟩
      · rintro (rfl | ⟨rfl | ht, hid⟩)
        · exact Or.inl rfl
        · exact absurd h hid
        · exact Or.inr ht
    · next h =>
      simp only [List.mem_cons, ih hn]
      constructor
      · rintro (rfl | rfl | ⟨ht, hid⟩)
        · exact Or.inr ⟨Or.inl rfl, h⟩
        · exact Or.inl rfl
        · exact Or.inr ⟨Or.inr ht, hid⟩
      · rintro (rfl | ⟨rfl | ht, hid⟩)
        · exact Or.inr (Or.inl rfl)
        · exact Or.inl rfl
        · exact Or.inr (Or.inr ⟨ht, hid⟩)

theorem nodup_mergeSlot {id : String} {u : ModelUpdate} {slots : List PendingSlot}
    (hn : (slots.map (·.collaborator)).Nodup) :
    ((mergeSlot id u slots).map (·.collaborator)).Nodup := by
  rw [map_collaborator_mergeSlot]
  split
  · exact hn
  · next h => exact List.nodup_append.2 ⟨hn, by simp, fun a ha b hb he => by
      simp only [List.mem_singleton] at hb
      exact h (hb ▸ he ▸ ha)⟩

/-- An update that has its slot already changes nothing. -/
theorem mergeSlot_of_mem {id : String} {u : ModelUpdate} {slots : List PendingSlot}
    (hn : (slots.map (·.collaborator)).Nodup) (h : ⟨id, u⟩ ∈ slots) :
    mergeSlot id u slots = slots := by
  induction slots with
  | nil => cases h
  | cons s slots ih =>
    obtain ⟨hs, hn⟩ := List.nodup_cons.1 hn
    unfold mergeSlot
    split
    · next hid =>
      rcases List.mem_cons.1 h with rfl | h
      · rfl
      · exact absurd (List.mem_map.2 ⟨_, h, hid.symm⟩) hs
    · next hid =>
      rcases List.mem_cons.1 h with rfl | h
      · exact absurd rfl hid
      · rw [ih hn h]

theorem mergeSlot_ne_nil (id : String) (u : ModelUpdate) (slots : List PendingSlot) :
    mergeSlot id u slots ≠ [] := by
  cases slots with
  | nil => simp [mergeSlot]
  | cons s slots => unfold mergeSlot; split <;> simp

namespace Collects

variable {accepted : List (String × ModelUpdate)} {slots : List PendingSlot}

theorem nil : Collects [] [] := ⟨rfl, by simp⟩

theorem nodup (h : Collects accepted slots) : (slots.map (·.collaborator)).Nodup :=
  h.order ▸ nodup_arrivals accepted

theorem mem_ids (h : Collects accepted slots) {id : String} :
    id ∈ slots.map (·.collaborator) ↔ id ∈ accepted.map (·.1) := by
  rw [h.order, mem_arrivals]

/-- Filling a slot accepts one more update. -/
theorem mergeSlot (h : Collects accepted slots) (id : String) (u : ModelUpdate) :
    Collects (accepted ++ [(id, u)]) (mergeSlot id u slots) where
  order := by rw [map_collaborator_mergeSlot, arrivals_append, h.order]
  latest slot hs := by
    rw [latestOf_append]
    rcases (mem_mergeSlot h.nodup).1 hs with rfl | ⟨hs, hne⟩
    · exact if_pos rfl
    · rw [if_neg hne.symm, h.latest slot hs]

theorem isRound (h : Collects accepted slots) : IsRound accepted (roundContributions slots) where
  order := by rw [← h.order]; simp [roundContributions, Function.comp_def]
  latest c hc := by
    obtain ⟨slot, hs, rfl⟩ := List.mem_map.1 hc
    exact ⟨slot.update, h.latest slot hs, rfl⟩

end Collects

/-- Accepted updates have only one list of contributions. -/
theorem IsRound.unique {accepted : List (String × ModelUpdate)} {cs ds : List Contribution}
    (hc : IsRound accepted cs) (hd : IsRound accepted ds) : cs = ds := by
  have hcd : cs.map (·.collaborator) = ds.map (·.collaborator) := hc.order.trans hd.order.symm
  refine List.ext_getElem (by simpa using congrArg List.length hcd) fun i hi hj => ?_
  have hid : cs[i].collaborator = ds[i].collaborator := by
    have := congrArg (fun l => l[i]?) hcd
    simpa [List.getElem?_map, hi, hj] using this
  obtain ⟨u, hu, hcu⟩ := hc.latest _ (List.getElem_mem hi)
  obtain ⟨w, hw, hdw⟩ := hd.latest _ (List.getElem_mem hj)
  rw [hid, hw] at hu
  rw [hcu, hdw, hid, Option.some.inj hu]

end Federation
