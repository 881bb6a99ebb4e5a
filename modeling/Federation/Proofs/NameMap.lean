/-
  Looking up, counting and listing the names of a map.

  * `find?_insert`, `contains_insert`, `size_insert`: what an insertion changes;
  * `find?_modify`: what the change of a value changes;
  * `names`: the names in their order, without repetition;
  * `length_lt_size_iff`: names without repetition that are all in a map are fewer than its names
    iff one of those is missing among them;
  * `countP_mem_names`: as many names of the map are among them as they are;
  * `sum_countP_names`: entries that are counted name by name are as many as they are.
-/
import Mathlib
import Federation.NameMap

namespace Federation

variable {α : Type}

theorem lookup_cons_eq_ite {κ : Type} [BEq κ] [LawfulBEq κ] [DecidableEq κ] (k k' : κ) (v : α)
    (es : List (κ × α)) : ((k, v) :: es).lookup k' = if k' = k then some v else es.lookup k' := by
  rw [List.lookup]
  by_cases h : k' = k
  · simp [h]
  · rw [beq_eq_false_iff_ne.2 h, if_neg h]

theorem lookup_of_mem {es : List (String × α)} (hn : (es.map (·.1)).Nodup)
    {k : String} {v : α} (h : (k, v) ∈ es) : es.lookup k = some v := by
  induction es with
  | nil => cases h
  | cons e es ih =>
    obtain ⟨he, hn⟩ := List.nodup_cons.1 hn
    rw [lookup_cons_eq_ite]
    rcases List.mem_cons.1 h with rfl | h
    · exact if_pos rfl
    · have hk : k ≠ e.1 := by
        rintro rfl
        exact he (List.mem_map.2 ⟨_, h, rfl⟩)
      rw [if_neg hk]
      exact ih hn h

theorem lookup_insertSorted (k : String) (v : α) (k' : String) (es : List (String × α)) :
    (insertSorted k v es).lookup k' = if k' = k then some v else es.lookup k' := by
  induction es with
  | nil => exact lookup_cons_eq_ite k k' v []
  | cons e es ih =>
    obtain ⟨d, w⟩ := e
    unfold insertSorted
    split
    · exact lookup_cons_eq_ite k k' v _
    · next hlt =>
      split
      · next hgt =>
        rw [lookup_cons_eq_ite, lookup_cons_eq_ite, ih]
        by_cases hd : k' = d
        · have hk : k' ≠ k := by rintro rfl; rw [hd] at hgt; exact String.lt_irrefl _ hgt
          rw [if_pos hd, if_neg hk, if_pos hd]
        · rw [if_neg hd, if_neg hd]
      · next hgt =>
        -- neither name is smaller, so the entry is replaced
        have hkd : k = d := String.le_antisymm hgt hlt
        rw [lookup_cons_eq_ite, lookup_cons_eq_ite, hkd]
        by_cases hd : k' = d
        · rw [if_pos hd, if_pos hd]
        · rw [if_neg hd, if_neg hd, if_neg hd]

theorem mem_map_fst_insertSorted {k k' : String} {v : α} {es : List (String × α)} :
    k' ∈ (insertSorted k v es).map (·.1) ↔ k' = k ∨ k' ∈ es.map (·.1) := by
  induction es with
  | nil => simp [insertSorted]
  | cons e es ih =>
    unfold insertSorted
    split_ifs with hlt hgt
    · simp
    · simp only [List.map_cons, List.mem_cons, ih]; tauto
    · have hk : k = e.1 := String.le_antisymm hgt hlt
      simp [hk]

namespace NameMap

/-- The names of a map, in order. -/
def names (m : NameMap α) : List String := m.entries.map (·.1)

theorem nodup_names (m : NameMap α) : m.names.Nodup :=
  List.pairwise_map.2 (m.sorted.imp fun h => by rintro he; rw [he] at h; exact String.lt_irrefl _ h)

theorem length_names (m : NameMap α) : m.names.length = m.size := List.length_map ..

theorem contains_iff {m : NameMap α} {k : String} : m.contains k = true ↔ k ∈ m.names := by
  unfold contains find? names
  induction m.entries with
  | nil => simp
  | cons e es ih =>
    rw [List.lookup]
    split
    · next h => simp [beq_iff_eq.1 h]
    · next h => simp only [ih, List.map_cons, List.mem_cons, beq_eq_false_iff_ne.1 h, false_or]

theorem find?_of_mem {m : NameMap α} {k : String} {v : α} (h : (k, v) ∈ m.entries) :
    m.find? k = some v := lookup_of_mem m.nodup_names h

@[simp] theorem contains_empty (k : String) : (empty : NameMap α).contains k = false := rfl

@[simp] theorem size_empty : (empty : NameMap α).size = 0 := rfl

/-! ## Insertion -/

theorem find?_insert (m : NameMap α) (k : String) (v : α) (k' : String) :
    (m.insert k v).find? k' = if k' = k then some v else m.find? k' :=
  lookup_insertSorted k v k' m.entries

@[simp] theorem contains_insert (m : NameMap α) (k : String) (v : α) (k' : String) :
    (m.insert k v).contains k' = (decide (k' = k) || m.contains k') := by
  unfold contains
  rw [find?_insert]
  by_cases h : k' = k <;> simp [h]

theorem mem_names_insert {m : NameMap α} {k : String} {v : α} {k' : String} :
    k' ∈ (m.insert k v).names ↔ k' = k ∨ k' ∈ m.names := mem_map_fst_insertSorted

/-- A name that is there keeps its place. -/
theorem names_insert_of_contains {m : NameMap α} {k : String} (h : m.contains k = true) (v : α) :
    (m.insert k v).names = m.names := by
  have hs : (m.insert k v).names.Pairwise (· < ·) := List.pairwise_map.2 (m.insert k v).sorted
  refine List.Perm.eq_of_pairwise (fun a b _ _ h₁ h₂ => absurd h₂ (String.lt_asymm h₁)) hs
    (List.pairwise_map.2 m.sorted)
    ((List.perm_ext_iff_of_nodup (nodup_names _) (nodup_names _)).2 fun a => ?_)
  rw [mem_names_insert]
  exact ⟨fun ha => ha.elim (fun he => he ▸ contains_iff.1 h) id, Or.inr⟩

theorem size_insert_of_contains {m : NameMap α} {k : String} (h : m.contains k = true) (v : α) :
    (m.insert k v).size = m.size := by
  rw [← length_names, names_insert_of_contains h, length_names]

theorem size_insert_of_not_contains {m : NameMap α} {k : String} (h : m.contains k = false)
    (v : α) : (m.insert k v).size = m.size + 1 := by
  have hk : k ∉ m.names := fun hm => by rw [contains_iff.2 hm] at h; exact Bool.noConfusion h
  have hp : (m.insert k v).names.Perm (k :: m.names) :=
    (List.perm_ext_iff_of_nodup (nodup_names _) (List.nodup_cons.2 ⟨hk, nodup_names m⟩)).2
      fun a => by rw [mem_names_insert, List.mem_cons]
  rw [← length_names, hp.length_eq, List.length_cons, length_names]

/-! ## Change of a value -/

theorem find?_modify (m : NameMap α) (k : String) (f : α → α) (k' : String) :
    (m.modify k f).find? k' = if k' = k then (m.find? k).map f else m.find? k' := by
  unfold modify
  cases h : m.find? k with
  | some v => exact find?_insert ..
  | none =>
    by_cases hk : k' = k
    · rw [if_pos hk, hk]
      exact h
    · rw [if_neg hk]

@[simp] theorem names_modify (m : NameMap α) (k : String) (f : α → α) :
    (m.modify k f).names = m.names := by
  unfold modify
  cases h : m.find? k with
  | none => rfl
  | some v => exact names_insert_of_contains (by rw [contains, h]; rfl) _

@[simp] theorem contains_modify (m : NameMap α) (k : String) (f : α → α) (k' : String) :
    (m.modify k f).contains k' = m.contains k' := by
  rw [Bool.eq_iff_iff, contains_iff, contains_iff, names_modify]

@[simp] theorem size_modify (m : NameMap α) (k : String) (f : α → α) :
    (m.modify k f).size = m.size := by
  rw [← length_names, names_modify, length_names]

/-! ## Counting -/

/-- Of names that are all in the map, one of the map's names is missing iff they are fewer. -/
theorem length_lt_size_iff {m : NameMap α} {ks : List String} (hn : ks.Nodup)
    (hm : ∀ k ∈ ks, m.contains k = true) :
    ks.length < m.size ↔ ∃ k, m.contains k = true ∧ k ∉ ks := by
  have hsub : ks.Subperm m.names := hn.subperm fun k hk => contains_iff.1 (hm k hk)
  rw [← length_names]
  constructor
  · intro hlt
    by_contra hall
    push Not at hall
    have := ((nodup_names m).subperm fun k hk => hall k (contains_iff.2 hk)).length_le
    omega
  · rintro ⟨k, hk, hks⟩
    by_contra hge
    have hp := hsub.perm_of_length_le (by omega)
    exact hks (hp.mem_iff.2 (contains_iff.1 hk))

/-- Names that are all in the map are found among its names, each of them once. -/
theorem countP_mem_names {m : NameMap α} {ks : List String} (hn : ks.Nodup)
    (hm : ∀ k ∈ ks, m.contains k = true) : m.names.countP (· ∈ ks) = ks.length := by
  rw [List.countP_eq_length_filter]
  refine ((List.perm_ext_iff_of_nodup ((nodup_names m).filter _) hn).2 fun k => ?_).length_eq
  rw [List.mem_filter, decide_eq_true_eq]
  exact ⟨And.right, fun hk => ⟨contains_iff.1 (hm k hk), hk⟩⟩

/-- Counted name by name, pairs whose names are all in the map are as many as there are. -/
theorem sum_countP_names {β : Type} {m : NameMap α} {l : List (String × β)}
    (hl : ∀ a ∈ l, m.contains a.1 = true) :
    (m.names.map fun k => l.countP (·.1 = k)).sum = l.length := by
  have hcount : ∀ k, l.countP (·.1 = k) = (l.map (·.1)).count k := fun k => by
    rw [List.count, List.countP_map]
    rfl
  have hcard := Multiset.sum_count_eq_card (s := m.names.toFinset)
    (m := (l.map (·.1) : Multiset String)) (by simpa [← contains_iff] using hl)
  rw [← List.sum_toFinset _ m.nodup_names]
  simpa [hcount] using hcard

end NameMap

end Federation
