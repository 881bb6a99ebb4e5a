/-
  Finite maps from names, kept in increasing order of the names.

  The order is the byte order of the names, and it is part of the type: `NameMap.sorted` says that
  the names strictly increase, so two maps with the same entries are equal and listing a map needs
  no sorting.
-/

namespace Federation

/-- Insert or replace, keeping the names in order. -/
def insertSorted {α : Type} (k : String) (v : α) : List (String × α) → List (String × α)
  | [] => [(k, v)]
  | e :: es =>
    if k < e.1 then (k, v) :: e :: es
    else if e.1 < k then e :: insertSorted k v es
    else (k, v) :: es

theorem mem_insertSorted {α : Type} {k : String} {v : α} {e : String × α} :
    ∀ {es : List (String × α)}, e ∈ insertSorted k v es → e.1 = k ∨ e ∈ es
  | [], h => by simp [insertSorted] at h; simp [h]
  | d :: ds, h => by
    unfold insertSorted at h
    split at h
    · rcases List.mem_cons.1 h with h | h
      · exact Or.inl (by rw [h])
      · exact Or.inr h
    · split at h
      · rcases List.mem_cons.1 h with h | h
        · exact Or.inr (h ▸ List.mem_cons_self)
        · exact (mem_insertSorted h).imp_right (List.mem_cons_of_mem d)
      · rcases List.mem_cons.1 h with h | h
        · exact Or.inl (by rw [h])
        · exact Or.inr (List.mem_cons_of_mem d h)

theorem insertSorted_pairwise {α : Type} (k : String) (v : α) :
    ∀ {es : List (String × α)}, es.Pairwise (fun a b => a.1 < b.1) →
      (insertSorted k v es).Pairwise (fun a b => a.1 < b.1)
  | [], _ => by simp [insertSorted]
  | d :: ds, h => by
    rw [List.pairwise_cons] at h
    unfold insertSorted
    split
    · next hlt =>
      refine List.pairwise_cons.2 ⟨?_, List.pairwise_cons.2 h⟩
      intro e he
      rcases List.mem_cons.1 he with rfl | he
      · exact hlt
      · exact String.lt_trans hlt (h.1 e he)
    · split
      · next _ hlt =>
        refine List.pairwise_cons.2 ⟨?_, insertSorted_pairwise k v h.2⟩
        intro e he
        rcases mem_insertSorted he with rfl | he
        · exact hlt
        · exact h.1 e he
      · next h₁ h₂ =>
        have hk : k = d.1 := String.le_antisymm h₂ h₁
        subst hk
        exact List.pairwise_cons.2 h

/-- A map from names to values. -/
structure NameMap (α : Type) where
  entries : List (String × α)
  sorted : entries.Pairwise (fun a b => a.1 < b.1)

namespace NameMap

variable {α : Type}

instance [DecidableEq α] : DecidableEq (NameMap α) := fun a b =>
  if h : a.entries = b.entries then
    .isTrue (by cases a; cases b; cases h; rfl)
  else .isFalse fun hab => h (hab ▸ rfl)

def empty : NameMap α := ⟨[], List.Pairwise.nil⟩

instance : Inhabited (NameMap α) := ⟨empty⟩

/-- Add a name, or give an existing one a new value. -/
def insert (m : NameMap α) (k : String) (v : α) : NameMap α :=
  ⟨insertSorted k v m.entries, insertSorted_pairwise k v m.sorted⟩

def find? (m : NameMap α) (k : String) : Option α := m.entries.lookup k

def contains (m : NameMap α) (k : String) : Bool := (m.find? k).isSome

/-- How many names there are. -/
def size (m : NameMap α) : Nat := m.entries.length

/-- Change the value of a name that is there. -/
def modify (m : NameMap α) (k : String) (f : α → α) : NameMap α :=
  match m.find? k with
  | some v => m.insert k (f v)
  | none => m

/-- Later entries win. -/
def ofList (es : List (String × α)) : NameMap α := es.foldl (fun m e => m.insert e.1 e.2) empty

end NameMap

end Federation
