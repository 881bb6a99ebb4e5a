/-
  What a search of a PEM file finds, with any reader.

  * `ReadsTo`: sections read one after the other, and what is left of the file;
  * `WellFormed`: a file all of whose sections can be read;
  * `HoldsCertificate`, `HoldsPrivateKey`: the files that are accepted as such;
  * `readSections_iff`, `findKey_iff`: the searches have the fuel that they need;
  * `checkCertificates_iff`, `checkPrivateKey_iff`: these are the ones that pass the checks;
  * `holdsPrivateKey_of_wellFormed`: a private key in a well-formed file is found.

  The search for certificates reads a file to its end; the search for a private key stops at the
  first one, and what comes after it need not be well formed.
-/
import Mathlib
import Federation.Security.Certificates

namespace Federation

theorem map_eq_ok_iff {ε α β : Type} {f : α → β} {r : Except ε α} {b : β} :
    r.map f = .ok b ↔ ∃ a, r = .ok a ∧ f a = b := by
  cases r <;> simp [Except.map]

variable [PemReader]

/-! ## Sections one after the other -/

/-- Sections that are read one after the other, and what comes after the last of them. -/
inductive ReadsTo : List UInt8 → List PemSection → List UInt8 → Prop
  | nil {file} : ReadsTo file [] file
  | cons {file s rest ss rest'} : PemReader.next file = .ok (some (s, rest)) →
      ReadsTo rest ss rest' → ReadsTo file (s :: ss) rest'

variable {file rest rest' : List UInt8} {s : PemSection} {ss : List PemSection}

theorem length_lt_of_next (h : PemReader.next file = .ok (some (s, rest))) :
    rest.length < file.length := by
  obtain ⟨taken, hne, rfl⟩ := PemReader.remainder h
  rw [List.length_append]
  exact Nat.lt_add_of_pos_left (List.length_pos_iff.2 hne)

namespace ReadsTo

/-- Where no section can be read, none is. -/
theorem eq_nil (h : ReadsTo file ss rest')
    (hnone : ∀ s rest, PemReader.next file ≠ .ok (some (s, rest))) : ss = [] ∧ rest' = file := by
  cases h with
  | nil => exact ⟨rfl, rfl⟩
  | cons hs => exact absurd hs (hnone _ _)

/-- Where one can be read, it is the first, if there is a first. -/
theorem eq_cons (h : ReadsTo file ss rest')
    (hs : PemReader.next file = .ok (some (s, rest))) :
    ss = [] ∧ rest' = file ∨ ∃ ss', ss = s :: ss' ∧ ReadsTo rest ss' rest' := by
  cases h with
  | nil => exact Or.inl ⟨rfl, rfl⟩
  | cons hs' h =>
    rw [hs] at hs'
    cases hs'
    exact Or.inr ⟨_, rfl, h⟩

end ReadsTo

/-! ## Files -/

/-- A file all of whose sections can be read. -/
def WellFormed (pem : List UInt8) (ss : List PemSection) : Prop :=
  ∃ rest, ReadsTo pem ss rest ∧ PemReader.next rest = .ok none

/-- A well-formed file with at least one certificate. -/
def HoldsCertificate (pem : List UInt8) : Prop :=
  ∃ ss, WellFormed pem ss ∧ ∃ s ∈ ss, s.isCertificate = true

/-- A file with a private key, which is well formed up to there. -/
def HoldsPrivateKey (pem : List UInt8) : Prop :=
  ∃ ss rest, ReadsTo pem ss rest ∧ ∃ s ∈ ss, s.isPrivateKey = true

/-- A private key in a well-formed file is found. -/
theorem holdsPrivateKey_of_wellFormed {pem : List UInt8} (h : WellFormed pem ss)
    (hkey : ∃ s ∈ ss, s.isPrivateKey = true) : HoldsPrivateKey pem := by
  obtain ⟨rest, hreads, -⟩ := h
  exact ⟨ss, rest, hreads, hkey⟩

/-! ## One section more -/

theorem wellFormed_of_next (h : PemReader.next file = .ok (some (s, rest))) :
    WellFormed file ss ↔ ∃ ss', WellFormed rest ss' ∧ s :: ss' = ss := by
  constructor
  · rintro ⟨rest', hreads, hend⟩
    rcases hreads.eq_cons h with ⟨-, rfl⟩ | ⟨ss', rfl, htail⟩
    · rw [h] at hend
      cases hend
    · exact ⟨ss', ⟨rest', htail, hend⟩, rfl⟩
  · rintro ⟨ss', ⟨rest', hreads, hend⟩, rfl⟩
    exact ⟨rest', .cons h hreads, hend⟩

theorem wellFormed_of_end (h : PemReader.next file = .ok none) : WellFormed file ss ↔ [] = ss := by
  constructor
  · rintro ⟨rest, hreads, -⟩
    exact (hreads.eq_nil (by simp [h])).1.symm
  · rintro rfl
    exact ⟨file, .nil, h⟩

theorem not_wellFormed {e : String} (h : PemReader.next file = .error e) :
    ¬ WellFormed file ss := by
  rintro ⟨rest, hreads, hend⟩
  obtain ⟨-, rfl⟩ := hreads.eq_nil (by simp [h])
  rw [h] at hend
  cases hend

theorem holdsPrivateKey_of_next (h : PemReader.next file = .ok (some (s, rest))) :
    HoldsPrivateKey file ↔ s.isPrivateKey = true ∨ HoldsPrivateKey rest := by
  constructor
  · rintro ⟨ss, rest', hreads, s', hs', hkey⟩
    rcases hreads.eq_cons h with ⟨rfl, -⟩ | ⟨ss', rfl, htail⟩
    · cases hs'
    · rcases List.mem_cons.1 hs' with rfl | hs'
      · exact Or.inl hkey
      · exact Or.inr ⟨ss', rest', htail, s', hs', hkey⟩
  · rintro (hkey | ⟨ss, rest', hreads, s', hs', hkey⟩)
    · exact ⟨[s], rest, .cons h .nil, s, List.mem_cons_self, hkey⟩
    · exact ⟨s :: ss, rest', .cons h hreads, s', List.mem_cons_of_mem _ hs', hkey⟩

theorem not_holdsPrivateKey (h : ∀ s rest, PemReader.next file ≠ .ok (some (s, rest))) :
    ¬ HoldsPrivateKey file := by
  rintro ⟨ss, rest, hreads, s, hs, -⟩
  obtain ⟨rfl, -⟩ := hreads.eq_nil h
  cases hs

/-! ## Searches -/

/-- The fuel is enough for all the sections. -/
theorem readSections_iff {fuel : Nat} (hfuel : file.length < fuel) :
    readSections fuel file = .ok ss ↔ WellFormed file ss := by
  induction fuel generalizing file ss with
  | zero => exact absurd hfuel (Nat.not_lt_zero _)
  | succ fuel ih =>
    rw [readSections]
    rcases h : PemReader.next file with e | _ | ⟨s, rest⟩
    · exact iff_of_false nofun (not_wellFormed h)
    · rw [wellFormed_of_end h, Except.ok.injEq]
    · have hlt := length_lt_of_next h
      rw [wellFormed_of_next h]
      refine map_eq_ok_iff.trans (exists_congr fun ss' => and_congr_left fun _ => ?_)
      exact ih (by omega)

/-- The first private key is found as soon as it has been read. -/
theorem findKey_iff {fuel : Nat} (hfuel : file.length < fuel) :
    (∃ s, findKey fuel file = .ok (some s)) ↔ HoldsPrivateKey file := by
  induction fuel generalizing file with
  | zero => exact absurd hfuel (Nat.not_lt_zero _)
  | succ fuel ih =>
    rw [findKey]
    rcases h : PemReader.next file with e | _ | ⟨s, rest⟩
    · exact iff_of_false nofun (not_holdsPrivateKey (by simp [h]))
    · exact iff_of_false nofun (not_holdsPrivateKey (by simp [h]))
    · have hlt := length_lt_of_next h
      have hrest := @ih rest (by omega)
      rw [holdsPrivateKey_of_next h, ← hrest]
      cases hkey : s.isPrivateKey <;> simp [hkey]

/-! ## Checks -/

theorem checkCertificates_iff (path : String) (pem : List UInt8) :
    checkCertificates path pem = .ok () ↔ HoldsCertificate pem := by
  have hcheck : checkCertificates path pem = .ok () ↔
      ∃ ss, readSections (pem.length + 1) pem = .ok ss ∧
        ss.filter PemSection.isCertificate ≠ [] := by
    unfold checkCertificates pemCertificates
    cases readSections (pem.length + 1) pem with
    | error e => simp [Except.map]
    | ok ss =>
      simp only [Except.map, Except.ok.injEq, exists_eq_left']
      cases ss.filter PemSection.isCertificate <;> simp
  rw [hcheck]
  refine exists_congr fun ss => and_congr (readSections_iff (Nat.lt_succ_self _)) ?_
  simp [List.filter_eq_nil_iff]

theorem checkPrivateKey_iff (path : String) (pem : List UInt8) :
    checkPrivateKey path pem = .ok () ↔ HoldsPrivateKey pem := by
  rw [← findKey_iff (Nat.lt_succ_self pem.length)]
  unfold checkPrivateKey pemPrivateKey
  rcases findKey (pem.length + 1) pem with e | _ | s <;> simp

end Federation
