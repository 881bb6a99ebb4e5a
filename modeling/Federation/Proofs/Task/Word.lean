/-
  Words for the command line.

  * `IsWord`: `[A-Za-z0-9./_=-]{1,256}`;
  * `checkToken_eq_ok_iff`: words pass the check, as they are, and nothing else does;
  * `checkPath_eq_ok_iff`: a path passes when it is there and its bytes are a word's;
  * `FailsInvalid`: whatever else is refused is an invalid argument.
-/
import Federation.Proofs.Text.Utf8
import Federation.Task

namespace Federation

/-! ## The alphabet -/

/-- `[A-Za-z0-9./_=-]` -/
def IsWordChar (c : Char) : Prop :=
  'A' ≤ c ∧ c ≤ 'Z' ∨ 'a' ≤ c ∧ c ≤ 'z' ∨ '0' ≤ c ∧ c ≤ '9' ∨ c ∈ ['.', '/', '_', '=', '-']

theorem isSafeChar_iff {c : Char} : isSafeChar c = true ↔ IsWordChar c := by
  simp only [isSafeChar, isAsciiAlphanumeric, IsWordChar, Bool.or_eq_true, Bool.and_eq_true,
    decide_eq_true_eq, List.mem_cons, List.not_mem_nil]
  tauto

theorem IsWordChar.ascii {c : Char} (h : IsWordChar c) : c.toNat < 0x80 := by
  have hle : ∀ d : Char, c ≤ d → d.toNat < 0x80 → c.toNat < 0x80 := fun d h hd =>
    lt_of_le_of_lt (UInt32.le_iff_toNat_le.1 h) hd
  rcases h with h | h | h | h
  · exact hle 'Z' h.2 (by decide)
  · exact hle 'z' h.2 (by decide)
  · exact hle '9' h.2 (by decide)
  · simp only [List.mem_cons, List.not_mem_nil, or_false] at h
    rcases h with rfl | rfl | rfl | rfl | rfl <;> decide

/-! ## Words -/

/-- `[A-Za-z0-9./_=-]{1,256}` -/
structure IsWord (s : String) : Prop where
  nonempty : 1 ≤ s.length
  short : s.length ≤ 256
  safe : ∀ c ∈ s.toList, IsWordChar c

namespace IsWord

variable {s s' : String}

theorem ascii (h : IsWord s) : ∀ c ∈ s.toList, c.toNat < 0x80 :=
  fun c hc => (h.safe c hc).ascii

/-- A word begins with a character as it does with a byte. -/
theorem head_utf8Encode (h : IsWord s) {x : Char} (hx : x.toNat < 0x80) :
    (utf8Encode s).head? = some (UInt8.ofNat x.toNat) ↔ s.toList.head? = some x := by
  have hs := h.ascii
  rw [utf8Encode_of_ascii hs, List.head?_map, Option.map_eq_some_iff]
  constructor
  · rintro ⟨y, hy, hbyte⟩
    have hlt := hs y (List.mem_of_mem_head? hy)
    have heq := congrArg UInt8.toNat hbyte
    rw [toNat_byte (by omega), toNat_byte (by omega)] at heq
    rw [hy, Char.toNat_inj.1 heq]
  · exact fun hy => ⟨x, hy, rfl⟩

theorem utf8Encode_lt (h : IsWord s) (h' : IsWord s') (hlt : s < s') :
    utf8Encode s < utf8Encode s' := utf8Encode_lt_of_ascii h.ascii h'.ascii hlt

end IsWord

/-! ## Checks that fail -/

section
variable {ε α β : Type}

theorem bind_eq_ok_iff {x : Except ε α} {f : α → Except ε β} {b : β} :
    x >>= f = .ok b ↔ ∃ a, x = .ok a ∧ f a = .ok b := by
  cases x <;> simp [bind, Except.bind]

end

/-- Whatever fails here is an invalid argument. -/
def FailsInvalid {α : Type} (x : Except FederationError α) : Prop :=
  ∀ e, x = .error e → ∃ text, e = .invalidArgument text

namespace FailsInvalid

variable {α β : Type}

theorem ok (a : α) : FailsInvalid (.ok a) := nofun

theorem error (text : String) : FailsInvalid (.error (.invalidArgument text) : Except _ α) := by
  rintro e ⟨⟩
  exact ⟨text, rfl⟩

theorem bind {x : Except FederationError α} {f : α → Except FederationError β}
    (hx : FailsInvalid x) (hf : ∀ a, FailsInvalid (f a)) : FailsInvalid (x >>= f) := by
  cases x with
  | ok a => exact hf a
  | error e =>
    rintro e' ⟨⟩
    exact hx e rfl

end FailsInvalid

/-! ## The check -/

section
variable {what s w : String}

/-- **Words pass the check**, as they are, and nothing else does. -/
theorem checkToken_eq_ok_iff : checkToken what s = .ok w ↔ w = s ∧ IsWord s := by
  unfold checkToken
  split
  · next hempty =>
    rw [String.isEmpty_iff] at hempty
    subst hempty
    exact ⟨nofun, fun h => absurd h.2.nonempty (by decide)⟩
  · next hne =>
    have hpos : 1 ≤ s.length := by
      rw [Nat.one_le_iff_ne_zero, Ne, String.length_eq_zero_iff]
      simpa [String.isEmpty_iff] using hne
    split
    · next hlong =>
      refine ⟨nofun, fun h => absurd h.2.short ?_⟩
      rw [utf8Length_of_ascii h.2.ascii] at hlong
      exact Nat.not_le.2 hlong
    · next hshort =>
      split
      · next bad hbad =>
        refine ⟨nofun, fun h => ?_⟩
        have hsafe := isSafeChar_iff.2 (h.2.safe bad (List.mem_of_find?_eq_some hbad))
        simpa [hsafe] using List.find?_some hbad
      · next hnone =>
        have hsafe : ∀ c ∈ s.toList, IsWordChar c := by
          intro c hc
          have := List.find?_eq_none.1 hnone c hc
          exact isSafeChar_iff.1 (by simpa using this)
        have hlength : utf8Length s = s.length :=
          utf8Length_of_ascii fun c hc => (hsafe c hc).ascii
        have hle : s.length ≤ 256 := hlength ▸ Nat.not_lt.1 hshort
        constructor
        · rintro ⟨⟩
          exact ⟨rfl, hpos, hle, hsafe⟩
        · rintro ⟨rfl, -⟩
          rfl

theorem failsInvalid_checkToken (what s : String) : FailsInvalid (checkToken what s) := by
  unfold checkToken
  split
  · exact FailsInvalid.error _
  · split
    · exact FailsInvalid.error _
    · split
      · exact FailsInvalid.error _
      · exact FailsInvalid.ok s

/-- A path passes when it is there and its bytes are those of a word. -/
theorem checkPath_eq_ok_iff {path : Option (List UInt8)} :
    checkPath what path = .ok w ↔ path = some (utf8Encode w) ∧ IsWord w := by
  unfold checkPath
  split
  · exact ⟨nofun, fun h => by cases h.1⟩
  · next bytes =>
    rw [Option.some.injEq, ← utf8Decode_eq_some_iff]
    split
    · next hnone =>
      rw [hnone]
      exact ⟨nofun, fun h => by cases h.1⟩
    · next s hs =>
      rw [hs, checkToken_eq_ok_iff, Option.some.injEq]
      constructor
      · rintro ⟨rfl, hw⟩
        exact ⟨rfl, hw⟩
      · rintro ⟨rfl, hw⟩
        exact ⟨rfl, hw⟩

theorem failsInvalid_checkPath (what : String) (path : Option (List UInt8)) :
    FailsInvalid (checkPath what path) := by
  unfold checkPath
  split
  · exact FailsInvalid.error _
  · split
    · exact FailsInvalid.error _
    · next s _ => exact failsInvalid_checkToken what s

end

end Federation
