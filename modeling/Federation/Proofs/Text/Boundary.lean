/-
  Places among the bytes of a text.

  * `isBoundary`: the byte that stands there does not go on with a character;
  * `isBoundary_iff`: so it is exactly where a character begins, or the text ends;
  * `sliceFrom`: a text from a byte on, if it may be cut there;
  * `charStarts`: where each character begins, counted in bytes;
  * `nth_charStarts_reverse`: the place that is found by going back over the characters.
-/
import Federation.Proofs.Text.Utf8

namespace Federation

/-! ## Boundaries -/

/-- May a text be cut in front of its `i`th byte? -/
def isBoundary (bytes : List UInt8) (i : Nat) : Bool :=
  match bytes[i]? with
  | some b => !continues 0x80 0xbf b
  | none => decide (i = bytes.length)

/-- The bytes of a text from the `i`th on, if it may be cut there. -/
def sliceFrom (bytes : List UInt8) (i : Nat) : Option (List UInt8) :=
  if isBoundary bytes i then some (bytes.drop i) else none

/-- The first byte of a character does not go on with one, and all others do. -/
theorem utf8EncodeChar_shape (c : Char) :
    ∃ b rest, utf8EncodeChar c = b :: rest ∧ continues 0x80 0xbf b = false ∧
      ∀ d ∈ rest, continues 0x80 0xbf d = true := by
  have hc := toNat_range c
  have first : ∀ n, n < 0x80 ∨ 0xbf < n → n < 256 →
      continues 0x80 0xbf (UInt8.ofNat n) = false := by
    intro n hn hlt
    rw [← Bool.not_eq_true, continues_iff, toNat_byte hlt]
    omega
  unfold utf8EncodeChar
  simp only
  split_ifs with h1 h2 h3
  · exact ⟨_, _, rfl, first _ (by omega) (by omega), List.forall_mem_nil _⟩
  · refine ⟨_, _, rfl, first _ (by omega) (by omega), ?_⟩
    exact List.forall_mem_singleton.2 (continues_tailByte _)
  · refine ⟨_, _, rfl, first _ (by omega) (by omega), ?_⟩
    exact List.forall_mem_cons.2 ⟨continues_tailByte _,
      List.forall_mem_singleton.2 (continues_tailByte _)⟩
  · refine ⟨_, _, rfl, first _ (by omega) (by omega), ?_⟩
    exact List.forall_mem_cons.2 ⟨continues_tailByte _,
      List.forall_mem_cons.2 ⟨continues_tailByte _,
        List.forall_mem_singleton.2 (continues_tailByte _)⟩⟩

theorem isBoundary_append {front back : List UInt8} {i : Nat} (h : front.length ≤ i) :
    isBoundary (front ++ back) i = isBoundary back (i - front.length) := by
  unfold isBoundary
  rw [List.getElem?_append_right h, List.length_append]
  split
  · rfl
  · exact decide_eq_decide.2 (by omega)

theorem isBoundary_zero (text : List Char) : isBoundary (text.flatMap utf8EncodeChar) 0 = true := by
  cases text with
  | nil => rfl
  | cons c text =>
    obtain ⟨b, rest, hbytes, hfirst, -⟩ := utf8EncodeChar_shape c
    rw [List.flatMap_cons, hbytes]
    simp [isBoundary, hfirst]

theorem not_isBoundary_inside {c : Char} {after : List UInt8} {i : Nat} (hpos : 0 < i)
    (hlt : i < (utf8EncodeChar c).length) : isBoundary (utf8EncodeChar c ++ after) i = false := by
  obtain ⟨b, rest, hbytes, -, hrest⟩ := utf8EncodeChar_shape c
  rw [hbytes] at hlt ⊢
  obtain ⟨k, rfl⟩ := Nat.exists_eq_add_one.2 hpos
  have hk : k < rest.length := Nat.lt_of_succ_lt_succ hlt
  have hbyte : (b :: rest ++ after)[k + 1]? = some rest[k] := by
    rw [List.cons_append, List.getElem?_cons_succ, List.getElem?_append_left hk,
      List.getElem?_eq_getElem hk]
  unfold isBoundary
  rw [hbyte]
  simp only [hrest _ (List.getElem_mem hk), Bool.not_true]

/-- **A text may be cut exactly where a character begins, or the text ends.** -/
theorem isBoundary_iff {text : List Char} {i : Nat} :
    isBoundary (text.flatMap utf8EncodeChar) i = true ↔
      ∃ front back, text = front ++ back ∧ (front.flatMap utf8EncodeChar).length = i := by
  constructor
  · intro h
    induction text generalizing i with
    | nil =>
      have hi : i = 0 := by simpa [isBoundary] using h
      exact ⟨[], [], rfl, hi.symm⟩
    | cons c text ih =>
      rw [List.flatMap_cons] at h
      by_cases hpast : (utf8EncodeChar c).length ≤ i
      · rw [isBoundary_append hpast] at h
        obtain ⟨front, back, rfl, hfront⟩ := ih h
        refine ⟨c :: front, back, rfl, ?_⟩
        rw [List.flatMap_cons, List.length_append, hfront]
        omega
      · rcases Nat.eq_zero_or_pos i with rfl | hpos
        · exact ⟨[], c :: text, rfl, rfl⟩
        · rw [not_isBoundary_inside hpos (not_le.1 hpast)] at h
          cases h
  · rintro ⟨front, back, rfl, rfl⟩
    rw [List.flatMap_append, isBoundary_append le_rfl, Nat.sub_self]
    exact isBoundary_zero back

theorem sliceFrom_append (front back : List Char) :
    sliceFrom ((front ++ back).flatMap utf8EncodeChar) (front.flatMap utf8EncodeChar).length =
      some (back.flatMap utf8EncodeChar) := by
  unfold sliceFrom
  rw [if_pos (isBoundary_iff.2 ⟨front, back, rfl, rfl⟩), List.flatMap_append, List.drop_left]

/-! ## Where characters begin -/

/-- Where each character of a text begins among the bytes, when the text begins at the `i`th. -/
def charStarts (i : Nat) : List Char → List Nat
  | [] => []
  | c :: text => i :: charStarts (i + (utf8EncodeChar c).length) text

theorem length_charStarts (i : Nat) (text : List Char) :
    (charStarts i text).length = text.length := by
  induction text generalizing i with
  | nil => rfl
  | cons c text ih => rw [charStarts, List.length_cons, ih, List.length_cons]

theorem charStarts_append (i : Nat) (front back : List Char) :
    charStarts i (front ++ back) =
      charStarts i front ++ charStarts (i + (front.flatMap utf8EncodeChar).length) back := by
  induction front generalizing i with
  | nil => rfl
  | cons c front ih =>
    rw [List.cons_append, charStarts, ih, charStarts, List.cons_append, List.flatMap_cons,
      List.length_append, Nat.add_assoc]

/-- Going back over the characters, one comes after `back` to the first byte of the next one. -/
theorem nth_charStarts_reverse (front back : List Char) (c : Char) :
    (charStarts 0 (front ++ c :: back)).reverse[back.length]? =
      some (front.flatMap utf8EncodeChar).length := by
  rw [charStarts_append, charStarts, List.reverse_append, List.reverse_cons, List.append_assoc,
    List.getElem?_append_right (by rw [List.length_reverse, length_charStarts]),
    List.length_reverse, length_charStarts, Nat.sub_self, Nat.zero_add]
  rfl

end Federation
