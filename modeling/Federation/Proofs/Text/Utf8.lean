/-
  Texts and the bytes they are written with.

  * `utf8EncodeChar_of_step`: a character that was read was written with these bytes;
  * `utf8Step_encodeChar`: what a character is written with reads back as the character;
  * `utf8Decode_eq_some_iff`: bytes decode to a text just when they are what it is written with;
  * `utf8Encode_of_ascii`: one byte for each character, in the same order.
-/
import Mathlib
import Federation.Text.Utf8

namespace Federation

/-! ## Numbers, bytes and characters -/

theorem ofNat_eq_byte (b : UInt8) {n : Nat} (h : n = b.toNat) : UInt8.ofNat n = b := by
  rw [h, UInt8.ofNat_toNat]

theorem toNat_byte {n : Nat} (h : n < 256) : (UInt8.ofNat n).toNat = n :=
  UInt8.toNat_ofNat_of_lt' h

theorem toNat_character {n : Nat} (h : n < 0xd800 ∨ 0xdfff < n ∧ n < 0x110000) :
    (Char.ofNat n).toNat = n := by
  rw [Char.toNat_ofNat, if_pos h]

theorem toNat_range (c : Char) : c.toNat < 0xd800 ∨ 0xdfff < c.toNat ∧ c.toNat < 0x110000 := c.valid

/-! ## Sequences of bytes -/

theorem sequenceLength_eq_one {n : Nat} : sequenceLength n = 1 ↔ n < 0x80 := by
  unfold sequenceLength
  split_ifs <;> simp_all

theorem sequenceLength_eq_two {n : Nat} : sequenceLength n = 2 ↔ 0xc2 ≤ n ∧ n ≤ 0xdf := by
  unfold sequenceLength
  split_ifs <;> simp_all
  omega

theorem sequenceLength_eq_three {n : Nat} : sequenceLength n = 3 ↔ 0xe0 ≤ n ∧ n ≤ 0xef := by
  unfold sequenceLength
  split_ifs <;> simp_all <;> omega

theorem sequenceLength_eq_four {n : Nat} : sequenceLength n = 4 ↔ 0xf0 ≤ n ∧ n ≤ 0xf4 := by
  unfold sequenceLength
  split_ifs <;> simp_all <;> omega

theorem continues_iff {lo hi : Nat} {b : UInt8} :
    continues lo hi b = true ↔ lo ≤ b.toNat ∧ b.toNat ≤ hi := by
  simp [continues]

/-- A second byte is a continuation byte, with less room after four of the first bytes. -/
theorem continues_second_iff {n : Nat} {b : UInt8} :
    continues (secondByteRange n).1 (secondByteRange n).2 b = true ↔
      (0x80 ≤ b.toNat ∧ b.toNat ≤ 0xbf) ∧ (n = 0xe0 → 0xa0 ≤ b.toNat) ∧
        (n = 0xed → b.toNat ≤ 0x9f) ∧ (n = 0xf0 → 0x90 ≤ b.toNat) ∧
        (n = 0xf4 → b.toNat ≤ 0x8f) := by
  rw [continues_iff]
  unfold secondByteRange
  split_ifs <;> simp only <;> omega

/-- The bytes after the first one of a character. -/
theorem toNat_tailByte (n : Nat) : (UInt8.ofNat (0x80 + n % 0x40)).toNat = 0x80 + n % 0x40 :=
  toNat_byte (by omega)

theorem continues_tailByte (n : Nat) : continues 0x80 0xbf (UInt8.ofNat (0x80 + n % 0x40)) = true :=
  continues_iff.2 (by rw [toNat_tailByte]; omega)

/-! ## What is read was written -/

section
variable {b c d e : UInt8}

theorem utf8EncodeChar_one (hb : b.toNat < 0x80) : utf8EncodeChar (Char.ofNat b.toNat) = [b] := by
  unfold utf8EncodeChar
  rw [toNat_character (by omega)]
  simp only
  rw [if_pos hb, ofNat_eq_byte b rfl]

theorem utf8EncodeChar_two (hb : sequenceLength b.toNat = 2)
    (hc : continues (secondByteRange b.toNat).1 (secondByteRange b.toNat).2 c = true) :
    utf8EncodeChar (Char.ofNat (b.toNat % 0x20 * 0x40 + c.toNat % 0x40)) = [b, c] := by
  have hb := sequenceLength_eq_two.1 hb
  have hc := continues_second_iff.1 hc
  unfold utf8EncodeChar
  rw [toNat_character (by omega)]
  simp only
  rw [if_neg (by omega), if_pos (by omega), ofNat_eq_byte b (by omega), ofNat_eq_byte c (by omega)]

theorem utf8EncodeChar_three (hb : sequenceLength b.toNat = 3)
    (hc : continues (secondByteRange b.toNat).1 (secondByteRange b.toNat).2 c = true)
    (hd : continues 0x80 0xbf d = true) :
    utf8EncodeChar
      (Char.ofNat (b.toNat % 0x10 * 0x1000 + c.toNat % 0x40 * 0x40 + d.toNat % 0x40)) =
      [b, c, d] := by
  have hb := sequenceLength_eq_three.1 hb
  have hc := continues_second_iff.1 hc
  have hd := continues_iff.1 hd
  unfold utf8EncodeChar
  rw [toNat_character (by omega)]
  simp only
  rw [if_neg (by omega), if_neg (by omega), if_pos (by omega), ofNat_eq_byte b (by omega),
    ofNat_eq_byte c (by omega), ofNat_eq_byte d (by omega)]

theorem utf8EncodeChar_four (hb : sequenceLength b.toNat = 4)
    (hc : continues (secondByteRange b.toNat).1 (secondByteRange b.toNat).2 c = true)
    (hd : continues 0x80 0xbf d = true) (he : continues 0x80 0xbf e = true) :
    utf8EncodeChar (Char.ofNat (b.toNat % 8 * 0x40000 + c.toNat % 0x40 * 0x1000 +
      d.toNat % 0x40 * 0x40 + e.toNat % 0x40)) = [b, c, d, e] := by
  have hb := sequenceLength_eq_four.1 hb
  have hc := continues_second_iff.1 hc
  have hd := continues_iff.1 hd
  have he := continues_iff.1 he
  unfold utf8EncodeChar
  rw [toNat_character (by omega)]
  simp only
  rw [if_neg (by omega), if_neg (by omega), if_neg (by omega), ofNat_eq_byte b (by omega),
    ofNat_eq_byte c (by omega), ofNat_eq_byte d (by omega), ofNat_eq_byte e (by omega)]

/-- A character that was read was written with the bytes it was read from. -/
theorem utf8EncodeChar_of_step {rest : List UInt8} {x : Char} {size : Nat}
    (h : utf8Step b rest = .char x size) :
    b :: rest = utf8EncodeChar x ++ rest.drop (size - 1) := by
  unfold utf8Step at h
  simp only at h
  -- the cases are those of the length the first byte announces
  split at h
  · next hlen =>
    cases h
    rw [utf8EncodeChar_one (sequenceLength_eq_one.1 hlen)]
    rfl
  · next hlen =>
    split at h
    · next hc =>
      cases h
      rw [utf8EncodeChar_two hlen hc]
      rfl
    · cases h
  · next hlen =>
    split at h
    · cases h
    · next hc =>
      split at h
      · split at h
        · next hd =>
          cases h
          rw [utf8EncodeChar_three hlen (by simpa using hc) hd]
          rfl
        · cases h
      · cases h
  · next hlen =>
    split at h
    · cases h
    · next hc =>
      split at h
      · split at h
        · cases h
        · next hd =>
          split at h
          · split at h
            · next he =>
              cases h
              rw [utf8EncodeChar_four hlen (by simpa using hc) (by simpa using hd) he]
              rfl
            · cases h
          · cases h
      · cases h
  · cases h

end

/-! ## What is written is read -/

/-- What a character is written with reads back as the character. -/
theorem utf8Step_encodeChar (x : Char) (tail : List UInt8) :
    ∃ b rest, utf8EncodeChar x ++ tail = b :: rest ∧
      utf8Step b rest = .char x (utf8EncodeChar x).length ∧
      rest.drop ((utf8EncodeChar x).length - 1) = tail := by
  have hx := toNat_range x
  have back : ∀ {n}, n = x.toNat → Char.ofNat n = x := fun h => by rw [h, Char.ofNat_toNat]
  unfold utf8EncodeChar
  simp only
  split_ifs with h1 h2 h3
  · refine ⟨UInt8.ofNat x.toNat, tail, rfl, ?_, rfl⟩
    have hfirst : (UInt8.ofNat x.toNat).toNat = x.toNat := toNat_byte (by omega)
    have hlen : sequenceLength x.toNat = 1 := sequenceLength_eq_one.2 h1
    simp only [utf8Step, hfirst, hlen, back rfl]
    rfl
  · refine ⟨UInt8.ofNat (0xc0 + x.toNat / 0x40), UInt8.ofNat (0x80 + x.toNat % 0x40) :: tail,
      rfl, ?_, rfl⟩
    have hfirst : (UInt8.ofNat (0xc0 + x.toNat / 0x40)).toNat = 0xc0 + x.toNat / 0x40 :=
      toNat_byte (by omega)
    have hlen : sequenceLength (0xc0 + x.toNat / 0x40) = 2 := sequenceLength_eq_two.2 (by omega)
    have hsecond : continues (secondByteRange (0xc0 + x.toNat / 0x40)).1
        (secondByteRange (0xc0 + x.toNat / 0x40)).2 (UInt8.ofNat (0x80 + x.toNat % 0x40)) =
        true := continues_second_iff.2 (by rw [toNat_tailByte]; omega)
    simp only [utf8Step, hfirst, hlen, hsecond, if_true, toNat_tailByte]
    rw [back (by omega)]
    rfl
  · refine ⟨UInt8.ofNat (0xe0 + x.toNat / 0x1000), UInt8.ofNat (0x80 + x.toNat / 0x40 % 0x40) ::
      UInt8.ofNat (0x80 + x.toNat % 0x40) :: tail, rfl, ?_, rfl⟩
    have hfirst : (UInt8.ofNat (0xe0 + x.toNat / 0x1000)).toNat = 0xe0 + x.toNat / 0x1000 :=
      toNat_byte (by omega)
    have hlen : sequenceLength (0xe0 + x.toNat / 0x1000) = 3 :=
      sequenceLength_eq_three.2 (by omega)
    have hsecond : continues (secondByteRange (0xe0 + x.toNat / 0x1000)).1
        (secondByteRange (0xe0 + x.toNat / 0x1000)).2
        (UInt8.ofNat (0x80 + x.toNat / 0x40 % 0x40)) = true :=
      continues_second_iff.2 (by rw [toNat_tailByte]; omega)
    simp only [utf8Step, hfirst, hlen, hsecond, Bool.not_true, Bool.false_eq_true, if_false,
      continues_tailByte, if_true, toNat_tailByte]
    rw [back (by omega)]
    rfl
  · refine ⟨UInt8.ofNat (0xf0 + x.toNat / 0x40000), UInt8.ofNat (0x80 + x.toNat / 0x1000 % 0x40) ::
      UInt8.ofNat (0x80 + x.toNat / 0x40 % 0x40) :: UInt8.ofNat (0x80 + x.toNat % 0x40) :: tail,
      rfl, ?_, rfl⟩
    have hfirst : (UInt8.ofNat (0xf0 + x.toNat / 0x40000)).toNat = 0xf0 + x.toNat / 0x40000 :=
      toNat_byte (by omega)
    have hlen : sequenceLength (0xf0 + x.toNat / 0x40000) = 4 :=
      sequenceLength_eq_four.2 (by omega)
    have hsecond : continues (secondByteRange (0xf0 + x.toNat / 0x40000)).1
        (secondByteRange (0xf0 + x.toNat / 0x40000)).2
        (UInt8.ofNat (0x80 + x.toNat / 0x1000 % 0x40)) = true :=
      continues_second_iff.2 (by rw [toNat_tailByte]; omega)
    simp only [utf8Step, hfirst, hlen, hsecond, Bool.not_true, Bool.false_eq_true, if_false,
      continues_tailByte, if_true, toNat_tailByte]
    rw [back (by omega)]
    rfl

/-! ## Texts -/

theorem utf8Walk_encode {xs : List Char} {fuel : Nat}
    (h : (xs.flatMap utf8EncodeChar).length ≤ fuel) :
    utf8Walk fuel (xs.flatMap utf8EncodeChar) = xs.map some := by
  induction xs generalizing fuel with
  | nil => cases fuel <;> rfl
  | cons x xs ih =>
    obtain ⟨b, rest, hbytes, hstep, hrest⟩ := utf8Step_encodeChar x (xs.flatMap utf8EncodeChar)
    rw [List.flatMap_cons, hbytes] at h ⊢
    cases fuel with
    | zero => cases h
    | succ fuel =>
      have hle : (rest.drop ((utf8EncodeChar x).length - 1)).length ≤ fuel := by
        rw [List.length_drop]
        exact (Nat.sub_le ..).trans (Nat.le_of_succ_le_succ h)
      rw [hrest] at hle
      simp only [utf8Walk, hstep, hrest, ih hle, List.map_cons]

theorem encode_of_utf8Walk {xs : List Char} {fuel : Nat} {bytes : List UInt8}
    (hfuel : bytes.length ≤ fuel) (h : utf8Walk fuel bytes = xs.map some) :
    bytes = xs.flatMap utf8EncodeChar := by
  induction fuel generalizing xs bytes with
  | zero =>
    obtain rfl := List.length_eq_zero_iff.1 (Nat.le_zero.1 hfuel)
    cases xs with
    | nil => rfl
    | cons => cases h
  | succ fuel ih =>
    cases bytes with
    | nil =>
      cases xs with
      | nil => rfl
      | cons => cases h
    | cons b rest =>
      unfold utf8Walk at h
      split at h
      · next x size hstep =>
        cases xs with
        | nil => cases h
        | cons y ys =>
          obtain ⟨hx, hxs⟩ := List.cons.inj h
          cases hx
          have hle : (rest.drop (size - 1)).length ≤ fuel := by
            rw [List.length_drop]
            exact (Nat.sub_le ..).trans (Nat.le_of_succ_le_succ hfuel)
          rw [List.flatMap_cons, ← ih hle hxs]
          exact utf8EncodeChar_of_step hstep
      · cases xs with
        | nil => cases h
        | cons => cases (List.cons.inj h).1

theorem mapM_id_eq_some_iff {α : Type} {l : List (Option α)} {as : List α} :
    l.mapM id = some as ↔ l = as.map some := by
  induction l generalizing as with
  | nil => cases as <;> simp
  | cons o l ih =>
    rw [List.mapM_cons]
    constructor
    · intro h
      obtain ⟨a, ho, h⟩ := Option.bind_eq_some_iff.1 h
      obtain ⟨bs, hbs, h⟩ := Option.bind_eq_some_iff.1 h
      rw [← Option.some.inj h, List.map_cons, ← ho, ih.1 hbs]
      rfl
    · cases as with
      | nil => intro h; cases h
      | cons a as =>
        intro h
        obtain ⟨rfl, hl⟩ := List.cons.inj h
        rw [ih.2 hl]
        rfl

/-- **Bytes decode to a text just when they are what it is written with.** -/
theorem utf8Decode_eq_some_iff {bytes : List UInt8} {s : String} :
    utf8Decode bytes = some s ↔ bytes = utf8Encode s := by
  unfold utf8Decode utf8Encode
  rw [Option.map_eq_some_iff]
  constructor
  · rintro ⟨xs, hxs, rfl⟩
    rw [String.toList_ofList]
    exact encode_of_utf8Walk le_rfl (mapM_id_eq_some_iff.1 hxs)
  · rintro rfl
    exact ⟨s.toList, mapM_id_eq_some_iff.2 (utf8Walk_encode le_rfl), String.ofList_toList⟩

/-- Different texts are written differently. -/
theorem utf8Encode_injective {s s' : String} (h : utf8Encode s = utf8Encode s') : s = s' := by
  have hs := utf8Decode_eq_some_iff.2 (rfl : utf8Encode s = utf8Encode s)
  rw [utf8Decode_eq_some_iff.2 h] at hs
  exact (Option.some.inj hs).symm

/-! ## Texts of single bytes -/

/-- A low byte is a character of its own, and part of no other one. -/
theorem eq_of_mem_utf8EncodeChar {b : UInt8} {x : Char} (h : b ∈ utf8EncodeChar x)
    (hb : b.toNat < 0x80) : x = Char.ofNat b.toNat := by
  have hx := toNat_range x
  have high : ∀ n, 0x80 ≤ n → n < 256 → b ≠ UInt8.ofNat n := by
    rintro n hlow hn rfl
    rw [toNat_byte hn] at hb
    omega
  unfold utf8EncodeChar at h
  simp only at h
  split_ifs at h with h1 h2 h3
  · rw [List.mem_singleton.1 h, toNat_byte (by omega), Char.ofNat_toNat]
  · simp only [List.mem_cons, List.not_mem_nil, or_false] at h
    rcases h with h | h <;> exact absurd h (high _ (by omega) (by omega))
  · simp only [List.mem_cons, List.not_mem_nil, or_false] at h
    rcases h with h | h | h <;> exact absurd h (high _ (by omega) (by omega))
  · simp only [List.mem_cons, List.not_mem_nil, or_false] at h
    rcases h with h | h | h | h <;> exact absurd h (high _ (by omega) (by omega))

/-- One byte for each character. -/
theorem utf8Encode_of_ascii {s : String} (h : ∀ x ∈ s.toList, x.toNat < 0x80) :
    utf8Encode s = s.toList.map fun x => UInt8.ofNat x.toNat := by
  unfold utf8Encode
  generalize s.toList = xs at h ⊢
  induction xs with
  | nil => rfl
  | cons x xs ih =>
    have hx : utf8EncodeChar x = [UInt8.ofNat x.toNat] := if_pos (h x List.mem_cons_self)
    rw [List.flatMap_cons, hx, List.map_cons, ih fun y hy => h y (List.mem_cons_of_mem x hy)]
    rfl

theorem utf8Length_of_ascii {s : String} (h : ∀ x ∈ s.toList, x.toNat < 0x80) :
    utf8Length s = s.length := by
  rw [utf8Length, utf8Encode_of_ascii h, List.length_map, String.length_toList]

/-- The order of such texts is the order of their bytes. -/
theorem utf8Encode_lt_of_ascii {s s' : String} (hs : ∀ x ∈ s.toList, x.toNat < 0x80)
    (hs' : ∀ x ∈ s'.toList, x.toNat < 0x80) (h : s < s') : utf8Encode s < utf8Encode s' := by
  rw [utf8Encode_of_ascii hs, utf8Encode_of_ascii hs']
  rw [String.lt_iff_toList_lt] at h
  generalize s.toList = xs at hs h ⊢
  generalize s'.toList = ys at hs' h ⊢
  induction xs generalizing ys with
  | nil =>
    cases ys with
    | nil => cases h
    | cons y ys => exact List.nil_lt_cons ..
  | cons x xs ih =>
    cases ys with
    | nil => cases h
    | cons y ys =>
      have hx := hs x List.mem_cons_self
      have hy := hs' y List.mem_cons_self
      rw [List.map_cons, List.map_cons, List.cons_lt_cons_iff]
      rcases List.cons_lt_cons_iff.1 h with hlt | ⟨rfl, hlt⟩
      · left
        rw [UInt8.lt_iff_toNat_lt, toNat_byte (by omega), toNat_byte (by omega)]
        exact hlt
      · exact Or.inr ⟨rfl, ih (fun z hz => hs z (List.mem_cons_of_mem x hz)) ys
          (fun z hz => hs' z (List.mem_cons_of_mem x hz)) hlt⟩

end Federation
