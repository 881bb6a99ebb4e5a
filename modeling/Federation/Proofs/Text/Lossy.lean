/-
  Texts read out of any bytes.

  * `Begins`: bytes that may go on to a character;
  * `IllFormed`: the run of bytes that is given up where no character can be read, the longest that
    begins one, or else a single byte;
  * `Rendered`: a text out of any bytes, with one replacement character for each such run;
  * `givenUp_of_broken`, `illFormed_of_broken`: what a step gives up is the ill-formed run;
  * `rendered_iff`: every byte string has one rendering, and the lossy decoder finds it.
-/
import Federation.Proofs.Text.Utf8

namespace Federation

/-! ## Renderings -/

/-- Bytes that may go on to a character. -/
def Begins (bytes : List UInt8) : Prop := ∃ c, bytes <+: utf8EncodeChar c

/-- The run in front of `bytes` that is given up because no character can be read there. -/
structure IllFormed (run bytes : List UInt8) : Prop where
  front : run <+: bytes
  unreadable : ∀ c, ¬ utf8EncodeChar c <+: bytes
  some_byte : run ≠ []
  begins : run.length = 1 ∨ Begins run
  longest : ∀ other, other <+: bytes → Begins other → other.length ≤ run.length

/-- A text out of any bytes: characters as they are written, and a replacement character for each
run that is given up. -/
inductive Rendered : List UInt8 → List Char → Prop
  | nil : Rendered [] []
  | char {c rest text} : Rendered rest text → Rendered (utf8EncodeChar c ++ rest) (c :: text)
  | replaced {run rest text} : IllFormed run (run ++ rest) → Rendered rest text →
      Rendered (run ++ rest) (replacementChar :: text)

/-- What a text is written with is read as the text. -/
theorem rendered_utf8Encode (s : String) : Rendered (utf8Encode s) s.toList := by
  unfold utf8Encode
  generalize s.toList = text
  induction text with
  | nil => exact .nil
  | cons c text ih =>
    rw [List.flatMap_cons]
    exact .char ih

/-- One run at most is given up at a place. -/
theorem IllFormed.unique {run run' bytes : List UInt8} (h : IllFormed run bytes)
    (h' : IllFormed run' bytes) : run = run' := by
  have le : ∀ {x y}, IllFormed x bytes → IllFormed y bytes → x.length ≤ y.length := by
    intro x y hx hy
    rcases hx.begins with hone | hbegins
    · rw [hone]
      exact List.length_pos_iff.2 hy.some_byte
    · exact hy.longest x hx.front hbegins
  exact (List.prefix_of_prefix_length_le h.front h'.front (le h h')).eq_of_length_le (le h' h)

/-! ## Steps that read nothing -/

/-- The bytes `b :: rest` of which a step gives up the first `size`. -/
structure GivenUp (b : UInt8) (rest : List UInt8) (size : Nat) : Prop where
  pos : 0 < size
  le : size ≤ rest.length + 1
  /-- They begin a character, or there is one only. -/
  begins : size = 1 ∨ Begins (b :: rest.take (size - 1))
  /-- What comes after the byte that does not fit makes no difference. -/
  stays : size ≤ rest.length → ∀ after, utf8Step b (rest.take size ++ after) = .broken size

section
variable {b : UInt8} {rest : List UInt8} {size : Nat}

theorem givenUp_of_broken (h : utf8Step b rest = .broken size) : GivenUp b rest size := by
  have low : continues 0x80 0xbf 0x80 = true := rfl
  unfold utf8Step at h
  simp only at h
  split at h
  · cases h
  · next c tail hlen =>
    split at h
    · cases h
    · next hc =>
      cases h
      exact ⟨by omega, by simp, .inl rfl, fun _ after => by simp [utf8Step, hlen, hc]⟩
  · next c tail hlen =>
    split at h
    · next hc =>
      cases h
      exact ⟨by omega, by simp, .inl rfl, fun _ after => by simp [utf8Step, hlen, hc]⟩
    · next hc =>
      have hbegins : Begins [b, c] :=
        ⟨_, [0x80], (utf8EncodeChar_three hlen (by simpa using hc) low).symm⟩
      split at h
      · next d tail =>
        split at h
        · cases h
        · next hd =>
          cases h
          exact ⟨by omega, by simp, .inr hbegins, fun _ after => by simp [utf8Step, hlen, hc, hd]⟩
      · cases h
        exact ⟨by omega, by simp, .inr hbegins, fun hsize => by simp at hsize⟩
  · next c tail hlen =>
    split at h
    · next hc =>
      cases h
      exact ⟨by omega, by simp, .inl rfl, fun _ after => by simp [utf8Step, hlen, hc]⟩
    · next hc =>
      have hsecond : continues (secondByteRange b.toNat).1 (secondByteRange b.toNat).2 c = true := by
        simpa using hc
      have hbegins : Begins [b, c] :=
        ⟨_, [0x80, 0x80], (utf8EncodeChar_four hlen hsecond low low).symm⟩
      split at h
      · next d tail =>
        split at h
        · next hd =>
          cases h
          exact ⟨by omega, by simp, .inr hbegins, fun _ after => by simp [utf8Step, hlen, hc, hd]⟩
        · next hd =>
          have hbegins : Begins [b, c, d] :=
            ⟨_, [0x80], (utf8EncodeChar_four hlen hsecond (by simpa using hd) low).symm⟩
          split at h
          · next e tail =>
            split at h
            · cases h
            · next he =>
              cases h
              exact ⟨by omega, by simp, .inr hbegins, fun _ after => by
                simp [utf8Step, hlen, hc, hd, he]⟩
          · cases h
            exact ⟨by omega, by simp, .inr hbegins, fun hsize => by simp at hsize⟩
      · cases h
        exact ⟨by omega, by simp, .inr hbegins, fun hsize => by simp at hsize⟩
  · next hone htwo hthree hfour =>
    cases h
    refine ⟨by omega, by simp, .inl rfl, fun hsize after => ?_⟩
    -- no character begins with this byte, whatever follows
    obtain ⟨c, tail, rfl⟩ := List.exists_cons_of_ne_nil (List.length_pos_iff.1 hsize)
    unfold utf8Step
    simp only
    split
    · next hlen => exact (hone hlen).elim
    · next hlen _ => exact (htwo _ _ hlen rfl).elim
    · next hlen _ => exact (hthree _ _ hlen rfl).elim
    · next hlen _ => exact (hfour _ _ hlen rfl).elim
    · rfl

/-- What is given up is the ill-formed run. -/
theorem illFormed_of_broken (h : utf8Step b rest = .broken size) :
    IllFormed (b :: rest.take (size - 1)) (b :: rest) := by
  have hgiven := givenUp_of_broken h
  have hpos := hgiven.pos
  have hle := hgiven.le
  have hlength : (b :: rest.take (size - 1)).length = size := by
    rw [List.length_cons, List.length_take]
    omega
  refine ⟨(List.prefix_cons_inj b).2 (List.take_prefix ..), ?_, by simp, ?_, ?_⟩
  · rintro c ⟨after, hc⟩
    obtain ⟨b', rest', hbytes, hstep, -⟩ := utf8Step_encodeChar c after
    rw [hc] at hbytes
    cases hbytes
    rw [h] at hstep
    cases hstep
  · rw [hlength]
    exact hgiven.begins
  · rintro other hfront ⟨c, after, hc⟩
    rw [hlength]
    by_contra hlong
    -- a longer run would be read just as far, and no further
    cases other with
    | nil => simp at hlong
    | cons x others =>
      obtain ⟨rfl, further, rfl⟩ := List.cons_prefix_cons.1 hfront
      rw [List.length_cons, not_le] at hlong
      obtain ⟨b', rest', hbytes, hstep, -⟩ := utf8Step_encodeChar c []
      rw [List.append_nil, ← hc, List.cons_append] at hbytes
      cases hbytes
      have hsame := hgiven.stays (by rw [List.length_append]; omega) (others.drop size ++ after)
      rw [List.take_append_of_le_length (by omega), ← List.append_assoc, List.take_append_drop,
        hstep] at hsame
      cases hsame

end

/-! ## The lossy decoder -/

theorem rendered_utf8Walk {fuel : Nat} {bytes : List UInt8} (hfuel : bytes.length ≤ fuel) :
    Rendered bytes ((utf8Walk fuel bytes).map fun c => c.getD replacementChar) := by
  induction fuel generalizing bytes with
  | zero =>
    obtain rfl := List.length_eq_zero_iff.1 (Nat.le_zero.1 hfuel)
    exact .nil
  | succ fuel ih =>
    cases bytes with
    | nil => exact .nil
    | cons b rest =>
      have hle : ∀ size, (rest.drop size).length ≤ fuel := by
        intro size
        rw [List.length_drop]
        exact (Nat.sub_le ..).trans (Nat.le_of_succ_le_succ hfuel)
      unfold utf8Walk
      split
      · next c size hstep =>
        rw [utf8EncodeChar_of_step hstep]
        exact .char (ih (hle _))
      · next size hstep =>
        have hrun := illFormed_of_broken hstep
        have hsplit : b :: rest = (b :: rest.take (size - 1)) ++ rest.drop (size - 1) := by
          rw [List.cons_append, List.take_append_drop]
        rw [hsplit] at hrun ⊢
        exact .replaced (by simpa using hrun) (ih (hle _))

/-- The same bytes begin with one character at most. -/
theorem eq_of_utf8EncodeChar_append {c c' : Char} {rest rest' : List UInt8}
    (h : utf8EncodeChar c ++ rest = utf8EncodeChar c' ++ rest') : c = c' ∧ rest = rest' := by
  obtain ⟨b, tail, hbytes, hstep, hrest⟩ := utf8Step_encodeChar c rest
  obtain ⟨b', tail', hbytes', hstep', hrest'⟩ := utf8Step_encodeChar c' rest'
  rw [h, hbytes'] at hbytes
  cases hbytes
  rw [hstep] at hstep'
  cases hstep'
  exact ⟨rfl, hrest.symm.trans hrest'⟩

theorem utf8EncodeChar_ne_nil (c : Char) : utf8EncodeChar c ≠ [] := by
  intro hnil
  obtain ⟨b, tail, hbytes, -⟩ := utf8Step_encodeChar c []
  rw [hnil] at hbytes
  cases hbytes

theorem Rendered.unique {bytes : List UInt8} {text text' : List Char} (h : Rendered bytes text)
    (h' : Rendered bytes text') : text = text' := by
  induction h generalizing text' with
  | nil =>
    generalize hbytes : ([] : List UInt8) = bytes at h'
    cases h' with
    | nil => rfl
    | @char c => exact absurd (List.append_eq_nil_iff.1 hbytes.symm).1 (utf8EncodeChar_ne_nil c)
    | replaced hrun => exact absurd (List.append_eq_nil_iff.1 hbytes.symm).1 hrun.some_byte
  | @char c rest text hrest ih =>
    generalize hbytes : utf8EncodeChar c ++ rest = bytes at h'
    cases h' with
    | nil => exact absurd (List.append_eq_nil_iff.1 hbytes).1 (utf8EncodeChar_ne_nil c)
    | char hrest' =>
      obtain ⟨rfl, rfl⟩ := eq_of_utf8EncodeChar_append hbytes
      rw [ih hrest']
    | replaced hrun => exact absurd ⟨rest, hbytes⟩ (hrun.unreadable c)
  | @replaced run rest text hrun hrest ih =>
    generalize hbytes : run ++ rest = bytes at h'
    cases h' with
    | nil => exact absurd (List.append_eq_nil_iff.1 hbytes).1 hrun.some_byte
    | @char c rest' => exact absurd ⟨rest', hbytes.symm⟩ (hrun.unreadable c)
    | replaced hrun' hrest' =>
      rw [← hbytes] at hrun'
      obtain rfl := hrun.unique hrun'
      rw [List.append_cancel_left hbytes] at ih
      rw [ih hrest']

/-- **Every byte string has one rendering**, which the lossy decoder finds. -/
theorem rendered_iff {bytes : List UInt8} {text : List Char} :
    Rendered bytes text ↔ text = utf8LossyChars bytes := by
  have h : Rendered bytes (utf8LossyChars bytes) := rendered_utf8Walk le_rfl
  exact ⟨fun ht => ht.unique h, fun ht => ht ▸ h⟩

end Federation
