/-
  What is shown of a failed trainer's complaint.

  * `Complaint`: what the trainer said, as a text without white space at its end;
  * `Shown limit kept`: all of a text of at most `limit` characters, and of a longer one the last
    `kept` behind dots;
  * `cutInBytes`: the cut as it is found among the bytes, which fails where no character begins;
  * `complaint_shown`: the limit is 512, and of a longer complaint the last 513 characters are
    shown;
  * `dots_with_nothing_cut_off`: so that dots stand in front of a complaint that is all there.
-/
import Federation.Collaborator.Trainer
import Federation.Proofs.Text.Boundary
import Federation.Proofs.Text.Lossy

namespace Federation

/-! ## The complaint -/

/-- `text` is `whole` without the white space at its end. -/
structure Trimmed (whole text : List Char) : Prop where
  blank : ∃ space, whole = text ++ space ∧ ∀ c ∈ space, isWhitespace c = true
  solid : ∀ hne : text ≠ [], isWhitespace (text.getLast hne) = false

theorem trimmed_iff {whole text : List Char} : Trimmed whole text ↔ text = trimEnd whole := by
  -- `trimEnd` is the library's `rdropWhile`, and the lemmas are about that
  have htrim : ∀ cs, trimEnd cs = cs.rdropWhile isWhitespace := fun _ => rfl
  rw [htrim]
  constructor
  · rintro ⟨⟨space, rfl, hspace⟩, hsolid⟩
    have hself : text.rdropWhile isWhitespace = text :=
      List.rdropWhile_eq_self_iff.2 fun hne => by simp [hsolid hne]
    rw [List.rdropWhile, List.reverse_append,
      List.dropWhile_append_of_pos fun c hc => hspace c (List.mem_reverse.1 hc)]
    exact hself.symm
  · rintro rfl
    exact ⟨⟨_, List.rdropWhile_append_rtakeWhile.symm, fun c hc => List.mem_rtakeWhile_imp hc⟩,
      fun hne => by simpa using List.rdropWhile_last_not isWhitespace whole hne⟩

/-- What a trainer said in any bytes. -/
def Complaint (bytes : List UInt8) (text : List Char) : Prop :=
  ∃ whole, Rendered bytes whole ∧ Trimmed whole text

theorem complaint_iff {bytes : List UInt8} {text : List Char} :
    Complaint bytes text ↔ text = trimEnd (utf8LossyChars bytes) := by
  unfold Complaint
  simp only [rendered_iff, exists_eq_left, trimmed_iff]

/-- Well-formed bytes say just the text that they are, if no white space ends it. -/
theorem complaint_utf8Encode {text : List Char}
    (hsolid : ∀ hne : text ≠ [], isWhitespace (text.getLast hne) = false) :
    Complaint (utf8Encode (String.ofList text)) text := by
  have hread := rendered_utf8Encode (String.ofList text)
  rw [String.toList_ofList] at hread
  exact ⟨text, hread, ⟨[], (List.append_nil _).symm, List.forall_mem_nil _⟩, hsolid⟩

/-! ## What is shown -/

/-- The end of a text: all of it when it is short, and else the last characters behind dots. -/
inductive Shown (limit kept : Nat) (text : List Char) : List Char → Prop
  | whole : text.length ≤ limit → Shown limit kept text text
  | cut {front back} : limit < text.length → text = front ++ back → back.length = kept →
      Shown limit kept text ("...".toList ++ back)

/-- The end of a text as it is found among its bytes: going back over `limit` characters, it is cut
where the next one begins.  There is none when it may not be cut there. -/
def cutInBytes (limit : Nat) (text : List Char) : Option (List UInt8) :=
  match (charStarts 0 text).reverse[limit]? with
  | some i => (sliceFrom (text.flatMap utf8EncodeChar) i).map (utf8Encode "..." ++ ·)
  | none => some (text.flatMap utf8EncodeChar)

namespace Shown

variable {limit kept kept' : Nat} {text shown shown' : List Char}

theorem unique (h : Shown limit kept text shown) (h' : Shown limit kept text shown') :
    shown = shown' := by
  cases h with
  | whole hle =>
    cases h' with
    | whole => rfl
    | cut hlt => exact absurd hle (not_le.2 hlt)
  | cut hlt hsplit hback =>
    cases h' with
    | whole hle => exact absurd hle (not_le.2 hlt)
    | cut _ hsplit' hback' =>
      rw [hsplit] at hsplit'
      rw [(List.append_inj' hsplit' (hback.trans hback'.symm)).2]

theorem eq_of_le (h : Shown limit kept text shown) (hle : text.length ≤ limit) : shown = text :=
  h.unique (.whole hle)

/-- A number of characters is kept of a long text, and no other one. -/
theorem kept_eq (h : Shown limit kept text shown) (h' : Shown limit kept' text shown)
    (hlong : limit < text.length) : kept = kept' := by
  cases h with
  | whole hle => exact absurd hle (not_le.2 hlong)
  | cut _ _ hback =>
    generalize hshown : "...".toList ++ _ = shown at h'
    cases h' with
    | whole hle => exact absurd hle (not_le.2 hlong)
    | cut _ _ hback' => rw [← hback, ← hback', List.append_cancel_left hshown]

/-- What is shown of a text would be the same with another number of characters kept just when the
text is short. -/
theorem other_iff (h : Shown limit kept text shown) (hne : kept ≠ kept') :
    Shown limit kept' text shown ↔ text.length ≤ limit := by
  constructor
  · intro h'
    by_contra hlong
    exact hne (h.kept_eq h' (not_le.1 hlong))
  · intro hle
    rw [h.eq_of_le hle]
    exact .whole hle

/-- Dots stand in front of all of a text when it is just as long as what is kept of a long one. -/
theorem dotted_iff (h : Shown limit kept text shown) :
    shown = "...".toList ++ text ↔ limit < text.length ∧ text.length = kept := by
  cases h with
  | whole hle =>
    refine iff_of_false (fun hdots => ?_) fun hlong => absurd hle (not_le.2 hlong.1)
    cases List.self_eq_append_left.1 hdots
  | @cut front back hlt hsplit hback =>
    rw [List.append_cancel_left_eq, hsplit, List.self_eq_append_left, List.length_append,
      ← List.length_eq_zero_iff]
    rw [hsplit, List.length_append] at hlt
    omega

/-- **The place that is found is one where a character begins**, and what stands from there on is
the end of the text with one character more than was gone back over. -/
theorem cutInBytes_eq (h : Shown limit (limit + 1) text shown) :
    cutInBytes limit text = some (shown.flatMap utf8EncodeChar) := by
  unfold cutInBytes
  cases h with
  | whole hle =>
    rw [List.getElem?_eq_none (by rwa [List.length_reverse, length_charStarts])]
  | @cut front back _ hsplit hback =>
    obtain ⟨c, rest, rfl⟩ := List.exists_cons_of_length_eq_add_one hback
    obtain rfl : rest.length = limit := Nat.succ.inj hback
    rw [hsplit, nth_charStarts_reverse]
    simp only
    rw [sliceFrom_append, List.flatMap_append]
    rfl

end Shown

theorem shown_tail (bytes : List UInt8) :
    Shown 512 513 (trimEnd (utf8LossyChars bytes)) (tail bytes).toList := by
  unfold tail tailChars
  rw [String.toList_ofList]
  generalize trimEnd (utf8LossyChars bytes) = text
  simp only
  split
  · next hle => exact .whole hle
  · next hlong =>
    have hlt : 512 < text.length := not_le.1 hlong
    refine .cut hlt (List.take_append_drop _ _).symm ?_
    rw [List.length_drop, complaintLength]
    omega

/-- **What is shown of a complaint**: all of one that has at most 512 characters, and of a longer
one the last 513 behind dots, so that one of 513 has dots in front and nothing cut off.  The cut is
always where a character begins. -/
theorem complaint_shown (bytes : List UInt8) :
    ∃ text, (∀ t, Complaint bytes t ↔ t = text) ∧
      (∀ shown, Shown 512 513 text shown ↔ shown = (tail bytes).toList) ∧
      (Shown 512 512 text (tail bytes).toList ↔ text.length ≤ 512) ∧
      ((tail bytes).toList = "...".toList ++ text ↔ text.length = 513) ∧
      cutInBytes 512 text = some (utf8Encode (tail bytes)) ∧
      ∀ ending, trainerVerdict ending bytes = .error (.trainingFailure
        ("trainer exited with " ++ ending.display ++ ": " ++ tail bytes)) ↔ ending ≠ .exited 0 := by
  have hshown := shown_tail bytes
  refine ⟨trimEnd (utf8LossyChars bytes), fun t => complaint_iff, fun shown => ?_,
    hshown.other_iff (by decide), ?_, hshown.cutInBytes_eq, fun ending => ?_⟩
  · exact ⟨fun h => h.unique hshown, fun h => h ▸ hshown⟩
  · rw [hshown.dotted_iff]
    omega
  · unfold trainerVerdict Host.Ending.isSuccess
    by_cases h : ending = .exited 0 <;> simp [h]

-- What is no text is replaced, and line breaks at the end are dropped, of two bytes and of one.
example : tail [0xe2, 0x82, 0x21, 0xc2, 0x85, 0x0a] = "\ufffd!" := by decide

/-- Behind the dots stands all of a complaint of 513 characters. -/
theorem dots_with_nothing_cut_off :
    let text := List.replicate 513 'x'
    let bytes := utf8Encode (String.ofList text)
    Complaint bytes text ∧ (tail bytes).toList = "...".toList ++ text ∧
      ¬ Shown 512 512 text (tail bytes).toList := by
  intro text bytes
  have hcomplaint : Complaint bytes text := by
    refine complaint_utf8Encode fun hne => ?_
    rw [List.eq_of_mem_replicate (List.getLast_mem hne)]
    decide
  have hshown : Shown 512 513 text (tail bytes).toList := by
    rw [complaint_iff.1 hcomplaint]
    exact shown_tail bytes
  have hlength : text.length = 513 := List.length_replicate
  exact ⟨hcomplaint, hshown.dotted_iff.2 (by omega),
    (hshown.other_iff (by decide)).not.2 (by omega)⟩

end Federation
