/-
  Paths and their segments.

  * `splitAt_joinWith`: pieces that are put together and taken apart again;
  * `isAbsolute_iff`: an absolute path begins with an empty segment;
  * `of_fileName?_some`, `of_fileName?_none`: a path with a last name, and one without;
  * `of_splitExtension`: a name is its stem, a dot and its ending, or has no ending;
  * `extension?_eq_some_iff_segments`: the ending of a path, read off its segments;
  * `components_joinSymbols`: a name below a path is one more component;
  * `segments_withExtensionSymbols`: only the last name changes, and what follows it is cut off.
-/
import Federation.Proofs.Disk.Tree
import Federation.Proofs.Text.Utf8

namespace Federation

/-! ## Putting together -/

section
variable {α : Type}

theorem joinWith_cons (sep : α) (p : List α) {ps : List (List α)} (hne : ps ≠ []) :
    joinWith sep (p :: ps) = p ++ sep :: joinWith sep ps := by
  obtain ⟨q, qs, rfl⟩ := List.exists_cons_of_ne_nil hne
  rfl

/-- What follows the last piece belongs to it. -/
theorem joinWith_concat_append (sep : α) (ps : List (List α)) (s t : List α) :
    joinWith sep (ps ++ [s]) ++ t = joinWith sep (ps ++ [s ++ t]) := by
  induction ps with
  | nil => rfl
  | cons p ps ih =>
    rw [List.cons_append, List.cons_append, joinWith_cons sep p (by simp),
      joinWith_cons sep p (by simp), ← ih, List.append_assoc, List.cons_append]

end

/-! ## Taking apart -/

section
variable {α : Type} [DecidableEq α]

theorem splitAt_of_not_mem {sep : α} {s : List α} (h : sep ∉ s) : splitAt sep s = [s] := by
  induction s with
  | nil => rfl
  | cons c cs ih =>
    obtain ⟨hc, hcs⟩ := not_or.1 (List.mem_cons.not.1 h)
    rw [splitAt, if_neg (Ne.symm hc), ih hcs]

/-- What stands before the first separator goes to the first piece. -/
theorem splitAt_append_of_not_mem {sep : α} {xs ys s : List α} {ss : List (List α)}
    (h : sep ∉ xs) (hys : splitAt sep ys = s :: ss) :
    splitAt sep (xs ++ ys) = (xs ++ s) :: ss := by
  induction xs with
  | nil => exact hys
  | cons c cs ih =>
    obtain ⟨hc, hcs⟩ := not_or.1 (List.mem_cons.not.1 h)
    rw [List.cons_append, splitAt, if_neg (Ne.symm hc), ih hcs]
    rfl

/-- Pieces without a separator come back. -/
theorem splitAt_joinWith {sep : α} {ps : List (List α)} (hne : ps ≠ [])
    (h : ∀ p ∈ ps, sep ∉ p) : splitAt sep (joinWith sep ps) = ps := by
  induction ps with
  | nil => exact absurd rfl hne
  | cons p ps ih =>
    obtain ⟨hp, hps⟩ := List.forall_mem_cons.1 h
    by_cases hnil : ps = []
    · subst hnil
      exact splitAt_of_not_mem hp
    · rw [joinWith_cons sep p hnil, splitAt_append, splitAt_of_not_mem hp, ih hnil hps]
      rfl

theorem not_mem_of_mem_splitAt {sep : α} {cs s : List α} (h : s ∈ splitAt sep cs) : sep ∉ s := by
  induction cs generalizing s with
  | nil =>
    rw [List.mem_singleton.1 h]
    exact List.not_mem_nil
  | cons c cs ih =>
    unfold splitAt at h
    split at h
    · rcases List.mem_cons.1 h with rfl | h
      · exact List.not_mem_nil
      · exact ih h
    · next hc =>
      obtain ⟨p, ps, hps⟩ := List.exists_cons_of_ne_nil (splitAt_ne_nil sep cs)
      rw [hps] at h ih
      rcases List.mem_cons.1 h with rfl | h
      · rw [List.mem_cons, not_or]
        exact ⟨Ne.symm hc, ih List.mem_cons_self⟩
      · exact ih (List.mem_cons_of_mem _ h)

end

section
variable {α : Type} [DecidableEq α] [PathSymbol α] {p name ending : List α}

open PathSymbol (slash dot)

/-! ## Absolute paths -/

theorem isAbsolute_iff : isAbsolute p = true ↔ ∃ rest, rest ≠ [] ∧ segments p = [] :: rest := by
  unfold isAbsolute segments
  cases p with
  | nil => simp [splitAt]
  | cons c cs =>
    have hne := splitAt_ne_nil slash cs
    simp only [List.head?_cons, Option.some.injEq, decide_eq_true_eq, splitAt]
    constructor
    · rintro rfl
      exact ⟨_, hne, if_pos rfl⟩
    · rintro ⟨rest, -, h⟩
      by_contra hc
      obtain ⟨s, ss, hs⟩ := List.exists_cons_of_ne_nil hne
      rw [if_neg hc, hs] at h
      cases h

/-! ## The last name -/

theorem segments_eq_append (p : List α) :
    ∃ idles, segments p = namedSegments p ++ idles ∧ ∀ s ∈ idles, isIdle s = true := by
  refine ⟨((segments p).reverse.takeWhile isIdle).reverse, ?_, fun s hs => ?_⟩
  · unfold namedSegments
    rw [← List.reverse_append, List.takeWhile_append_dropWhile, List.reverse_reverse]
  · exact List.mem_takeWhile_imp (List.mem_reverse.1 hs)

/-- The last segment that counts names something. -/
theorem getLast?_namedSegments {s : List α} (h : (namedSegments p).getLast? = some s) :
    isIdle s = false := by
  unfold namedSegments at h
  rw [List.getLast?_reverse] at h
  have := List.head?_dropWhile_not isIdle (segments p).reverse
  rw [h] at this
  simpa using this

/-- A path with a last name: the name, and segments after it that name nothing. -/
theorem of_fileName?_some (h : fileName? p = some name) :
    ∃ before idles, namedSegments p = before ++ [name] ∧ segments p = before ++ name :: idles ∧
      (∀ s ∈ idles, isIdle s = true) ∧ isIdle name = false ∧ name ≠ [dot, dot] := by
  unfold fileName? at h
  split at h
  · next s hs =>
    split at h
    · cases h
    · next hdots =>
      cases h
      obtain ⟨before, hbefore⟩ := List.getLast?_eq_some_iff.1 hs
      obtain ⟨idles, hseg, hidle⟩ := segments_eq_append p
      refine ⟨before, idles, hbefore, ?_, hidle, getLast?_namedSegments hs, hdots⟩
      rw [hseg, hbefore, List.append_assoc, List.singleton_append]
  · cases h

/-- A path without a last name names nothing at all, or ends on the way up. -/
theorem of_fileName?_none (h : fileName? p = none) :
    (∀ s ∈ segments p, isIdle s = true) ∨ ∃ before idles,
      segments p = before ++ [dot, dot] :: idles ∧ isIdle ([dot, dot] : List α) = false ∧
        ∀ s ∈ idles, isIdle s = true := by
  obtain ⟨idles, hseg, hidle⟩ := segments_eq_append p
  unfold fileName? at h
  split at h
  · next s hs =>
    split at h
    · next hdots =>
      subst hdots
      obtain ⟨before, hbefore⟩ := List.getLast?_eq_some_iff.1 hs
      refine Or.inr ⟨before, idles, ?_, getLast?_namedSegments hs, hidle⟩
      rw [hseg, hbefore, List.append_assoc, List.singleton_append]
    · cases h
  · next hnone =>
    refine Or.inl ?_
    rw [hseg, List.getLast?_eq_none_iff.1 hnone, List.nil_append]
    exact hidle

/-- The last segment that counts is the path's last name, unless it leads up. -/
theorem fileName?_of_segments {before idles : List (List α)}
    (hseg : segments p = before ++ name :: idles) (hidle : ∀ s ∈ idles, isIdle s = true)
    (hbusy : isIdle name = false) (hdots : name ≠ [dot, dot]) : fileName? p = some name := by
  have hnamed : namedSegments p = before ++ [name] := by
    unfold namedSegments
    rw [hseg, List.reverse_append, List.reverse_cons, List.append_assoc,
      List.dropWhile_append_of_pos fun s hs => hidle s (List.mem_reverse.1 hs), List.singleton_append,
      List.dropWhile_cons_of_neg (by simp [hbusy]), List.reverse_cons, List.reverse_reverse]
  unfold fileName?
  rw [hnamed, List.getLast?_concat]
  exact if_neg hdots

/-! ## Endings -/

/-- A name without an ending, or one that is its stem, a dot and the ending. -/
theorem of_splitExtension (name : List α) :
    splitExtension name = (name, none) ∨
      ∃ stem ending, splitExtension name = (stem, some ending) ∧ name = stem ++ dot :: ending ∧
        stem ≠ [] ∧ dot ∉ ending := by
  unfold splitExtension
  have hspan := List.takeWhile_append_dropWhile (p := fun c : α => decide (c ≠ dot))
    (l := name.reverse)
  rw [List.span_eq_takeWhile_dropWhile]
  have hclean : dot ∉ name.reverse.takeWhile fun c => decide (c ≠ dot) := fun h => by
    simpa using List.mem_takeWhile_imp h
  generalize name.reverse.takeWhile (fun c => decide (c ≠ dot)) = ending at hspan hclean ⊢
  have hdot := List.head?_dropWhile_not (fun c : α => decide (c ≠ dot)) name.reverse
  generalize name.reverse.dropWhile (fun c => decide (c ≠ dot)) = rest at hspan hdot ⊢
  match rest with
  | [] => exact Or.inl rfl
  | [_] => exact Or.inl rfl
  | c :: d :: stem =>
    have hc : c = dot := by simpa using hdot
    subst hc
    refine Or.inr ⟨(d :: stem).reverse, ending.reverse, rfl, ?_, by simp, by simpa using hclean⟩
    have := congrArg List.reverse hspan
    rw [List.reverse_reverse, List.reverse_append, List.reverse_cons, List.append_assoc] at this
    exact this.symm

/-- A stem, a dot and an ending are taken apart again. -/
theorem splitExtension_append {stem : List α} (hstem : stem ≠ []) (hending : dot ∉ ending) :
    splitExtension (stem ++ dot :: ending) = (stem, some ending) := by
  have hclean : ∀ c ∈ ending.reverse, decide (c ≠ dot) = true := fun c hc =>
    decide_eq_true fun h => hending (h ▸ List.mem_reverse.1 hc)
  obtain ⟨c, cs, hc⟩ := List.exists_cons_of_ne_nil (List.reverse_ne_nil_iff.2 hstem)
  unfold splitExtension
  rw [List.span_eq_takeWhile_dropWhile, List.reverse_append, List.reverse_cons, List.append_assoc,
    List.singleton_append, List.takeWhile_append_of_pos hclean, List.dropWhile_append_of_pos hclean,
    List.dropWhile_cons_of_neg (by simp), List.takeWhile_cons_of_neg (by simp), hc]
  simp [← hc]

/-- A path with an ending: its last name is a stem, a dot and the ending. -/
theorem extension?_eq_some_iff_segments :
    extension? p = some ending ↔ ∃ before stem idles,
      segments p = before ++ (stem ++ dot :: ending) :: idles ∧ stem ≠ [] ∧ dot ∉ ending ∧
        stem ++ dot :: ending ≠ [dot, dot] ∧ ∀ s ∈ idles, isIdle s = true := by
  constructor
  · intro h
    obtain ⟨name, hname, hend⟩ := Option.bind_eq_some_iff.1 h
    obtain ⟨before, idles, -, hseg, hidle, -, hdots⟩ := of_fileName?_some hname
    rcases of_splitExtension name with hsplit | ⟨stem, e, hsplit, rfl, hstem, he⟩
    · rw [hsplit] at hend
      cases hend
    · rw [hsplit] at hend
      cases hend
      exact ⟨before, stem, idles, hseg, hstem, he, hdots, hidle⟩
  · rintro ⟨before, stem, idles, hseg, hstem, hending, hdots, hidle⟩
    have hbusy : isIdle (stem ++ dot :: ending) = false := by
      cases stem with
      | nil => exact absurd rfl hstem
      | cons c cs => simp [isIdle]
    unfold extension?
    rw [fileName?_of_segments hseg hidle hbusy hdots, Option.bind_some,
      splitExtension_append hstem hending]

/-- The name with another ending. -/
def endingIn (name ending : List α) : List α := (splitExtension name).1 ++ dot :: ending

theorem extension?_eq_some_iff (h : fileName? p = some name) :
    extension? p = some ending ↔ (splitExtension name).2 = some ending := by
  unfold extension?
  rw [h, Option.bind_some]

/-- A name gets the ending it has, or it becomes another one. -/
theorem endingIn_eq_iff : endingIn name ending = name ↔ (splitExtension name).2 = some ending := by
  unfold endingIn
  rcases of_splitExtension name with h | ⟨stem, e, h, hname, -⟩
  · rw [h]
    simp
  · rw [h]
    constructor
    · intro heq
      rw [hname] at heq
      have := List.append_cancel_left heq
      exact congrArg some (List.cons.inj this).2.symm
    · rintro ⟨⟩
      exact hname.symm

/-- An ending of at least two symbols makes a name that is none of the special ones. -/
theorem endingIn_special (name : List α) (h : 2 ≤ ending.length) :
    isIdle (endingIn name ending) = false ∧ endingIn name ending ≠ [dot, dot] := by
  have hlength : 3 ≤ (endingIn name ending).length := by
    unfold endingIn
    rw [List.length_append, List.length_cons]
    omega
  constructor
  · unfold isIdle
    have hne : endingIn name ending ≠ [] := by
      rintro he
      rw [he] at hlength
      simp at hlength
    have hdot : endingIn name ending ≠ [dot] := by
      rintro he
      rw [he] at hlength
      simp at hlength
    simp [hne, hdot]
  · rintro he
    rw [he] at hlength
    simp at hlength

/-! ## Components -/

/-- What a path begins with, and then its segments that name something. -/
theorem components_eq (p : List α) :
    components p =
      (if isAbsolute p then [.root]
        else if (segments p).head? = some [dot] then [.current] else []) ++
      ((segments p).filter (!isIdle ·)).map componentOf := by
  unfold components
  dsimp only
  split_ifs <;> rfl

/-- A path leads up where a segment of it is two dots. -/
theorem parent_mem_components : .parent ∈ components p ↔ [dot, dot] ∈ segments p := by
  have hfront : .parent ∉ (if isAbsolute p then [PathComponent.root]
      else if (segments p).head? = some [dot] then [.current] else [] : List (PathComponent α)) := by
    split_ifs <;> simp
  rw [components_eq, List.mem_append, or_iff_right hfront]
  constructor
  · intro h
    obtain ⟨s, hs, hparent⟩ := List.mem_map.1 h
    unfold componentOf at hparent
    split at hparent
    · next hdots => exact hdots ▸ (List.mem_filter.1 hs).1
    · cases hparent
  · exact fun h => List.mem_map.2 ⟨_, List.mem_filter.2 ⟨h, by simp [isIdle]⟩, if_pos rfl⟩

/-- Only an absolute path begins at the top. -/
theorem root_not_mem_components (h : isAbsolute p = false) : .root ∉ components p := by
  rw [components_eq, h, if_neg Bool.false_ne_true, List.mem_append, not_or]
  constructor
  · split <;> simp
  · intro hroot
    obtain ⟨s, -, hs⟩ := List.mem_map.1 hroot
    unfold componentOf at hs
    split at hs <;> cases hs

section
variable {base : List α}

theorem isAbsolute_of_slash_not_mem (h : slash ∉ name) : isAbsolute name = false := by
  unfold isAbsolute
  rw [decide_eq_false_iff_not]
  exact fun hhead => h (List.mem_of_mem_head? hhead)

/-- The segments of a path with a name below it. -/
theorem segments_joinSymbols (hbase : base ≠ []) :
    ∃ above idles, above ≠ [] ∧ segments base = above ++ idles ∧ (∀ s ∈ idles, isIdle s = true) ∧
      ∀ name, slash ∉ name → segments (joinSymbols base name) = above ++ [name] := by
  have hempty : ¬ base.isEmpty = true := by simpa using hbase
  unfold segments
  by_cases hlast : base.getLast? = some slash
  · obtain ⟨above, rfl⟩ := List.getLast?_eq_some_iff.1 hlast
    refine ⟨_, [[]], splitAt_ne_nil slash above, splitAt_append slash above [], by simp [isIdle],
      fun name hslash => ?_⟩
    unfold joinSymbols
    rw [isAbsolute_of_slash_not_mem hslash, if_neg Bool.false_ne_true, if_neg hempty, if_pos hlast,
      List.append_assoc, List.singleton_append, splitAt_append, splitAt_of_not_mem hslash]
  · refine ⟨_, [], splitAt_ne_nil slash base, (List.append_nil _).symm, by simp,
      fun name hslash => ?_⟩
    unfold joinSymbols
    rw [isAbsolute_of_slash_not_mem hslash, if_neg Bool.false_ne_true, if_neg hempty, if_neg hlast,
      splitAt_append, splitAt_of_not_mem hslash]

theorem joinSymbols_nil (name : List α) : joinSymbols [] name = name := by
  unfold joinSymbols
  split <;> rfl

theorem isAbsolute_joinSymbols (hbase : base ≠ []) (hslash : slash ∉ name) :
    isAbsolute (joinSymbols base name) = isAbsolute base := by
  obtain ⟨c, cs, rfl⟩ := List.exists_cons_of_ne_nil hbase
  unfold joinSymbols
  rw [isAbsolute_of_slash_not_mem hslash]
  simp only [Bool.false_eq_true, if_false, List.isEmpty_cons]
  split <;> rfl

/-- A name with something else than dots in it is none of the special ones. -/
theorem named_of_mem {c : α} (hc : c ∈ name) (hdot : c ≠ dot) :
    isIdle name = false ∧ name ≠ [dot, dot] := by
  have hne : name ≠ [] := List.ne_nil_of_mem hc
  have hone : name ≠ [dot] := by
    rintro rfl
    exact hdot (List.mem_singleton.1 hc)
  have htwo : name ≠ [dot, dot] := by
    rintro rfl
    simp [hdot] at hc
  exact ⟨by simp [isIdle, hne, hone], htwo⟩

/-- **A name below a path** is one more component, whatever the path. -/
theorem components_joinSymbols (base : List α) (hslash : slash ∉ name) (hbusy : isIdle name = false)
    (hdots : name ≠ [dot, dot]) :
    components (joinSymbols base name) = components base ++ [.normal name] := by
  have hname : [name].filter (!isIdle ·) = [name] := by simp [hbusy]
  by_cases hbase : base = []
  · have hdot : name ≠ [dot] := by
      rintro rfl
      simp [isIdle] at hbusy
    have hsegs : segments name = [name] := splitAt_of_not_mem hslash
    rw [hbase, joinSymbols_nil, components_eq, isAbsolute_of_slash_not_mem hslash, hsegs, hname]
    simp [hdot, componentOf, hdots, components, segments, splitAt, isIdle, isAbsolute]
  · obtain ⟨above, idles, habove, hsegs, hidle, hjoin⟩ := segments_joinSymbols hbase
    have hfilter : idles.filter (!isIdle ·) = [] := by simpa using hidle
    rw [components_eq, components_eq base, isAbsolute_joinSymbols hbase hslash, hjoin name hslash,
      hsegs, List.head?_append_of_ne_nil _ habove, List.head?_append_of_ne_nil _ habove,
      List.filter_append, List.filter_append, hname, hfilter, List.append_nil, List.map_append,
      List.append_assoc, List.map_singleton, componentOf, if_neg hdots]

end

/-! ## Another ending -/

theorem withExtensionSymbols_of_none (h : fileName? p = none) :
    withExtensionSymbols p ending = p := by
  unfold withExtensionSymbols
  rw [h]

/-- The last name gets the ending, what is before it stays, and what follows it is cut off. -/
theorem segments_withExtensionSymbols (h : fileName? p = some name) {before : List (List α)}
    (hnamed : namedSegments p = before ++ [name]) (hending : slash ∉ dot :: ending) :
    segments (withExtensionSymbols p ending) = before ++ [endingIn name ending] := by
  have hclean : ∀ s ∈ namedSegments p, slash ∉ s := by
    intro s hs
    obtain ⟨idles, hseg, -⟩ := segments_eq_append p
    have hmem : s ∈ segments p := by
      rw [hseg]
      exact List.mem_append_left idles hs
    exact not_mem_of_mem_splitAt hmem
  have hstem : slash ∉ endingIn name ending := by
    have hname : slash ∉ name := hclean name (by simp [hnamed])
    unfold endingIn
    rw [List.mem_append, not_or]
    refine ⟨?_, hending⟩
    rcases of_splitExtension name with he | ⟨stem, e, he, hsplit, -⟩
    · rwa [he]
    · rw [he]
      rw [hsplit, List.mem_append, not_or] at hname
      exact hname.1
  have hjoin : withExtensionSymbols p ending =
      joinWith slash (before ++ [endingIn name ending]) := by
    unfold withExtensionSymbols endingIn
    rw [h, hnamed]
    simp only [List.dropLast_concat]
    exact joinWith_concat_append slash before _ _
  rw [hjoin]
  refine splitAt_joinWith (by simp) fun s hs => ?_
  rcases List.mem_append.1 hs with hs | hs
  · exact hclean s (by rw [hnamed]; exact List.mem_append_left _ hs)
  · rw [List.mem_singleton.1 hs]
    exact hstem

end

/-! ## Texts as bytes -/

open PathSymbol (slash) in
/-- The bytes a text is written with have its segments, each as it is written. -/
theorem segments_flatMap_utf8EncodeChar (cs : List Char) :
    segments (cs.flatMap utf8EncodeChar) = (segments cs).map (·.flatMap utf8EncodeChar) := by
  unfold segments
  induction cs with
  | nil => rfl
  | cons c cs ih =>
    obtain ⟨s, ss, hs⟩ := List.exists_cons_of_ne_nil (splitAt_ne_nil slash cs)
    rw [hs, List.map_cons] at ih
    rw [List.flatMap_cons]
    by_cases hc : c = slash
    · have henc : utf8EncodeChar slash = [slash] := by decide
      rw [hc, henc, List.singleton_append, splitAt, splitAt, if_pos rfl, if_pos rfl, ih, hs]
      rfl
    · have hslash : slash ∉ utf8EncodeChar c := fun h =>
        hc (eq_of_mem_utf8EncodeChar h (by decide))
      rw [splitAt_append_of_not_mem hslash ih, splitAt, if_neg hc, hs]
      rfl

end Federation
