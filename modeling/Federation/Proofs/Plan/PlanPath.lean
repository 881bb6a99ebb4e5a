/-
  Which paths a plan may be read from.

  * `Short`, `Climbs`, `NamesPlan`: what is asked of a path, read off its bytes;
  * `follow`: where a path leads by its text alone;
  * `StaysBelow`: a path that leads to nothing above the place it starts from;
  * `validatePlanPath_grammar`: the paths that are taken, why the others are not, and that the first
    ones stay below.
-/
import Federation.Proofs.Disk.Sibling
import Federation.Proofs.Text.Lossy
import Federation.Plan.Plan

namespace Federation

open Disk (Tree Location)

namespace PlanPath

/-! ## What is asked of a path -/

/-- As a text, with what is no text replaced, it has at most 256 bytes. -/
def Short (path : List UInt8) : Prop :=
  ∃ text, Rendered path text ∧ (text.flatMap utf8EncodeChar).length ≤ 256

/-- Some segment leads up. -/
def Climbs (path : List UInt8) : Prop := ascii ".." ∈ segments path

/-- The last segment that names something is a stem with one of the two endings. -/
def NamesPlan (path : List UInt8) : Prop :=
  ∃ before stem ending idles, segments path = before ++ (stem ++ ending) :: idles ∧ stem ≠ [] ∧
    (ending = ascii ".yaml" ∨ ending = ascii ".yml") ∧ ∀ s ∈ idles, s = [] ∨ s = ascii "."

section
variable {path : List UInt8}

theorem short_iff : Short path ↔ ¬ maxPlanPathLength < utf8Length (utf8Lossy path) := by
  unfold Short utf8Length utf8Encode utf8Lossy
  simp only [rendered_iff, exists_eq_left, String.toList_ofList, Nat.not_lt]
  rfl

theorem climbs_iff : Climbs path ↔ (components path).contains .parent = true := by
  rw [List.contains_iff_mem, parent_mem_components]
  rfl

theorem namesPlan_iff :
    NamesPlan path ↔ extension? path = some (ascii "yaml") ∨ extension? path = some (ascii "yml") := by
  have idle : ∀ s : List UInt8, isIdle s = true ↔ s = [] ∨ s = ascii "." := by
    intro s
    simp [isIdle, ascii, PathSymbol.dot]
  simp only [extension?_eq_some_iff_segments, idle]
  constructor
  · rintro ⟨before, stem, ending, idles, hseg, hstem, rfl | rfl, hidle⟩
    · refine Or.inl ⟨before, stem, idles, hseg, hstem, by decide, fun h => ?_, hidle⟩
      simpa [ascii] using congrArg List.length h
    · refine Or.inr ⟨before, stem, idles, hseg, hstem, by decide, fun h => ?_, hidle⟩
      simpa [ascii] using congrArg List.length h
  · rintro (⟨before, stem, idles, hseg, hstem, -, -, hidle⟩ |
      ⟨before, stem, idles, hseg, hstem, -, -, hidle⟩)
    · exact ⟨before, stem, _, idles, hseg, hstem, .inl rfl, hidle⟩
    · exact ⟨before, stem, _, idles, hseg, hstem, .inr rfl, hidle⟩

end

/-! ## Where a path leads -/

section
variable {α : Type}

/-- One component further, by the text alone. -/
def follow (l : List (List α)) : PathComponent α → List (List α)
  | .root => []
  | .current => l
  | .parent => l.dropLast
  | .normal name => l ++ [name]

/-- What neither leads up nor starts again leads below where it starts. -/
theorem prefix_foldl_follow {way : List (PathComponent α)} (hroot : .root ∉ way)
    (hparent : .parent ∉ way) (start : List (List α)) : start <+: way.foldl follow start := by
  induction way generalizing start with
  | nil => exact List.prefix_rfl
  | cons c way ih =>
    rw [List.mem_cons, not_or] at hroot hparent
    have hstep : start <+: follow start c := by
      cases c with
      | root => exact absurd rfl hroot.1
      | current => exact List.prefix_rfl
      | parent => exact absurd rfl hparent.1
      | normal name => exact List.prefix_append start [name]
    exact hstep.trans (ih hroot.2 hparent.2 _)

end

section
variable {t : Tree} {l m : Location}

/-- A name that does not lead up leads down on any disk, or nowhere else. -/
theorem prefix_of_step {name : List Char} (hdots : name ≠ ['.', '.'])
    (h : t.step l name = .ok m) : l <+: m := by
  cases hidle : isIdle name with
  | true =>
    rw [Tree.step_of_idle hidle (Tree.isDirectory_of_step h)] at h
    cases h
    exact List.prefix_rfl
  | false =>
    rw [Tree.step_of_busy hidle hdots h]
    exact List.prefix_append ..

theorem prefix_of_walk {names : List (List Char)} (hdots : ['.', '.'] ∉ names)
    (h : t.walk l names = .ok m) : l <+: m := by
  induction names generalizing l with
  | nil =>
    cases h
    exact List.prefix_rfl
  | cons name names ih =>
    obtain ⟨hname, hnames⟩ := not_or.1 (List.mem_cons.not.1 hdots)
    rw [Tree.walk_cons] at h
    cases hstep : t.step l name with
    | error e =>
      rw [hstep] at h
      cases h
    | ok l' =>
      rw [hstep] at h
      exact (prefix_of_step (Ne.symm hname) hstep).trans (ih hnames h)

end

/-- A path that leads to nothing above the place it starts from: the top of the disk for an absolute
path, and any place at all for another one. -/
structure StaysBelow (path : List UInt8) : Prop where
  /-- By its text alone, wherever it starts and however much of it was followed. -/
  text : ∀ start way, way <+: components path →
    (if isAbsolute path then [] else start) <+:
      way.foldl follow (if isAbsolute path then [] else start)
  /-- After the slash an absolute path begins with, each part of the way leads down. -/
  descends : ∀ start way further, way ++ further <+: components path → .root ∉ further →
    way.foldl follow start <+: (way ++ further).foldl follow start
  /-- On any disk, when it is a text. -/
  disk : ∀ (t : Tree) s l, utf8Encode s = path → t.resolve s = .ok l →
    (if isAbsolute s.toList then [] else t.workplace) <+: l

/-- A path without `..` stays below. -/
theorem staysBelow_of_not_climbs {path : List UInt8} (h : ¬ Climbs path) : StaysBelow path where
  text start way hway := by
    have hparent : .parent ∉ way := fun hmem => h (parent_mem_components.1 (hway.subset hmem))
    split
    · exact List.nil_prefix
    · next habs =>
      have hroot : .root ∉ way := fun hmem =>
        root_not_mem_components (Bool.eq_false_iff.2 habs) (hway.subset hmem)
      exact prefix_foldl_follow hroot hparent start
  descends start way further hway hroot := by
    have hparent : .parent ∉ further := fun hmem =>
      h (parent_mem_components.1 (hway.subset (List.mem_append_right way hmem)))
    rw [List.foldl_append]
    exact prefix_foldl_follow hroot hparent _
  disk t s l hs hl := by
    have hdots : ['.', '.'] ∉ segments s.toList := by
      intro hmem
      refine h ?_
      unfold Climbs
      rw [← hs, utf8Encode, segments_flatMap_utf8EncodeChar]
      exact List.mem_map.2 ⟨_, hmem, by decide⟩
    have hne : s.toList ≠ [] := by
      intro hnil
      rw [String.toList_inj.1 (hnil.trans rfl : s.toList = "".toList)] at hl
      cases hl
    rw [Tree.resolve_eq t hne] at hl
    exact prefix_of_walk (fun hmem => hdots (List.mem_of_mem_drop hmem)) hl

/-! ## The paths that are taken -/

section
variable {path : List UInt8}

theorem validatePlanPath_of_long (h : ¬ Short path) :
    validatePlanPath path = .error (.configuration "plan path too long (max 256)") := by
  unfold validatePlanPath
  rw [if_pos (not_not.1 (short_iff.not.1 h))]
  rfl

theorem validatePlanPath_of_climbs (hshort : Short path) (h : Climbs path) :
    validatePlanPath path = .error (.configuration "plan path must not contain `..`") := by
  unfold validatePlanPath
  rw [if_neg (short_iff.1 hshort), if_pos (climbs_iff.1 h)]

theorem validatePlanPath_of_namesPlan (hshort : Short path) (hclimbs : ¬ Climbs path)
    (h : NamesPlan path) : validatePlanPath path = .ok () := by
  unfold validatePlanPath
  rw [if_neg (short_iff.1 hshort), if_neg (climbs_iff.not.1 hclimbs)]
  rcases namesPlan_iff.1 h with h | h <;> simp [h]

theorem validatePlanPath_of_not_namesPlan (hshort : Short path) (hclimbs : ¬ Climbs path)
    (h : ¬ NamesPlan path) :
    validatePlanPath path = .error (.configuration "plan file must be .yaml or .yml") := by
  unfold validatePlanPath
  rw [if_neg (short_iff.1 hshort), if_neg (climbs_iff.not.1 hclimbs)]
  split
  · next ending hending =>
    rw [namesPlan_iff, hending] at h
    exact if_neg (by simpa using h)
  · rfl

end

/-- **The paths a plan may be read from**: short ones that do not lead up and whose last name is a
stem with one of the two endings; what a path fails first is what it is refused for.  A path that is
taken leads to nothing above the place it starts from. -/
theorem validatePlanPath_grammar (path : List UInt8) :
    (validatePlanPath path = .ok () ↔ Short path ∧ ¬ Climbs path ∧ NamesPlan path) ∧
      (∀ err, validatePlanPath path = .error err ↔
        (¬ Short path ∧ err = .configuration "plan path too long (max 256)") ∨
        (Short path ∧ Climbs path ∧ err = .configuration "plan path must not contain `..`") ∨
        (Short path ∧ ¬ Climbs path ∧ ¬ NamesPlan path ∧
          err = .configuration "plan file must be .yaml or .yml")) ∧
      (validatePlanPath path = .ok () → StaysBelow path) := by
  by_cases hshort : Short path
  · by_cases hclimbs : Climbs path
    · rw [validatePlanPath_of_climbs hshort hclimbs]
      simp [hshort, hclimbs, eq_comm]
    · have hbelow := staysBelow_of_not_climbs hclimbs
      by_cases hnames : NamesPlan path
      · rw [validatePlanPath_of_namesPlan hshort hclimbs hnames]
        simp [hshort, hclimbs, hnames, hbelow]
      · rw [validatePlanPath_of_not_namesPlan hshort hclimbs hnames]
        simp [hshort, hclimbs, hnames, eq_comm]
  · rw [validatePlanPath_of_long hshort]
    simp [hshort, eq_comm]

/-- A path with segments that name nothing, and two dots inside a name. -/
theorem staysBelow_of_dotted_name :
    validatePlanPath (ascii "plans/.//fed..v2.yml/.") = .ok () ∧
      StaysBelow (ascii "plans/.//fed..v2.yml/.") :=
  ⟨by decide, (validatePlanPath_grammar _).2.2 (by decide)⟩

-- A name that is all ending has none; a byte that is no text is a stem.
example : validatePlanPath (ascii "plans/.yaml") =
    .error (.configuration "plan file must be .yaml or .yml") := by rfl
example : validatePlanPath (0xff :: ascii ".yaml") = .ok () := by rfl

end PlanPath

end Federation
