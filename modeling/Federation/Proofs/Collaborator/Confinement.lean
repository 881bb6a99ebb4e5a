/-
  The working directories of different identities.

  * `IsIdentity`, `validateIdentity_eq_ok_iff`: the texts that are identities;
  * `IsIdentity.isPlain`: an identity is one name, which stands for itself in any path;
  * `Confined`: a directory with its files directly below the one that the plan names;
  * `Apart`: one directory that is not inside another one;
  * `Rejected`: a text that nothing takes for an identity;
  * `identities_confine_directories`: one of the two, for every text.
-/
import Federation.Proofs.Collaborator.WorkDir
import Federation.Proofs.Disk.Making
import Federation.Proofs.Disk.Sibling
import Federation.Collaborator.Startup

namespace Federation

open Disk (Tree Location IsPlain)

/-! ## Identities -/

/-- The texts that may name a working directory. -/
structure IsIdentity (id : String) : Prop where
  some_byte : id ≠ ""
  short : utf8Length id ≤ 128
  letters : ∀ c ∈ id.toList, isIdentityChar c = true
  not_dots : ∃ c ∈ id.toList, c ≠ '.'

theorem validateIdentity_eq_ok_iff {id : String} :
    validateIdentity id = .ok () ↔ IsIdentity id := by
  have hlength : (id.isEmpty || decide (maxIdentityLength < utf8Length id)) = true ↔
      ¬ (id ≠ "" ∧ utf8Length id ≤ 128) := by
    rw [Bool.or_eq_true, String.isEmpty_iff, decide_eq_true_eq, not_and_or, not_not, not_le]
    rfl
  have hletters : (!id.toList.all isIdentityChar) = true ↔
      ¬ ∀ c ∈ id.toList, isIdentityChar c = true := by
    rw [Bool.not_eq_true', ← Bool.not_eq_true, List.all_eq_true]
  have hdots : id.toList.all (· = '.') = true ↔ ¬ ∃ c ∈ id.toList, c ≠ '.' := by
    simp
  unfold validateIdentity
  simp only [hlength, hletters, hdots]
  constructor
  · intro h
    split_ifs at h with hbytes hletters hdots
    exact ⟨hbytes.1, hbytes.2, hletters, hdots⟩
  · intro h
    rw [if_neg (not_not.2 ⟨h.some_byte, h.short⟩), if_neg (not_not.2 h.letters),
      if_neg (not_not.2 h.not_dots)]

/-- A text that is no identity is refused as one. -/
theorem validateIdentity_of_ne_ok {id : String} (h : validateIdentity id ≠ .ok ()) :
    ∃ text, validateIdentity id = .error (.invalidArgument text) := by
  unfold validateIdentity at h ⊢
  split_ifs at h ⊢
  · exact ⟨_, rfl⟩
  · exact ⟨_, rfl⟩
  · exact ⟨_, rfl⟩
  · exact absurd rfl h

/-- What identities are written with is ASCII, and no slash. -/
theorem of_isIdentityChar {c : Char} (h : isIdentityChar c = true) : c.toNat < 0x80 ∧ c ≠ '/' := by
  constructor
  · have below : ∀ d : Char, c ≤ d → c.toNat ≤ d.toNat := fun d hd => hd
    simp only [isIdentityChar, isAsciiAlphanumeric, Bool.or_eq_true, Bool.and_eq_true,
      decide_eq_true_eq] at h
    rcases h with ((((⟨-, h⟩ | ⟨-, h⟩) | ⟨-, h⟩) | rfl) | rfl) | rfl
    · exact (below 'z' h).trans_lt (by decide)
    · exact (below 'Z' h).trans_lt (by decide)
    · exact (below '9' h).trans_lt (by decide)
    · decide
    · decide
    · decide
  · rintro rfl
    exact absurd h (by decide)

namespace IsIdentity

variable {id : String}

theorem slash_not_mem (h : IsIdentity id) : '/' ∉ id.toList := fun hmem =>
  (of_isIdentityChar (h.letters _ hmem)).2 rfl

theorem named (h : IsIdentity id) : isIdle id.toList = false ∧ id.toList ≠ ['.', '.'] := by
  obtain ⟨c, hc, hdot⟩ := h.not_dots
  exact named_of_mem hc hdot

/-- An identity is one name, which stands for itself in any path. -/
theorem isPlain (h : IsIdentity id) : IsPlain id where
  relative := isAbsolute_of_slash_not_mem h.slash_not_mem
  single := splitAt_of_not_mem h.slash_not_mem
  busy := h.named.1
  descends := h.named.2
  short := h.short.trans (by decide)

theorem slash_not_mem_utf8Encode (h : IsIdentity id) : PathSymbol.slash ∉ utf8Encode id := by
  intro hmem
  obtain ⟨c, hc, hb⟩ := List.mem_flatMap.1 hmem
  rw [eq_of_mem_utf8EncodeChar hb (by decide)] at hc
  exact h.slash_not_mem hc

theorem named_utf8Encode (h : IsIdentity id) :
    isIdle (utf8Encode id) = false ∧ utf8Encode id ≠ [PathSymbol.dot, PathSymbol.dot] := by
  obtain ⟨c, hc, hdot⟩ := h.not_dots
  have hbyte : UInt8.ofNat c.toNat ∈ utf8EncodeChar c := by
    unfold utf8EncodeChar
    simp only
    rw [if_pos (of_isIdentityChar (h.letters c hc)).1]
    exact List.mem_singleton_self _
  refine named_of_mem (List.mem_flatMap.2 ⟨c, hc, hbyte⟩) fun he => hdot ?_
  rw [he] at hbyte
  exact eq_of_mem_utf8EncodeChar hbyte (by decide)

end IsIdentity

/-! ## Names below a directory -/

theorem Disk.IsPlain.slash_not_mem {name : String} (h : IsPlain name) : '/' ∉ name.toList := by
  have hmem : name.toList ∈ segments name.toList := by
    rw [h.single]
    exact List.mem_singleton_self _
  exact not_mem_of_mem_splitAt hmem

theorem Disk.IsPlain.ne_nil {name : String} (h : IsPlain name) : name.toList ≠ [] := by
  intro hnil
  have hbusy := h.busy
  rw [hnil] at hbusy
  cases hbusy

section
variable {root name name' : String}

theorem pathComponents_joinPath (root : String) (hn : IsPlain name) :
    pathComponents (joinPath root name) = pathComponents root ++ [.normal name.toList] := by
  unfold pathComponents joinPath
  rw [String.toList_ofList]
  exact components_joinSymbols _ hn.slash_not_mem hn.busy hn.descends

/-- A file in a directory of that name. -/
theorem pathComponents_joinPath_joinPath (root : String) (hn : IsPlain name)
    (hn' : IsPlain name') : pathComponents (joinPath (joinPath root name) name') =
      pathComponents root ++ [.normal name.toList, .normal name'.toList] := by
  rw [pathComponents_joinPath _ hn', pathComponents_joinPath _ hn, List.append_assoc]
  rfl

/-- The way to names below one path is the same up to the name. -/
theorem exists_segments_joinPath (root : String) :
    ∃ before, ∀ name, IsPlain name →
      segments (joinPath root name).toList = before ++ [name.toList] := by
  by_cases hroot : root.toList = []
  · refine ⟨[], fun name hn => ?_⟩
    rw [joinPath, String.toList_ofList, hroot, joinSymbols_nil, hn.single, List.nil_append]
  · obtain ⟨before, -, -, -, -, hsegs⟩ := segments_joinSymbols hroot
    refine ⟨before, fun name hn => ?_⟩
    rw [joinPath, String.toList_ofList, hsegs _ hn.slash_not_mem]

/-- Where two names below one path lead, they lead side by side. -/
theorem siblings {t : Tree} {l l' : Location} (hn : IsPlain name) (hn' : IsPlain name')
    (h : t.resolve (joinPath root name) = .ok l) (h' : t.resolve (joinPath root name') = .ok l') :
    ∃ d, l = d ++ [name] ∧ l' = d ++ [name'] := by
  obtain ⟨before, hsegs⟩ := exists_segments_joinPath root
  rw [Tree.resolve_below (hsegs name hn) hn.ne_nil] at h
  rw [Tree.resolve_below (hsegs name' hn') hn'.ne_nil] at h'
  cases habove : t.above before with
  | error e =>
    rw [habove] at h
    cases h
  | ok d =>
    rw [habove] at h h'
    have hstep : t.walk d [name.toList] = .ok l := h
    have hstep' : t.walk d [name'.toList] = .ok l' := h'
    rw [Tree.walk_singleton] at hstep hstep'
    exact ⟨d, Tree.of_step_plain hn hstep, Tree.of_step_plain hn' hstep'⟩

end

/-- Of different names in one place, none is inside the other. -/
theorem not_concat_prefix {α : Type} {place : List α} {a b : α} (h : a ≠ b) :
    ¬ place ++ [a] <+: place ++ [b] := by
  rw [List.prefix_append_right_inj, List.cons_prefix_cons]
  exact fun hab => h hab.1

/-! ## Working directories -/

open CollaboratorProcess (directory)

/-- The directory of an identity lies directly in the one that the plan names, whatever that is, and
the two files lie directly in the directory of the identity. -/
structure Confined (p : FederationPlan) (id : String) : Prop where
  child : pathComponents (directory p id) =
    pathComponents p.collaborator.workDir ++ [.normal id.toList]
  model : pathComponents (WorkDir.mk (directory p id)).modelPath =
    pathComponents p.collaborator.workDir ++ [.normal id.toList, .normal "model.bin".toList]
  update : pathComponents (WorkDir.mk (directory p id)).updatePath =
    pathComponents p.collaborator.workDir ++ [.normal id.toList, .normal "update.bin".toList]
  /-- The same below a path that is no text. -/
  bytes : ∀ base : List UInt8,
    components (joinSymbols base (utf8Encode id)) = components base ++ [.normal (utf8Encode id)] ∧
      ∀ file ∈ ["model.bin", "update.bin"],
        components (joinSymbols (joinSymbols base (utf8Encode id)) (utf8Encode file)) =
          components base ++ [.normal (utf8Encode id), .normal (utf8Encode file)]
  /-- So it is on a disk. -/
  disk : ∀ (t : Tree) d, t.resolve p.collaborator.workDir = .ok d → t.IsDirectory d →
    t.resolve (directory p id) = .ok (d ++ [id])
  files : ∀ (t : Tree) d, t.resolve (directory p id) = .ok d → t.IsDirectory d →
    t.resolve (WorkDir.mk (directory p id)).modelPath = .ok (d ++ ["model.bin"]) ∧
      t.resolve (WorkDir.mk (directory p id)).updatePath = .ok (d ++ ["update.bin"])

/-- The directory of `other` is another one than that of `id`, and not inside it. -/
structure Apart (p : FederationPlan) (id other : String) : Prop where
  text : ¬ pathComponents (directory p id) <+: pathComponents (directory p other)
  bytes : ∀ base : List UInt8, ¬ components (joinSymbols base (utf8Encode id)) <+:
    components (joinSymbols base (utf8Encode other))
  disk : ∀ (t : Tree) d d', t.resolve (directory p id) = .ok d →
    t.resolve (directory p other) = .ok d' → ¬ d <+: d'

/-- Nobody takes the text for an identity, and nothing happens because of it. -/
structure Rejected (p : FederationPlan) (id : String) (err : FederationError) : Prop where
  config : p.collaboratorConfig id = .error err
  /-- A collaborator that is started with it reads its plan, and nothing else, whatever libraries it
  is linked with. -/
  start : ∀ [PemReader] [TlsLibrary] m env, env.lookup Startup.identityVariable = some id →
    CollaboratorProcess.start m env = Startup.loadPlan env >>= fun _ => throw (.refused err)
  join : ∀ {σ : Type} (e : RoundEngine σ) now, e.join now id = (.error err, e)
  submit : ∀ {σ : Type} [AggregationStrategy σ] (e : RoundEngine σ) now u,
    e.submit now id u = (.error err, e)
  latest : ∀ {σ : Type} (e : RoundEngine σ) now, e.latest now id = (.error err, e)

theorem IsIdentity.confined {id : String} (h : IsIdentity id) (p : FederationPlan) :
    Confined p id where
  child := pathComponents_joinPath _ h.isPlain
  model := pathComponents_joinPath_joinPath _ h.isPlain WorkDir.isPlain_model
  update := pathComponents_joinPath_joinPath _ h.isPlain WorkDir.isPlain_update
  bytes base := by
    have hid : components (joinSymbols base (utf8Encode id)) =
        components base ++ [.normal (utf8Encode id)] :=
      components_joinSymbols base h.slash_not_mem_utf8Encode h.named_utf8Encode.1
        h.named_utf8Encode.2
    refine ⟨hid, ?_⟩
    have hfile : ∀ file ∈ ["model.bin", "update.bin"], PathSymbol.slash ∉ utf8Encode file ∧
        isIdle (utf8Encode file) = false ∧
          utf8Encode file ≠ [PathSymbol.dot, PathSymbol.dot] := by decide
    intro file hmem
    obtain ⟨hslash, hbusy, hdots⟩ := hfile file hmem
    rw [components_joinSymbols _ hslash hbusy hdots, hid, List.append_assoc]
    rfl
  disk t d hd hdir := Tree.resolve_joinPath hd hdir h.isPlain
  files t d hd hdir := by
    have home : WorkDir.Home t ⟨directory p id⟩ d := ⟨hd, hdir⟩
    exact ⟨home.modelPath, home.updatePath⟩

theorem IsIdentity.apart {id other : String} (h : IsIdentity id) (ho : IsIdentity other)
    (hne : id ≠ other) (p : FederationPlan) : Apart p id other where
  text := by
    rw [(h.confined p).child, (ho.confined p).child]
    refine not_concat_prefix fun he => hne ?_
    exact String.toList_inj.1 (PathComponent.normal.inj he)
  bytes base := by
    rw [((h.confined p).bytes base).1, ((ho.confined p).bytes base).1]
    refine not_concat_prefix fun he => hne ?_
    exact utf8Encode_injective (PathComponent.normal.inj he)
  disk t d d' hd hd' := by
    obtain ⟨place, rfl, rfl⟩ := siblings h.isPlain ho.isPlain hd hd'
    exact not_concat_prefix hne

section
variable {id : String} {err : FederationError}

theorem collaboratorConfig_of_error (h : validateIdentity id = .error err) (p : FederationPlan) :
    p.collaboratorConfig id = .error err := by
  unfold FederationPlan.collaboratorConfig
  rw [h]

theorem rejected_of_error (h : validateIdentity id = .error err) (p : FederationPlan) :
    Rejected p id err where
  config := collaboratorConfig_of_error h p
  start m env henv := by
    unfold CollaboratorProcess.start CollaboratorProcess.identity
    rw [henv]
    congr 1
    funext plan
    rw [pure_bind, collaboratorConfig_of_error h plan]
    rfl
  join e now := by
    unfold RoundEngine.join RoundRules.mayJoin
    rw [h]
    rfl
  submit e now u := by
    unfold RoundEngine.submit
    rw [h]
    rfl
  latest e now := by
    unfold RoundEngine.latest
    rw [h]
    rfl

end

/-- **Identities confine working directories**: a text is either an identity, with a directory of
its own that no other identity reaches, or it is refused before anything happens. -/
theorem identities_confine_directories (p : FederationPlan) (id : String) :
    (validateIdentity id = .ok () ↔ IsIdentity id) ∧
    (validateIdentity id = .ok () → Confined p id ∧
      ∀ other, validateIdentity other = .ok () → id ≠ other → Apart p id other ∧ Apart p other id) ∧
    (validateIdentity id ≠ .ok () → ∃ text, Rejected p id (.invalidArgument text)) := by
  refine ⟨validateIdentity_eq_ok_iff, fun h => ?_, fun h => ?_⟩
  · have hid := validateIdentity_eq_ok_iff.1 h
    refine ⟨hid.confined p, fun other ho hne => ?_⟩
    have hother := validateIdentity_eq_ok_iff.1 ho
    exact ⟨hid.apart hother hne p, hother.apart hid hne.symm p⟩
  · obtain ⟨text, herr⟩ := validateIdentity_of_ne_ok h
    exact ⟨text, rejected_of_error herr p⟩

/-- A plan that says nothing but where the aggregator and the working directories are. -/
def FederationPlan.locatedAt (workDir : String) : FederationPlan where
  rounds := 0
  collaborators := []
  aggregator := ⟨"a:1", none⟩
  initialModel := none
  outputModel := none
  train := .default
  mode := .sync
  asyncConfig := .default
  algorithm := .default
  membership := .default
  collaborator := { CollaboratorSettings.default with workDir := workDir }
  security := .default
  healthPort := none

/-- One identity that begins like another, and a way up. -/
theorem confined_of_similar_names :
    (Confined (.locatedAt "/var/fed/") "site-1" ∧
      Apart (.locatedAt "/var/fed/") "site-1" "site-1.b" ∧
        Apart (.locatedAt "/var/fed/") "site-1.b" "site-1") ∧
      ∃ text, Rejected (.locatedAt "/var/fed/") ".." (.invalidArgument text) := by
  have hsite := (identities_confine_directories (.locatedAt "/var/fed/") "site-1").2.1 (by decide)
  have hup := (identities_confine_directories (.locatedAt "/var/fed/") "..").2.2 (by decide)
  exact ⟨⟨hsite.1, hsite.2 "site-1.b" (by decide) (by decide)⟩, hup⟩

end Federation
