/-
  What a change at one location leaves alone.

  * `node?_set`, `node?_erase`: the node at a location after a change;
  * `OnlyAt`: two disks that differ at one location at most, and have the same directories;
  * `OnlyAt.resolve`: a path that leads somewhere on the one leads there on the other;
  * `resolve_joinPath`: a name below a path that leads to a directory;
  * `getLast?_of_resolve_joinPath`: wherever such a path leads, the name is the last one on the way.
-/
import Federation.Proofs.NameMap
import Federation.Disk.Tree

namespace Federation

/-! ## Segments -/

section
variable {α : Type} [DecidableEq α]

theorem splitAt_ne_nil (sep : α) (cs : List α) : splitAt sep cs ≠ [] := by
  induction cs with
  | nil => simp [splitAt]
  | cons c cs ih =>
    unfold splitAt
    split
    · simp
    · split <;> simp

theorem splitAt_append (sep : α) (xs ys : List α) :
    splitAt sep (xs ++ sep :: ys) = splitAt sep xs ++ splitAt sep ys := by
  induction xs with
  | nil => simp [splitAt]
  | cons c cs ih =>
    simp only [List.cons_append, splitAt, ih]
    split
    · rfl
    · obtain ⟨s, ss, hs⟩ := List.exists_cons_of_ne_nil (splitAt_ne_nil sep cs)
      rw [hs]; rfl

end

namespace Disk

/-- A name that stands for itself in a path. -/
structure IsPlain (name : String) : Prop where
  relative : isAbsolute name.toList = false
  single : segments name.toList = [name.toList]
  busy : isIdle name.toList = false
  descends : name.toList ≠ ['.', '.']
  short : utf8Length name ≤ Tree.maxNameLength

/-- The content of the file that a node is. -/
def Holds (n : Option Node) (content : List UInt8) : Prop := ∃ mode, n = some (.file content mode)

namespace Tree

variable {t t' : Tree} {l l' : Location}

/-! ## Nodes -/

theorem lookup_setNodes (l : Location) (n : Node) (l' : Location) (nodes : List (Location × Node)) :
    (setNodes l n nodes).lookup l' = if l' = l then some n else nodes.lookup l' := by
  induction nodes with
  | nil => exact lookup_cons_eq_ite l l' n []
  | cons e es ih =>
    obtain ⟨x, m⟩ := e
    rw [lookup_cons_eq_ite x l' m es]
    unfold setNodes
    split
    · next he =>
      rw [lookup_cons_eq_ite, show x = l from he]
      by_cases h : l' = l <;> simp [h]
    · next he =>
      rw [lookup_cons_eq_ite, ih]
      by_cases h : l' = x
      · have hl : l' ≠ l := fun hl => he (h.symm.trans hl)
        rw [if_pos h, if_pos h, if_neg hl]
      · rw [if_neg h, if_neg h]

theorem lookup_filter_ne (l l' : Location) (nodes : List (Location × Node)) :
    (nodes.filter (·.1 ≠ l)).lookup l' = if l' = l then none else nodes.lookup l' := by
  induction nodes with
  | nil => simp
  | cons e es ih =>
    obtain ⟨x, m⟩ := e
    rw [List.filter_cons, lookup_cons_eq_ite x l' m es]
    by_cases he : x = l
    · rw [if_neg (by simpa using he), ih, he]
      by_cases h : l' = l <;> simp [h]
    · rw [if_pos (by simpa using he), lookup_cons_eq_ite, ih]
      by_cases h : l' = x
      · have hl : l' ≠ l := fun hl => he (h.symm.trans hl)
        rw [if_pos h, if_pos h, if_neg hl]
      · rw [if_neg h, if_neg h]

/-- What happens below the top leaves the top alone. -/
theorem topMode_set (hl : l ≠ []) (n : Node) : (t.set l n).topMode = t.topMode := by
  simp only [topMode, set, lookup_setNodes, if_neg hl.symm]

theorem topMode_erase (hl : l ≠ []) : (t.erase l).topMode = t.topMode := by
  simp only [topMode, erase, lookup_filter_ne, if_neg hl.symm]

theorem node?_set (hl : l ≠ []) (n : Node) (l' : Location) :
    (t.set l n).node? l' = if l' = l then some n else t.node? l' := by
  by_cases he : l' = []
  · subst he
    simp [node?, hl.symm, topMode_set hl]
  · simp [node?, he, set, lookup_setNodes]

/-- A directory may be put anywhere, at the top as well. -/
theorem node?_set_directory (l : Location) (mode : Nat) (l' : Location) :
    (t.set l (.directory mode)).node? l' =
      if l' = l then some (.directory mode) else t.node? l' := by
  rcases eq_or_ne l [] with rfl | hl
  · by_cases he : l' = []
    · subst he
      simp [node?, topMode, set, lookup_setNodes]
    · simp [node?, he, set, lookup_setNodes]
  · exact node?_set hl _ l'

theorem node?_erase (hl : l ≠ []) (l' : Location) :
    (t.erase l).node? l' = if l' = l then none else t.node? l' := by
  by_cases he : l' = []
  · subst he
    simp [node?, hl.symm, topMode_erase hl]
  · simp only [node?, List.isEmpty_iff, he, if_false, erase, lookup_filter_ne]

/-! ## Disks that differ at one location -/

/-- Is there a directory at this location? -/
def IsDirectory (t : Tree) (l : Location) : Prop := ∃ mode, t.node? l = some (.directory mode)

theorem isDirectory_of_step {m : Location} {name : List Char} (h : t.step l name = .ok m) :
    t.IsDirectory l := by
  unfold step at h
  split at h
  · cases h
  · cases h
  · next mode hmode => exact ⟨mode, hmode⟩

section
variable (hd : ∀ l, t.IsDirectory l → t'.IsDirectory l)
include hd

/-- A step on the way down looks at directories only. -/
theorem step_mono {x y : Location} {name : List Char} (hs : t.step x name = .ok y) :
    t'.step x name = .ok y := by
  obtain ⟨m, hm⟩ := isDirectory_of_step hs
  obtain ⟨m', hm'⟩ := hd x ⟨m, hm⟩
  unfold Tree.step at hs ⊢
  rw [hm']
  rw [hm] at hs
  exact hs

theorem walk_mono {x y : Location} {names : List (List Char)} (hs : t.walk x names = .ok y) :
    t'.walk x names = .ok y := by
  induction names generalizing x with
  | nil => exact hs
  | cons name names ih =>
    unfold Tree.walk at hs ⊢
    rw [List.foldlM_cons] at hs ⊢
    cases hx : t.step x name with
    | error e => rw [hx] at hs; cases hs
    | ok z =>
      rw [hx] at hs
      rw [step_mono hd hx]
      exact ih hs

/-- Where all directories are still there, a path leads to the same place. -/
theorem resolve_mono (hw : t'.workplace = t.workplace) {path : String}
    (hp : t.resolve path = .ok l) : t'.resolve path = .ok l := by
  unfold Tree.resolve at hp ⊢
  split at hp
  · cases hp
  · next hne =>
    rw [if_neg hne]
    by_cases ha : isAbsolute path.toList = true
    · simp only [if_pos ha] at hp ⊢
      exact walk_mono hd hp
    · simp only [if_neg ha, hw] at hp ⊢
      exact walk_mono hd hp

end

/-- Nothing but the node at `l` differs, and no directory comes or goes. -/
structure OnlyAt (l : Location) (t t' : Tree) : Prop where
  workplace : t'.workplace = t.workplace
  elsewhere : ∀ l', l' ≠ l → t'.node? l' = t.node? l'
  directory : t'.IsDirectory l ↔ t.IsDirectory l

namespace OnlyAt

theorem refl (l : Location) (t : Tree) : OnlyAt l t t := ⟨rfl, fun _ _ => rfl, Iff.rfl⟩

theorem trans {u : Tree} (h : OnlyAt l t u) (h' : OnlyAt l u t') : OnlyAt l t t' :=
  ⟨h'.workplace.trans h.workplace, fun l' hl => (h'.elsewhere l' hl).trans (h.elsewhere l' hl),
    h'.directory.trans h.directory⟩

theorem isDirectory (h : OnlyAt l t t') (l' : Location) : t'.IsDirectory l' ↔ t.IsDirectory l' := by
  by_cases he : l' = l
  · rw [he]; exact h.directory
  · unfold IsDirectory
    rw [h.elsewhere l' he]

/-- A file that is not a directory in place of something that is none. -/
theorem set (hl : l ≠ []) (ht : ¬ t.IsDirectory l) (content : List UInt8) (mode : Nat) :
    OnlyAt l t (t.set l (.file content mode)) where
  workplace := rfl
  elsewhere l' he := by rw [node?_set hl, if_neg he]
  directory := by
    refine iff_of_false ?_ ht
    rintro ⟨m, hm⟩
    rw [node?_set hl, if_pos rfl] at hm
    cases hm

theorem setMode (hl : l ≠ []) {n : Node} (hn : t.node? l = some n) (mode : Nat) :
    OnlyAt l t (t.set l (n.withMode mode)) where
  workplace := rfl
  elsewhere l' he := by rw [node?_set hl, if_neg he]
  directory := by
    unfold IsDirectory
    rw [node?_set hl, if_pos rfl, hn]
    cases n <;> simp [Node.withMode]

/-- A directory may be given another mode anywhere, at the top as well. -/
theorem setDirectory (hd : t.IsDirectory l) (mode : Nat) :
    OnlyAt l t (t.set l (.directory mode)) where
  workplace := rfl
  elsewhere l' he := by rw [node?_set_directory, if_neg he]
  directory := iff_of_true ⟨mode, by rw [node?_set_directory, if_pos rfl]⟩ hd

theorem erase (hl : l ≠ []) (ht : ¬ t.IsDirectory l) : OnlyAt l t (t.erase l) where
  workplace := rfl
  elsewhere l' he := by rw [node?_erase hl, if_neg he]
  directory := by
    refine iff_of_false ?_ ht
    rintro ⟨m, hm⟩
    rw [node?_erase hl, if_pos rfl] at hm
    cases hm

theorem walk (h : OnlyAt l t t') {x y : Location} {names : List (List Char)}
    (hs : t.walk x names = .ok y) : t'.walk x names = .ok y :=
  walk_mono (fun x => (h.isDirectory x).2) hs

/-- A path leads to the same place. -/
theorem resolve (h : OnlyAt l t t') {path : String} (hp : t.resolve path = .ok l') :
    t'.resolve path = .ok l' :=
  resolve_mono (fun x => (h.isDirectory x).2) h.workplace hp

end OnlyAt

/-! ## Paths below a directory -/

theorem walk_append (t : Tree) (l : Location) (xs ys : List (List Char)) :
    t.walk l (xs ++ ys) = t.walk l xs >>= fun m => t.walk m ys := List.foldlM_append ..

theorem walk_singleton (t : Tree) (l : Location) (name : List Char) :
    t.walk l [name] = t.step l name := by
  unfold walk
  rw [List.foldlM_cons]
  cases t.step l name <;> rfl

/-- A path is walked from the top or from the workplace. -/
theorem resolve_eq (t : Tree) {path : String} (hp : path.toList ≠ []) :
    t.resolve path =
      t.walk (if isAbsolute path.toList then [] else t.workplace)
        ((segments path.toList).drop (if isAbsolute path.toList then 1 else 0)) := by
  have hne : path.isEmpty = false := by
    rw [Bool.eq_false_iff, Ne, String.isEmpty_iff]
    rintro rfl
    exact hp rfl
  unfold resolve
  simp only [hne, Bool.false_eq_true, if_false]
  split <;> simp

theorem step_idle {m : Location} (h : t.step l [] = .ok m) : m = l := by
  unfold step at h
  split at h
  · cases h
  · cases h
  · simpa [isIdle] using h.symm

theorem step_plain {name : String} (hn : IsPlain name) (hd : t.IsDirectory l) :
    t.step l name.toList = .ok (l ++ [name]) := by
  obtain ⟨m, hm⟩ := hd
  have hshort : ¬ maxNameLength < utf8Length name := Nat.not_lt.2 hn.short
  simp only [step, hm, hn.busy, hn.descends, Bool.false_eq_true, if_false, String.ofList_toList,
    if_neg hshort]

/-- A path with a name below it, written with the slash between the two. -/
theorem joinPath_toList {root name : String} (hroot : root.toList ≠ []) (hn : IsPlain name) :
    ∃ above, (joinPath root name).toList = above ++ '/' :: name.toList ∧
      isAbsolute (joinPath root name).toList = isAbsolute root.toList ∧
      (segments root.toList = segments above ∨ segments root.toList = segments above ++ [[]]) := by
  have hempty : root.toList.isEmpty = false := by simpa using hroot
  obtain ⟨c, cs, hc⟩ := List.exists_cons_of_ne_nil hroot
  by_cases hlast : root.toList.getLast? = some '/'
  · obtain ⟨above, ha⟩ := List.getLast?_eq_some_iff.1 hlast
    have hj : (joinPath root name).toList = root.toList ++ name.toList := by
      simp [joinPath, joinSymbols, hn.relative, hempty, hlast, PathSymbol.slash]
    refine ⟨above, by rw [hj, ha]; simp, by rw [hj, hc]; rfl, Or.inr ?_⟩
    rw [ha]
    exact splitAt_append '/' above []
  · have hj : (joinPath root name).toList = root.toList ++ '/' :: name.toList := by
      simp [joinPath, joinSymbols, hn.relative, hempty, hlast, PathSymbol.slash]
    exact ⟨root.toList, hj, by rw [hj, hc]; rfl, Or.inl rfl⟩

/-- The location of a name below a path that leads to a directory. -/
theorem resolve_joinPath {root name : String} (hr : t.resolve root = .ok l)
    (hd : t.IsDirectory l) (hn : IsPlain name) :
    t.resolve (joinPath root name) = .ok (l ++ [name]) := by
  have hroot : root.toList ≠ [] := by
    intro h
    rw [String.toList_inj.1 (h.trans rfl : root.toList = "".toList)] at hr
    cases hr
  obtain ⟨above, hj, habs, hseg⟩ := joinPath_toList hroot hn
  have hne : (joinPath root name).toList ≠ [] := by rw [hj]; simp
  have hsegs : segments (joinPath root name).toList = segments above ++ [name.toList] := by
    rw [hj, ← hn.single]
    exact splitAt_append '/' above name.toList
  have hlen : (if isAbsolute root.toList then 1 else 0) ≤ (segments above).length := by
    have : 0 < (segments above).length := List.length_pos_iff.2 (splitAt_ne_nil '/' above)
    split <;> omega
  rw [resolve_eq t hroot] at hr
  rw [resolve_eq t hne, habs, hsegs, List.drop_append_of_le_length hlen, walk_append]
  have habove : t.walk (if isAbsolute root.toList then [] else t.workplace)
      ((segments above).drop (if isAbsolute root.toList then 1 else 0)) = .ok l := by
    rcases hseg with hs | hs
    · rw [← hs]; exact hr
    · -- the slash at the end stays where it is
      rw [hs, List.drop_append_of_le_length hlen, walk_append] at hr
      generalize t.walk _ _ = x at hr ⊢
      cases x with
      | error e => cases hr
      | ok m =>
        have hm : t.walk m [[]] = .ok l := hr
        rw [walk_singleton] at hm
        rw [step_idle hm]
  rw [habove]
  exact (walk_singleton t l _).trans (step_plain hn hd)

/-- A step down to a name leads to that name. -/
theorem of_step_plain {name : String} {m : Location} (hn : IsPlain name)
    (h : t.step l name.toList = .ok m) : m = l ++ [name] := by
  rw [step_plain hn (isDirectory_of_step h)] at h
  exact (Except.ok.inj h).symm

/-- The way down a path with a name below it ends with the name. -/
theorem segments_joinPath (root : String) {name : String} (hn : IsPlain name) :
    (joinPath root name).toList ≠ [] ∧
      ∃ above, (segments (joinPath root name).toList).drop
        (if isAbsolute (joinPath root name).toList then 1 else 0) = above ++ [name.toList] := by
  have hname : name.toList ≠ [] := by
    intro h
    have := hn.busy
    rw [h] at this
    cases this
  by_cases hroot : root.toList = []
  · have hj : (joinPath root name).toList = name.toList := by
      simp [joinPath, joinSymbols, hn.relative, hroot]
    rw [hj, hn.relative, hn.single]
    exact ⟨hname, [], rfl⟩
  · obtain ⟨above, hj, -, -⟩ := joinPath_toList hroot hn
    have hsegs : segments (joinPath root name).toList = segments above ++ [name.toList] := by
      rw [hj, ← hn.single]
      exact splitAt_append '/' above name.toList
    have hlen : (if isAbsolute (joinPath root name).toList then 1 else 0) ≤
        (segments above).length := by
      have : 0 < (segments above).length := List.length_pos_iff.2 (splitAt_ne_nil '/' above)
      split <;> omega
    rw [hsegs, List.drop_append_of_le_length hlen]
    exact ⟨by rw [hj]; simp, _, rfl⟩

/-- Wherever a path with a name below it leads, the name is the last one on the way. -/
theorem getLast?_of_resolve_joinPath {root name : String} (hn : IsPlain name)
    (h : t.resolve (joinPath root name) = .ok l) : l.getLast? = some name := by
  obtain ⟨hne, above, habove⟩ := segments_joinPath root hn
  rw [resolve_eq t hne, habove, walk_append] at h
  generalize t.walk _ above = x at h
  cases x with
  | error e => cases h
  | ok m =>
    have hm : t.walk m [name.toList] = .ok l := h
    rw [walk_singleton] at hm
    rw [of_step_plain hn hm, List.getLast?_concat]

end Tree

end Disk

end Federation
