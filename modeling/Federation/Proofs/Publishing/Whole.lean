/-
  What one publication does to the file.

  * `Publisher.DraftsInPlace`: outputs that are their own drafts, which are those with the ending of
    a draft;
  * `Publisher.find_of_draft`: any other output is left alone while its draft is written;
  * `Publisher.Left`, `Publisher.Replaced`, `Publisher.Spoilt`: what a publication may come to;
  * `publish_all_or_nothing`: when it comes to which of them.
-/
import Federation.Proofs.Disk.Making
import Federation.Proofs.Disk.Sibling
import Federation.Proofs.Publishing.Desk

namespace Federation

open Disk (Program Request Tree Faults OsError)
open Disk.Tree (OnlyAt)

namespace Publisher

variable {p : Publisher} {path : String} {t u : Tree}

/-! ## Drafts -/

/-- The draft is written to the output itself. -/
def DraftsInPlace (path : String) : Prop := extension? path.toList = some "tmp".toList

instance (path : String) : Decidable (DraftsInPlace path) := inferInstanceAs (Decidable (_ = _))

/-- An output that is not its own draft is left alone while the draft is written. -/
theorem find_of_draft (ht : t.Rooted) (hplace : ¬ DraftsInPlace path) {mode : Nat}
    {content : List UInt8} (h : t.overwrite (draftPath path) mode content = .ok u) :
    u.find path = t.find path := by
  obtain ⟨l, hl, hdir, honly, -⟩ := Tree.of_overwrite h
  cases hname : fileName? path.toList with
  | none =>
    -- such a path is its own draft as well, but there is a directory at its end
    have hsame : draftPath path = path := by
      unfold draftPath withExtension
      rw [withExtensionSymbols_of_none hname, String.ofList_toList]
    exact absurd (Tree.isDirectory_of_fileName?_none ht hname (hsame ▸ hl)) hdir
  | some name =>
    obtain ⟨before, idles, hnamed, hseg, hidle, hbusy, hup⟩ := of_fileName?_some hname
    obtain ⟨hbusy', hup'⟩ := endingIn_special name (show 2 ≤ "tmp".toList.length by decide)
    have hdraft : segments (draftPath path).toList = before ++ [endingIn name "tmp".toList] := by
      unfold draftPath withExtension
      rw [String.toList_ofList]
      exact segments_withExtensionSymbols hname hnamed (by decide)
    refine honly.find_sibling hseg hdraft hbusy hup hbusy' hup' hidle ?_ hl
    rwa [Ne, endingIn_eq_iff, ← extension?_eq_some_iff hname]

/-! ## What a publication may come to -/

/-- Nothing was published: the file is what it was, and no other version counts as written. -/
structure Left (p : Publisher) (path : String) (t : Tree) (p' : Publisher) (t' : Tree) : Prop where
  publisher : p' = p
  file : t'.find path = t.find path

/-- The model was published: the file holds all of it, and its version counts as written. -/
structure Replaced (p : Publisher) (path : String) (v : ModelView) (p' : Publisher) (t' : Tree) :
    Prop where
  publisher : p' = { p with writtenVersion := v.version }
  file : t'.read path = .ok v.model

/-- A first part of the model, or all of it, is where the file was, but its version does not count
as written. -/
structure Spoilt (p : Publisher) (path : String) (v : ModelView) (p' : Publisher) (t' : Tree) :
    Prop where
  publisher : p' = p
  file : ∃ n, t'.read (draftPath path) = .ok (v.model.take n)

/-! ## How far a publication comes -/

/-- The draft and then the move, as far as that comes: the publisher and the disk that are left, and
the states the disk went through. -/
inductive Course (p : Publisher) (path : String) (v : ModelView) (t : Tree) :
    Publisher → Tree → List Tree → Prop
  /-- The model is not newer, or the draft could not be opened. -/
  | idle {seen : List Tree} (same : ∀ w ∈ seen, w = t) : Course p path v t p t seen
  /-- Only the first bytes reached the draft. -/
  | torn {n : Nat} {u : Tree}
      (write : t.overwrite (draftPath path) draftMode (v.model.take n) = .ok u) :
      Course p path v t p u [t, u]
  /-- The draft was not moved. -/
  | stuck {u : Tree} (write : t.overwrite (draftPath path) draftMode v.model = .ok u) :
      Course p path v t p u [t, u, u]
  | moved {u t' : Tree} (write : t.overwrite (draftPath path) draftMode v.model = .ok u)
      (move : u.rename (draftPath path) path = .ok t') :
      Course p path v t { p with writtenVersion := v.version } t' [t, u, t']

theorem Course.of_run (hp : p.output = some path) (v : ModelView) (t : Tree) (faults : Faults) :
    Course p path v t ((p.publish v).run t faults).1 ((p.publish v).run t faults).2.1
      ((p.publish v).trees t faults) := by
  rcases Nat.lt_or_ge p.writtenVersion v.version with hlt | hle
  · rw [publish_of_lt hp hlt]
    simp only [Program.run, Program.trees]
    rcases @Request.meet_overwrite_cases (draftPath path) draftMode v.model faults t with
      ⟨u, hu, hmeet⟩ | ⟨e, hmeet⟩ | ⟨e, n, u, hu, hmeet⟩
    · rw [hmeet]
      simp only [afterDraft, Program.run, Program.trees]
      rcases Request.meet_rename_cases (draftPath path) path faults.tail u with
        ⟨t', ht', hmove⟩ | ⟨e, hmove⟩
      · rw [hmove]
        exact .moved hu ht'
      · rw [hmove]
        exact .stuck hu
    · rw [hmeet]
      exact .idle fun w hw => by simpa [afterDraft, Program.trees] using hw
    · rw [hmeet]
      exact .torn hu
  · rw [publish_of_le hle]
    exact .idle fun w hw => List.mem_singleton.1 hw

/-! ## All or nothing -/

/-- **All or nothing, unless the output is its own draft.**  Whatever the output's path, the disk,
the model and the failures: a publication leaves the file and the version that counts as written as
they were, or it replaces the file by the whole model and counts its version; only where the output
has the ending of a draft may the file be left with a part of the model, or with a model whose
version does not count.  Elsewhere, the file is the old one or the whole new one at every moment. -/
theorem publish_all_or_nothing (p : Publisher) (path : String) (v : ModelView) (t : Tree)
    (faults : Faults) (hp : p.output = some path) (ht : t.Rooted) :
    (p.Left path t ((p.publish v).run t faults).1 ((p.publish v).run t faults).2.1 ∨
      p.Replaced path v ((p.publish v).run t faults).1 ((p.publish v).run t faults).2.1 ∨
      DraftsInPlace path ∧
        p.Spoilt path v ((p.publish v).run t faults).1 ((p.publish v).run t faults).2.1) ∧
    (¬ DraftsInPlace path → ∀ u ∈ (p.publish v).trees t faults,
      u.find path = t.find path ∨ u.read path = .ok v.model) := by
  have hcourse := Course.of_run hp v t faults
  generalize ((p.publish v).run t faults).1 = p' at hcourse ⊢
  generalize ((p.publish v).run t faults).2.1 = t' at hcourse ⊢
  generalize (p.publish v).trees t faults = seen at hcourse ⊢
  cases hcourse with
  | idle hsame =>
    refine ⟨Or.inl ⟨rfl, rfl⟩, fun _ w hw => Or.inl ?_⟩
    rw [hsame w hw]
  | torn write =>
    have hread : t'.read (draftPath path) = .ok _ := Disk.read_of_overwrite write
    by_cases hplace : DraftsInPlace path
    · exact ⟨Or.inr (Or.inr ⟨hplace, rfl, _, hread⟩), absurd hplace⟩
    · have hfile := find_of_draft ht hplace write
      refine ⟨Or.inl ⟨rfl, hfile⟩, fun _ w hw => Or.inl ?_⟩
      simp only [List.mem_cons, List.not_mem_nil, or_false] at hw
      rcases hw with rfl | rfl
      · rfl
      · exact hfile
  | stuck write =>
    have hread : t'.read (draftPath path) = .ok v.model := Disk.read_of_overwrite write
    by_cases hplace : DraftsInPlace path
    · refine ⟨Or.inr (Or.inr ⟨hplace, rfl, v.model.length, ?_⟩), absurd hplace⟩
      rw [List.take_length]
      exact hread
    · have hfile := find_of_draft ht hplace write
      refine ⟨Or.inl ⟨rfl, hfile⟩, fun _ w hw => Or.inl ?_⟩
      simp only [List.mem_cons, List.not_mem_nil, or_false] at hw
      rcases hw with rfl | rfl | rfl
      · rfl
      · exact hfile
      · exact hfile
  | @moved u _ write move =>
    have hread : u.read (draftPath path) = .ok v.model := Disk.read_of_overwrite write
    have hmoved : t'.read path = .ok v.model := Disk.read_of_rename move hread
    refine ⟨Or.inr (Or.inl ⟨rfl, hmoved⟩), fun hplace w hw => ?_⟩
    simp only [List.mem_cons, List.not_mem_nil, or_false] at hw
    rcases hw with rfl | rfl | rfl
    · exact Or.inl rfl
    · exact Or.inl (find_of_draft ht hplace write)
    · exact Or.inr hmoved

/-- A disk with a model of four bytes, and a publication that runs out of space after two. -/
theorem all_or_nothing_of_torn_draft :
    let t : Tree := ⟨[(["model.bin"], .file [1, 2, 3, 4] 0o644)], []⟩
    let p : Publisher := ⟨some "model.bin", 1⟩
    let v : ModelView := ⟨[5, 6, 7, 8], 2, 2⟩
    let faults : Faults := [some ⟨.noSpace, some 2⟩]
    p.output = some "model.bin" ∧ t.Rooted ∧
      p.Left "model.bin" t ((p.publish v).run t faults).1 ((p.publish v).run t faults).2.1 ∧
      ((p.publish v).run t faults).2.1.read "model.tmp" = .ok [5, 6] := by
  intro t p v faults
  have hrooted : t.Rooted := by
    refine .of_nodes fun e he => ?_
    rw [List.mem_singleton.1 he]
    exact ⟨0o755, rfl⟩
  have hdraft : ((p.publish v).run t faults).2.1.read "model.tmp" = .ok [5, 6] := by
    decide +kernel
  refine ⟨rfl, hrooted, ?_, hdraft⟩
  rcases (publish_all_or_nothing p "model.bin" v t faults rfl hrooted).1 with h | h | ⟨h, -⟩
  · exact h
  · exact absurd h.publisher (by decide +kernel)
  · exact absurd h (by decide)

/-- **An output that is its own draft is torn.**  The disk fills up while `model.tmp` is written,
and half of the new model is left at the very path of the output; or all of it is, while the version
written last stays what it was.  The output `model.tmp/` has the same draft and is another path, to
which no file can be moved: there it is the file beside the output that holds the new model, and the
version written last stays what it was. -/
theorem output_spoilt_in_place :
    let t : Tree := ⟨[(["model.tmp"], .file [1, 2, 3, 4] 0o644)], []⟩
    let v : ModelView := ⟨[5, 6, 7, 8], 2, 2⟩
    let p : Publisher := ⟨some "model.tmp", 1⟩
    let q : Publisher := ⟨some "model.tmp/", 1⟩
    t.read "model.tmp" = .ok [1, 2, 3, 4] ∧
      ((p.publish v).run t [some ⟨.noSpace, some 2⟩]).1 = p ∧
      ((p.publish v).run t [some ⟨.noSpace, some 2⟩]).2.1.read "model.tmp" = .ok [5, 6] ∧
      ((p.publish v).run t [some ⟨.noSpace, some 4⟩]).1 = p ∧
      ((p.publish v).run t [some ⟨.noSpace, some 4⟩]).2.1.read "model.tmp" = .ok [5, 6, 7, 8] ∧
      ((q.publish v).runSound t).1 = q ∧
      ((q.publish v).runSound t).2.read "model.tmp" = .ok [5, 6, 7, 8] := by
  decide +kernel

end Publisher

end Federation
