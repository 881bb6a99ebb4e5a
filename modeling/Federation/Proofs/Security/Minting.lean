/-
  Making certificate files.

  * `DevFile`, `DevMaterial.files`: the five files, in the order in which they are written;
  * `writeDevMaterial_eq`: first the directory, then one file after the other;
  * `Writes`, `Writes.of_run`: how far the files come, and what that does to the disk;
  * `Writes.elsewhere`: what no name leads to is left alone;
  * `Headway`, `Writes.headway`: the files up to the one at which it stops are written, and those
    after it are not;
  * `Minted`, `Minted.of_run`: the same, of the directory and the files together;
  * `keys_minted`: where the keys are and who can read them.
-/
import Federation.Proofs.Disk.Making
import Federation.Proofs.Security.Transport

namespace Federation

open Disk (Program Tree Faults Request Location OsError IsPlain Holds)
open Disk.Tree (OnlyAt SameFile)

/-! ## The files -/

/-- A file for development: its name, the mode it is to be made with, and its content, or why that
could not be made. -/
structure DevFile where
  name : String
  mode : Nat
  made : Except String (List UInt8)

/-- The files, in the order in which they are written. -/
def DevMaterial.files (m : DevMaterial) : List DevFile :=
  [⟨"ca.crt", certificateMode, m.caCert⟩,
    ⟨"server.crt", certificateMode, m.server.map TlsIdentity.certificate⟩,
    ⟨"server.key", keyMode, m.server.map TlsIdentity.key⟩,
    ⟨"client.crt", certificateMode, m.client.map TlsIdentity.certificate⟩,
    ⟨"client.key", keyMode, m.client.map TlsIdentity.key⟩]

def DevMaterial.names : List String :=
  ["ca.crt", "server.crt", "server.key", "client.crt", "client.key"]

theorem DevMaterial.map_name_files (m : DevMaterial) : m.files.map DevFile.name = names := rfl

/-- Files whose names stand for themselves and differ. -/
structure Distinct (fs : List DevFile) : Prop where
  plain : ∀ name ∈ fs.map DevFile.name, IsPlain name
  apart : (fs.map DevFile.name).Nodup

theorem DevMaterial.distinct_files (m : DevMaterial) : Distinct m.files where
  plain := by
    rw [map_name_files]
    simp only [names, List.forall_mem_cons, List.not_mem_nil, false_implies, implies_true, and_true]
    refine ⟨?_, ?_, ?_, ?_, ?_⟩ <;> exact ⟨by decide, by decide, by decide, by decide, by decide⟩
  apart := m.map_name_files ▸ by decide

def writeFile (dir : String) (f : DevFile) : FileTask Unit := do
  let content ← generated f.made
  writeCertificateFile (joinPath dir f.name) f.mode content

def writeFiles (dir : String) : List DevFile → FileTask Unit
  | [] => pure ()
  | f :: fs => do
    writeFile dir f
    writeFiles dir fs

theorem generated_ok {α : Type} (a : α) : generated (.ok a) = pure a := rfl

theorem generated_error {α β : Type} (e : String) (f : α → FileTask β) :
    generated (.error e) >>= f =
      ExceptT.mk (return .error (.configuration ("certificate generation failed: " ++ e))) := rfl

/-- First the directory, then one file after the other. -/
theorem writeDevMaterial_eq (m : DevMaterial) (dir : String) :
    writeDevMaterial m dir = (do
      makePrivateDirectory dir
      writeFiles dir m.files) := by
  obtain ⟨caCert, server, client⟩ := m
  unfold writeDevMaterial
  simp only [DevMaterial.files, writeFiles, writeFile, bind_assoc, bind_pure_unit]
  -- what could not be made ends both programs, so it has to be known what was made
  rcases caCert with e | c <;> rcases server with e | s <;> rcases client with e | k <;>
    simp only [Except.map, generated_ok, generated_error, pure_bind]

/-! ## One after the other -/

/-- One file after the other, as far as that comes: how it ends, and the disk that is left. -/
inductive Writes (dir : String) :
    List DevFile → Tree → Except FederationError Unit → Tree → Prop
  | done {t} : Writes dir [] t (.ok ()) t
  | next {f fs content t u r t'} (made : f.made = .ok content)
      (write : t.overwrite (joinPath dir f.name) f.mode content = .ok u)
      (rest : Writes dir fs u r t') : Writes dir (f :: fs) t r t'
  /-- The content could not be made, or the file could not be opened. -/
  | stop {f fs t e} : Writes dir (f :: fs) t (.error e) t
  /-- Only the first bytes reached the file. -/
  | torn {f fs content n t u e} (made : f.made = .ok content)
      (write : t.overwrite (joinPath dir f.name) f.mode (content.take n) = .ok u) :
      Writes dir (f :: fs) t (.error e) u

theorem Writes.of_run (dir : String) (fs : List DevFile) (t : Tree) (faults : Faults) :
    Writes dir fs t ((writeFiles dir fs).run.run t faults).1
      ((writeFiles dir fs).run.run t faults).2.1 := by
  induction fs generalizing t faults with
  | nil => exact .done
  | cons f fs ih =>
    unfold writeFiles writeFile
    rw [Program.run_task_bind]
    cases hmade : f.made with
    | error e => exact .stop
    | ok content =>
      rw [generated_ok, pure_bind, writeCertificateFile, Loads.run_request]
      rcases Request.meet_overwrite_cases f.mode content faults t with
        ⟨u, hu, hmeet⟩ | ⟨e, hmeet⟩ | ⟨e, n, u, hu, hmeet⟩ <;> rw [hmeet]
      · exact .next hmade hu (ih u faults.tail)
      · exact .stop
      · exact .torn hmade hu

namespace DevFile

variable (f : DevFile) (dir : String)

/-- The file's path leads to this location. -/
def At (t : Tree) (l : Location) : Prop := t.resolve (joinPath dir f.name) = .ok l

/-- The file is there with its content, and has the mode that it had, or else its own. -/
def Written (t t' : Tree) : Prop :=
  ∃ content l, f.made = .ok content ∧ f.At dir t' l ∧
    t'.node? l = some (.file content (t.modeAt l f.mode))

/-- The file is there with the beginning of its content. -/
def Torn (t t' : Tree) : Prop :=
  ∃ content n l, f.made = .ok content ∧ f.At dir t' l ∧
    t'.node? l = some (.file (content.take n) (t.modeAt l f.mode))

/-- What was at the file's place is there. -/
def Untouched (t t' : Tree) : Prop := ∀ l, f.At dir t' l → SameFile l t t'

section
variable {f dir} {t u t' : Tree} (hsame : ∀ l, f.At dir t' l → SameFile l t u)
include hsame

/-! What was at the place before counts, and nothing else. -/

theorem Written.of_same (h : f.Written dir u t') : f.Written dir t t' := by
  obtain ⟨content, l, hmade, hat, hnode⟩ := h
  exact ⟨content, l, hmade, hat, (hsame l hat).modeAt f.mode ▸ hnode⟩

theorem Torn.of_same (h : f.Torn dir u t') : f.Torn dir t t' := by
  obtain ⟨content, n, l, hmade, hat, hnode⟩ := h
  exact ⟨content, n, l, hmade, hat, (hsame l hat).modeAt f.mode ▸ hnode⟩

theorem Untouched.of_same (h : f.Untouched dir u t') : f.Untouched dir t t' :=
  fun l hat => (hsame l hat).trans (h l hat)

end

/-- Two names in one directory do not lead to one location. -/
theorem At.ne {f g : DevFile} {dir : String} {t : Tree} {l l' : Location} (hf : IsPlain f.name)
    (hg : IsPlain g.name) (hne : f.name ≠ g.name) (h : f.At dir t l) (h' : g.At dir t l') :
    l' ≠ l := by
  rintro rfl
  have hlast := Tree.getLast?_of_resolve_joinPath hf h
  rw [Tree.getLast?_of_resolve_joinPath hg h', Option.some.injEq] at hlast
  exact hne hlast.symm

end DevFile

namespace Distinct

variable {f : DevFile} {fs : List DevFile} (hd : Distinct (f :: fs))
include hd

theorem tail : Distinct fs :=
  ⟨fun name hn => hd.plain name (List.mem_cons_of_mem _ hn), (List.nodup_cons.1 hd.apart).2⟩

/-- No other file is where the first one is. -/
theorem ne_of_at {dir : String} {t : Tree} {l : Location} (h : f.At dir t l) :
    ∀ g ∈ fs, ∀ l', g.At dir t l' → l' ≠ l := by
  intro g hg l' h'
  have hg' : g.name ∈ fs.map DevFile.name := List.mem_map_of_mem hg
  refine h.ne (hd.plain _ List.mem_cons_self) (hd.plain _ (List.mem_cons_of_mem _ hg')) ?_ h'
  intro he
  exact (List.nodup_cons.1 hd.apart).1 (he ▸ hg')

end Distinct

/-- The files up to some point are written; the one there is as it was or torn, and those after it
are as they were. -/
def Headway (dir : String) (t t' : Tree) (fs : List DevFile) (r : Except FederationError Unit) :
    Prop :=
  ∃ before after, fs = before ++ after ∧ (∀ g ∈ before, g.Written dir t t') ∧
    match r with
    | .ok () => after = []
    | .error _ => ∃ f rest, after = f :: rest ∧ (f.Untouched dir t t' ∨ f.Torn dir t t') ∧
        ∀ g ∈ rest, g.Untouched dir t t'

section
variable {dir : String} {fs : List DevFile} {t u t' : Tree} {r : Except FederationError Unit}

/-- What was at the files' places before counts, and nothing else. -/
theorem Headway.of_same (hsame : ∀ f ∈ fs, ∀ l, f.At dir t' l → SameFile l t u)
    (h : Headway dir u t' fs r) : Headway dir t t' fs r := by
  obtain ⟨before, after, rfl, hbefore, hafter⟩ := h
  refine ⟨before, after, rfl, fun g hg =>
    (hbefore g hg).of_same (hsame g (List.mem_append_left _ hg)), ?_⟩
  cases r with
  | ok => exact hafter
  | error e =>
    obtain ⟨f, rest, rfl, hf, hrest⟩ := hafter
    have hsame' := fun g hg => hsame g (List.mem_append_right before hg)
    refine ⟨f, rest, rfl, ?_, fun g hg =>
      (hrest g hg).of_same (hsame' g (List.mem_cons_of_mem _ hg))⟩
    exact hf.imp (.of_same (hsame' f List.mem_cons_self)) (.of_same (hsame' f List.mem_cons_self))

namespace Writes

/-- Paths lead where they led. -/
theorem resolve_iff (h : Writes dir fs t r t') {path : String} {l : Location} :
    t'.resolve path = .ok l ↔ t.resolve path = .ok l := by
  induction h with
  | done | stop => exact Iff.rfl
  | next _ write _ ih =>
    obtain ⟨_, -, -, hat, -⟩ := Tree.of_overwrite write
    exact ih.trans (hat.resolve_iff path)
  | torn _ write =>
    obtain ⟨_, -, -, hat, -⟩ := Tree.of_overwrite write
    exact hat.resolve_iff path

/-- What no name leads to is left alone. -/
theorem elsewhere (h : Writes dir fs t r t') {l : Location} (hl : ∀ f ∈ fs, ¬ f.At dir t l) :
    t'.node? l = t.node? l := by
  induction h with
  | done | stop => rfl
  | next _ write _ ih =>
    obtain ⟨lf, hr, -, hat, -⟩ := Tree.of_overwrite write
    have hne : l ≠ lf := by
      rintro rfl
      exact hl _ List.mem_cons_self hr
    rw [ih fun f hf hf' => hl f (List.mem_cons_of_mem _ hf) ((hat.resolve_iff _).1 hf'),
      hat.elsewhere l hne]
  | torn _ write =>
    obtain ⟨lf, hr, -, hat, -⟩ := Tree.of_overwrite write
    refine hat.elsewhere l ?_
    rintro rfl
    exact hl _ List.mem_cons_self hr

/-- The files up to the one at which it stops are written, and those after it are as they were. -/
theorem headway (h : Writes dir fs t r t') (hd : Distinct fs) : Headway dir t t' fs r := by
  induction h with
  | done => exact ⟨[], [], rfl, nofun, rfl⟩
  | stop =>
    exact ⟨[], _, rfl, nofun, _, _, rfl, Or.inl fun l _ => .refl l _, fun g _ l _ => .refl l _⟩
  | @next f fs content t u r t' made write rest ih =>
    obtain ⟨l, hr, -, hat, hnode⟩ := Tree.of_overwrite write
    have hstay : ∀ g ∈ fs, ∀ l', g.At dir u l' → l' ≠ l := hd.ne_of_at ((hat.resolve_iff _).2 hr)
    -- the other names lead elsewhere, so that no later write comes back to this file
    have hf : f.Written dir t t' := by
      refine ⟨content, l, made, rest.resolve_iff.2 ((hat.resolve_iff _).2 hr), ?_⟩
      rw [rest.elsewhere fun g hg hl => hstay g hg l hl rfl, hnode]
    have hrest : Headway dir t t' fs r := by
      refine (ih hd.tail).of_same fun g hg l' hl' => .of_node ?_
      exact hat.elsewhere l' (hstay g hg l' (rest.resolve_iff.1 hl'))
    obtain ⟨before, after, rfl, hbefore, hafter⟩ := hrest
    exact ⟨f :: before, after, rfl, List.forall_mem_cons.2 ⟨hf, hbefore⟩, hafter⟩
  | @torn f fs content n t u e made write =>
    obtain ⟨l, hr, -, hat, hnode⟩ := Tree.of_overwrite write
    have hstay : ∀ g ∈ fs, ∀ l', g.At dir u l' → l' ≠ l := hd.ne_of_at ((hat.resolve_iff _).2 hr)
    refine ⟨[], _, rfl, nofun, f, fs, rfl, Or.inr ?_, fun g hg l' hl' => .of_node ?_⟩
    · exact ⟨content, n, l, made, (hat.resolve_iff _).2 hr, hnode⟩
    · exact hat.elsewhere l' (hstay g hg l' hl')

end Writes

end

/-! ## The directory and the files -/

/-- What comes of making all the files. -/
structure Minted (m : DevMaterial) (dir : String) (t : Tree) (r : Except FederationError Unit)
    (t' : Tree) : Prop where
  elsewhere : ∀ l, (∀ f ∈ m.files, ¬ f.At dir t' l) → SameFile l t t'
  headway : Headway dir t t' m.files r

/-- Making the directory changes no file. -/
theorem extends_makePrivateDirectory (path : String) (t : Tree) (faults : Faults) :
    t.Extends ((makePrivateDirectory path).run.run t faults).2.1 := by
  have hall := Disk.extends_makeAll path privateDirectoryMode t faults
  change t.Extends
    (Program.run (Program.bind (Disk.makeAll path privateDirectoryMode) _) t faults).2.1
  rw [Program.run_bind]
  generalize (Disk.makeAll path privateDirectoryMode).run t faults = result at hall
  obtain ⟨e | ⟨⟩, u, faults'⟩ := result <;> exact hall

namespace Minted

theorem of_run (m : DevMaterial) (dir : String) (t : Tree) (faults : Faults) :
    Minted m dir t ((writeDevMaterial m dir).run.run t faults).1
      ((writeDevMaterial m dir).run.run t faults).2.1 := by
  have hext := extends_makePrivateDirectory dir t faults
  rw [writeDevMaterial_eq, Program.run_task_bind]
  generalize (makePrivateDirectory dir).run.run t faults = result at hext
  obtain ⟨e | ⟨⟩, u, faults'⟩ := result
  · exact ⟨fun l _ => hext.sameFile l, [], _, rfl, nofun, _, _, rfl,
      Or.inl fun l _ => hext.sameFile l, fun g _ l _ => hext.sameFile l⟩
  · have hw := Writes.of_run dir m.files u faults'
    refine ⟨fun l hl => (hext.sameFile l).trans (.of_node (hw.elsewhere fun f hf hat => ?_)),
      (hw.headway m.distinct_files).of_same fun f _ l _ => hext.sameFile l⟩
    exact hl f hf (hw.resolve_iff.2 hat)

variable {m : DevMaterial} {dir : String} {t t' : Tree}

/-- On success, all of them are written. -/
theorem written (h : Minted m dir t (.ok ()) t') : ∀ f ∈ m.files, f.Written dir t t' := by
  obtain ⟨before, after, hfiles, hbefore, rfl⟩ := h.headway
  rw [hfiles, List.append_nil]
  exact hbefore

/-- On failure, no file is touched, or the CA file is there, as it is the first one. -/
theorem untouched_or_authority {e : FederationError} (h : Minted m dir t (.error e) t') :
    (∀ l, SameFile l t t') ∨ t'.exists? (joinPath dir "ca.crt") = true := by
  have hthere : ∀ {l n}, t'.resolve (joinPath dir "ca.crt") = .ok l → t'.node? l = some n →
      t'.exists? (joinPath dir "ca.crt") = true := fun hr hn => by
    rw [Tree.exists?, Tree.find_of_node hr hn]
    rfl
  obtain ⟨before, _, hfiles, hbefore, f, rest, rfl, hf, hrest⟩ := h.headway
  cases before with
  | nil =>
    obtain ⟨rfl, rfl⟩ := List.cons.inj hfiles
    rcases hf with hf | ⟨content, n, l, -, hat, hnode⟩
    · refine Or.inl fun l => ?_
      by_cases hl : ∃ g ∈ m.files, g.At dir t' l
      · obtain ⟨g, hg, hat⟩ := hl
        rcases List.mem_cons.1 hg with rfl | hg
        · exact hf l hat
        · exact hrest g hg l hat
      · exact h.elsewhere l fun g hg hat => hl ⟨g, hg, hat⟩
    · exact Or.inr (hthere hat hnode)
  | cons g before =>
    obtain ⟨rfl, -⟩ := List.cons.inj hfiles
    obtain ⟨content, l, -, hat, hnode⟩ := hbefore _ List.mem_cons_self
    exact Or.inr (hthere hat hnode)

end Minted

/-! ## Keys -/

/-- A key is at the end of a path, in a file that has kept its mode or is new and for its owner
alone. -/
def KeyWritten (path : String) (key : List UInt8) (t t' : Tree) : Prop :=
  ∃ l mode, t'.resolve path = .ok l ∧ t'.node? l = some (.file key mode) ∧
    (∀ content old, t.node? l = some (.file content old) → mode = old) ∧
    ((∀ content old, t.node? l ≠ some (.file content old)) → mode = keyMode)

theorem keyWritten_of_written {name dir : String} {made : Except String TlsIdentity} {t t' : Tree}
    (h : DevFile.Written ⟨name, keyMode, made.map TlsIdentity.key⟩ dir t t') :
    ∃ i, made = .ok i ∧ KeyWritten (joinPath dir name) i.key t t' := by
  obtain ⟨content, l, hcontent, hat, hnode⟩ := h
  obtain ⟨i, hi, rfl⟩ := map_eq_ok_iff.1 hcontent
  refine ⟨i, hi, l, _, hat, hnode, fun c old hold => by rw [Tree.modeAt, hold], fun hnone => ?_⟩
  unfold Tree.modeAt
  split
  · next hold => exact absurd hold (hnone _ _)
  · exact (by decide : Tree.userMask keyMode = keyMode)

/-- **A new key is for its owner alone, and an old file stays open to whom it was open.**  When the
files are made, on whatever disk, both keys were generated and are in the directory, each under its
name; where there was no file before, nobody but the owner has access to it, and where there was
one, exactly those who had access to that. -/
theorem keys_minted (m : DevMaterial) (dir : String) (t : Tree) (faults : Faults)
    (h : ((writeDevMaterial m dir).run.run t faults).1 = .ok ()) :
    ∃ server client, m.server = .ok server ∧ m.client = .ok client ∧
      KeyWritten (joinPath dir "server.key") server.key t
        ((writeDevMaterial m dir).run.run t faults).2.1 ∧
      KeyWritten (joinPath dir "client.key") client.key t
        ((writeDevMaterial m dir).run.run t faults).2.1 := by
  have hminted := Minted.of_run m dir t faults
  rw [h] at hminted
  have hwritten := hminted.written
  simp only [DevMaterial.files, List.forall_mem_cons] at hwritten
  obtain ⟨-, -, hserver, -, hclient, -⟩ := hwritten
  obtain ⟨server, hs, hkey⟩ := keyWritten_of_written hserver
  obtain ⟨client, hc, hkey'⟩ := keyWritten_of_written hclient
  exact ⟨server, client, hs, hc, hkey, hkey'⟩

/-- On an empty disk, both keys are new. -/
theorem keys_minted_anew :
    ((writeDevMaterial .blank "certs").run.run .empty []).1 = .ok () ∧
      ∃ server client, DevMaterial.blank.server = .ok server ∧
        DevMaterial.blank.client = .ok client ∧
        KeyWritten (joinPath "certs" "server.key") server.key .empty
          ((writeDevMaterial .blank "certs").run.run .empty []).2.1 ∧
        KeyWritten (joinPath "certs" "client.key") client.key .empty
          ((writeDevMaterial .blank "certs").run.run .empty []).2.1 := by
  have h : ((writeDevMaterial .blank "certs").run.run .empty []).1 = .ok () := by decide +kernel
  exact ⟨h, keys_minted .blank "certs" .empty [] h⟩

/-- The new key of the server, in a file that was there, can be read by everyone. -/
theorem key_minted_open :
    let t : Tree :=
      ⟨[(["certs"], .directory 0o755), (["certs", "server.key"], .file [0] 0o644)], []⟩
    ((writeDevMaterial .blank "certs").run.run t []).1 = .ok () ∧
      ((writeDevMaterial .blank "certs").run.run t []).2.1.find "certs/server.key" =
        .ok (["certs", "server.key"], .file DevMaterial.emptyIdentity.key 0o644) := by
  decide +kernel

end Federation
