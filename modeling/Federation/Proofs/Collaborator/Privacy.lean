/-
  What others can see of a working directory, and what its owner finds there.

  * `Deed`, `Does`, `Course`: what is done in a working directory, the trainer's part included;
  * `of_create`, `of_writeModel`, `of_clearUpdate`, `of_readUpdate`: what one deed comes to;
  * `sameFile_create`, `Writing`, `writing_writeModel`: what can be seen while it is done;
  * `lastModel`, `Cleared`: what a course has written last, and whether the update was cleared away;
  * `Keeps`, `Keeps.does`, `Course.keeps`: what every deed keeps, and so every course;
  * `Private`, `working_directory_private`: the directory is its owner's alone, the model is never
    in a file that is not, and the update that is read is the trainer's last one.

  A model that is being written is seen as a write leaves it that breaks off half-way.
-/
import Federation.Proofs.Collaborator.WorkDir
import Federation.Proofs.Disk.Making

namespace Federation

namespace WorkDir

open Disk (Program Location Tree Node Request OsError Holds)
open Disk.Tree (OnlyAt SameFile)

variable {w : WorkDir} {t u v : Tree} {d : Location} {faults : Disk.Faults}

/-! ## Deeds -/

/-- What is done in a working directory, and what came of it. -/
inductive Deed where
  | create
  | writeModel (model : Blob)
  | clearUpdate
  | readUpdate (update : Blob)
  /-- The trainer does something to its output. -/
  | train
  deriving DecidableEq

/-- A deed that succeeds, on a sound disk. -/
inductive Does (w : WorkDir) : Deed → Tree → Tree → Prop
  | create {t u : Tree} : (create w.root).run.runSound t = (.ok w, u) → Does w .create t u
  | writeModel {t u : Tree} {model : Blob} :
      (w.writeModel model).run.runSound t = (.ok (), u) → Does w (.writeModel model) t u
  | clearUpdate {t u : Tree} : w.clearUpdate.run.runSound t = (.ok (), u) → Does w .clearUpdate t u
  | readUpdate {t u : Tree} {update : Blob} :
      w.readUpdate.run.runSound t = (.ok update, u) → Does w (.readUpdate update) t u
  | train {t u : Tree} {l : Location} :
      t.resolve w.updatePath = .ok l → OnlyAt l t u → Does w .train t u

/-- Deeds one after the other. -/
inductive Course (w : WorkDir) : Tree → List Deed → Tree → Prop
  | nil {t : Tree} : Course w t [] t
  | concat {t u v : Tree} {ds : List Deed} {deed : Deed} :
      Course w t ds u → Does w deed u v → Course w t (ds ++ [deed]) v

/-! ## Requests -/

/-- While a request is carried out, the disk is as before or as it is left. -/
theorem mem_trees_request {path : String} {r : Request}
    (h : u ∈ (request path r).run.trees t faults) : u = t ∨ u = (r.meet faults t).2 := by
  refine (List.mem_cons.1 ((Program.trees_request_then r _ t faults) ▸ h)).imp_right fun h => ?_
  generalize r.meet faults t = x at h ⊢
  obtain ⟨_ | a, t'⟩ := x <;> exact List.mem_singleton.1 h

/-! ## Making the directory -/

/-- Making a directory and all above it, before it is closed to others. -/
def furnish (root : String) : Step Unit :=
  ExceptT.mk do
    match ← Disk.makeAll root 0o777 with
    | .ok () => return .ok ()
    | .error e => return .error (failure root e)

theorem run_furnish (root : String) (t : Tree) (faults : Disk.Faults) :
    (furnish root).run.run t faults =
      (((Disk.makeAll root 0o777).run t faults).1.mapError (failure root),
        ((Disk.makeAll root 0o777).run t faults).2) := by
  refine (Program.run_then (Disk.makeAll root 0o777) _ t faults).trans ?_
  obtain ⟨_ | ⟨⟩, t', faults'⟩ := (Disk.makeAll root 0o777).run t faults <;> rfl

/-- Closing a directory to others changes no file. -/
theorem sameFile_of_directory {l : Location} (h : OnlyAt d t u) (hd : t.IsDirectory d) :
    SameFile l t u := by
  rcases eq_or_ne l d with rfl | hne
  · obtain ⟨m, hm⟩ := hd
    obtain ⟨m', hm'⟩ := h.directory.2 ⟨m, hm⟩
    intro content mode
    rw [hm, hm']
    simp
  · exact .of_node (h.elsewhere l hne)

theorem create_eq (root : String) :
    create root = furnish root >>= fun _ =>
      request root (.changeMode root directoryMode) >>= fun _ => pure ⟨root⟩ := rfl

/-- A directory that was made, before it is closed to others. -/
theorem of_furnish {root : String} {a : Unit} {rest : Disk.Faults}
    (h : (furnish root).run.run t faults = (.ok a, u, rest)) :
    t.Extends u ∧ ∀ d, u.resolve root = .ok d → u.IsDirectory d := by
  rw [run_furnish] at h
  have hmade : ((Disk.makeAll root 0o777).run t faults).1 = .ok () := by
    cases hm : ((Disk.makeAll root 0o777).run t faults).1 with
    | ok => rfl
    | error e => rw [hm] at h; cases (Prod.mk.inj h).1
  have hstate : ((Disk.makeAll root 0o777).run t faults).2.1 = u := congrArg (·.2.1) h
  have hext := Disk.extends_makeAll root 0o777 t faults
  have hdir := fun d => Disk.isDirectory_of_makeAll (l := d) hmade
  rw [hstate] at hext hdir
  exact ⟨hext, hdir⟩

/-- A directory that is closed to others is all that changes. -/
theorem of_close {root : String} (hdir : ∀ d, t.resolve root = .ok d → t.IsDirectory d)
    (h : t.changeMode root directoryMode = .ok u) :
    ∃ d, t.resolve root = .ok d ∧ t.IsDirectory d ∧ OnlyAt d t u ∧
      u.node? d = some (.directory directoryMode) := by
  obtain ⟨d, n, hr, hn, rfl⟩ := Disk.of_changeMode h
  obtain ⟨m, hm⟩ := hdir d hr
  obtain rfl : n = .directory m := Option.some.inj (hn.symm.trans hm)
  exact ⟨d, hr, ⟨m, hm⟩, .setDirectory ⟨m, hm⟩ directoryMode,
    by rw [Node.withMode, Tree.node?_set_directory, if_pos rfl]⟩

/-- While a directory is made, no file changes. -/
theorem sameFile_create {root : String} (h : u ∈ (create root).run.trees t faults)
    (l : Location) : SameFile l t u := by
  rw [create_eq] at h
  rcases Program.mem_trees_task_bind h with h | ⟨a, hok, h⟩
  · refine Tree.Extends.sameFile ?_ l
    rcases Program.mem_trees_bind h with h | h
    · exact Disk.extends_makeAll_trees root 0o777 u h
    · have hu : u = ((Disk.makeAll root 0o777).run t faults).2.1 := by
        generalize (Disk.makeAll root 0o777).run t faults = x at h ⊢
        obtain ⟨_ | _, t', faults'⟩ := x <;> exact List.mem_singleton.1 h
      exact hu ▸ Disk.extends_makeAll root 0o777 t faults
  · obtain ⟨hext, hdir⟩ := of_furnish (Prod.ext hok rfl)
    refine (hext.sameFile l).trans ?_
    generalize ((furnish root).run.run t faults).2.1 = t₁ at h hdir
    have hu : u = t₁ ∨ t₁.changeMode root directoryMode = .ok u := by
      rcases Program.mem_trees_task_bind h with h | ⟨_, hok, h⟩
      · rcases mem_trees_request h with rfl | rfl
        · exact .inl rfl
        · rcases Request.meet_changeMode_cases directoryMode _ t₁ with ⟨x, hx, hmeet⟩ | ⟨e, hmeet⟩
          · exact .inr (hmeet ▸ hx)
          · exact .inl (by rw [hmeet])
      · exact .inr (List.mem_singleton.1 h ▸ changed_of_request (Prod.ext hok rfl))
    rcases hu with rfl | hclose
    · exact .refl l u
    · obtain ⟨d, -, hd, honly, -⟩ := of_close hdir hclose
      exact sameFile_of_directory honly hd

/-- A directory that was made is where its path leads and is closed to others; no file has changed,
and every path leads where it led. -/
structure Furnishes (root : String) (t u : Tree) : Prop where
  files : ∀ l, SameFile l t u
  paths : ∀ path l, t.resolve path = .ok l → u.resolve path = .ok l
  directory : ∃ d, Home u ⟨root⟩ d ∧ u.node? d = some (.directory directoryMode)

theorem of_create {root : String} {made : WorkDir}
    (h : (create root).run.runSound t = (.ok made, u)) : Furnishes root t u := by
  have hfiles : ∀ l, SameFile l t u := by
    have hu : u ∈ (create root).run.trees t [] := by
      have := Program.run_mem_trees (create root).run t []
      rwa [Program.run_of_runSound h] at this
    exact sameFile_create hu
  have h := Program.run_of_runSound h
  rw [create_eq] at h
  obtain ⟨_, t₁, rest, hfurnish, hrun⟩ := Program.of_task_bind_ok (congrArg Prod.fst h)
  rw [hrun] at h
  obtain ⟨_, t₂, rest', hclose, hrun'⟩ := Program.of_task_bind_ok (congrArg Prod.fst h)
  obtain rfl : t₂ = u := congrArg (·.2.1) (hrun'.symm.trans h)
  obtain ⟨hext, hdir⟩ := of_furnish hfurnish
  obtain ⟨d, hr, hd, honly, hnode⟩ := of_close hdir (changed_of_request hclose)
  exact ⟨hfiles, fun path l hl => honly.resolve (hext.resolve hl), d,
    ⟨honly.resolve hr, _, hnode⟩, hnode⟩

/-! ## Writing a model -/

/-- A disk on which a model is being written: the file at the model's place is the old one, or is
for its owner alone and holds the old content or the beginning of the new one. -/
structure Writing (d : Location) (model : Blob) (t u : Tree) : Prop where
  elsewhere : OnlyAt (modelAt d) t u
  file : ∀ content mode, u.node? (modelAt d) = some (.file content mode) →
    t.node? (modelAt d) = some (.file content mode) ∨
      mode = fileMode ∧ (Holds (t.node? (modelAt d)) content ∨ content <+: model)

/-- A file at the model's place is for its owner alone. -/
def Guarded (d : Location) (t : Tree) : Prop :=
  ∀ content mode, t.node? (modelAt d) = some (.file content mode) → mode = fileMode

theorem Writing.refl (d : Location) (model : Blob) (t : Tree) : Writing d model t t :=
  ⟨.refl _ t, fun _ _ h => .inl h⟩

theorem Writing.trans {model : Blob} (h : Writing d model t u) (h' : Writing d model u v) :
    Writing d model t v where
  elsewhere := h.elsewhere.trans h'.elsewhere
  file content mode hv := by
    rcases h'.file content mode hv with hu | ⟨hmode, ⟨mode', hu⟩ | hprefix⟩
    · exact h.file content mode hu
    · refine .inr ⟨hmode, ?_⟩
      rcases h.file content mode' hu with ht | ⟨-, ht⟩
      · exact .inl ⟨mode', ht⟩
      · exact ht
    · exact .inr ⟨hmode, .inr hprefix⟩

theorem overwrite_guarded {content : Blob} (home : Home t w d) (hg : Guarded d t)
    (h : t.overwrite w.modelPath fileMode content = .ok u) :
    OnlyAt (modelAt d) t u ∧ u.node? (modelAt d) = some (.file content fileMode) := by
  obtain ⟨l, hl, -, honly, hnode⟩ := Tree.of_overwrite h
  obtain rfl : l = modelAt d := Except.ok.inj (hl.symm.trans home.modelPath)
  have hmode : t.modeAt (modelAt d) fileMode = fileMode := by
    unfold Tree.modeAt
    split
    · next hfile => exact hg _ _ hfile
    · decide
  exact ⟨honly, hmode ▸ hnode⟩

/-- A guarded file stays guarded while it is overwritten. -/
theorem writing_overwrite {model : Blob} (home : Home t w d) (hg : Guarded d t)
    (h : u ∈ (request w.modelPath (.overwrite w.modelPath fileMode model)).run.trees t faults) :
    Writing d model t u := by
  have hpart : ∀ content x, content <+: model →
      t.overwrite w.modelPath fileMode content = .ok x → Writing d model t x := by
    intro content x hprefix hx
    obtain ⟨honly, hnode⟩ := overwrite_guarded home hg hx
    refine ⟨honly, fun c mode hc => .inr ?_⟩
    rw [hnode] at hc
    cases hc
    exact ⟨rfl, .inr hprefix⟩
  rcases mem_trees_request h with rfl | rfl
  · exact .refl d model _
  rcases @Request.meet_overwrite_cases w.modelPath fileMode model faults t with
    ⟨x, hx, hmeet⟩ | ⟨e, hmeet⟩ | ⟨e, n, x, hx, hmeet⟩
  · rw [hmeet]
    exact hpart model x List.prefix_rfl hx
  · rw [hmeet]
    exact .refl d model t
  · rw [hmeet]
    exact hpart _ x (List.take_prefix n model) hx

/-- A file that is closed to others is guarded. -/
theorem writing_changeMode (home : Home t w d) (model : Blob)
    (h : t.changeMode w.modelPath fileMode = .ok u) : Writing d model t u ∧ Guarded d u := by
  obtain ⟨l, n, hl, hn, rfl⟩ := Disk.of_changeMode h
  obtain rfl : l = modelAt d := Except.ok.inj (hl.symm.trans home.modelPath)
  have hnode : (t.set (modelAt d) (n.withMode fileMode)).node? (modelAt d) =
      some (n.withMode fileMode) := by rw [Tree.node?_set (modelAt_ne_nil d), if_pos rfl]
  have hfile : ∀ c mode, (t.set (modelAt d) (n.withMode fileMode)).node? (modelAt d) =
      some (.file c mode) → mode = fileMode ∧ Holds (t.node? (modelAt d)) c := by
    intro c mode hc
    rw [hnode] at hc
    cases n with
    | directory m => cases hc
    | file c' m =>
      cases hc
      exact ⟨rfl, m, hn⟩
  exact ⟨⟨.setMode (modelAt_ne_nil d) hn fileMode,
    fun c mode hc => .inr ((hfile c mode hc).imp_right .inl)⟩, fun c mode hc => (hfile c mode hc).1⟩

/-- The question whether a file is there, when it is answered. -/
theorem ask_present (path : String) (hf : faults.head?.join = none) :
    (ExceptT.lift (Program.request (.present path)) : Step (Except OsError Bool)).run.run t faults =
        (.ok (.ok (t.exists? path)), t, faults.tail) ∧
      ∀ x ∈ (ExceptT.lift (Program.request (.present path)) :
        Step (Except OsError Bool)).run.trees t faults, x = t := by
  have hmeet : (Request.present path).meet faults t = (.ok (t.exists? path), t) := by
    rw [Request.meet_head, hf]
    rfl
  refine ⟨(Program.run_request_then (.present path) _ t faults).trans ?_, fun x hx => ?_⟩
  · rw [hmeet]
    rfl
  · have hx := List.mem_cons.1 ((Program.trees_request_then (.present path) _ t faults) ▸ hx)
    rw [hmeet] at hx
    exact hx.elim id List.mem_singleton.1

/-- What follows the question: a file that is there is closed to others before it is
overwritten. -/
def rewrite (w : WorkDir) (model : Blob) (here : Bool) : Step Unit :=
  if here then
    request w.modelPath (.changeMode w.modelPath fileMode) >>= fun _ =>
      request w.modelPath (.overwrite w.modelPath fileMode model)
  else request w.modelPath (.overwrite w.modelPath fileMode model)

theorem writing_rewrite (home : Home t w d) (model : Blob) (faults : Disk.Faults) :
    (∀ u ∈ (w.rewrite model (t.exists? w.modelPath)).run.trees t faults, Writing d model t u) ∧
      ∀ u rest, (w.rewrite model (t.exists? w.modelPath)).run.run t faults = (.ok (), u, rest) →
        OnlyAt (modelAt d) t u ∧ u.node? (modelAt d) = some (.file model fileMode) := by
  cases hhere : t.exists? w.modelPath with
  | false =>
    have hg : Guarded d t := by
      intro c mode hc
      rw [Tree.exists?, Tree.find_of_node home.modelPath hc] at hhere
      cases hhere
    exact ⟨fun u hu => writing_overwrite home hg hu,
      fun u rest hu => overwrite_guarded home hg (written_of_request hu)⟩
  | true =>
    refine ⟨fun u hu => ?_, fun u rest hu => ?_⟩
    · rcases Program.mem_trees_task_bind hu with hu | ⟨_, hok, hu⟩
      · rcases mem_trees_request hu with rfl | rfl
        · exact .refl d model _
        · rcases Request.meet_changeMode_cases fileMode faults t with ⟨x, hx, hmeet⟩ | ⟨e, hmeet⟩
          · rw [hmeet]
            exact (writing_changeMode home model hx).1
          · rw [hmeet]
            exact .refl d model t
      · obtain ⟨hw, hg⟩ := writing_changeMode home model (changed_of_request (Prod.ext hok rfl))
        exact hw.trans (writing_overwrite (home.onlyAt hw.elsewhere) hg hu)
    · obtain ⟨_, t₁, rest', hclose, hrun⟩ := Program.of_task_bind_ok (congrArg Prod.fst hu)
      obtain ⟨hw, hg⟩ := writing_changeMode home model (changed_of_request hclose)
      obtain ⟨honly, hnode⟩ := overwrite_guarded (home.onlyAt hw.elsewhere) hg
        (written_of_request (hrun.symm.trans hu))
      exact ⟨hw.elsewhere.trans honly, hnode⟩

/-- While a model is written, nobody else sees it, wherever the write breaks off. -/
theorem writing_writeModel (home : Home t w d) {model : Blob} (hf : faults.head?.join = none)
    (h : u ∈ (w.writeModel model).run.trees t faults) : Writing d model t u := by
  obtain ⟨hask, hstill⟩ := ask_present (t := t) w.modelPath hf
  rcases Program.mem_trees_task_bind h with h | ⟨here, hok, h⟩
  · rw [hstill u h]
    exact .refl d model t
  · rw [hask] at hok h
    cases hok
    exact (writing_rewrite home model _).1 u h

/-- A model that was written is whole, and for its owner alone. -/
theorem of_writeModel (home : Home t w d) {model : Blob}
    (h : (w.writeModel model).run.runSound t = (.ok (), u)) :
    OnlyAt (modelAt d) t u ∧ u.node? (modelAt d) = some (.file model fileMode) := by
  have h := Program.run_of_runSound h
  obtain ⟨here, t₁, rest, hask, hrun⟩ := Program.of_task_bind_ok (congrArg Prod.fst h)
  rw [(ask_present w.modelPath rfl).1] at hask
  cases hask
  exact (writing_rewrite home model _).2 u [] (hrun.symm.trans h)

/-! ## Clearing and reading the update -/

theorem of_clearUpdate (home : Home t w d) (h : w.clearUpdate.run.runSound t = (.ok (), u)) :
    OnlyAt (updateAt d) t u ∧ u.node? (updateAt d) = none := by
  have h := (run_clearUpdate w t []).symm.trans (Program.run_of_runSound h)
  have hremove : (Request.remove w.updatePath).meet [] t =
      Request.perform.change (t.remove w.updatePath) t := rfl
  rw [hremove] at h
  have hl := home.updatePath
  cases hr : t.remove w.updatePath with
  | ok x =>
    obtain rfl : x = u := by
      rw [hr] at h
      exact congrArg (·.2.1) h
    exact ⟨Tree.onlyAt_remove hl (updateAt_ne_nil d) hr,
      Disk.node?_of_remove hl (updateAt_ne_nil d) hr⟩
  | error e =>
    obtain rfl : t = u := by
      rw [hr] at h
      exact congrArg (·.2.1) h
    rcases removed_eq_ok_iff.1 (congrArg Prod.fst h) with hok | hgone
    · rw [hr] at hok
      cases hok
    · rw [hr] at hgone
      cases hgone
      exact ⟨.refl _ t, Disk.node?_of_remove_notFound hl hr⟩

theorem of_readUpdate (home : Home t w d) {update : Blob}
    (h : w.readUpdate.run.runSound t = (.ok update, u)) :
    OnlyAt (updateAt d) t u ∧ Holds (t.node? (updateAt d)) update ∧
      u.node? (updateAt d) = some (.file update fileMode) := by
  have h := Program.run_of_runSound h
  obtain ⟨_, t₁, rest, hclose, hrun⟩ := Program.of_task_bind_ok (congrArg Prod.fst h)
  have hmode := changed_of_request hclose
  have hread := performed_of_request (hrun.symm.trans h)
  obtain rfl : t₁ = u := congrArg Prod.snd hread
  obtain ⟨l, n, hl, hn, rfl⟩ := Disk.of_changeMode hmode
  obtain rfl : l = updateAt d := Except.ok.inj (hl.symm.trans home.updatePath)
  have honly := OnlyAt.setMode (updateAt_ne_nil d) hn fileMode
  have hnode : (t.set (updateAt d) (n.withMode fileMode)).node? (updateAt d) =
      some (n.withMode fileMode) := by rw [Tree.node?_set (updateAt_ne_nil d), if_pos rfl]
  obtain ⟨mode, hfile⟩ := (Disk.read_ok_iff (honly.resolve hl)).1 (congrArg Prod.fst hread)
  rw [hnode] at hfile ⊢
  cases n with
  | directory m => cases hfile
  | file content m =>
    cases hfile
    exact ⟨honly, ⟨m, hn⟩, rfl⟩

/-- Where there is no update, reading it is a failed training. -/
theorem readUpdate_fails (home : Home t w d) (h : ∀ b, ¬ Holds (t.node? (updateAt d)) b) :
    ∃ text, (w.readUpdate.run.runSound t).1 = .error (.trainingFailure text) := by
  cases hr : w.readUpdate.run.runSound t with
  | mk result u =>
    cases result with
    | ok update => exact absurd (of_readUpdate home hr).2.1 (h update)
    | error e =>
      obtain ⟨text, rfl⟩ := (fails_readUpdate w).run t [] e
        (congrArg Prod.fst (Program.run_of_runSound hr))
      exact ⟨text, rfl⟩

/-! ## Work on one file -/

theorem asks_request {path : String} {r : Request} (h : r.IsAt path) :
    (request path r).run.Asks (·.IsAt path) := by
  refine Program.Asks.bind (p := Program.request r) ⟨h, fun _ => trivial⟩ fun reply => ?_
  cases reply <;> trivial

theorem asks_clearUpdate (w : WorkDir) : w.clearUpdate.run.Asks (·.IsAt w.updatePath) := by
  refine Program.Asks.bind (p := Program.request (.remove w.updatePath))
    ⟨.remove, fun _ => trivial⟩ fun reply => ?_
  rcases reply with e | ⟨⟩
  · cases e <;> trivial
  · trivial

theorem asks_readUpdate (w : WorkDir) : w.readUpdate.run.Asks (·.IsAt w.updatePath) :=
  .task_bind (asks_request (.changeMode fileMode)) fun _ => asks_request .read

/-! ## What a course keeps -/

/-- The model that a deed writes. -/
def Deed.written? : Deed → Option Blob
  | writeModel model => some model
  | _ => none

/-- The model that was written last. -/
def lastModel (ds : List Deed) : Option Blob := ds.reverse.findSome? Deed.written?

theorem lastModel_concat (ds : List Deed) (deed : Deed) :
    lastModel (ds ++ [deed]) = deed.written?.or (lastModel ds) := by
  simp [lastModel, List.findSome?_cons]
  cases deed.written? <;> rfl

/-- The update was cleared away, and the trainer has not been at work since. -/
def Cleared (ds : List Deed) : Prop :=
  ∃ before after, ds = before ++ .clearUpdate :: after ∧ .train ∉ after

theorem Cleared.of_concat {ds : List Deed} {deed : Deed} (h : Cleared (ds ++ [deed]))
    (hdeed : deed ≠ .clearUpdate) : deed ≠ .train ∧ Cleared ds := by
  obtain ⟨before, after, heq, hafter⟩ := h
  rcases List.eq_nil_or_concat after with rfl | ⟨after, last, rfl⟩
  · exact absurd (List.append_inj_right' heq rfl) (by simpa using hdeed)
  · rw [List.concat_eq_append] at heq hafter
    rw [← List.cons_append, ← List.append_assoc] at heq
    obtain ⟨rfl, hlast⟩ := List.append_inj' heq rfl
    obtain rfl : deed = last := List.singleton_inj.1 hlast
    simp only [List.mem_append, List.mem_singleton, not_or] at hafter
    exact ⟨Ne.symm hafter.2, before, after, rfl, hafter.1⟩

/-- What is so after some deeds that began with the making of the directory. -/
structure Keeps (w : WorkDir) (d : Location) (ds : List Deed) (t : Tree) : Prop where
  home : Home t w d
  closed : t.node? d = some (.directory directoryMode)
  model : ∀ m, lastModel ds = some m → t.node? (modelAt d) = some (.file m fileMode)
  cleared : Cleared ds → ∀ b, ¬ Holds (t.node? (updateAt d)) b

/-- Work on a file leaves the directory as it is. -/
theorem closed_of_onlyAt {l : Location} (h : OnlyAt l t u) (hl : d ≠ l)
    (hd : t.node? d = some (.directory directoryMode)) :
    u.node? d = some (.directory directoryMode) := (h.elsewhere d hl).trans hd

theorem ne_modelAt (d : Location) : d ≠ modelAt d := by simp [modelAt]

theorem ne_updateAt (d : Location) : d ≠ updateAt d := by simp [updateAt]

/-- Work on the update, by a deed that writes no model. -/
theorem Keeps.of_update {ds : List Deed} {deed : Deed} (h : Keeps w d ds t)
    (honly : OnlyAt (updateAt d) t u) (hdeed : deed.written? = none)
    (hcleared : Cleared (ds ++ [deed]) → ∀ b, ¬ Holds (u.node? (updateAt d)) b) :
    Keeps w d (ds ++ [deed]) u where
  home := h.home.onlyAt honly
  closed := closed_of_onlyAt honly (ne_updateAt d) h.closed
  model m hm := by
    rw [lastModel_concat, hdeed, Option.none_or] at hm
    exact (honly.elsewhere _ (modelAt_ne_updateAt d d)).trans (h.model m hm)
  cleared := hcleared

/-- What every deed keeps. -/
theorem Keeps.does {ds : List Deed} {deed : Deed} (h : Keeps w d ds t) (hdo : Does w deed t u) :
    Keeps w d (ds ++ [deed]) u := by
  cases hdo with
  | create hrun =>
    obtain ⟨hfiles, hpaths, d', home', hclosed⟩ := of_create hrun
    -- the directory is made again where it is
    obtain rfl : d' = d := Except.ok.inj (home'.root.symm.trans (hpaths _ _ h.home.root))
    refine ⟨home', hclosed, fun m hm => ?_, fun hc b => ?_⟩
    · rw [lastModel_concat] at hm
      exact (hfiles _ m fileMode).2 (h.model m hm)
    · rintro ⟨mode, hb⟩
      exact h.cleared (hc.of_concat nofun).2 b ⟨mode, (hfiles _ b mode).1 hb⟩
  | writeModel hrun =>
    obtain ⟨honly, hnode⟩ := of_writeModel h.home hrun
    refine ⟨h.home.onlyAt honly, closed_of_onlyAt honly (ne_modelAt d) h.closed, fun m hm => ?_,
      fun hc b => ?_⟩
    · rw [lastModel_concat] at hm
      cases hm
      exact hnode
    · rw [honly.elsewhere _ (modelAt_ne_updateAt d d).symm]
      exact h.cleared (hc.of_concat nofun).2 b
  | clearUpdate hrun =>
    obtain ⟨honly, hnode⟩ := of_clearUpdate h.home hrun
    refine h.of_update honly rfl fun _ b => ?_
    rintro ⟨mode, hb⟩
    rw [hnode] at hb
    cases hb
  | @readUpdate _ _ update hrun =>
    obtain ⟨honly, hheld, -⟩ := of_readUpdate h.home hrun
    exact h.of_update honly rfl fun hc => absurd hheld (h.cleared (hc.of_concat nofun).2 update)
  | train hl honly =>
    obtain rfl := Except.ok.inj (hl.symm.trans h.home.updatePath)
    exact h.of_update honly rfl fun hc => absurd rfl (hc.of_concat nofun).1

/-- What every course keeps that began with the making of the directory. -/
theorem Course.keeps {ds : List Deed} (h : Course w t (.create :: ds) u) :
    ∃ d, Keeps w d (.create :: ds) u := by
  generalize hall : Deed.create :: ds = all at h
  induction h generalizing ds with
  | nil => cases hall
  | @concat u v before deed hbefore hdo ih =>
    rcases before with _ | ⟨first, before⟩
    · cases hall
      cases hdo with
      | create hrun =>
        obtain ⟨-, -, d, home, hclosed⟩ := of_create hrun
        refine ⟨d, home, hclosed, nofun, ?_⟩
        rintro ⟨_ | ⟨_, before⟩, after, heq, -⟩ <;> simp at heq
    · cases hall
      obtain ⟨d, hkeeps⟩ := ih rfl
      exact ⟨d, hkeeps.does hdo⟩

/-! ## The working directory -/

/-- A working directory after some deeds that began with its making, and what the next deed does
there, at every moment of it. -/
structure Private (w : WorkDir) (d : Location) (ds : List Deed) (t : Tree) : Prop where
  home : Home t w d
  /-- The directory is its owner's alone. -/
  closed : t.node? d = some (.directory 0o700)
  /-- The model is whole, and its owner's alone. -/
  model : ∀ m, lastModel ds = some m → t.node? (modelAt d) = some (.file m 0o600)
  /-- While a model is written, and wherever that breaks off, it is never in a file that is not its
  owner's alone, and no other file changes. -/
  writing : ∀ m faults, faults.head?.join = none →
    ∀ u ∈ (w.writeModel m).run.trees t faults, Writing d m t u
  written : ∀ m u, Does w (.writeModel m) t u → u.node? (modelAt d) = some (.file m 0o600)
  creating : ∀ faults, ∀ u ∈ (create w.root).run.trees t faults, ∀ l, SameFile l t u
  clearing : ∀ faults, ∀ u ∈ w.clearUpdate.run.trees t faults, OnlyAt (updateAt d) t u
  reading : ∀ faults, ∀ u ∈ w.readUpdate.run.trees t faults, OnlyAt (updateAt d) t u
  /-- What is read is the update that is there, which is its owner's alone from then on. -/
  read : ∀ b u, Does w (.readUpdate b) t u →
    Holds (t.node? (updateAt d)) b ∧ u.node? (updateAt d) = some (.file b 0o600)
  cleared : Cleared ds →
    ∃ text, (w.readUpdate.run.runSound t).1 = .error (.trainingFailure text)

theorem Keeps.private {ds : List Deed} (h : Keeps w d ds t) : Private w d ds t where
  home := h.home
  closed := h.closed
  model := h.model
  writing _ _ hf _ hu := writing_writeModel h.home hf hu
  written _ _ hdo := by
    cases hdo with
    | writeModel hrun => exact (of_writeModel h.home hrun).2
  creating _ _ hu := sameFile_create hu
  clearing _ := (asks_clearUpdate w).onlyAt h.home.updatePath (updateAt_ne_nil d)
  reading _ := (asks_readUpdate w).onlyAt h.home.updatePath (updateAt_ne_nil d)
  read _ _ hdo := by
    cases hdo with
    | readUpdate hrun => exact (of_readUpdate h.home hrun).2
  cleared hc := readUpdate_fails h.home (h.cleared hc)

/-- Whatever was on the disk, and whatever is done in a working directory from its making on, the
directory and the model in it are its owner's alone, no deed spoils the file of another, and the
update that is read is the one the trainer has left. -/
theorem working_directory_private {ds : List Deed} (h : Course w t (.create :: ds) u) :
    ∃ d, Private w d (.create :: ds) u :=
  let ⟨d, hkeeps⟩ := h.keeps
  ⟨d, hkeeps.private⟩

/-- A disk with a working directory and the files in it. -/
def disk (mode : Nat) (files : List (String × Node)) : Tree :=
  ⟨(["work"], .directory mode) :: files.map fun f => (["work", f.1], f.2), []⟩

/-- The directory and a model are there, open to all; a model is written, the trainer leaves an
update that all may read, and the update is read. -/
theorem working_directory_private_reading :
    Course ⟨"work"⟩ (disk 0o755 [("model.bin", .file [9] 0o644)])
        [.create, .writeModel [1, 2], .clearUpdate, .train, .readUpdate [7]]
        (disk 0o700 [("model.bin", .file [1, 2] 0o600), ("update.bin", .file [7] 0o600)]) ∧
      ∃ d, Private ⟨"work"⟩ d [.create, .writeModel [1, 2], .clearUpdate, .train, .readUpdate [7]]
        (disk 0o700 [("model.bin", .file [1, 2] 0o600), ("update.bin", .file [7] 0o600)]) := by
  have made : Does ⟨"work"⟩ .create (disk 0o755 [("model.bin", .file [9] 0o644)])
      (disk 0o700 [("model.bin", .file [9] 0o644)]) := .create (by decide +kernel)
  have written : Does ⟨"work"⟩ (.writeModel [1, 2]) (disk 0o700 [("model.bin", .file [9] 0o644)])
      (disk 0o700 [("model.bin", .file [1, 2] 0o600)]) := .writeModel (by decide +kernel)
  have cleared : Does ⟨"work"⟩ .clearUpdate (disk 0o700 [("model.bin", .file [1, 2] 0o600)])
      (disk 0o700 [("model.bin", .file [1, 2] 0o600)]) := .clearUpdate (by decide +kernel)
  have absent : (disk 0o700 [("model.bin", .file [1, 2] 0o600)]).node? ["work", "update.bin"] =
      none := by decide +kernel
  have trained : Does ⟨"work"⟩ .train (disk 0o700 [("model.bin", .file [1, 2] 0o600)])
      (disk 0o700 [("model.bin", .file [1, 2] 0o600), ("update.bin", .file [7] 0o644)]) :=
    .train (l := ["work", "update.bin"]) (by decide +kernel)
      (.set (by decide) (fun ⟨m, hm⟩ => by cases absent.symm.trans hm) [7] 0o644)
  have read : Does ⟨"work"⟩ (.readUpdate [7])
      (disk 0o700 [("model.bin", .file [1, 2] 0o600), ("update.bin", .file [7] 0o644)])
      (disk 0o700 [("model.bin", .file [1, 2] 0o600), ("update.bin", .file [7] 0o600)]) :=
    .readUpdate (by decide +kernel)
  have course := ((((Course.nil.concat made).concat written).concat cleared).concat trained).concat
    read
  exact ⟨course, working_directory_private course⟩

end WorkDir

end Federation
