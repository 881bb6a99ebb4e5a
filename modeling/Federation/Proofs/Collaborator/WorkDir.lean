/-
  What the steps in a working directory come to.

  * `Faithful`, `Sound`: faults that do not claim that a file is missing, and no faults at all;
  * `Home`: a working directory and its location;
  * `ensures_writeModel`, `ensures_clearUpdate`, `ensures_readUpdate`: what a step that succeeds has
    done, on a disk with faithful faults;
  * `sound_writeModel`, `sound_clearUpdate`, `sound_readUpdate`: the steps succeed on a sound disk;
  * `FailsInTraining`, `fails_writeModel`, `fails_clearUpdate`, `fails_readUpdate`: a step that
    fails is told as a failed training;
  * `read_writeModel`, `find_clearUpdate`, `read_readUpdate`: what a step that succeeds has done,
    said of the paths alone, wherever on the disk they lead.
-/
import Federation.Proofs.Disk.Program
import Federation.Collaborator.WorkDir

namespace Federation

open Disk (Program Location Tree Node Request OsError Holds)

/-- A failing operation does not say that the file is missing when it is not. -/
def Faithful (fault : Option Disk.Fault) : Prop := ∀ f, fault = some f → f.error ≠ .notFound

def Sound (fault : Option Disk.Fault) : Prop := fault = none

namespace WorkDir

/-- A working directory that lies at a location of the disk. -/
structure Home (t : Tree) (w : WorkDir) (d : Location) : Prop where
  root : t.resolve w.root = .ok d
  directory : t.IsDirectory d

def modelAt (d : Location) : Location := d ++ ["model.bin"]
def updateAt (d : Location) : Location := d ++ ["update.bin"]

variable {w : WorkDir} {t t' : Tree} {d l : Location}

theorem isPlain_model : Disk.IsPlain "model.bin" :=
  ⟨by decide, by decide, by decide, by decide, by decide +kernel⟩

theorem isPlain_update : Disk.IsPlain "update.bin" :=
  ⟨by decide, by decide, by decide, by decide, by decide +kernel⟩

theorem modelAt_ne_nil (d : Location) : modelAt d ≠ [] := by simp [modelAt]

theorem updateAt_ne_nil (d : Location) : updateAt d ≠ [] := by simp [updateAt]

theorem modelAt_ne_updateAt (d d' : Location) : modelAt d ≠ updateAt d' := by
  intro h
  have := congrArg List.getLast? h
  simp [modelAt, updateAt] at this

/-- The files of one directory are not those of another. -/
theorem apart {d' : Location} (hd : d' ≠ d) (hl : l = modelAt d ∨ l = updateAt d) :
    modelAt d' ≠ l ∧ updateAt d' ≠ l := by
  rcases hl with rfl | rfl
  · exact ⟨fun he => hd (List.append_cancel_right he), (modelAt_ne_updateAt d d').symm⟩
  · exact ⟨modelAt_ne_updateAt d' d, fun he => hd (List.append_cancel_right he)⟩

namespace Home

theorem modelPath (h : Home t w d) : t.resolve w.modelPath = .ok (modelAt d) :=
  Tree.resolve_joinPath h.root h.directory isPlain_model

theorem updatePath (h : Home t w d) : t.resolve w.updatePath = .ok (updateAt d) :=
  Tree.resolve_joinPath h.root h.directory isPlain_update

/-- Work on a file leaves every working directory where it is. -/
theorem onlyAt (h : Home t w d) (ht : Tree.OnlyAt l t t') : Home t' w d :=
  ⟨ht.resolve h.root, (ht.isDirectory d).2 h.directory⟩

end Home

/-! ## Steps -/

section
variable {path : String} {allowed : Option Disk.Fault → Prop} {n : Option Node} {α β : Type}

/-- One step after another. -/
theorem ensures_bind {x : Step α} {f : α → Step β}
    {Q : Except FederationError β → Option Node → Prop}
    (h : x.run.Ensures allowed path l n fun r n =>
      match r with
      | .ok a => (f a).run.Ensures allowed path l n Q
      | .error e => Q (.error e) n) :
    (x >>= f).run.Ensures allowed path l n Q := by
  rw [ExceptT.run_bind]
  refine Program.Ensures.bind (h.mono fun r n hr => ?_)
  cases r with
  | ok a => exact hr
  | error e => exact hr

theorem ensures_request {r : Request} (hr : r.IsAt path)
    {Q : Except FederationError r.Reply → Option Node → Prop}
    (hok : ∀ t fault a, allowed fault → t.resolve path = .ok l → t.node? l = n →
      (r.meet [fault] t).1 = .ok a → Q (.ok a) ((r.meet [fault] t).2.node? l))
    (herror : ∀ t fault e, allowed fault → t.resolve path = .ok l → t.node? l = n →
      (r.meet [fault] t).1 = .error e →
      Q (.error (failure path e)) ((r.meet [fault] t).2.node? l)) :
    (request path r).run.Ensures allowed path l n Q := by
  refine ⟨hr, fun t fault hf hp hn => ?_⟩
  cases h : (r.meet [fault] t).1 with
  | ok a => exact hok t fault a hf hp hn h
  | error e => exact herror t fault e hf hp hn h

/-- Closing a file to others leaves its content, whether it succeeds or not. -/
theorem ensures_changeMode (hl : l ≠ []) (mode : Nat) :
    (request path (.changeMode path mode)).run.Ensures allowed path l n
      fun _ n' => ∀ b, Holds n' b ↔ Holds n b := by
  have key : ∀ (t : Tree) (fault : Option Disk.Fault), t.resolve path = .ok l → t.node? l = n →
      ∀ b, Holds (((Request.changeMode path mode).meet [fault] t).2.node? l) b ↔ Holds n b := by
    intro t fault hp hn b
    cases fault with
    | some f => rw [← hn]; rfl
    | none =>
      cases hu : t.changeMode path mode with
      | error e => simp [Request.meet, Request.perform, Request.perform.change, hu, hn]
      | ok u =>
        simpa [Request.meet, Request.perform, Request.perform.change, hu, hn] using
          Disk.holds_changeMode hp hl hu b
  exact ensures_request (.changeMode mode) (fun t fault _ _ hp hn _ => key t fault hp hn)
    (fun t fault _ _ hp hn _ => key t fault hp hn)

/-- A file that was overwritten holds what was written. -/
theorem ensures_overwrite (hl : l ≠ []) (mode : Nat) (content : List UInt8) :
    (request path (.overwrite path mode content)).run.Ensures allowed path l n
      fun r n' => r = .ok () → Holds n' content := by
  refine ensures_request (.overwrite mode content) (fun t fault a _ hp _ h _ => ?_)
    (fun t fault e _ _ _ _ hr => by cases hr)
  have hm := Request.meet_of_ok h
  rw [hm] at h ⊢
  cases hu : t.overwrite path mode content with
  | error e => simp [Request.perform, Request.perform.change, hu] at h
  | ok u =>
    simpa [Request.perform, Request.perform.change, hu] using Disk.holds_of_overwrite hp hl hu

/-- What is read is what the file holds. -/
theorem ensures_read :
    (request path (.read path)).run.Ensures allowed path l n
      fun r _ => ∀ b, r = .ok b → Holds n b := by
  refine ensures_request .read (fun t fault a _ hp hn h b hb => ?_)
    (fun t fault e _ _ _ _ b hr => by cases hr)
  cases hb
  rw [Request.meet_of_ok h] at h
  rw [← hn]
  exact (Disk.read_ok_iff hp).1 h

/-! ## Requests on a sound disk -/

theorem sound_changeMode (hl : l ≠ []) {k : Node} (hn : n = some k) (mode : Nat) :
    (request path (.changeMode path mode)).run.Ensures Sound path l n
      fun r n' => r = .ok () ∧ n' = some (k.withMode mode) := by
  have key : ∀ t fault, Sound fault → t.resolve path = .ok l → t.node? l = n →
      (Request.changeMode path mode).meet [fault] t = (.ok (), t.set l (k.withMode mode)) := by
    rintro t _ rfl hp ht
    have hc : t.changeMode path mode = .ok (t.set l (k.withMode mode)) := by
      unfold Tree.changeMode
      rw [Tree.find_of_node hp (ht.trans hn)]
      rfl
    simp [Request.meet, Request.perform, Request.perform.change, hc]
  refine ensures_request (.changeMode mode) (fun t fault a hf hp ht h => ?_)
    (fun t fault e hf hp ht h => ?_)
  · rw [key t fault hf hp ht, Tree.node?_set hl, if_pos rfl]
    exact ⟨rfl, rfl⟩
  · rw [key t fault hf hp ht] at h
    cases h

theorem sound_overwrite (hn : ∀ m, n ≠ some (.directory m)) (mode : Nat) (content : List UInt8) :
    (request path (.overwrite path mode content)).run.Ensures Sound path l n
      fun r _ => r = .ok () := by
  refine ensures_request (.overwrite mode content) (fun _ _ _ _ _ _ _ => rfl)
    (fun t fault e hf hp ht h => ?_)
  obtain rfl : fault = none := hf
  have hd : ¬ t.IsDirectory l := by
    rintro ⟨m, hm⟩
    exact hn m (ht ▸ hm)
  obtain ⟨u, hu⟩ := Disk.overwrite_isOk hp hd mode content
  simp [Request.meet, Request.perform, Request.perform.change, hu] at h

theorem sound_read {b : List UInt8} (hn : Holds n b) :
    (request path (.read path)).run.Ensures Sound path l n fun r _ => r = .ok b := by
  have key : ∀ t fault, Sound fault → t.resolve path = .ok l → t.node? l = n →
      ((Request.read path).meet [fault] t).1 = .ok b := by
    rintro t _ rfl hp ht
    exact (Disk.read_ok_iff hp).2 (ht ▸ hn)
  refine ensures_request .read (fun t fault a hf hp ht h => ?_) (fun t fault e hf hp ht h => ?_)
  · rw [key t fault hf hp ht] at h
    cases h
    rfl
  · rw [key t fault hf hp ht] at h
    cases h

end

/-! ## The steps of a working directory -/

section
variable {n : Option Node}

/-- Writing a model, as what follows the question whether there is a file. -/
theorem ensures_writeModel_of (w : WorkDir) (d : Location) (model : Blob)
    {allowed : Option Disk.Fault → Prop} {Q : Except FederationError Unit → Option Node → Prop}
    (h : ∀ t fault, allowed fault → t.resolve w.modelPath = .ok (modelAt d) →
      t.node? (modelAt d) = n →
      (if ((Request.present w.modelPath).meet [fault] t).1.toOption.getD false = true then
          request w.modelPath (.changeMode w.modelPath fileMode) >>= fun _ =>
            request w.modelPath (.overwrite w.modelPath fileMode model)
        else request w.modelPath (.overwrite w.modelPath fileMode model)).run.Ensures
        allowed w.modelPath (modelAt d) n Q) :
    (w.writeModel model).run.Ensures allowed w.modelPath (modelAt d) n Q := by
  unfold writeModel
  refine ensures_bind ⟨.present, fun t fault hf hp ht => ?_⟩
  have hnode : ((Request.present w.modelPath).meet [fault] t).2.node? (modelAt d) = n := by
    rw [← ht]
    cases fault <;> rfl
  rw [hnode]
  exact h t fault hf hp ht

/-- A model that was written is in its file. -/
theorem ensures_writeModel (w : WorkDir) (d : Location) (model : Blob)
    (allowed : Option Disk.Fault → Prop) :
    (w.writeModel model).run.Ensures allowed w.modelPath (modelAt d) n
      fun r n' => r = .ok () → Holds n' model := by
  refine ensures_writeModel_of w d model fun t fault _ _ _ => ?_
  split
  · refine ensures_bind ((ensures_changeMode (modelAt_ne_nil d) fileMode).mono fun r n' _ => ?_)
    cases r with
    | ok => exact ensures_overwrite (modelAt_ne_nil d) fileMode model
    | error e => intro hr; cases hr
  · exact ensures_overwrite (modelAt_ne_nil d) fileMode model

/-- Clearing the update away, as what comes of the removal: a file that is missing is fine. -/
theorem ensures_clearUpdate_of (w : WorkDir) (d : Location)
    {allowed : Option Disk.Fault → Prop} {Q : Except FederationError Unit → Option Node → Prop}
    (h : ∀ t fault, allowed fault → t.resolve w.updatePath = .ok (updateAt d) →
      t.node? (updateAt d) = n →
      match (Request.remove w.updatePath).meet [fault] t with
      | (.ok (), t') | (.error .notFound, t') => Q (.ok ()) (t'.node? (updateAt d))
      | (.error e, t') => Q (.error (failure w.updatePath e)) (t'.node? (updateAt d))) :
    w.clearUpdate.run.Ensures allowed w.updatePath (updateAt d) n Q := by
  refine ⟨.remove, fun t fault hf hp ht => ?_⟩
  have h := h t fault hf hp ht
  generalize (Request.remove w.updatePath).meet [fault] t = x at h ⊢
  rcases x with ⟨e | a, t'⟩
  · cases e <;> exact h
  · exact h

/-- An update that was cleared away is not there. -/
theorem ensures_clearUpdate (w : WorkDir) (d : Location) :
    w.clearUpdate.run.Ensures Faithful w.updatePath (updateAt d) n
      fun r n' => r = .ok () → n' = none := by
  refine ensures_clearUpdate_of w d fun t fault hf hp ht => ?_
  cases fault with
  | some f =>
    -- the one failure that counts as a success is not reported by a faithful fault
    have hne : f.error ≠ .notFound := hf f rfl
    have hm : (Request.remove w.updatePath).meet [some f] t = (.error f.error, t) := rfl
    rw [hm]
    split
    · next h => cases h
    · next h => exact absurd (Except.error.inj (Prod.mk.inj h).1) hne
    · intro hr; cases hr
  | none =>
    cases hu : t.remove w.updatePath with
    | ok u =>
      have hm : (Request.remove w.updatePath).meet [none] t = (.ok (), u) := by
        simp [Request.meet, Request.perform, Request.perform.change, hu]
      rw [hm]
      exact fun _ => Disk.node?_of_remove hp (updateAt_ne_nil d) hu
    | error e =>
      have hm : (Request.remove w.updatePath).meet [none] t = (.error e, t) := by
        simp [Request.meet, Request.perform, Request.perform.change, hu]
      rw [hm]
      split
      · next h => cases h
      · next h =>
        cases h
        exact fun _ => Disk.node?_of_remove_notFound hp hu
      · intro hr; cases hr

/-- An update that was read is what the file held. -/
theorem ensures_readUpdate (w : WorkDir) (d : Location) (allowed : Option Disk.Fault → Prop) :
    w.readUpdate.run.Ensures allowed w.updatePath (updateAt d) n
      fun r _ => ∀ b, r = .ok b → Holds n b := by
  unfold readUpdate
  refine ensures_bind ((ensures_changeMode (updateAt_ne_nil d) fileMode).mono fun r n' hn' => ?_)
  cases r with
  | error e => intro b hb; cases hb
  | ok =>
    exact ensures_read.mono fun r _ hr b hb => (hn' b).1 (hr b hb)

theorem sound_writeModel (w : WorkDir) (d : Location) (model : Blob)
    (hn : ∀ m, n ≠ some (.directory m)) :
    (w.writeModel model).run.Ensures Sound w.modelPath (modelAt d) n fun r _ => r = .ok () := by
  refine ensures_writeModel_of w d model fun t fault hf hp ht => ?_
  split
  · next hhere =>
    obtain rfl : fault = none := hf
    obtain ⟨k, hk⟩ : ∃ k, n = some k := by
      cases hk : n with
      | some k => exact ⟨k, rfl⟩
      | none =>
        have : t.find w.modelPath = .error .notFound := Tree.find_of_none hp (ht.trans hk)
        simp [Request.meet, Request.perform, Tree.exists?, this, Except.toOption] at hhere
    refine ensures_bind ((sound_changeMode (modelAt_ne_nil d) hk fileMode).mono ?_)
    rintro r n' ⟨rfl, rfl⟩
    refine sound_overwrite (fun m hm => ?_) fileMode model
    cases k with
    | file c m => cases hm
    | directory m => exact hn m hk
  · exact sound_overwrite hn fileMode model

theorem sound_clearUpdate (w : WorkDir) (d : Location) (hn : ∀ m, n ≠ some (.directory m)) :
    w.clearUpdate.run.Ensures Sound w.updatePath (updateAt d) n fun r _ => r = .ok () := by
  refine ensures_clearUpdate_of w d fun t fault hf hp ht => ?_
  obtain rfl : fault = none := hf
  have hd : ¬ t.IsDirectory (updateAt d) := by
    rintro ⟨m, hm⟩
    exact hn m (ht ▸ hm)
  rcases Disk.remove_cases hp hd with hu | ⟨u, hu⟩ <;>
    simp [Request.meet, Request.perform, Request.perform.change, hu]

theorem sound_readUpdate (w : WorkDir) (d : Location) {b : Blob} (hn : Holds n b) :
    w.readUpdate.run.Ensures Sound w.updatePath (updateAt d) n fun r _ => r = .ok b := by
  obtain ⟨m, hm⟩ := hn
  unfold readUpdate
  refine ensures_bind ((sound_changeMode (updateAt_ne_nil d) hm fileMode).mono ?_)
  rintro r n' ⟨rfl, rfl⟩
  exact sound_read ⟨fileMode, rfl⟩

end

/-! ## How steps fail -/

/-- A step that fails is told as a failed training. -/
abbrev FailsInTraining {α : Type} (x : Step α) : Prop :=
  Program.FailsWith (fun e => ∃ text, e = FederationError.trainingFailure text) x

theorem fails_request (path : String) (r : Request) : FailsInTraining (request path r) := by
  refine .of_answer (Program.request r) fun reply => ?_
  cases reply with
  | ok a => exact nofun
  | error e => rintro _ ⟨⟩; exact ⟨_, rfl⟩

theorem fails_writeModel (w : WorkDir) (model : Blob) : FailsInTraining (w.writeModel model) := by
  unfold writeModel
  refine .bind (fun reply => nofun) fun here => ?_
  split
  · exact .bind (fails_request _ _) fun _ => fails_request _ _
  · exact fails_request _ _

theorem fails_clearUpdate (w : WorkDir) : FailsInTraining w.clearUpdate := by
  refine .of_answer (Program.request (.remove w.updatePath)) fun reply => ?_
  rcases reply with e | ⟨⟩
  · cases e with
    | notFound => exact nofun
    | _ => rintro _ ⟨⟩; exact ⟨_, rfl⟩
  · exact nofun

theorem fails_readUpdate (w : WorkDir) : FailsInTraining w.readUpdate :=
  .bind (fails_request _ _) fun _ => fails_request _ _

/-! ## Wherever the paths lead -/

section
variable {w : WorkDir} {t : Tree} {faults : Disk.Faults} {path : String} {α β : Type}

/-- What is true of the disk when a step has succeeded. -/
def Leaves (P : Tree → Prop) (x : Step α) : Prop :=
  ∀ t faults a, (x.run.run t faults).1 = .ok a → P (x.run.run t faults).2.1

theorem Leaves.bind {P : Tree → Prop} {x : Step α} {f : α → Step β} (hf : ∀ a, Leaves P (f a)) :
    Leaves P (x >>= f) := by
  intro t faults b hb
  rw [Program.run_task_bind] at hb ⊢
  cases hx : (x.run.run t faults).1 with
  | error e =>
    rw [hx] at hb
    cases hb
  | ok a =>
    rw [hx] at hb
    exact hf a _ _ b hb

theorem run_request (r : Request) (t : Tree) (faults : Disk.Faults) :
    (request path r).run.run t faults =
      ((r.meet faults t).1.mapError (failure path), (r.meet faults t).2, faults.tail) := by
  refine (Program.run_request_then r _ t faults).trans ?_
  cases (r.meet faults t).1 <;> rfl

/-- A request that succeeds is met, as it would be on a sound disk. -/
theorem of_run_request {r : Request} {a : r.Reply}
    (h : ((request path r).run.run t faults).1 = .ok a) :
    (r.perform t).1 = .ok a ∧ ((request path r).run.run t faults).2.1 = (r.perform t).2 := by
  rw [run_request] at h ⊢
  have hm : (r.meet faults t).1 = .ok a := by
    cases hm : (r.meet faults t).1 with
    | error e => rw [hm] at h; cases h
    | ok a' => rw [hm] at h; exact congrArg _ (Except.ok.inj h)
  have hperform : r.meet faults t = r.perform t := by
    rw [Request.meet_head] at hm ⊢
    exact Request.meet_of_ok hm
  exact ⟨hperform ▸ hm, congrArg Prod.snd hperform⟩

theorem performed_of_request {u : Tree} {r : Request} {a : r.Reply} {rest : Disk.Faults}
    (h : (request path r).run.run t faults = (.ok a, u, rest)) : r.perform t = (.ok a, u) := by
  obtain ⟨hok, hleft⟩ := of_run_request (congrArg Prod.fst h)
  rw [h] at hleft
  exact Prod.ext hok hleft.symm

theorem eq_of_change {u : Tree} {result : Except OsError Tree}
    (h : Request.perform.change result t = (.ok (), u)) : result = .ok u := by
  rw [Request.ok_of_change (congrArg Prod.fst h), h]

theorem changed_of_request {u : Tree} {mode : Nat} {a : Unit} {rest : Disk.Faults}
    (h : (request path (.changeMode path mode)).run.run t faults = (.ok a, u, rest)) :
    t.changeMode path mode = .ok u := eq_of_change (performed_of_request h)

theorem written_of_request {u : Tree} {mode : Nat} {content : Blob} {a : Unit}
    {rest : Disk.Faults}
    (h : (request path (.overwrite path mode content)).run.run t faults = (.ok a, u, rest)) :
    t.overwrite path mode content = .ok u := eq_of_change (performed_of_request h)

/-- A model that was written is read. -/
theorem read_writeModel (w : WorkDir) (model : Blob) :
    Leaves (fun t => t.read w.modelPath = .ok model) (w.writeModel model) := by
  have key : Leaves (fun t => t.read w.modelPath = .ok model)
      (request w.modelPath (.overwrite w.modelPath fileMode model)) := by
    intro t faults a h
    obtain ⟨hok, hleft⟩ := of_run_request h
    rw [hleft]
    exact Disk.read_of_overwrite (Request.ok_of_change hok)
  unfold writeModel
  refine .bind fun here => ?_
  split
  · exact .bind fun _ => key
  · exact key

/-- The two files are apart, wherever their paths lead. -/
theorem resolve_ne {l l' : Location} (h : t.resolve w.modelPath = .ok l)
    (h' : t.resolve w.updatePath = .ok l') : l ≠ l' := by
  have hlast := Tree.getLast?_of_resolve_joinPath isPlain_model h
  have hlast' := Tree.getLast?_of_resolve_joinPath isPlain_update h'
  rintro rfl
  rw [hlast] at hlast'
  exact absurd hlast' (by decide)

theorem ne_nil_of_resolve {l : Location} (h : t.resolve w.updatePath = .ok l) : l ≠ [] := by
  rintro rfl
  cases Tree.getLast?_of_resolve_joinPath isPlain_update h

/-- What the removal of the update comes to: a file that is missing is fine. -/
def removed (w : WorkDir) : Except OsError Unit → Except FederationError Unit
  | .ok () | .error .notFound => .ok ()
  | .error e => .error (failure w.updatePath e)

theorem removed_eq_ok_iff {result : Except OsError Unit} :
    w.removed result = .ok () ↔ result = .ok () ∨ result = .error .notFound := by
  rcases result with e | ⟨⟩
  · cases e <;> simp [removed]
  · simp [removed]

theorem run_clearUpdate (w : WorkDir) (t : Tree) (faults : Disk.Faults) :
    w.clearUpdate.run.run t faults =
      (w.removed ((Request.remove w.updatePath).meet faults t).1,
        ((Request.remove w.updatePath).meet faults t).2, faults.tail) := by
  refine (Program.run_request_then (.remove w.updatePath) _ t faults).trans ?_
  generalize (Request.remove w.updatePath).meet faults t = r
  rcases r with ⟨e | ⟨⟩, t'⟩
  · cases e <;> rfl
  · rfl

/-- An update that was cleared away is not found, and the model is where it was. -/
theorem find_clearUpdate (w : WorkDir) (hf : ∀ f ∈ faults, Faithful f)
    (h : (w.clearUpdate.run.run t faults).1 = .ok ()) :
    (w.clearUpdate.run.run t faults).2.1.find w.updatePath = .error .notFound ∧
      ∀ model, t.read w.modelPath = .ok model →
        (w.clearUpdate.run.run t faults).2.1.read w.modelPath = .ok model := by
  have hf : Faithful faults.head?.join := by
    rcases faults with _ | ⟨f, faults⟩
    · exact nofun
    · exact hf f List.mem_cons_self
  rw [run_clearUpdate, Request.meet_head] at h ⊢
  generalize faults.head?.join = fault at h hf ⊢
  cases fault with
  | some f =>
    -- the one failure that counts as a success is not reported by a faithful fault
    rcases removed_eq_ok_iff.1 h with he | he
    · cases he
    · exact absurd (Except.error.inj he) (hf f rfl)
  | none =>
    cases hu : t.remove w.updatePath with
    | ok u =>
      have hm : (Request.remove w.updatePath).meet [none] t = (.ok (), u) := by
        simp [Request.meet, Request.perform, Request.perform.change, hu]
      rw [hm]
      obtain ⟨l, hr, hl⟩ := Disk.resolve_of_remove hu
      exact ⟨Disk.find_of_remove hu, fun model hmodel =>
        Disk.read_of_onlyAt (Tree.onlyAt_remove hr hl hu) (fun hr' => resolve_ne hr' hr rfl) hmodel⟩
    | error e =>
      have hm : (Request.remove w.updatePath).meet [none] t = (.error e, t) := by
        simp [Request.meet, Request.perform, Request.perform.change, hu]
      rw [hm] at h ⊢
      rcases removed_eq_ok_iff.1 h with he | he
      · cases he
      · cases he
        exact ⟨Disk.find_of_remove_notFound hu, fun model hmodel => hmodel⟩

/-- An update that was read is what the file held. -/
theorem read_readUpdate (w : WorkDir) {update : Blob}
    (h : (w.readUpdate.run.run t faults).1 = .ok update) :
    t.read w.updatePath = .ok update := by
  unfold readUpdate at h
  obtain ⟨_, u, rest, hclose, hrun⟩ := Program.of_task_bind_ok h
  rw [hrun] at h
  have hc := changed_of_request hclose
  have hread : u.read w.updatePath = .ok update := (of_run_request h).1
  obtain ⟨l, -, hl, -⟩ := Disk.of_changeMode hc
  have hne := ne_nil_of_resolve hl
  have hl' := (Tree.onlyAt_changeMode hl hne hc).resolve hl
  exact (Disk.read_ok_iff hl).2
    ((Disk.holds_changeMode hl hne hc update).1 ((Disk.read_ok_iff hl').1 hread))

end

end WorkDir

end Federation
