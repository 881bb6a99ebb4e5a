/-
  Programs that make directories and write files.

  * `Tree.Extends`: a disk with more directories, and with everything that was there;
  * `Tree.SameFile`: the same file at a location, or none on both disks;
  * `Program.Asks`, `Program.Asks.trees`: programs all of whose requests are of one kind, and what
    all requests of that kind keep;
  * `extends_makeAll`: making a directory and all above it extends the disk, whatever fails;
  * `isDirectory_of_makeAll`: and when it succeeds, the path leads to a directory;
  * `Tree.modeAt`, `Tree.of_overwrite`: what comes of a file that is written;
  * `Request.meet_overwrite_cases`: a write is done, refused, or torn.
-/
import Federation.Proofs.Disk.Program

namespace Federation.Disk

variable {t t' u : Tree} {l l' : Location} {path : String}

namespace Tree

/-! ## More directories -/

/-- Everything that was there is there, and what is new is a directory. -/
structure Extends (t t' : Tree) : Prop where
  workplace : t'.workplace = t.workplace
  kept : ∀ l n, t.node? l = some n → t'.node? l = some n
  made : ∀ l n, t'.node? l = some n → t.node? l = none → n.isDirectory = true

namespace Extends

theorem refl (t : Tree) : t.Extends t :=
  ⟨rfl, fun _ _ h => h, fun l n h hn => by rw [h] at hn; cases hn⟩

theorem isDirectory (h : t.Extends t') (hd : t.IsDirectory l) : t'.IsDirectory l := by
  obtain ⟨mode, hmode⟩ := hd
  exact ⟨mode, h.kept l _ hmode⟩

theorem resolve (h : t.Extends t') (hr : t.resolve path = .ok l) : t'.resolve path = .ok l :=
  resolve_mono (fun _ => h.isDirectory) h.workplace hr

theorem trans (h : t.Extends u) (h' : u.Extends t') : t.Extends t' where
  workplace := h'.workplace.trans h.workplace
  kept l n hn := h'.kept l n (h.kept l n hn)
  made l n hn hnone := by
    cases hu : u.node? l with
    | none => exact h'.made l n hn hu
    | some k =>
      rw [h'.kept l k hu, Option.some.injEq] at hn
      exact hn ▸ h.made l k hu hnone

/-- A location that holds no directory holds what it held. -/
theorem node?_eq (h : t.Extends t') (hd : ¬ t'.IsDirectory l) : t'.node? l = t.node? l := by
  cases hn : t.node? l with
  | some n => exact h.kept l n hn
  | none =>
    cases hn' : t'.node? l with
    | none => rfl
    | some n =>
      cases n with
      | directory mode => exact absurd ⟨mode, hn'⟩ hd
      | file content mode => exact absurd (h.made l _ hn' hn) (by simp [Node.isDirectory])

end Extends

theorem extends_makeDirectory {mode : Nat} (h : t.makeDirectory path mode = .ok t') :
    t.Extends t' := by
  unfold makeDirectory at h
  cases hr : t.resolve (withoutSlashes path) with
  | error e => rw [hr] at h; cases h
  | ok l =>
    cases hn : t.node? l with
    | some n => simp only [hr, bind, Except.bind, hn] at h; cases h
    | none =>
      simp only [hr, bind, Except.bind, hn] at h
      cases h
      have hl : l ≠ [] := by rintro rfl; cases hn
      refine ⟨rfl, fun l' n hn' => ?_, fun l' n hn' hnone => ?_⟩
      · have hne : l' ≠ l := by rintro rfl; rw [hn] at hn'; cases hn'
        rw [node?_set hl, if_neg hne]
        exact hn'
      · rw [node?_set hl] at hn'
        split at hn'
        · cases hn'
          rfl
        · rw [hnone] at hn'
          cases hn'

/-! ## The same file -/

/-- The same file is at the location on both disks, or on neither. -/
def SameFile (l : Location) (t t' : Tree) : Prop :=
  ∀ content mode, t'.node? l = some (.file content mode) ↔ t.node? l = some (.file content mode)

theorem SameFile.refl (l : Location) (t : Tree) : SameFile l t t := fun _ _ => Iff.rfl

theorem SameFile.trans (h : SameFile l t u) (h' : SameFile l u t') : SameFile l t t' :=
  fun content mode => (h' content mode).trans (h content mode)

theorem SameFile.of_node (h : t'.node? l = t.node? l) : SameFile l t t' :=
  fun content mode => by rw [h]

/-- More directories change no file. -/
theorem Extends.sameFile (h : t.Extends t') (l : Location) : SameFile l t t' := by
  refine fun content mode => ⟨fun hn => ?_, h.kept l _⟩
  have hd : ¬ t'.IsDirectory l := by
    rintro ⟨m, hm⟩
    rw [hn] at hm
    cases hm
  rw [← h.node?_eq hd, hn]

/-! ## One file -/

namespace OnlyAt

theorem symm (h : OnlyAt l t t') : OnlyAt l t' t :=
  ⟨h.workplace.symm, fun l' hl => (h.elsewhere l' hl).symm, h.directory.symm⟩

theorem resolve_iff (h : OnlyAt l t t') (path : String) :
    t'.resolve path = .ok l' ↔ t.resolve path = .ok l' := ⟨h.symm.resolve, h.resolve⟩

end OnlyAt

/-- The mode of a file after it was written: the one it had, or else the one it was to be made
with. -/
def modeAt (t : Tree) (l : Location) (mode : Nat) : Nat :=
  match t.node? l with
  | some (.file _ m) => m
  | _ => userMask mode

theorem SameFile.modeAt (h : SameFile l t t') (mode : Nat) :
    t'.modeAt l mode = t.modeAt l mode := by
  unfold Tree.modeAt
  split
  · next hn => rw [(h _ _).1 hn]
  · next hnot =>
    split
    · next hn => exact absurd ((h _ _).2 hn) (hnot _ _)
    · rfl

/-- A file that is written is at the end of its path, has the new content, and keeps its mode. -/
theorem of_overwrite {mode : Nat} {content : List UInt8}
    (h : t.overwrite path mode content = .ok t') :
    ∃ l, t.resolve path = .ok l ∧ ¬ t.IsDirectory l ∧ OnlyAt l t t' ∧
      t'.node? l = some (.file content (t.modeAt l mode)) := by
  cases hr : t.resolve path with
  | error e =>
    unfold overwrite at h
    rw [hr] at h
    cases h
  | ok l =>
    have hd : ¬ t.IsDirectory l := by
      rintro ⟨m, hm⟩
      simp only [overwrite, hr, bind, Except.bind, hm] at h
      cases h
    have hl : l ≠ [] := by
      rintro rfl
      exact hd ⟨_, rfl⟩
    refine ⟨l, rfl, hd, onlyAt_overwrite hr hl h, ?_⟩
    cases hn : t.node? l with
    | none =>
      simp only [overwrite, hr, bind, Except.bind, hn] at h
      cases h
      rw [node?_set hl, if_pos rfl, modeAt, hn]
    | some n =>
      cases n with
      | directory m => exact absurd ⟨m, hn⟩ hd
      | file c m =>
        simp only [overwrite, hr, bind, Except.bind, hn] at h
        cases h
        rw [node?_set hl, if_pos rfl, modeAt, hn]

end Tree

/-- A write is done, refused, or torn. -/
theorem Request.meet_overwrite_cases (mode : Nat) (content : List UInt8) (faults : Faults)
    (t : Tree) :
    (∃ u, t.overwrite path mode content = .ok u ∧
      (overwrite path mode content).meet faults t = (.ok (), u)) ∨
    (∃ e, (overwrite path mode content).meet faults t = (.error e, t)) ∨
    ∃ e n u, t.overwrite path mode (content.take n) = .ok u ∧
      (overwrite path mode content).meet faults t = (.error e, u) := by
  unfold meet
  split
  · next f _ =>
    unfold fail
    cases f.written with
    | none => exact Or.inr (Or.inl ⟨f.error, rfl⟩)
    | some n =>
      cases hu : t.overwrite path mode (content.take n) with
      | ok u => exact Or.inr (Or.inr ⟨f.error, n, u, hu, by simp only [hu]⟩)
      | error e => exact Or.inr (Or.inl ⟨e, by simp only [hu]⟩)
  · exact (change_cases (t.overwrite path mode content) t).imp_right Or.inl

/-! ## Programs of one kind of requests -/

namespace Program

variable {α β : Type} {P : Request → Prop}

theorem bind_done (p : Program α) : p.bind done = p := by
  induction p with
  | done a => rfl
  | ask r next ih => exact congrArg (ask r) (funext ih)

theorem bind_bind {γ : Type} (p : Program α) (f : α → Program β) (g : β → Program γ) :
    (p.bind f).bind g = p.bind fun a => (f a).bind g := by
  induction p with
  | done a => rfl
  | ask r next ih => exact congrArg (ask r) (funext ih)

instance : LawfulMonad Program := .mk' Program bind_done (fun _ _ => rfl) bind_bind

/-- A program that asks for nothing else. -/
def Asks (P : Request → Prop) : Program α → Prop
  | .done _ => True
  | .ask r next => P r ∧ ∀ reply, Asks P (next reply)

theorem Asks.bind {p : Program α} {f : α → Program β} (hp : p.Asks P) (hf : ∀ a, (f a).Asks P) :
    (p.bind f).Asks P := by
  induction p with
  | done a => exact hf a
  | ask r next ih => exact ⟨hp.1, fun reply => ih reply (hp.2 reply)⟩

theorem Asks.task_bind {ε : Type} {x : ExceptT ε Program α} {f : α → ExceptT ε Program β}
    (hx : x.run.Asks P) (hf : ∀ a, (f a).run.Asks P) : (x >>= f).run.Asks P := by
  rw [ExceptT.run_bind]
  refine hx.bind fun r => ?_
  cases r with
  | ok a => exact hf a
  | error e => trivial

/-- What every request of the kind keeps is kept all along. -/
theorem Asks.trees {p : Program α} (hp : p.Asks P) {I : Tree → Prop}
    (hI : ∀ r, P r → ∀ faults t, I t → I (r.meet faults t).2) {t : Tree} {faults : Faults}
    (ht : I t) : ∀ u ∈ p.trees t faults, I u := by
  induction p generalizing t faults with
  | done a => exact fun u hu => List.mem_singleton.1 hu ▸ ht
  | ask r next ih =>
    intro u hu
    rcases List.mem_cons.1 hu with rfl | hu
    · exact ht
    · exact ih _ (hp.2 _) (hI r hp.1 faults t ht) u hu

/-- A program at a path changes nothing elsewhere, at any moment. -/
theorem Asks.onlyAt {p : Program α} (hp : p.Asks (·.IsAt path)) {t : Tree} {faults : Faults}
    (hr : t.resolve path = .ok l) (hl : l ≠ []) : ∀ u ∈ p.trees t faults, t.OnlyAt l u :=
  hp.trees (fun _ hat faults _ hu => hu.trans (hat.onlyAt (hu.resolve hr) hl faults)) (.refl l t)

end Program

/-- On a sound disk, no faults are left to come. -/
theorem Program.rest_nil {α : Type} (p : Program α) (t : Tree) : (p.run t []).2.2 = [] := by
  induction p generalizing t with
  | done a => rfl
  | ask r next ih => exact ih _ _

theorem Program.run_of_runSound {α : Type} {p : Program α} {a : α} (h : p.runSound t = (a, u)) :
    p.run t [] = (a, u, []) := by
  obtain ⟨hresult, hleft⟩ := Prod.mk.inj h
  exact Prod.ext hresult (Prod.ext hleft (p.rest_nil t))

/-! ## Making directories -/

/-- Requests that look, or make a directory. -/
def Request.Furnishes (r : Request) : Prop :=
  r.looks = true ∨ ∃ path mode, r = .makeDirectory path mode

theorem Request.Furnishes.extends {r : Request} (h : r.Furnishes) (faults : Faults) (t : Tree) :
    t.Extends (r.meet faults t).2 := by
  rcases h with h | ⟨path, mode, rfl⟩
  · rw [r.meet_of_looks h]
    exact .refl t
  · have hsound : t.Extends (perform.change (t.makeDirectory path mode) t).2 := by
      cases hu : t.makeDirectory path mode with
      | error e => exact .refl t
      | ok u => exact Tree.extends_makeDirectory hu
    unfold meet
    split
    · exact .refl t
    · exact hsound

theorem asks_settle (path : String) (r : Except OsError Unit) :
    (makeDirectories.settle path r).Asks Request.Furnishes := by
  cases r with
  | ok => trivial
  | error e =>
    refine ⟨Or.inl rfl, fun reply => ?_⟩
    rcases reply with e' | ⟨_ | _⟩ <;> trivial

theorem asks_makeDirectories (mode fuel : Nat) (path : String) :
    (makeDirectories mode fuel path).Asks Request.Furnishes := by
  induction fuel generalizing path with
  | zero => trivial
  | succ fuel ih =>
    have hmake : (Program.request (.makeDirectory path mode)).Asks Request.Furnishes :=
      ⟨Or.inr ⟨path, mode, rfl⟩, fun _ => trivial⟩
    unfold makeDirectories
    split
    · trivial
    · refine hmake.bind fun reply => ?_
      split
      · trivial
      · split
        · trivial
        · next above _ =>
          refine (ih above).bind fun reply => ?_
          cases reply with
          | error e => trivial
          | ok => exact hmake.bind fun reply => asks_settle path reply
      · exact asks_settle path _

/-- Making a directory and all above it extends the disk, whatever fails, and does so all along. -/
theorem extends_makeAll_trees (path : String) (mode : Nat) {t : Tree} {faults : Faults} :
    ∀ u ∈ (makeAll path mode).trees t faults, t.Extends u :=
  (asks_makeDirectories mode (path.length + 1) path).trees
    (fun _ hr faults _ hu => hu.trans (hr.extends faults _)) (.refl t)

theorem extends_makeAll (path : String) (mode : Nat) (t : Tree) (faults : Faults) :
    t.Extends ((makeAll path mode).run t faults).2.1 :=
  extends_makeAll_trees path mode _ (Program.run_mem_trees _ t faults)

/-! ## What was made is there -/

namespace Tree

/-- A directory has been made at a path. -/
def Furnished (t : Tree) (path : String) : Prop :=
  path.isEmpty = true ∨ t.directory? path = true ∨
    ∃ l, t.resolve (withoutSlashes path) = .ok l ∧ t.IsDirectory l

theorem furnished_of_makeDirectory {mode : Nat} (h : t.makeDirectory path mode = .ok t') :
    t'.Furnished path := by
  have hext := extends_makeDirectory h
  unfold makeDirectory at h
  cases hr : t.resolve (withoutSlashes path) with
  | error e => rw [hr] at h; cases h
  | ok l =>
    cases hn : t.node? l with
    | some n => simp only [hr, bind, Except.bind, hn] at h; cases h
    | none =>
      simp only [hr, bind, Except.bind, hn] at h
      cases h
      exact .inr (.inr ⟨l, hext.resolve hr, _, by rw [node?_set_directory, if_pos rfl]⟩)

theorem withoutSlashes_eq (h : path.toList.getLast? ≠ some '/') :
    withoutSlashes path = path := by
  unfold withoutSlashes
  cases hrev : path.toList.reverse with
  | nil => rfl
  | cons c cs =>
    have hc : c ≠ '/' := by
      rintro rfl
      rw [List.getLast?_eq_head?_reverse, hrev] at h
      exact h rfl
    have hcs : (c :: cs).reverse = path.toList := by rw [← hrev, List.reverse_reverse]
    simp only [List.dropWhile_cons, hc, decide_false, Bool.false_eq_true, if_false, hcs,
      String.ofList_toList, ite_self]

/-- A path with a slash at its end leads to a directory, if it leads anywhere. -/
theorem isDirectory_of_slash (h : path.toList.getLast? = some '/')
    (hr : t.resolve path = .ok l) : t.IsDirectory l := by
  obtain ⟨above, ha⟩ := List.getLast?_eq_some_iff.1 h
  have hseg : segments path.toList = segments above ++ [[]] := by
    rw [ha]
    exact splitAt_append '/' above []
  have hlen : (if isAbsolute path.toList then 1 else 0) ≤ (segments above).length := by
    have : 0 < (segments above).length := List.length_pos_iff.2 (splitAt_ne_nil '/' above)
    split <;> omega
  rw [resolve_eq t (by rw [ha]; simp), hseg, List.drop_append_of_le_length hlen,
    walk_append] at hr
  generalize t.walk _ _ = x at hr
  cases x with
  | error e => cases hr
  | ok m =>
    have hm : t.walk m [[]] = .ok l := hr
    rw [walk_singleton] at hm
    exact step_idle hm ▸ isDirectory_of_step hm

/-- A path at which a directory has been made leads to a directory, if it leads anywhere. -/
theorem Furnished.isDirectory (h : t.Furnished path) (hr : t.resolve path = .ok l) :
    t.IsDirectory l := by
  rcases h with hempty | hdir | ⟨m, hm, hdir⟩
  · unfold resolve at hr
    rw [if_pos hempty] at hr
    cases hr
  · unfold directory? at hdir
    cases hf : t.find path with
    | error e => rw [hf] at hdir; cases hdir
    | ok found =>
      obtain ⟨x, n⟩ := found
      obtain ⟨hx, hn⟩ := of_find hf
      obtain rfl : x = l := Except.ok.inj (hx.symm.trans hr)
      rw [hf] at hdir
      cases n with
      | file => cases hdir
      | directory mode => exact ⟨mode, hn⟩
  · by_cases hslash : path.toList.getLast? = some '/'
    · exact isDirectory_of_slash hslash hr
    · rw [withoutSlashes_eq hslash, hr] at hm
      exact Except.ok.inj hm ▸ hdir

end Tree

theorem furnished_of_meet {mode : Nat} {faults : Faults}
    (h : ((Request.makeDirectory path mode).meet faults t).1 = .ok ()) :
    ((Request.makeDirectory path mode).meet faults t).2.Furnished path := by
  rw [Request.meet_head] at h ⊢
  have hmeet := Request.meet_of_ok h
  rw [hmeet] at h ⊢
  exact Tree.furnished_of_makeDirectory (Request.ok_of_change h)

theorem furnished_settle {r : Except OsError Unit} {t : Tree} {faults : Faults}
    (hok : r = .ok () → t.Furnished path)
    (h : ((makeDirectories.settle path r).run t faults).1 = .ok ()) :
    ((makeDirectories.settle path r).run t faults).2.1.Furnished path := by
  cases r with
  | ok => exact hok rfl
  | error e =>
    unfold makeDirectories.settle at h ⊢
    rw [Program.run_request_then] at h ⊢
    have hlook : ((Request.isDirectory path).meet faults t).1 = .ok true →
        ((Request.isDirectory path).meet faults t).2.directory? path = true := by
      intro hreply
      rw [Request.meet_head] at hreply ⊢
      have hmeet := Request.meet_of_ok hreply
      rw [hmeet] at hreply ⊢
      exact Except.ok.inj hreply
    generalize (Request.isDirectory path).meet faults t = x at h hlook ⊢
    obtain ⟨_ | ⟨_ | _⟩, t'⟩ := x
    · cases h
    · cases h
    · exact .inr (.inl (hlook rfl))

/-- What is said to be made is there. -/
theorem furnished_makeDirectories (mode fuel : Nat) (path : String) {t : Tree} {faults : Faults}
    (h : ((makeDirectories mode fuel path).run t faults).1 = .ok ()) :
    ((makeDirectories mode fuel path).run t faults).2.1.Furnished path := by
  cases fuel with
  | zero => cases h
  | succ fuel =>
    unfold makeDirectories at h ⊢
    split
    · exact .inl ‹_›
    · next hne =>
      rw [if_neg hne, Program.run_request_then] at h
      rw [Program.run_request_then]
      have hmade : ((Request.makeDirectory path mode).meet faults t).1 = .ok () →
          ((Request.makeDirectory path mode).meet faults t).2.Furnished path := furnished_of_meet
      generalize (Request.makeDirectory path mode).meet faults t = x at h hmade ⊢
      obtain ⟨e | ⟨⟩, t'⟩ := x
      · by_cases he : e = .notFound
        · -- what is above is made first
          subst he
          cases habove : parentPath path with
          | none =>
            simp only [habove] at h
            cases h
          | some above =>
            simp only [habove] at h ⊢
            rw [Program.run_then] at h ⊢
            generalize (makeDirectories mode fuel above).run t' faults.tail = x at h ⊢
            obtain ⟨_ | ⟨⟩, t'', faults'⟩ := x
            · cases h
            · exact furnished_settle furnished_of_meet h
        · cases e <;> first | exact absurd rfl he | exact furnished_settle nofun h
      · exact hmade rfl

/-- What is said to be made, with all above it, is a directory. -/
theorem isDirectory_of_makeAll {mode : Nat} {t : Tree} {faults : Faults}
    (h : ((makeAll path mode).run t faults).1 = .ok ())
    (hr : ((makeAll path mode).run t faults).2.1.resolve path = .ok l) :
    ((makeAll path mode).run t faults).2.1.IsDirectory l :=
  (furnished_makeDirectories mode (path.length + 1) path h).isDirectory hr

end Federation.Disk
