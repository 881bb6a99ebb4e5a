/-
  Programs that work on one file.

  * `Request.IsAt`: the requests that read or change the file at a path;
  * `Request.IsAt.onlyAt`: they change nothing elsewhere, whether they succeed or not;
  * `Program.Ensures`: what such a program comes to, said of the file alone;
  * `Program.Yields`, `Program.FailsWith`, `Program.Results`: what a program ends with, and the errors
    and the results of a task, whatever its requests are answered with;
  * `Program.ReadsOnly`: programs that change nothing.

  What a program ensures does not depend on the rest of the disk, so that others may work elsewhere
  between two of its requests.
-/
import Federation.Proofs.Disk.Tree
import Federation.Disk.Program

open Federation.Disk.Tree (OnlyAt)

namespace Federation.Disk

/-! ## Requests at a path -/

/-- The requests that read or change the file at a path. -/
inductive Request.IsAt (path : String) : Request → Prop
  | present : IsAt path (.present path)
  | read : IsAt path (.read path)
  | changeMode (mode : Nat) : IsAt path (.changeMode path mode)
  | overwrite (mode : Nat) (content : List UInt8) : IsAt path (.overwrite path mode content)
  | remove : IsAt path (.remove path)

variable {t t' : Tree} {l : Location} {path : String}

namespace Tree

theorem find_of_node {n : Node} (hr : t.resolve path = .ok l) (hn : t.node? l = some n) :
    t.find path = .ok (l, n) := by
  unfold find
  rw [hr]
  simp [bind, Except.bind, hn]

theorem find_of_none (hr : t.resolve path = .ok l) (hn : t.node? l = none) :
    t.find path = .error .notFound := by
  unfold find
  rw [hr]
  simp [bind, Except.bind, hn]

theorem of_find {n : Node} (h : t.find path = .ok (l, n)) :
    t.resolve path = .ok l ∧ t.node? l = some n := by
  unfold find at h
  cases hr : t.resolve path with
  | error e => rw [hr] at h; cases h
  | ok l' =>
    rw [hr] at h
    simp only [bind, Except.bind] at h
    split at h
    · next n' hn =>
      cases h
      exact ⟨rfl, hn⟩
    · cases h

theorem onlyAt_changeMode (hr : t.resolve path = .ok l) (hl : l ≠ []) {mode : Nat}
    (h : t.changeMode path mode = .ok t') : OnlyAt l t t' := by
  unfold changeMode at h
  cases hn : t.node? l with
  | none => rw [find_of_none hr hn] at h; cases h
  | some n =>
    rw [find_of_node hr hn] at h
    cases h
    exact .setMode hl hn mode

theorem onlyAt_overwrite (hr : t.resolve path = .ok l) (hl : l ≠ []) {mode : Nat}
    {content : List UInt8} (h : t.overwrite path mode content = .ok t') : OnlyAt l t t' := by
  unfold overwrite at h
  rw [hr] at h
  have hdir : ∀ {m c}, t' = t.set l (.file c m) → ¬ t.IsDirectory l → OnlyAt l t t' := by
    rintro m c rfl hd
    exact .set hl hd c m
  cases hn : t.node? l with
  | none =>
    simp only [bind, Except.bind, hn] at h
    cases h
    exact hdir rfl (by rintro ⟨m, hm⟩; rw [hn] at hm; cases hm)
  | some n =>
    cases n with
    | directory m => simp only [bind, Except.bind, hn] at h; cases h
    | file c m =>
      simp only [bind, Except.bind, hn] at h
      cases h
      exact hdir rfl (by rintro ⟨m, hm⟩; rw [hn] at hm; cases hm)

theorem onlyAt_remove (hr : t.resolve path = .ok l) (hl : l ≠ [])
    (h : t.remove path = .ok t') : OnlyAt l t t' := by
  unfold remove at h
  cases hn : t.node? l with
  | none => rw [find_of_none hr hn] at h; cases h
  | some n =>
    rw [find_of_node hr hn] at h
    cases n with
    | directory m => cases h
    | file c m =>
      cases h
      exact .erase hl (by rintro ⟨m, hm⟩; rw [hn] at hm; cases hm)

end Tree

namespace Request

/-- A change at one location, or none at all. -/
theorem onlyAt_change {r : Except OsError Tree} (h : ∀ u, r = .ok u → OnlyAt l t u) :
    OnlyAt l t (perform.change r t).2 := by
  cases r with
  | error e => exact .refl l t
  | ok u => exact h u rfl

/-- A request at a path changes nothing elsewhere. -/
theorem IsAt.onlyAt {r : Request} (h : r.IsAt path) (hr : t.resolve path = .ok l) (hl : l ≠ [])
    (faults : Faults) : OnlyAt l t (r.meet faults t).2 := by
  have hperform : OnlyAt l t (r.perform t).2 := by
    cases h with
    | present | read => exact .refl l t
    | changeMode => exact onlyAt_change fun u hu => Tree.onlyAt_changeMode hr hl hu
    | overwrite => exact onlyAt_change fun u hu => Tree.onlyAt_overwrite hr hl hu
    | remove => exact onlyAt_change fun u hu => Tree.onlyAt_remove hr hl hu
  unfold meet
  split
  · next f _ =>
    cases h with
    | present | read | changeMode | remove => exact .refl l t
    | overwrite mode content =>
      unfold fail
      cases f.written with
      | none => exact .refl l t
      | some n =>
        cases hu : t.overwrite path mode (content.take n) with
        | error e => simp only [hu]; exact .refl l t
        | ok u => simp only [hu]; exact Tree.onlyAt_overwrite hr hl hu
  · exact hperform

/-- Requests that look and leave everything as it is. -/
def looks : Request → Bool
  | .present _ | .isDirectory _ | .isRegular _ | .read _ => true
  | _ => false

theorem meet_of_looks (r : Request) (h : r.looks = true) (faults : Faults) (t : Tree) :
    (r.meet faults t).2 = t := by
  unfold meet
  split
  · cases r <;> first | rfl | cases h
  · cases r <;> first | rfl | cases h

/-- Only the first of the faults ahead counts. -/
theorem meet_head (r : Request) (faults : Faults) (t : Tree) :
    r.meet faults t = r.meet [faults.head?.join] t := by
  rcases faults with _ | ⟨_ | f, faults⟩ <;> rfl

/-- What succeeds is done as on a sound disk. -/
theorem meet_of_ok {r : Request} {fault : Option Fault} {a : r.Reply}
    (h : (r.meet [fault] t).1 = .ok a) : r.meet [fault] t = r.perform t := by
  cases fault with
  | none => rfl
  | some f =>
    cases r with
    | overwrite path mode content =>
      simp only [meet, List.head?_cons, fail] at h
      split at h
      · cases h
      · split at h <;> cases h
    | _ => cases h

end Request

/-! ## The file at the path -/

section
variable (hr : t.resolve path = .ok l)
include hr

theorem read_ok_iff {content : List UInt8} :
    t.read path = .ok content ↔ Holds (t.node? l) content := by
  unfold Tree.read
  cases hn : t.node? l with
  | none => rw [Tree.find_of_none hr hn]; simp [Holds, bind, Except.bind]
  | some n =>
    rw [Tree.find_of_node hr hn]
    cases n <;> simp [Holds, bind, Except.bind]

theorem holds_of_overwrite (hl : l ≠ []) {mode : Nat} {content : List UInt8}
    (h : t.overwrite path mode content = .ok t') : Holds (t'.node? l) content := by
  unfold Tree.overwrite at h
  rw [hr] at h
  simp only [bind, Except.bind] at h
  split at h <;> cases h <;> exact ⟨_, by rw [Tree.node?_set hl, if_pos rfl]⟩

theorem overwrite_isOk (hd : ¬ t.IsDirectory l) (mode : Nat) (content : List UInt8) :
    ∃ u, t.overwrite path mode content = .ok u := by
  unfold Tree.overwrite
  rw [hr]
  simp only [bind, Except.bind]
  split
  · next m hm => exact absurd ⟨m, hm⟩ hd
  · exact ⟨_, rfl⟩
  · exact ⟨_, rfl⟩

theorem holds_changeMode (hl : l ≠ []) {mode : Nat} (h : t.changeMode path mode = .ok t')
    (content : List UInt8) : Holds (t'.node? l) content ↔ Holds (t.node? l) content := by
  unfold Tree.changeMode at h
  cases hn : t.node? l with
  | none => rw [Tree.find_of_none hr hn] at h; cases h
  | some n =>
    rw [Tree.find_of_node hr hn] at h
    cases h
    rw [Tree.node?_set hl, if_pos rfl]
    cases n <;> simp [Holds, Node.withMode]

theorem node?_of_remove (hl : l ≠ []) (h : t.remove path = .ok t') : t'.node? l = none := by
  unfold Tree.remove at h
  cases hn : t.node? l with
  | none => rw [Tree.find_of_none hr hn] at h; cases h
  | some n =>
    rw [Tree.find_of_node hr hn] at h
    cases n with
    | directory m => cases h
    | file c m => cases h; rw [Tree.node?_erase hl, if_pos rfl]

theorem node?_of_remove_notFound (h : t.remove path = .error .notFound) : t.node? l = none := by
  unfold Tree.remove at h
  cases hn : t.node? l with
  | none => rfl
  | some n =>
    rw [Tree.find_of_node hr hn] at h
    cases n <;> cases h

theorem remove_cases (hd : ¬ t.IsDirectory l) :
    t.remove path = .error .notFound ∨ ∃ u, t.remove path = .ok u := by
  unfold Tree.remove
  cases hn : t.node? l with
  | none => rw [Tree.find_of_none hr hn]; exact Or.inl rfl
  | some n =>
    rw [Tree.find_of_node hr hn]
    cases n with
    | directory m => exact absurd ⟨m, hn⟩ hd
    | file c m => exact Or.inr ⟨_, rfl⟩

end

/-! ## Whatever the path leads to -/

theorem resolve_of_find {found : Location × Node} (h : t.find path = .ok found) :
    t.resolve path = .ok found.1 := (Tree.of_find h).1

theorem of_changeMode {mode : Nat} (h : t.changeMode path mode = .ok t') :
    ∃ l n, t.resolve path = .ok l ∧ t.node? l = some n ∧ t' = t.set l (n.withMode mode) := by
  unfold Tree.changeMode at h
  cases hf : t.find path with
  | error e => rw [hf] at h; cases h
  | ok found =>
    obtain ⟨hr, hn⟩ := Tree.of_find hf
    rw [hf] at h
    exact ⟨_, _, hr, hn, (Except.ok.inj h).symm⟩

/-- What is removed is a file below the top. -/
theorem resolve_of_remove (h : t.remove path = .ok t') : ∃ l, t.resolve path = .ok l ∧ l ≠ [] := by
  unfold Tree.remove at h
  cases hf : t.find path with
  | error e => rw [hf] at h; cases h
  | ok found =>
    obtain ⟨l, n⟩ := found
    refine ⟨l, resolve_of_find hf, ?_⟩
    rintro rfl
    have hn : n = .directory t.topMode := (Option.some.inj (Tree.of_find hf).2).symm
    rw [hf, hn] at h
    cases h

theorem find_of_remove (h : t.remove path = .ok t') : t'.find path = .error .notFound := by
  obtain ⟨l, hr, hl⟩ := resolve_of_remove h
  exact Tree.find_of_none ((Tree.onlyAt_remove hr hl h).resolve hr) (node?_of_remove hr hl h)

theorem find_of_remove_notFound (h : t.remove path = .error .notFound) :
    t.find path = .error .notFound := by
  unfold Tree.remove at h
  cases hf : t.find path with
  | error e =>
    rw [hf] at h
    cases h
    rfl
  | ok found =>
    obtain ⟨l, n⟩ := found
    rw [hf] at h
    cases n <;> cases h

/-- A file elsewhere is still read. -/
theorem read_of_onlyAt {content : List UInt8} (ht : OnlyAt l t t')
    (hne : t.resolve path ≠ .ok l) (h : t.read path = .ok content) :
    t'.read path = .ok content := by
  have hr : ∃ l', t.resolve path = .ok l' := by
    unfold Tree.read at h
    cases hf : t.find path with
    | error e => rw [hf] at h; cases h
    | ok found => exact ⟨_, resolve_of_find hf⟩
  obtain ⟨l', hr⟩ := hr
  have hl : l' ≠ l := by
    rintro rfl
    exact hne hr
  rw [read_ok_iff hr, ← ht.elsewhere l' hl] at h
  exact (read_ok_iff (ht.resolve hr)).2 h

/-- What was written is read. -/
theorem read_of_overwrite {mode : Nat} {content : List UInt8}
    (h : t.overwrite path mode content = .ok t') : t'.read path = .ok content := by
  cases hr : t.resolve path with
  | error e =>
    unfold Tree.overwrite at h
    rw [hr] at h
    cases h
  | ok l =>
    have hl : l ≠ [] := by
      rintro rfl
      unfold Tree.overwrite at h
      rw [hr] at h
      cases h
    have hr' : t'.resolve path = .ok l := (Tree.onlyAt_overwrite hr hl h).resolve hr
    exact (read_ok_iff hr').2 (holds_of_overwrite hr hl h)

/-- What was moved is read at its new place. -/
theorem read_of_rename {source target : String} {content : List UInt8}
    (h : t.rename source target = .ok t') (hc : t.read source = .ok content) :
    t'.read target = .ok content := by
  unfold Tree.rename at h
  cases hf : t.find source with
  | error e => rw [hf] at h; cases h
  | ok found =>
    obtain ⟨a, n⟩ := found
    obtain ⟨ha, hn⟩ := Tree.of_find hf
    obtain ⟨mode, rfl⟩ : ∃ mode, n = .file content mode := by
      obtain ⟨mode, hmode⟩ := (read_ok_iff ha).1 hc
      exact ⟨mode, Option.some.inj (hn.symm.trans hmode)⟩
    have hane : a ≠ [] := by rintro rfl; cases hn
    rw [hf] at h
    cases hb : t.resolve target with
    | error e => simp only [hb, bind, Except.bind] at h; cases h
    | ok b =>
      simp only [hb, bind, Except.bind, Node.isDirectory, Bool.false_eq_true, if_false] at h
      split at h
      · cases h
      · next hdir =>
        have hbdir : ¬ t.IsDirectory b := by
          rintro ⟨m, hm⟩
          exact hdir (by rw [hm]; rfl)
        split at h
        · next hab =>
          cases h
          subst hab
          exact (read_ok_iff hb).2 ⟨mode, hn⟩
        · next hab =>
          cases h
          have hbne : b ≠ [] := by rintro rfl; exact hbdir ⟨_, rfl⟩
          have herase : OnlyAt a t (t.erase a) :=
            .erase hane (by rintro ⟨m, hm⟩; rw [hn] at hm; cases hm)
          have hset : OnlyAt b (t.erase a) ((t.erase a).set b (.file content mode)) :=
            .set hbne (fun hd => hbdir ((herase.isDirectory b).1 hd)) content mode
          exact (read_ok_iff (hset.resolve (herase.resolve hb))).2
            ⟨mode, by rw [Tree.node?_set hbne, if_pos rfl]⟩

namespace Request

theorem ok_of_change {r : Except OsError Tree} (h : (perform.change r t).1 = .ok ()) :
    r = .ok (perform.change r t).2 := by
  cases r with
  | error e => cases h
  | ok u => rfl

/-- A change is made, or refused. -/
theorem change_cases (result : Except OsError Tree) (t : Tree) :
    (∃ u, result = .ok u ∧ perform.change result t = (.ok (), u)) ∨
      ∃ e, perform.change result t = (.error e, t) := by
  cases result with
  | ok u => exact Or.inl ⟨u, rfl, rfl⟩
  | error e => exact Or.inr ⟨e, rfl⟩

theorem meet_changeMode_cases (mode : Nat) (faults : Faults) (t : Tree) :
    (∃ u, t.changeMode path mode = .ok u ∧ (changeMode path mode).meet faults t = (.ok (), u)) ∨
      ∃ e, (changeMode path mode).meet faults t = (.error e, t) := by
  unfold meet
  split
  · exact Or.inr ⟨_, rfl⟩
  · exact change_cases _ t

theorem meet_rename_cases (source target : String) (faults : Faults) (t : Tree) :
    (∃ u, t.rename source target = .ok u ∧ (rename source target).meet faults t = (.ok (), u)) ∨
      ∃ e, (rename source target).meet faults t = (.error e, t) := by
  unfold meet
  split
  · exact Or.inr ⟨_, rfl⟩
  · exact change_cases _ t

theorem read_of_meet_overwrite {fault : Option Fault} {mode : Nat} {content : List UInt8}
    (h : ((overwrite path mode content).meet [fault] t).1 = .ok ()) :
    ((overwrite path mode content).meet [fault] t).2.read path = .ok content := by
  have hmeet := meet_of_ok h
  rw [hmeet] at h ⊢
  exact read_of_overwrite (ok_of_change h)

theorem read_of_meet_rename {fault : Option Fault} {source target : String}
    {content : List UInt8} (h : ((rename source target).meet [fault] t).1 = .ok ())
    (hc : t.read source = .ok content) :
    ((rename source target).meet [fault] t).2.read target = .ok content := by
  have hmeet := meet_of_ok h
  rw [hmeet] at h ⊢
  exact read_of_rename (ok_of_change h) hc

end Request

namespace Program

variable {α β : Type}

/-! ## Programs one after the other -/

theorem run_bind (p : Program α) (f : α → Program β) (t : Tree) (faults : Faults) :
    (p.bind f).run t faults =
      (f (p.run t faults).1).run (p.run t faults).2.1 (p.run t faults).2.2 := by
  induction p generalizing t faults with
  | done a => rfl
  | ask r next ih => exact ih _ _ _

/-- The same, as it is written in a program. -/
theorem run_then (p : Program α) (f : α → Program β) (t : Tree) (faults : Faults) :
    (p >>= f).run t faults =
      (f (p.run t faults).1).run (p.run t faults).2.1 (p.run t faults).2.2 := run_bind p f t faults

theorem run_request_then (r : Request) (f : Except OsError r.Reply → Program α) (t : Tree)
    (faults : Faults) :
    (request r >>= f).run t faults =
      (f (r.meet faults t).1).run (r.meet faults t).2 faults.tail := rfl

/-! ## Programs at a path -/

/-- What a program that works on the file at a path comes to, from what the file is: on every disk
on which the path leads to the location, and whatever faults of the allowed kind it meets. -/
def Ensures (allowed : Option Fault → Prop) (path : String) (l : Location) :
    Program α → Option Node → (α → Option Node → Prop) → Prop
  | .done a, n, Q => Q a n
  | .ask r next, n, Q =>
    r.IsAt path ∧ ∀ (t : Tree) (fault : Option Fault), allowed fault → t.resolve path = .ok l →
      t.node? l = n →
      Ensures allowed path l (next (r.meet [fault] t).1) ((r.meet [fault] t).2.node? l) Q

variable {allowed : Option Fault → Prop}

theorem Ensures.mono {p : Program α} {n : Option Node} {Q R : α → Option Node → Prop}
    (h : p.Ensures allowed path l n Q) (hQ : ∀ a n, Q a n → R a n) :
    p.Ensures allowed path l n R := by
  induction p generalizing n with
  | done a => exact hQ a n h
  | ask r next ih =>
    exact ⟨h.1, fun t fault hf hr hn => ih _ (h.2 t fault hf hr hn)⟩

theorem Ensures.bind {p : Program α} {f : α → Program β} {n : Option Node}
    {Q : β → Option Node → Prop}
    (h : p.Ensures allowed path l n fun a n => (f a).Ensures allowed path l n Q) :
    (p.bind f).Ensures allowed path l n Q := by
  induction p generalizing n with
  | done a => exact h
  | ask r next ih =>
    exact ⟨h.1, fun t fault hf hr hn => ih _ (h.2 t fault hf hr hn)⟩

/-! ## Ends of programs -/

/-- What a program ends with, whatever its requests are answered with. -/
def Yields (P : α → Prop) : Program α → Prop
  | .done a => P a
  | .ask _ next => ∀ reply, Yields P (next reply)

theorem Yields.of_forall {P : α → Prop} (p : Program α) (h : ∀ a, P a) : p.Yields P := by
  induction p with
  | done a => exact h a
  | ask r next ih => exact ih

theorem Yields.mono {p : Program α} {P Q : α → Prop} (h : p.Yields P) (hQ : ∀ a, P a → Q a) :
    p.Yields Q := by
  induction p with
  | done a => exact hQ a h
  | ask r next ih => exact fun reply => ih reply (h reply)

theorem Yields.bind {p : Program α} {f : α → Program β} {P : β → Prop}
    (h : p.Yields fun a => (f a).Yields P) : (p.bind f).Yields P := by
  induction p with
  | done a => exact h
  | ask r next ih => exact fun reply => ih reply (h reply)

theorem Yields.run {p : Program α} {P : α → Prop} (h : p.Yields P) (t : Tree) (faults : Faults) :
    P (p.run t faults).1 := by
  induction p generalizing t faults with
  | done a => exact h
  | ask r next ih => exact ih _ (h _) _ _

section
variable {ε : Type} {P : ε → Prop}

/-- A task that fails does so with an error of one kind. -/
def FailsWith (P : ε → Prop) (x : ExceptT ε Program α) : Prop :=
  x.run.Yields fun r => ∀ e, r = .error e → P e

theorem FailsWith.bind {x : ExceptT ε Program α} {f : α → ExceptT ε Program β}
    (hx : FailsWith P x) (hf : ∀ a, FailsWith P (f a)) : FailsWith P (x >>= f) := by
  unfold FailsWith
  rw [ExceptT.run_bind]
  refine Yields.bind (hx.mono fun r hr => ?_)
  cases r with
  | ok a => exact hf a
  | error e => exact fun e' he => hr e' (by cases he; rfl)

/-- Whatever a program answers, the task that looks at the answer fails in one way. -/
theorem FailsWith.of_answer (p : Program β) {f : β → Program (Except ε α)}
    (h : ∀ b, FailsWith P (ExceptT.mk (f b))) : FailsWith P (ExceptT.mk (p >>= f)) :=
  Yields.bind (.of_forall p h)

/-- A task that succeeds does so with a result of one kind. -/
def Results (Q : α → Prop) (x : ExceptT ε Program α) : Prop :=
  x.run.Yields fun r => ∀ a, r = .ok a → Q a

theorem Results.bind {x : ExceptT ε Program α} {f : α → ExceptT ε Program β} {Q : β → Prop}
    (hf : ∀ a, Results Q (f a)) : Results Q (x >>= f) := by
  unfold Results
  rw [ExceptT.run_bind]
  refine Yields.bind (Yields.of_forall _ fun r => ?_)
  cases r with
  | ok a => exact hf a
  | error e => exact nofun

/-- What goes on after a task that has been run. -/
theorem run_task_bind (x : ExceptT ε Program α) (f : α → ExceptT ε Program β) (t : Tree)
    (faults : Faults) :
    (x >>= f).run.run t faults =
      match (x.run.run t faults).1 with
      | .ok a => (f a).run.run (x.run.run t faults).2.1 (x.run.run t faults).2.2
      | .error e => (.error e, (x.run.run t faults).2) := by
  rw [ExceptT.run_bind]
  refine (run_bind ..).trans ?_
  cases (x.run.run t faults).1 <;> rfl

/-- A task that succeeds has two parts that succeed. -/
theorem of_task_bind_ok {x : ExceptT ε Program α} {f : α → ExceptT ε Program β} {t : Tree}
    {faults : Faults} {b : β} (h : ((x >>= f).run.run t faults).1 = .ok b) :
    ∃ a u rest, x.run.run t faults = (.ok a, u, rest) ∧
      (x >>= f).run.run t faults = (f a).run.run u rest := by
  rw [run_task_bind] at h ⊢
  generalize x.run.run t faults = r at h ⊢
  obtain ⟨_ | a, u, rest⟩ := r
  · cases h
  · exact ⟨a, u, rest, rfl, rfl⟩

end

/-! ## Programs that change nothing -/

/-- A program all of whose requests look and leave everything as it is. -/
def ReadsOnly : Program α → Prop
  | .done _ => True
  | .ask r next => r.looks = true ∧ ∀ reply, ReadsOnly (next reply)

theorem ReadsOnly.bind {p : Program α} {f : α → Program β} (hp : p.ReadsOnly)
    (hf : ∀ a, (f a).ReadsOnly) : (p.bind f).ReadsOnly := by
  induction p with
  | done a => exact hf a
  | ask r next ih => exact ⟨hp.1, fun reply => ih reply (hp.2 reply)⟩

theorem ReadsOnly.task_bind {ε : Type} {x : ExceptT ε Program α} {f : α → ExceptT ε Program β}
    (hx : x.run.ReadsOnly) (hf : ∀ a, (f a).run.ReadsOnly) : (x >>= f).run.ReadsOnly := by
  rw [ExceptT.run_bind]
  refine hx.bind fun r => ?_
  cases r with
  | ok a => exact hf a
  | error e => trivial

theorem ReadsOnly.trees {p : Program α} (h : p.ReadsOnly) (t : Tree) (faults : Faults) :
    ∀ u ∈ p.trees t faults, u = t := by
  induction p generalizing faults with
  | done a => exact fun u hu => List.mem_singleton.1 hu
  | ask r next ih =>
    intro u hu
    have ht : (r.meet faults t).2 = t := r.meet_of_looks h.1 faults t
    rcases List.mem_cons.1 hu with rfl | hu
    · rfl
    · change u ∈ (next (r.meet faults t).1).trees (r.meet faults t).2 faults.tail at hu
      rw [ht] at hu
      exact ih _ (h.2 _) faults.tail u hu

/-- The states a disk goes through are those of the first part and those of the rest. -/
theorem mem_trees_bind {p : Program α} {f : α → Program β} {t u : Tree} {faults : Faults}
    (h : u ∈ (p.bind f).trees t faults) :
    u ∈ p.trees t faults ∨
      u ∈ (f (p.run t faults).1).trees (p.run t faults).2.1 (p.run t faults).2.2 := by
  induction p generalizing t faults with
  | done a => exact Or.inr h
  | ask r next ih =>
    rcases List.mem_cons.1 h with rfl | h
    · exact Or.inl List.mem_cons_self
    · exact (ih _ h).imp_left (List.mem_cons_of_mem _)

theorem trees_request_then (r : Request) (f : Except OsError r.Reply → Program α) (t : Tree)
    (faults : Faults) :
    (request r >>= f).trees t faults =
      t :: (f (r.meet faults t).1).trees (r.meet faults t).2 faults.tail := rfl

/-- The state in which a disk is left is one it went through. -/
theorem run_mem_trees (p : Program α) (t : Tree) (faults : Faults) :
    (p.run t faults).2.1 ∈ p.trees t faults := by
  induction p generalizing t faults with
  | done a => exact List.mem_singleton_self t
  | ask r next ih => exact List.mem_cons_of_mem _ (ih _ _ _)

/-- Those of a task and of what follows it when it succeeds. -/
theorem mem_trees_task_bind {ε : Type} {x : ExceptT ε Program α} {f : α → ExceptT ε Program β}
    {t u : Tree} {faults : Faults} (h : u ∈ (x >>= f).run.trees t faults) :
    u ∈ x.run.trees t faults ∨ ∃ a, (x.run.run t faults).1 = .ok a ∧
      u ∈ (f a).run.trees (x.run.run t faults).2.1 (x.run.run t faults).2.2 := by
  rw [ExceptT.run_bind] at h
  rcases mem_trees_bind h with h | h
  · exact Or.inl h
  · cases hx : (x.run.run t faults).1 with
    | ok a =>
      rw [hx] at h
      exact Or.inr ⟨a, rfl, h⟩
    | error e =>
      rw [hx] at h
      rw [List.mem_singleton.1 h]
      exact Or.inl (run_mem_trees x.run t faults)

end Program

end Federation.Disk
