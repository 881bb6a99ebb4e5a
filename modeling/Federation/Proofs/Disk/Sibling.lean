/-
  Two names in one directory.

  * `Tree.Rooted`: whatever is there lies in a directory;
  * `Tree.above`, `Tree.resolve_below`: a path, taken apart at the last name that counts;
  * `Tree.OnlyAt.find_sibling`: a change at the one name leaves what is found under the other;
  * `Tree.isDirectory_of_fileName?_none`: a path without a last name leads to a directory.
-/
import Federation.Proofs.Disk.Program
import Federation.Proofs.Path

namespace Federation.Disk

namespace Tree

variable {t t' : Tree} {l l' m : Location} {path : String}

/-- Whatever is there lies in a directory. -/
def Rooted (t : Tree) : Prop := ∀ l n, t.node? l = some n → t.IsDirectory l.dropLast

theorem Rooted.of_nodes (h : ∀ e ∈ t.nodes, t.IsDirectory e.1.dropLast) : t.Rooted := by
  intro l n hn
  unfold node? at hn
  split at hn
  · next hl =>
    rw [List.isEmpty_iff.1 hl]
    exact ⟨_, rfl⟩
  · obtain ⟨before, after, hnodes, -⟩ := List.lookup_eq_some_iff.1 hn
    refine h (l, n) ?_
    rw [hnodes]
    exact List.mem_append_right before List.mem_cons_self

/-! ## Steps -/

/-- A step depends on the node that it leaves. -/
theorem step_congr (h : t'.node? l = t.node? l) (name : List Char) :
    t'.step l name = t.step l name := by
  unfold step
  rw [h]

theorem step_of_idle {s : List Char} (hs : isIdle s = true) (hd : t.IsDirectory l) :
    t.step l s = .ok l := by
  obtain ⟨mode, hmode⟩ := hd
  unfold step
  rw [hmode]
  exact if_pos hs

/-- A step down leads to the name, if it leads anywhere. -/
theorem step_of_busy {name : List Char} (hbusy : isIdle name = false) (hup : name ≠ ['.', '.'])
    (h : t.step l name = .ok m) : m = l ++ [String.ofList name] := by
  obtain ⟨mode, hmode⟩ := isDirectory_of_step h
  unfold step at h
  rw [hmode] at h
  simp only [hbusy, Bool.false_eq_true, if_false, if_neg hup] at h
  split at h
  · cases h
  · exact (Except.ok.inj h).symm

theorem step_up (h : t.step l ['.', '.'] = .ok m) : m = l.dropLast := by
  obtain ⟨mode, hmode⟩ := isDirectory_of_step h
  unfold step at h
  rw [hmode] at h
  exact (Except.ok.inj h).symm

theorem walk_cons (t : Tree) (l : Location) (name : List Char) (names : List (List Char)) :
    t.walk l (name :: names) = t.step l name >>= fun m => t.walk m names := List.foldlM_cons ..

/-- Segments that name nothing lead nowhere, and there has to be a directory. -/
theorem walk_idles {idles : List (List Char)} (hidle : ∀ s ∈ idles, isIdle s = true)
    (h : t.walk l idles = .ok m) : m = l ∧ (idles ≠ [] → t.IsDirectory l) := by
  induction idles with
  | nil => exact ⟨(Except.ok.inj h).symm, absurd rfl⟩
  | cons s ss ih =>
    obtain ⟨hs, hss⟩ := List.forall_mem_cons.1 hidle
    rw [walk_cons] at h
    cases hstep : t.step l s with
    | error e => rw [hstep] at h; cases h
    | ok l' =>
      have hd := isDirectory_of_step hstep
      have hl : l' = l := by
        rw [step_of_idle hs hd] at hstep
        exact (Except.ok.inj hstep).symm
      subst hl
      rw [hstep] at h
      exact ⟨(ih hss h).1, fun _ => hd⟩

/-- They do so whatever is elsewhere. -/
theorem walk_idles_congr {idles : List (List Char)} (hidle : ∀ s ∈ idles, isIdle s = true)
    (h : t'.node? l = t.node? l) : t'.walk l idles = t.walk l idles := by
  induction idles with
  | nil => rfl
  | cons s ss ih =>
    obtain ⟨hs, hss⟩ := List.forall_mem_cons.1 hidle
    rw [walk_cons, walk_cons, step_congr h]
    cases hstep : t.step l s with
    | error e => rfl
    | ok l' =>
      have hl : l' = l := by
        rw [step_of_idle hs (isDirectory_of_step hstep)] at hstep
        exact (Except.ok.inj hstep).symm
      subst hl
      exact ih hss

/-! ## The last name on the way -/

/-- Where the segments before a name lead; an empty one in front is the slash of an absolute
path. -/
def above (t : Tree) (before : List (List Char)) : Except OsError Location :=
  if before.head? = some [] then t.walk [] before.tail else t.walk t.workplace before

/-- A path is the way to a name, the name, and what follows it. -/
theorem resolve_below {before rest : List (List Char)} {name : List Char}
    (h : segments path.toList = before ++ name :: rest) (hname : name ≠ []) :
    t.resolve path = t.above before >>= fun l => t.walk l (name :: rest) := by
  have hne : path.toList ≠ [] := by
    intro he
    rw [he] at h
    cases before with
    | nil => exact hname (List.cons.inj h).1.symm
    | cons s ss =>
      have := (List.cons.inj h).2
      simp at this
  rw [resolve_eq t hne, h]
  by_cases hhead : before.head? = some []
  · obtain ⟨ss, rfl⟩ : ∃ ss, before = [] :: ss := by
      cases before with
      | nil => cases hhead
      | cons s ss => exact ⟨ss, by rw [Option.some.inj hhead]⟩
    have habs : isAbsolute path.toList = true :=
      isAbsolute_iff.2 ⟨ss ++ name :: rest, by simp, h⟩
    rw [habs, above, if_pos hhead]
    exact walk_append ..
  · have habs : isAbsolute path.toList = false := by
      rw [Bool.eq_false_iff]
      intro habs
      obtain ⟨rest', -, hrest⟩ := isAbsolute_iff.1 habs
      rw [h] at hrest
      cases before with
      | nil => exact hname (List.cons.inj hrest).1
      | cons s ss => exact hhead (congrArg some (List.cons.inj hrest).1)
    rw [habs, above, if_neg hhead]
    exact walk_append ..

/-- A change at one name in a directory leaves what is found under another one there. -/
theorem OnlyAt.find_sibling {draft : String} {before idles : List (List Char)}
    {name other : List Char} (hpath : segments path.toList = before ++ name :: idles)
    (hdraft : segments draft.toList = before ++ [other]) (hname : isIdle name = false)
    (hup : name ≠ ['.', '.']) (hother : isIdle other = false) (hother' : other ≠ ['.', '.'])
    (hidle : ∀ s ∈ idles, isIdle s = true) (hne : other ≠ name)
    (hl : t.resolve draft = .ok l) (h : OnlyAt l t t') : t'.find path = t.find path := by
  have busy : ∀ {s : List Char}, isIdle s = false → s ≠ [] := by
    rintro _ hs rfl
    cases hs
  rw [resolve_below hdraft (busy hother)] at hl
  -- both names are looked for in the same directory
  cases habove : t.above before with
  | error e => rw [habove] at hl; cases hl
  | ok d =>
    rw [habove] at hl
    have hstep : t.step d other = .ok l := (walk_singleton t d other).symm.trans hl
    have hld := step_of_busy hother hother' hstep
    have habove' : t'.above before = .ok d := by
      unfold above at habove ⊢
      split
      · next hhead =>
        rw [if_pos hhead] at habove
        exact h.walk habove
      · next hhead =>
        rw [if_neg hhead] at habove
        rw [h.workplace]
        exact h.walk habove
    have hd : t'.node? d = t.node? d := h.elsewhere d (by rw [hld]; simp)
    unfold find
    rw [resolve_below hpath (busy hname), resolve_below hpath (busy hname), habove, habove']
    change (t'.walk d (name :: idles) >>= _) = t.walk d (name :: idles) >>= _
    rw [walk_cons, walk_cons, step_congr hd]
    cases hs : t.step d name with
    | error e => rfl
    | ok m =>
      have hm : m ≠ l := by
        rw [step_of_busy hname hup hs, hld]
        intro he
        have := List.append_cancel_left he
        exact hne (String.ofList_injective (List.cons.inj this).1).symm
      have hnode : t'.node? m = t.node? m := h.elsewhere m hm
      change (t'.walk m idles >>= _) = t.walk m idles >>= _
      rw [walk_idles_congr hidle hnode]
      cases hw : t.walk m idles with
      | error e => rfl
      | ok m' =>
        rw [(walk_idles hidle hw).1]
        simp only [bind, Except.bind, hnode]

/-- A path without a last name leads to a directory, if it leads anywhere. -/
theorem isDirectory_of_fileName?_none (ht : t.Rooted) (hname : fileName? path.toList = none)
    (h : t.resolve path = .ok l) : t.IsDirectory l := by
  rcases of_fileName?_none hname with hidle | ⟨before, idles, hseg, -, hidle⟩
  · have hne : path.toList ≠ [] := by
      intro he
      rw [String.toList_inj.1 (he.trans rfl : path.toList = "".toList)] at h
      cases h
    rw [resolve_eq t hne] at h
    obtain ⟨rfl, hd⟩ := walk_idles (fun s hs => hidle s (List.mem_of_mem_drop hs)) h
    refine hd ?_
    split
    · next habs =>
      obtain ⟨rest, hrest, hs⟩ := isAbsolute_iff.1 habs
      rw [hs]
      exact hrest
    · exact splitAt_ne_nil '/' path.toList
  · rw [resolve_below hseg (by simp)] at h
    cases habove : t.above before with
    | error e => rw [habove] at h; cases h
    | ok d =>
      rw [habove] at h
      change t.walk d (['.', '.'] :: idles) = .ok l at h
      rw [walk_cons] at h
      cases hs : t.step d ['.', '.'] with
      | error e => rw [hs] at h; cases h
      | ok m =>
        rw [hs] at h
        obtain ⟨mode, hmode⟩ := isDirectory_of_step hs
        rw [(walk_idles hidle h).1, step_up hs]
        exact ht d _ hmode

end Tree

end Federation.Disk
