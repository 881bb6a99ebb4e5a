/-
  The options for the model paths on the command line.

  * `spells`: does a word give an option, alone or with a value after `=`?
  * `spells_flag`: a name gives an option if it is the option's, or goes on with `=` after it;
  * `countP_spells_written`: how often an option is given;
  * `reserved_given`: the paths are given where they should be, and given again by an argument name
    that goes on with `=`, by an argument value and by the script of an interpreter.
-/
import Federation.Proofs.Task.Command

namespace Federation

namespace TrainingCommand

def beginsWith (start word : String) : Bool := start.toList.isPrefixOf word.toList

/-- Does a word give an option, alone or with a value after `=`? -/
def spells (option word : String) : Bool :=
  word = flag option || beginsWith (flag option ++ "=") word

/-! ## Words that give an option -/

section
variable {option name word : String}

theorem spells_flag :
    spells option (flag name) = (decide (name = option) || beginsWith (option ++ "=") name) := by
  have hflag : flag name = flag option ↔ name = option := ⟨flag_injective, congrArg flag⟩
  have hrest : beginsWith (flag option ++ "=") (flag name) = beginsWith (option ++ "=") name := by
    simp only [beginsWith, flag, String.toList_append, List.append_assoc]
    rw [Bool.eq_iff_iff, List.isPrefixOf_iff_prefix, List.isPrefixOf_iff_prefix,
      List.prefix_append_right_inj]
  simp only [spells, hrest, hflag]

/-- A word that does not begin with a dash gives no option. -/
theorem not_spells_of_undashed (h : word.toList.head? ≠ some '-') : spells option word = false := by
  have hhead : (flag option).toList.head? = some '-' := by simp [flag]
  have hword : word ≠ flag option := by
    rintro rfl
    exact h hhead
  have hbegins : ¬ beginsWith (flag option ++ "=") word = true := by
    intro hb
    obtain ⟨rest, hrest⟩ := List.isPrefixOf_iff_prefix.1 hb
    rw [← hrest] at h
    exact h (by simp [flag])
  simp [spells, hword, hbegins]

/-- Neither of the two options gives the other. -/
theorem spells_reserved (h : option = modelIn ∨ option = modelOut) :
    [flag modelIn, flag modelOut].countP (spells option) = 1 := by
  rcases h with rfl | rfl <;> decide +kernel

end

/-! ## How often -/

section
variable {option : String}

theorem countP_spells_flagged {es : List (String × String)} (h : ∀ e ∈ es, e.1 ≠ option) :
    (es.flatMap flagged).countP (spells option) =
      es.countP (fun e => beginsWith (option ++ "=") e.1) +
        es.countP (fun e => spells option e.2) := by
  induction es with
  | nil => rfl
  | cons e es ih =>
    have hname : spells option (flag e.1) = beginsWith (option ++ "=") e.1 := by
      rw [spells_flag, decide_eq_false (h e List.mem_cons_self), Bool.false_or]
    have ih := ih fun e he => h e (List.mem_cons_of_mem _ he)
    simp only [List.flatMap_cons, flagged, List.cons_append, List.nil_append, List.countP_cons,
      hname, ih]
    omega

variable {task : TaskConfig} {textIn textOut : String}

theorem rendered_ne_reserved (h : Buildable task textIn textOut)
    (ho : option = modelIn ∨ option = modelOut) : ∀ e ∈ task.rendered, e.1 ≠ option := by
  intro e he
  obtain ⟨⟨name, value⟩, hmem, rfl⟩ := List.mem_map.1 he
  have := h.args _ hmem
  rcases ho with rfl | rfl
  · exact this.ne_modelIn
  · exact this.ne_modelOut

/-- Once for the path, and once more for each of the other words that give the option. -/
theorem countP_spells_written (h : Buildable task textIn textOut)
    (hin : textIn.toList.head? ≠ some '-') (hout : textOut.toList.head? ≠ some '-')
    (ho : option = modelIn ∨ option = modelOut) :
    (written task textIn textOut).args.countP (spells option) =
      1 + (if task.interpreter.isSome && spells option task.script then 1 else 0) +
        task.rendered.countP (fun e => beginsWith (option ++ "=") e.1) +
        task.rendered.countP (fun e => spells option e.2) := by
  have hpaths : [flag modelIn, textIn, flag modelOut, textOut].countP (spells option) = 1 := by
    have := spells_reserved ho
    simp only [List.countP_cons, List.countP_nil] at this ⊢
    simp only [not_spells_of_undashed hin, not_spells_of_undashed hout, Bool.false_eq_true,
      if_false]
    omega
  have hscript : (if task.interpreter.isSome then [task.script] else []).countP (spells option) =
      if task.interpreter.isSome && spells option task.script then 1 else 0 := by
    cases task.interpreter <;> cases hs : spells option task.script <;> simp [hs]
  have hargs : (written task textIn textOut).args =
    front task textIn textOut ++ task.rendered.flatMap flagged := rfl
  rw [hargs, front, List.countP_append, List.countP_append, hpaths, hscript,
    countP_spells_flagged (rendered_ne_reserved h ho)]
  omega

end

/-- **The paths are given where they should be, but not only there.**  Let a command be built for
paths that do not begin with a dash.  The path options stand at the front, after the script if there
is an interpreter.  Each of them is given once more by an interpreter's script that spells it, by
every argument name that goes on with `=` after it, and by every argument value that spells it; it
is given just once exactly when there is no such word. -/
theorem reserved_given (task : TaskConfig) (pathIn pathOut : List UInt8)
    {command : TrainingCommand} (hin : pathIn.head? ≠ some 0x2d) (hout : pathOut.head? ≠ some 0x2d)
    (h : build task (some pathIn) (some pathOut) = .ok command) :
    (let front := if task.interpreter.isSome then 1 else 0
     command.args[front]? = some "--model-in" ∧ command.args[front + 2]? = some "--model-out") ∧
    ∀ option ∈ ["model-in", "model-out"],
      command.args.countP (spells option) =
        1 + (if task.interpreter.isSome && spells option task.script then 1 else 0) +
          task.rendered.countP (fun e => beginsWith (option ++ "=") e.1) +
          task.rendered.countP (fun e => spells option e.2) ∧
      (command.args.countP (spells option) = 1 ↔
        (task.interpreter.isSome = true → spells option task.script = false) ∧
        ∀ e ∈ task.rendered,
          beginsWith (option ++ "=") e.1 = false ∧ spells option e.2 = false) := by
  obtain ⟨textIn, textOut, hpathIn, hpathOut, hb, rfl⟩ := build_eq_ok_iff.1 h
  cases hpathIn
  cases hpathOut
  have hundashed : ∀ text, IsWord text → (utf8Encode text).head? ≠ some 0x2d →
      text.toList.head? ≠ some '-' :=
    fun text hword hne hdash => hne ((hword.head_utf8Encode (x := '-') (by decide)).2 hdash)
  refine ⟨?_, fun option ho => ?_⟩
  · unfold written front
    cases task.interpreter <;> exact ⟨rfl, rfl⟩
  have hcount := countP_spells_written hb (hundashed _ hb.pathIn hin)
    (hundashed _ hb.pathOut hout) (List.mem_pair.1 ho)
  refine ⟨hcount, ?_⟩
  rw [hcount]
  have hnames : task.rendered.countP (fun e => beginsWith (option ++ "=") e.1) = 0 ↔
      ∀ e ∈ task.rendered, beginsWith (option ++ "=") e.1 = false := by simp
  have hvalues : task.rendered.countP (fun e => spells option e.2) = 0 ↔
      ∀ e ∈ task.rendered, spells option e.2 = false := by simp
  have hscript : (if task.interpreter.isSome && spells option task.script then 1 else 0) = 0 ↔
      (task.interpreter.isSome = true → spells option task.script = false) := by simp
  rw [← hscript, forall₂_and, ← hnames, ← hvalues]
  omega

/-- A task as one writes it. -/
theorem reserved_given_once :
    let task : TaskConfig := ⟨"train.py", some "python3", .ofList [("epochs", .int 2)]⟩
    let command : TrainingCommand :=
      ⟨"python3", ["train.py", "--model-in", "work/model.bin", "--model-out", "work/update.bin",
        "--epochs", "2"]⟩
    build task (some (utf8Encode "work/model.bin")) (some (utf8Encode "work/update.bin")) =
        .ok command ∧
      ∀ option ∈ ["model-in", "model-out"], command.args.countP (spells option) = 1 := by
  intro task command
  have h : build task (some (utf8Encode "work/model.bin")) (some (utf8Encode "work/update.bin")) =
      .ok command := by decide +kernel
  obtain ⟨-, hgiven⟩ := reserved_given task _ _ (by decide +kernel) (by decide +kernel) h
  refine ⟨h, fun option ho => ((hgiven option ho).2).2 ?_⟩
  simp only [List.mem_cons, List.not_mem_nil, or_false] at ho
  rcases ho with rfl | rfl <;> decide +kernel

/-- The reserved name with an `=` after it is not refused, and neither is a value that spells the
option: in both commands a second path for the update follows the one of the builder. -/
theorem reserved_given_again :
    let pathIn := utf8Encode "work/model.bin"
    let pathOut := utf8Encode "work/update.bin"
    let front := ["--model-in", "work/model.bin", "--model-out", "work/update.bin"]
    let name : TaskConfig := ⟨"train.sh", none, .ofList [("model-out=elsewhere", .text "x")]⟩
    let value : TaskConfig := ⟨"train.sh", none, .ofList [("tag", .text "--model-out=elsewhere")]⟩
    let named : TrainingCommand := ⟨"train.sh", front ++ ["--model-out=elsewhere", "x"]⟩
    let valued : TrainingCommand := ⟨"train.sh", front ++ ["--tag", "--model-out=elsewhere"]⟩
    pathIn.head? ≠ some 0x2d ∧ pathOut.head? ≠ some 0x2d ∧
      build name (some pathIn) (some pathOut) = .ok named ∧
      named.args.countP (spells "model-out") = 2 ∧
      build value (some pathIn) (some pathOut) = .ok valued ∧
      valued.args.countP (spells "model-out") = 2 := by
  decide +kernel

end TrainingCommand

end Federation
