/-
  The grammar of training commands.

  * `IsArgument`: names and values that may stand on the command line;
  * `renderArguments_eq_ok_iff`, `build_eq_ok_iff`: what is accepted, and what comes of it;
  * `flatMap_flagged_injective`: flagged pairs can be told from the words they make;
  * `build_grammar`: a command is built exactly for words in place, and its words determine the
    named arguments.
-/
import Federation.Proofs.Task.Word

namespace Federation

namespace TaskConfig

/-- The named arguments as they are written. -/
def rendered (task : TaskConfig) : List (String × String) :=
  task.args.entries.map fun e => (e.1, e.2.display)

end TaskConfig

namespace TrainingCommand

variable {name : String} {value : ArgValue} {words : List String}

/-! ## Named arguments -/

structure IsArgument (name : String) (value : ArgValue) : Prop where
  isWord : IsWord name
  undashed : name.toList.head? ≠ some '-'
  ne_modelIn : name ≠ modelIn
  ne_modelOut : name ≠ modelOut
  display : IsWord value.display

/-- A pair as two words of the command line. -/
def flagged (e : String × String) : List String := [flag e.1, e.2]

theorem renderArgument_eq_ok_iff :
    renderArgument name value = .ok words ↔
      IsArgument name value ∧ words = flagged (name, value.display) := by
  unfold renderArgument
  rw [bind_eq_ok_iff]
  constructor
  · rintro ⟨checked, hname, h⟩
    obtain ⟨rfl, hword⟩ := checkToken_eq_ok_iff.1 hname
    split at h
    · cases h
    · next hdash =>
      split at h
      · cases h
      · next hreserved =>
        simp only [Bool.or_eq_true, decide_eq_true_eq, not_or] at hreserved
        obtain ⟨written, hvalue, h⟩ := bind_eq_ok_iff.1 h
        obtain ⟨rfl, hdisplay⟩ := checkToken_eq_ok_iff.1 hvalue
        cases h
        exact ⟨⟨hword, hdash, hreserved.1, hreserved.2, hdisplay⟩, rfl⟩
  · rintro ⟨h, rfl⟩
    refine ⟨name, checkToken_eq_ok_iff.2 ⟨rfl, h.isWord⟩, ?_⟩
    rw [if_neg h.undashed, if_neg (by simp [h.ne_modelIn, h.ne_modelOut])]
    exact bind_eq_ok_iff.2 ⟨_, checkToken_eq_ok_iff.2 ⟨rfl, h.display⟩, rfl⟩

theorem renderArguments_eq_ok_iff {es : List (String × ArgValue)} :
    renderArguments es = .ok words ↔
      (∀ e ∈ es, IsArgument e.1 e.2) ∧ words = es.flatMap fun e => flagged (e.1, e.2.display) := by
  induction es generalizing words with
  | nil => simp [renderArguments, eq_comm]
  | cons e es ih =>
    rw [renderArguments, bind_eq_ok_iff, List.forall_mem_cons, List.flatMap_cons]
    constructor
    · rintro ⟨first, hfirst, h⟩
      obtain ⟨others, hothers, h⟩ := bind_eq_ok_iff.1 h
      obtain ⟨he, rfl⟩ := renderArgument_eq_ok_iff.1 hfirst
      obtain ⟨hes, rfl⟩ := ih.1 hothers
      cases h
      exact ⟨⟨he, hes⟩, rfl⟩
    · rintro ⟨⟨he, hes⟩, rfl⟩
      refine ⟨_, renderArgument_eq_ok_iff.2 ⟨he, rfl⟩, ?_⟩
      exact bind_eq_ok_iff.2 ⟨_, ih.2 ⟨hes, rfl⟩, rfl⟩

theorem failsInvalid_renderArgument (name : String) (value : ArgValue) :
    FailsInvalid (renderArgument name value) := by
  refine (failsInvalid_checkToken _ _).bind fun name => ?_
  split
  · exact .error _
  · split
    · exact .error _
    · exact (failsInvalid_checkToken _ _).bind fun value => .ok _

theorem failsInvalid_renderArguments :
    ∀ es : List (String × ArgValue), FailsInvalid (renderArguments es)
  | [] => .ok _
  | (name, value) :: es =>
    (failsInvalid_renderArgument name value).bind fun _ =>
      (failsInvalid_renderArguments es).bind fun _ => .ok _

/-! ## Commands -/

section
variable {task : TaskConfig} {pathIn pathOut : Option (List UInt8)} {command : TrainingCommand}

/-- The words that stand before the named arguments. -/
def front (task : TaskConfig) (textIn textOut : String) : List String :=
  (if task.interpreter.isSome then [task.script] else []) ++
    [flag modelIn, textIn, flag modelOut, textOut]

/-- The command of a task, unchecked. -/
def written (task : TaskConfig) (textIn textOut : String) : TrainingCommand :=
  ⟨task.interpreter.getD task.script, front task textIn textOut ++ task.rendered.flatMap flagged⟩

/-- What a command can be built for. -/
structure Buildable (task : TaskConfig) (textIn textOut : String) : Prop where
  script : IsWord task.script
  pathIn : IsWord textIn
  pathOut : IsWord textOut
  interpreter : ∀ i ∈ task.interpreter, IsWord i
  args : ∀ e ∈ task.args.entries, IsArgument e.1 e.2

/-- The interpreter checked, if there is one; the script has been. -/
def checkProgram (task : TaskConfig) : Except FederationError String :=
  match task.interpreter with
  | some interpreter => checkToken "interpreter" interpreter
  | none => .ok task.script

theorem checkProgram_eq_ok_iff {program : String} :
    checkProgram task = .ok program ↔
      program = task.interpreter.getD task.script ∧ ∀ i ∈ task.interpreter, IsWord i := by
  unfold checkProgram
  cases task.interpreter with
  | none => simp [eq_comm]
  | some i => simp [checkToken_eq_ok_iff]

/-- The checks in order, then the words as they are. -/
theorem build_eq :
    build task pathIn pathOut =
      checkToken "script" task.script >>= fun _ =>
      checkPath modelIn pathIn >>= fun textIn =>
      checkPath modelOut pathOut >>= fun textOut =>
      checkProgram task >>= fun program =>
      renderArguments task.args.entries >>= fun named =>
      .ok ⟨program, front task textIn textOut ++ named⟩ := by
  unfold build checkProgram front
  cases hscript : checkToken "script" task.script with
  | error e => rfl
  | ok script =>
    obtain ⟨rfl, -⟩ := checkToken_eq_ok_iff.1 hscript
    cases task.interpreter <;> rfl

theorem build_eq_ok_iff :
    build task pathIn pathOut = .ok command ↔
      ∃ textIn textOut, pathIn = some (utf8Encode textIn) ∧ pathOut = some (utf8Encode textOut) ∧
        Buildable task textIn textOut ∧ command = written task textIn textOut := by
  simp only [build_eq, bind_eq_ok_iff, checkToken_eq_ok_iff, checkPath_eq_ok_iff,
    checkProgram_eq_ok_iff, renderArguments_eq_ok_iff]
  have hnamed : (task.args.entries.flatMap fun e => flagged (e.1, e.2.display)) =
      task.rendered.flatMap flagged := (List.flatMap_map ..).symm
  rw [hnamed]
  constructor
  · rintro ⟨_, ⟨-, hscript⟩, textIn, ⟨hpathIn, hin⟩, textOut, ⟨hpathOut, hout⟩, _, ⟨rfl, hprogram⟩,
      _, ⟨hargs, rfl⟩, hcommand⟩
    cases hcommand
    exact ⟨textIn, textOut, hpathIn, hpathOut, ⟨hscript, hin, hout, hprogram, hargs⟩, rfl⟩
  · rintro ⟨textIn, textOut, hpathIn, hpathOut, h, rfl⟩
    exact ⟨_, ⟨rfl, h.script⟩, textIn, ⟨hpathIn, h.pathIn⟩, textOut, ⟨hpathOut, h.pathOut⟩, _,
      ⟨rfl, h.interpreter⟩, _, ⟨h.args, rfl⟩, rfl⟩

theorem failsInvalid_build (task : TaskConfig) (pathIn pathOut : Option (List UInt8)) :
    FailsInvalid (build task pathIn pathOut) := by
  have hprogram : FailsInvalid (checkProgram task) := by
    unfold checkProgram
    split
    · exact failsInvalid_checkToken _ _
    · exact .ok _
  rw [build_eq]
  refine (failsInvalid_checkToken _ _).bind fun _ => ?_
  refine (failsInvalid_checkPath _ _).bind fun textIn => ?_
  refine (failsInvalid_checkPath _ _).bind fun textOut => hprogram.bind fun program => ?_
  exact (failsInvalid_renderArguments _).bind fun named => .ok _

end

/-! ## What a command says -/

theorem flag_injective {name name' : String} (h : flag name = flag name') : name = name' := by
  have := congrArg String.toList h
  simp only [flag, String.toList_append] at this
  exact String.toList_inj.1 (List.append_cancel_left this)

theorem length_flatMap_flagged (es : List (String × String)) :
    (es.flatMap flagged).length = 2 * es.length := by
  induction es with
  | nil => rfl
  | cons e es ih =>
    have hpair : (flagged e).length = 2 := rfl
    rw [List.flatMap_cons, List.length_append, ih, List.length_cons, hpair]
    omega

theorem flatMap_flagged_injective :
    ∀ {es es' : List (String × String)}, es.flatMap flagged = es'.flatMap flagged → es = es'
  | [], [], _ => rfl
  | [], _ :: _, h => by cases h
  | _ :: _, [], h => by cases h
  | (name, value) :: es, (name', value') :: es', h => by
    simp only [List.flatMap_cons, flagged, List.cons_append, List.nil_append, List.cons.injEq] at h
    obtain ⟨hname, rfl, h⟩ := h
    rw [flag_injective hname, flatMap_flagged_injective h]

/-- Two tasks that are written alike have their named arguments written alike: the number of words
is odd just when the script stands among them. -/
theorem rendered_of_written {task task' : TaskConfig} {textIn textOut textIn' textOut' : String}
    (h : written task textIn textOut = written task' textIn' textOut') :
    task.rendered = task'.rendered := by
  have hargs : front task textIn textOut ++ task.rendered.flatMap flagged =
      front task' textIn' textOut' ++ task'.rendered.flatMap flagged :=
    congrArg TrainingCommand.args h
  have hlength := congrArg List.length hargs
  have hfront : (front task textIn textOut).length = (front task' textIn' textOut').length := by
    simp only [List.length_append, length_flatMap_flagged, front, List.length_cons,
      List.length_nil] at hlength ⊢
    split <;> split <;> simp_all <;> omega
  exact flatMap_flagged_injective (List.append_inj_right hargs hfront)

/-- Made of the characters of words. -/
def Safe (word : String) : Prop := ∀ c ∈ word.toList, IsWordChar c

theorem safe_flag {name : String} (h : Safe name) : Safe (flag name) := by
  intro c hc
  rw [flag, String.toList_append, List.mem_append] at hc
  rcases hc with hc | hc
  · have hdash : c = '-' := by simpa using hc
    exact .inr (.inr (.inr (by simp [hdash])))
  · exact h c hc

theorem safe_model : Safe modelIn ∧ Safe modelOut := by
  have hall : (modelIn.toList ++ modelOut.toList).all isSafeChar = true := by decide +kernel
  rw [List.all_append, Bool.and_eq_true, List.all_eq_true, List.all_eq_true] at hall
  exact ⟨fun c hc => isSafeChar_iff.1 (hall.1 c hc), fun c hc => isSafeChar_iff.1 (hall.2 c hc)⟩

theorem safe_front {task : TaskConfig} {textIn textOut : String}
    (h : Buildable task textIn textOut) : ∀ word ∈ front task textIn textOut, Safe word := by
  intro word hword
  rcases List.mem_append.1 hword with hword | hword
  · split at hword
    · rw [List.mem_singleton.1 hword]
      exact h.script.safe
    · cases hword
  · simp only [List.mem_cons, List.not_mem_nil, or_false] at hword
    rcases hword with rfl | rfl | rfl | rfl
    · exact safe_flag safe_model.1
    · exact h.pathIn.safe
    · exact safe_flag safe_model.2
    · exact h.pathOut.safe

theorem safe_flagged {name : String} {value : ArgValue} (h : IsArgument name value) :
    ∀ word ∈ flagged (name, value.display), Safe word := by
  intro word hword
  simp only [flagged, List.mem_cons, List.not_mem_nil, or_false] at hword
  rcases hword with rfl | rfl
  · exact safe_flag h.isWord.safe
  · exact h.display.safe

theorem safe_written {task : TaskConfig} {textIn textOut : String}
    (h : Buildable task textIn textOut) :
    ∀ word ∈ (written task textIn textOut).program :: (written task textIn textOut).args,
      Safe word := by
  intro word hword
  rcases List.mem_cons.1 hword with rfl | hword
  · have hprogram : (written task textIn textOut).program = task.interpreter.getD task.script := rfl
    rw [hprogram]
    cases hi : task.interpreter with
    | none => exact h.script.safe
    | some i => exact (h.interpreter i hi).safe
  · rcases List.mem_append.1 hword with hword | hword
    · exact safe_front h word hword
    · obtain ⟨e, he, hword⟩ := List.mem_flatMap.1 hword
      obtain ⟨⟨name, value⟩, hmem, rfl⟩ := List.mem_map.1 he
      exact safe_flagged (h.args _ hmem) word hword

/-- Names strictly increase as bytes, too. -/
theorem Buildable.increasing {task : TaskConfig} {textIn textOut : String}
    (h : Buildable task textIn textOut) :
    task.rendered.Pairwise fun e e' => utf8Encode e.1 < utf8Encode e'.1 := by
  rw [TaskConfig.rendered, List.pairwise_map]
  refine task.args.sorted.imp_of_mem fun hmem hmem' hlt => ?_
  exact (h.args _ hmem).isWord.utf8Encode_lt (h.args _ hmem').isWord hlt

/-- **Commands are built exactly for words in place.**  Whatever the task and the paths, there is a
command just when the script, the two paths as texts, the interpreter if there is one, and each
argument's name and written value are words, and no name begins with a dash or is reserved; any
failure is an invalid argument.  The command runs the interpreter, or else the script; its words are
the script if there is an interpreter, the two paths as options, and the named arguments in strictly
increasing order of their names' bytes.  All are made of the characters of words, and every task
with this command, for whatever paths, has the same names with the same written values. -/
theorem build_grammar (task : TaskConfig) (pathIn pathOut : Option (List UInt8)) :
    ((∃ command, build task pathIn pathOut = .ok command) ↔
      IsWord task.script ∧
      (∃ text, pathIn = some (utf8Encode text) ∧ IsWord text) ∧
      (∃ text, pathOut = some (utf8Encode text) ∧ IsWord text) ∧
      (∀ interpreter ∈ task.interpreter, IsWord interpreter) ∧
      ∀ e ∈ task.args.entries, IsWord e.1 ∧ e.1.toList.head? ≠ some '-' ∧
        e.1 ≠ "model-in" ∧ e.1 ≠ "model-out" ∧ IsWord e.2.display) ∧
    (∀ e, build task pathIn pathOut = .error e → ∃ text, e = .invalidArgument text) ∧
    ∀ command, build task pathIn pathOut = .ok command →
      command.program = task.interpreter.getD task.script ∧
      (∃ textIn textOut, pathIn = some (utf8Encode textIn) ∧ pathOut = some (utf8Encode textOut) ∧
        command.args =
          (if task.interpreter.isSome then [task.script] else []) ++
            ["--model-in", textIn, "--model-out", textOut] ++
            task.rendered.flatMap fun e => ["--" ++ e.1, e.2]) ∧
      task.rendered.Pairwise (fun e e' => utf8Encode e.1 < utf8Encode e'.1) ∧
      (∀ word ∈ command.program :: command.args, ∀ c ∈ word.toList, IsWordChar c) ∧
      ∀ task' pathIn' pathOut', build task' pathIn' pathOut' = .ok command →
        task'.rendered = task.rendered := by
  refine ⟨?_, failsInvalid_build task pathIn pathOut, fun command hbuild => ?_⟩
  · simp only [build_eq_ok_iff]
    constructor
    · rintro ⟨_, textIn, textOut, hin, hout, h, -⟩
      refine ⟨h.script, ⟨textIn, hin, h.pathIn⟩, ⟨textOut, hout, h.pathOut⟩, h.interpreter, ?_⟩
      intro e he
      have := h.args e he
      exact ⟨this.isWord, this.undashed, this.ne_modelIn, this.ne_modelOut, this.display⟩
    · rintro ⟨hscript, ⟨textIn, hin, hpathIn⟩, ⟨textOut, hout, hpathOut⟩, hinterpreter, hargs⟩
      refine ⟨_, textIn, textOut, hin, hout, ⟨hscript, hpathIn, hpathOut, hinterpreter, ?_⟩, rfl⟩
      intro e he
      obtain ⟨hword, hdash, hne, hne', hdisplay⟩ := hargs e he
      exact ⟨hword, hdash, hne, hne', hdisplay⟩
  · obtain ⟨textIn, textOut, hin, hout, h, rfl⟩ := build_eq_ok_iff.1 hbuild
    refine ⟨rfl, ⟨textIn, textOut, hin, hout, rfl⟩, h.increasing, safe_written h, ?_⟩
    intro task' pathIn' pathOut' hbuild'
    obtain ⟨_, _, -, -, -, hwritten⟩ := build_eq_ok_iff.1 hbuild'
    exact (rendered_of_written hwritten).symm

example :
    let task : TaskConfig :=
      ⟨"train.py", some "python3", .ofList [("rate", .text "0.01"), ("epochs", .int 2)]⟩
    build task (some (utf8Encode "model.bin")) (some (utf8Encode "update.bin")) =
      .ok ⟨"python3", ["train.py", "--model-in", "model.bin", "--model-out", "update.bin",
        "--epochs", "2", "--rate", "0.01"]⟩ := by
  decide +kernel

end TrainingCommand

end Federation
