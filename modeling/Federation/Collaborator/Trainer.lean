/-
  The external training step.

  * `tail`: the end of what a failed trainer complained about;
  * `runTrainer`: build the command, start it, and judge how it ended.
-/
import Federation.Host.Process
import Federation.Task

namespace Federation

/-- Longer complaints are cut to their end. -/
def complaintLength : Nat := 512

/-- The text without white space at its end; one of more than `complaintLength` characters is cut to
its last `complaintLength + 1`, with dots in front. -/
def tailChars (text : List Char) : List Char :=
  let text := trimEnd text
  if text.length ≤ complaintLength then text
  else "...".toList ++ text.drop (text.length - (complaintLength + 1))

def tail (bytes : List UInt8) : String := String.ofList (tailChars (utf8LossyChars bytes))

/-- Judge a trainer that has ended. -/
def trainerVerdict (ending : Host.Ending) (complaint : List UInt8) : Except FederationError Unit :=
  if ending.isSuccess then .ok ()
  else
    .error (.trainingFailure ("trainer exited with " ++ ending.display ++ ": " ++ tail complaint))

/-- Run a task's command on a disk. -/
def runTrainer (task : TaskConfig) (pathIn pathOut : Option (List UInt8)) (t : Disk.Tree) :
    Except FederationError Unit × Disk.Tree :=
  match TrainingCommand.build task pathIn pathOut with
  | .error e => (.error e, t)
  | .ok cmd =>
    match Host.launch cmd.program cmd.args t with
    | .error e =>
      (.error (.trainingFailure ("cannot start " ++ cmd.program ++ ": " ++ e.message)), t)
    | .ok w => (trainerVerdict w.ending w.err, w.tree)

end Federation
