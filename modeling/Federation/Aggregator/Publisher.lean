/-
  The model file of the aggregator.

  A new model is first written beside the output, under the ending `tmp`, and then moved over it.
  A failure is not passed on; the version of the output is then still that of the last success.
-/
import Federation.Disk.Program
import Federation.Model

namespace Federation

open Disk (Program)

structure Publisher where
  /-- Where models are written; nowhere without a path. -/
  output : Option String
  /-- The version written last, zero before the first. -/
  writtenVersion : Nat
  deriving DecidableEq, Repr

namespace Publisher

def create (output : Option String) : Publisher := ⟨output, 0⟩

/-- Where a model is written before it is moved to the output. -/
def draftPath (output : String) : String := withExtension output "tmp"

def draftMode : Nat := 0o666

/-- Write a file by way of a draft: did it work? -/
def replace (output : String) (content : List UInt8) : Program Bool := do
  match ← Program.request (.overwrite (draftPath output) draftMode content) with
  | .error _ => return false
  | .ok () =>
    match ← Program.request (.rename (draftPath output) output) with
    | .error _ => return false
    | .ok () => return true

/-- Write a model that is newer than the one written last. -/
def publish (p : Publisher) (v : ModelView) : Program Publisher :=
  match p.output with
  | none => return p
  | some output =>
    if v.version ≤ p.writtenVersion then return p
    else do
      let written ← replace output v.model
      return if written then { p with writtenVersion := v.version } else p

end Publisher

end Federation
