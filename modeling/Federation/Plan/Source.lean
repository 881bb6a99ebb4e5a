/-
  Where plans come from: YAML text, JSON values, and plan files with overrides from the environment.
-/
import Federation.Disk.Program
import Federation.Plan.Decode
import Federation.Yaml.Document

namespace Federation.FederationPlan

/-- Give settings their types, then check the plan. -/
def ofSetting (d : Dialect) (s : Setting) : Except FederationError FederationPlan :=
  match d.plan s with
  | none => .error (.configuration "invalid plan")
  | some p =>
    match p.validate with
    | .ok () => .ok p
    | .error e => .error e

/-- A plan from the text of a plan file. -/
def ofYaml (text : String) : Except FederationError FederationPlan :=
  match Yaml.settings text with
  | none => .error (.configuration "failed to parse plan")
  | some source => ofSetting .lenient (.ofSource source)

/-- A plan from a JSON value; `none` when the types do not fit. -/
def ofJson (v : Json) : Option (Except FederationError FederationPlan) :=
  (Dialect.strict.plan (.ofJson v)).map fun p =>
    match p.validate with
    | .ok () => .ok p
    | .error e => .error e

/-! ## Plan files -/

/-- Endings that are tried behind the full name of a plan file that is not there. -/
def spareEndings : List String := ["yaml", "yml"]

/-- The file that is meant: the path itself, or its name with one more ending. -/
def locate (path : String) : List String → Disk.Program (Option String)
  | [] => return none
  | candidate :: rest => do
    match ← Disk.Program.request (.isRegular candidate) with
    | .ok true => return some candidate
    | _ => locate path rest

def candidates (path : String) : List String :=
  let ending := ((extension? path.toList).map String.ofList).getD ""
  path :: spareEndings.map fun e => withExtension path (ending ++ "." ++ e)

/-- The top-level settings of a plan file. -/
def readSource (path : String) : Disk.Program (Option (List (String × Setting))) := do
  match ← locate path (candidates path) with
  | none => return none
  | some file =>
    match ← Disk.Program.request (.read file) with
    | .error _ => return none
    | .ok bytes => return (utf8Decode bytes).bind Yaml.settings

/-- Load a plan file; variables of the environment override what it says. -/
def load (path : String) (env : List (String × String)) :
    Disk.Program (Except FederationError FederationPlan) := do
  match validatePlanPath (utf8Encode path) with
  | .error e => return .error e
  | .ok () =>
    match ← readSource path with
    | none => return .error (.configuration ("failed to read plan " ++ path))
    | some source =>
      return ofSetting .lenient
        (Setting.overlay (environmentOverrides env) (.ofSource source))

end Federation.FederationPlan
