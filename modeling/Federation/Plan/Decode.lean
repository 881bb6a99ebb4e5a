/-
  From untyped settings to a plan.

  Records are read from tables by field name, or from lists by field position.  A field that is
  left out takes its default; one that is present must have the right type, `nil` included.
-/
import Federation.Plan.Setting

namespace Federation

/-- A record being read: each field's setting, when it is given. -/
abbrev Fields := String → Option Setting

namespace Dialect

variable (d : Dialect)

/-- The fields of a record with the given names. -/
def fields (names : List String) : Setting → Option Fields
  | .table entries => some fun n => entries.lookup n
  | .list items =>
    if names.length < items.length && !d.spareItems then none
    else some fun n => (names.zip items).lookup n
  | _ => none

/-! ## Fields -/

/-- A field with a default. -/
def orElse {α : Type} (read : Setting → Option α) (default : α) (fs : Fields) (name : String) :
    Option α :=
  match fs name with
  | none => some default
  | some s => read s

/-- A field that must be there. -/
def required {α : Type} (read : Setting → Option α) (fs : Fields) (name : String) : Option α :=
  (fs name).bind read

/-- A field that may be left out or `nil`. -/
def optional {α : Type} (read : Setting → Option α) (fs : Fields) (name : String) :
    Option (Option α) :=
  match fs name with
  | none | some .nil => some none
  | some s => (read s).map some

/-- A socket number, of 16 bits. -/
def socketNumber (s : Setting) : Option Nat :=
  (d.natural s).bind fun n => if n < limit16 then some n else none

def map {α : Type} (read : Setting → Option α) : Setting → Option (NameMap α)
  | .table entries =>
    (entries.mapM fun (e : String × Setting) => (read e.2).map fun v => (e.1, v)).map NameMap.ofList
  | _ => none

def items {α : Type} (read : Setting → Option α) : Setting → Option (List α)
  | .list ss => ss.mapM read
  | _ => none

/-! ## Records -/

def collaboratorEntry (s : Setting) : Option CollaboratorEntry := do
  let fs ← d.fields ["id", "address"] s
  return ⟨← required d.text fs "id", ← optional d.text fs "address"⟩

def aggregatorEntry (s : Setting) : Option AggregatorEntry := do
  let fs ← d.fields ["address", "round_timeout_secs"] s
  return ⟨← required d.text fs "address", ← optional d.natural fs "round_timeout_secs"⟩

def task (s : Setting) : Option TaskConfig := do
  let fs ← d.fields ["script", "interpreter", "args"] s
  return ⟨← orElse d.text "" fs "script", ← optional d.text fs "interpreter",
    ← orElse (map d.argument) .empty fs "args"⟩

def tasks (s : Setting) : Option TaskConfig := do
  let fs ← d.fields ["train"] s
  orElse d.task .default fs "train"

def asyncConfig (s : Setting) : Option AsyncConfig := do
  let fs ← d.fields ["max_staleness", "staleness_weight", "mixing_rate"] s
  return ⟨← optional d.natural fs "max_staleness",
    ← orElse d.float Double.one fs "staleness_weight", ← orElse d.float Double.one fs "mixing_rate"⟩

def algorithm (s : Setting) : Option AlgorithmConfig := do
  let fs ← d.fields ["name", "hyperparameters"] s
  return ⟨← orElse d.text "mean" fs "name", ← orElse (map d.float) .empty fs "hyperparameters"⟩

def membership (s : Setting) : Option MembershipPolicy := do
  let fs ← d.fields ["strict", "auto_register"] s
  return ⟨← orElse d.flag false fs "strict", ← orElse d.flag false fs "auto_register"⟩

def collaboratorSettings (s : Setting) : Option CollaboratorSettings := do
  let fs ← d.fields ["work_dir", "round_interval_ms", "rpc_timeout_ms", "sync_wait_ms",
    "submit_retries", "refresh_retries", "sample_count"] s
  let unset := CollaboratorSettings.default
  return ⟨← orElse d.text unset.workDir fs "work_dir",
    ← orElse d.natural unset.roundIntervalMs fs "round_interval_ms",
    ← orElse d.natural unset.rpcTimeoutMs fs "rpc_timeout_ms",
    ← orElse d.natural unset.syncWaitMs fs "sync_wait_ms",
    ← orElse d.natural unset.submitRetries fs "submit_retries",
    ← orElse d.natural unset.refreshRetries fs "refresh_retries",
    ← orElse d.natural unset.sampleCount fs "sample_count"⟩

def tls (s : Setting) : Option TlsSettings := do
  let fs ← d.fields ["enabled", "cert_dir", "ca_path", "cert_path", "key_path", "client_cert_path",
    "client_key_path", "server_name", "mutual_auth", "allow_insecure", "auto_generate_cert"] s
  let unset := TlsSettings.default
  return ⟨← orElse d.flag unset.enabled fs "enabled", ← orElse d.text unset.certDir fs "cert_dir",
    ← optional d.text fs "ca_path", ← optional d.text fs "cert_path",
    ← optional d.text fs "key_path", ← optional d.text fs "client_cert_path",
    ← optional d.text fs "client_key_path", ← orElse d.text unset.serverName fs "server_name",
    ← orElse d.flag unset.mutualAuth fs "mutual_auth",
    ← orElse d.flag unset.allowInsecure fs "allow_insecure",
    ← orElse d.flag unset.autoGenerateCert fs "auto_generate_cert"⟩

def security (s : Setting) : Option SecuritySettings := do
  let fs ← d.fields ["tls"] s
  return ⟨← orElse d.tls .default fs "tls"⟩

def plan (s : Setting) : Option FederationPlan := do
  let fs ← d.fields ["rounds", "collaborators", "aggregator", "initial_model", "output_model",
    "tasks", "mode", "async_config", "algorithm", "membership", "collaborator", "security",
    "health_port"] s
  return {
    rounds := ← orElse d.natural 0 fs "rounds"
    collaborators := ← orElse (items d.collaboratorEntry) [] fs "collaborators"
    aggregator := ← required d.aggregatorEntry fs "aggregator"
    initialModel := ← optional d.text fs "initial_model"
    outputModel := ← optional d.text fs "output_model"
    train := ← orElse d.tasks .default fs "tasks"
    mode := ← orElse d.mode .sync fs "mode"
    asyncConfig := ← orElse d.asyncConfig .default fs "async_config"
    algorithm := ← orElse d.algorithm .default fs "algorithm"
    membership := ← orElse d.membership .default fs "membership"
    collaborator := ← orElse d.collaboratorSettings .default fs "collaborator"
    security := ← orElse d.security .default fs "security"
    healthPort := ← optional d.socketNumber fs "health_port" }

end Dialect

end Federation
