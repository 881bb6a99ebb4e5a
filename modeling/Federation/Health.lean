/-
  The health server: whether a process lives, whether it is ready, and how its federation looks.

  An answer is a function of the request, of the readiness of the process, and of the status.
-/
import Federation.Json
import Federation.Path

namespace Federation.Health

structure Request where
  method : String
  /-- With the query, if there is one. -/
  target : String
  deriving DecidableEq, Repr

structure Answer where
  code : Nat
  /-- The body; `none` when it is empty. -/
  body : Option Json

/-- What is served at a path. -/
def page (ready : Bool) (status : Json) (path : String) : Option Json :=
  match path with
  | "/live" => some (.object [("live", .bool true)])
  | "/ready" => some (.object [("ready", .bool ready)])
  | "/status" => some (.object [("ready", .bool ready), ("federation", status)])
  | _ => none

/-- The target without its query. -/
def pathOf (target : String) : String := String.ofList (target.toList.takeWhile (· ≠ '?'))

/-- Pages can be fetched, with their body or without; nothing else can be done to them. -/
def answer (ready : Bool) (status : Json) (r : Request) : Answer :=
  match page ready status (pathOf r.target) with
  | none => ⟨404, none⟩
  | some body =>
    if r.method = "GET" then ⟨200, some body⟩
    else if r.method = "HEAD" then ⟨200, none⟩
    else ⟨405, none⟩

end Federation.Health
