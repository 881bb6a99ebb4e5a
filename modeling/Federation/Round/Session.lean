/-
  An engine and those who wait on it, under a clock that moves only when everyone waits.

  Calls happen one after the other.  After each of them every waiter goes as far as it can; when a
  caller blocks, the clock jumps from deadline to deadline.
-/
import Federation.Round.LongPoll

namespace Federation

structure Waiter where
  name : String
  poll : LongPoll
  phase : LongPollPhase
  startedAt : Nat
  /-- The clock when the phase last changed. -/
  movedAt : Nat

namespace Waiter

def start (name : String) (poll : LongPoll) (clock : Nat) : Waiter :=
  ⟨name, poll, .reading, clock, clock⟩

def isFinished (w : Waiter) : Bool := w.phase.result?.isSome

end Waiter

/-- What a wait came to, and how long it took. -/
structure WaitOutcome where
  result : Except FederationError ModelView
  waited : Nat

def Waiter.outcome? (w : Waiter) : Option WaitOutcome :=
  w.phase.result?.map fun r => ⟨r, w.movedAt - w.startedAt⟩

structure Session (σ : Type) where
  engine : RoundEngine σ
  clock : Nat
  waiters : List Waiter

namespace Session

variable {σ : Type} [AggregationStrategy σ]

/-- The engine's own clock stands still. -/
def instant : Nat := 0

def start (engine : RoundEngine σ) : Session σ := ⟨engine, 0, []⟩

/-- Every waiter goes as far as it can. -/
def settleWaiters (clock : Nat) : RoundEngine σ → List Waiter → RoundEngine σ × List Waiter
  | e, [] => (e, [])
  | e, w :: ws =>
    let (phase, e) := w.poll.settle clock instant e w.phase
    let w := if w.isFinished then w else { w with phase := phase, movedAt := clock }
    let (e, ws) := settleWaiters clock e ws
    (e, w :: ws)

def settle (s : Session σ) : Session σ :=
  let (e, ws) := settleWaiters s.clock s.engine s.waiters
  { s with engine := e, waiters := ws }

/-- Call an operation of the engine. -/
def call {α : Type} (s : Session σ) (op : RoundEngine σ → α × RoundEngine σ) : α × Session σ :=
  let (a, e) := op s.engine
  (a, settle { s with engine := e })

/-- Begin to wait under a name. -/
def startWait (s : Session σ) (name : String) (poll : LongPoll) : Session σ :=
  settle { s with
    waiters := s.waiters.filter (·.name ≠ name) ++ [Waiter.start name poll s.clock] }

def deadlines (s : Session σ) : List Nat := s.waiters.filterMap (·.phase.deadline?)

/-- Jump to the next deadline. -/
def jump (s : Session σ) : Session σ :=
  match s.deadlines with
  | [] => s
  | d :: ds => settle { s with clock := max s.clock (ds.foldl min d) }

def find? (s : Session σ) (name : String) : Option Waiter := s.waiters.find? (·.name = name)

/-- Jump until the waiter of this name has finished. -/
def runUntil (name : String) : Nat → Session σ → Session σ
  | 0, s => s
  | fuel + 1, s =>
    match s.find? name with
    | none => s
    | some w => if w.isFinished then s else runUntil name fuel s.jump

/-- Block until the wait of a name is over. -/
def endWait (s : Session σ) (name : String) : Option WaitOutcome × Session σ :=
  let s := runUntil name (s.waiters.length + 1) s
  let outcome := (s.find? name).bind Waiter.outcome?
  (outcome, { s with waiters := s.waiters.filter (·.name ≠ name) })

/-- Wait and block. -/
def wait (s : Session σ) (poll : LongPoll) : Option WaitOutcome × Session σ :=
  (s.startWait "" poll).endWait ""

end Session

end Federation
