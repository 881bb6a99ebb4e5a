/-
  One collaborator in step with its rounds, and a crowd around the engine.

  The collaborator and the aggregator share a process.  Anybody may call the engine in between, with
  any identity: join, send updates, close rounds.

  * `Course`: the engine, the collaborator, the rounds in which an update of it was accepted, and
    the rounds it was told;
  * `Turn`: a call of somebody else, or a move of the collaborator;
  * `Course.run`: the course after some turns;
  * `Course.take_cases`: everything a turn can come to.
-/
import Federation.Proofs.Collaborator.Answers
import Federation.Proofs.Fleet.System

namespace Federation

/-! ## Courses -/

structure Course (σ : Type) where
  world : World σ
  party : Party
  /-- The round that was open when an update was accepted, once for each of them. -/
  accepted : List Nat
  /-- The rounds of the models and the receipts the collaborator has been handed. -/
  heard : List Nat

inductive Turn where
  /-- A call of anybody. -/
  | call (now : Nat) (call : RoundCall)
  | move (m : Move)

/-- Turns with which a run is cancelled. -/
def Turn.cancels : Turn → Bool
  | .move .cancel | .move (.endTraining (.error .cancelled)) => true
  | _ => false

/-- The moves of a collaborator that shares a process with the aggregator.  Nothing goes over the
network, and between the answer to a submission and what is made of it there is no wait in which
a cancellation could be noticed. -/
def Activity.allows : Activity → Move → Bool
  | _, .send | _, .hear _ | .answered (.receipt _), .interrupt => false
  | _, _ => true

namespace Course

variable {σ : Type} [AggregationStrategy σ]

def machine (c : Course σ) : Machine := c.party.machine

/-- The round that was open, when a move has submitted an update that was accepted. -/
def landed (c : Course σ) (m : Move) (p : Party) : List Nat :=
  match m, p.activity with
  | .submit _, .answered (.receipt (.ok _)) => [c.world.engine.state.round]
  | _, _ => []

/-- The round a move hands to the collaborator. -/
def told (c : Course σ) (m : Move) : List Nat :=
  match m, c.party.activity with
  | .resume, .answered reply => reply.round?.toList
  | _, _ => []

def take (c : Course σ) : Turn → Course σ
  | .call now call =>
    { c with world := c.world.setEngine (c.world.engine.perform now call).2 }
  | .move m =>
    if c.party.activity.allows m then
      match c.party.move c.world m with
      | some (w, p) => ⟨w, p, c.accepted ++ c.landed m p, c.heard ++ c.told m⟩
      | none => c
    else c

def run (c : Course σ) (turns : List Turn) : Course σ := turns.foldl take c

/-- A collaborator that has not begun, around an engine and a disk. -/
def start (e : RoundEngine σ) (t : Disk.Tree) (config : CollaboratorConfig) (workDir : WorkDir) :
    Course σ where
  world := ⟨e, t, [], [e.state.view], []⟩
  party := ⟨.fresh config, workDir, false, .idle⟩
  accepted := []
  heard := []

/-- What a turn can be. -/
theorem take_cases (c : Course σ) (turn : Turn) :
    c.take turn = c ∨
    (∃ now call, turn = .call now call ∧
      c.take turn =
        { c with world := c.world.setEngine (c.world.engine.perform now call).2 }) ∨
    (∃ m w p, turn = .move m ∧ c.party.activity.allows m = true ∧ Moves c.party c.world m w p ∧
      c.take turn = ⟨w, p, c.accepted ++ c.landed m p, c.heard ++ c.told m⟩) := by
  cases turn with
  | call now call => exact Or.inr (Or.inl ⟨now, call, rfl, rfl⟩)
  | move m =>
    cases ha : c.party.activity.allows m with
    | false => exact Or.inl (if_neg (by simp [ha]))
    | true =>
      cases hm : c.party.move c.world m with
      | none => exact Or.inl (by simp only [take, ha, hm, if_true])
      | some r =>
        exact Or.inr (Or.inr ⟨m, r.1, r.2, rfl, ha, Party.moves_of_move hm,
          by simp only [take, ha, hm, if_true]⟩)

theorem Moves.config {p p' : Party} {w w' : World σ} {m : Move} (hm : Moves p w m w' p') :
    p'.machine.config = p.machine.config := by
  cases hm <;> simp [Party.resume, Party.doing]

/-- What the collaborator was told to do stays the same. -/
theorem config_take (c : Course σ) (turn : Turn) :
    (c.take turn).machine.config = c.machine.config := by
  rcases c.take_cases turn with ht | ⟨_, _, -, ht⟩ | ⟨_, _, _, -, -, hm, ht⟩ <;> rw [ht]
  · rfl
  · exact Moves.config hm

theorem config_run (c : Course σ) (turns : List Turn) :
    (c.run turns).machine.config = c.machine.config := by
  induction turns generalizing c with
  | nil => rfl
  | cons turn turns ih => exact (ih (c.take turn)).trans (c.config_take turn)

theorem run_concat (c : Course σ) (turns : List Turn) (turn : Turn) :
    c.run (turns ++ [turn]) = (c.run turns).take turn := by
  simp [run]

end Course

def Activity.isIdle : Activity → Bool
  | .idle => true
  | _ => false

theorem Activity.ne_receipt_of_isIdle {a : Activity} (h : a.isIdle = true)
    (r : Except FederationError SubmitReceipt) : a ≠ .answered (.receipt r) := by
  rintro rfl
  cases h

/-- The answer that waits for the collaborator is the receipt of an accepted update. -/
def Activity.hasReceipt : Activity → Bool
  | .answered (.receipt (.ok _)) => true
  | _ => false

theorem Activity.receipt_of_hasReceipt {a : Activity} (h : a.hasReceipt = true) :
    ∃ r, a = .answered (.receipt (.ok r)) := by
  unfold Activity.hasReceipt at h
  split at h
  · next r => exact ⟨r, rfl⟩
  · cases h

end Federation
