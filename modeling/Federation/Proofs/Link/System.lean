/-
  A collaborator and an engine with a network between them that loses messages.

  A submission that was put on the network arrives at any time, once or never.  Its answer may get
  lost as well, and the collaborator may stop waiting for it before it comes.  A run is a list of
  steps chosen from outside, and a step that cannot be taken leaves everything as it is.

  * `Sending`: a submission on the network, and what became of it;
  * `Link`: the engine, the collaborator, and all submissions so far;
  * `LinkStep`, `Link.run`: what may happen next, and everything after some steps;
  * `Link.Acts`: everything a step can come to.

  Models come to the collaborator in answers that may say anything, and others call the engine as
  they like.
-/
import Federation.Proofs.Collaborator.Machine
import Federation.Proofs.Round.Transition
import Federation.Wire.Client

namespace Federation

open Wire

/-! ## Submissions on the network -/

structure Sending where
  /-- Which result of the trainer it carries, counted from one. -/
  result : Nat
  message : UpdateMessage
  /-- What the engine made of it, once it has arrived. -/
  answer : Option (Except FederationError SubmitOutcome)
  /-- Has the collaborator heard that? -/
  heard : Bool

namespace Sending

/-- The model that the engine made with it. -/
def model? (s : Sending) : Option ModelView := (s.answer.bind Except.toOption).bind (·.closed)

/-- Did it become part of the model? -/
def folded (s : Sending) : Bool := s.model?.isSome

/-- It arrives at the engine, unless it has been there before. -/
def arrive {σ : Type} [AggregationStrategy σ] (s : Sending) (now : Nat) (e : RoundEngine σ) :
    Sending × RoundEngine σ :=
  match s.answer with
  | some _ => (s, e)
  | none =>
    let (answer, e) := e.submit now s.message.collaboratorId s.message.toUpdate
    ({ s with answer := some answer }, e)

/-- The answer as it comes over the wire. -/
def receipt (answer : Except FederationError SubmitOutcome) :
    Except FederationError SubmitReceipt :=
  Client.submitted ((answer.map FederationService.submitAck).mapError Status.ofError)

end Sending

/-! ## Links -/

/-- An answer to a submission. -/
def Reply.isReceipt : Reply → Bool
  | .receipt _ => true
  | _ => false

/-- Does this answer bring a new result of the trainer? -/
def Machine.collects (m : Machine) (reply : Reply) : Bool :=
  match m.phase, reply with
  | .collecting, .update (.ok _) => true
  | _, _ => false

structure Link (σ : Type) where
  engine : RoundEngine σ
  machine : Machine
  /-- How many results of the trainer there have been. -/
  results : Nat
  /-- The submission whose answer the collaborator waits for. -/
  awaited : Option Sending
  /-- All the others. -/
  past : List Sending

inductive LinkStep where
  /-- A call of anybody. -/
  | call (now : Nat) (call : RoundCall)
  /-- Put the update that is due on the network. -/
  | send
  /-- The submission that is waited for arrives. -/
  | arrive (now : Nat)
  /-- Another one arrives. -/
  | arriveLate (now k : Nat)
  /-- The answer comes back. -/
  | hear (cancelled : Bool)
  /-- No answer came in time, or none can come. -/
  | giveUp (cancelled : Bool) (message : String)
  /-- The run is cancelled while the collaborator waits for something. -/
  | interrupt
  /-- An answer to anything but a submission. -/
  | reply (cancelled : Bool) (reply : Reply)

namespace Link

variable {σ : Type}

/-- Before the collaborator has joined. -/
def fresh (e : RoundEngine σ) (config : CollaboratorConfig) : Link σ :=
  ⟨e, .fresh config, 0, none, []⟩

/-- Every submission so far. -/
def sendings (l : Link σ) : List Sending := l.past ++ l.awaited.toList

/-- The collaborator waits for a submission no longer, and goes on. -/
def endCall (l : Link σ) (s : Sending) (m : Machine) : Link σ :=
  { l with machine := m, awaited := none, past := l.past ++ [s] }

/-- The collaborator goes on without a call. -/
def goOn (l : Link σ) (m : Machine) (results : Nat) : Link σ :=
  { l with machine := m, results := results }

variable [AggregationStrategy σ]

def act (l : Link σ) : LinkStep → Link σ
  | .call now call => { l with engine := (l.engine.perform now call).2 }
  | .send =>
    match l.machine.demand, l.awaited with
    | some (.submit u), none =>
      { l with awaited := some ⟨l.results, .ofUpdate l.machine.config.id u, none, false⟩ }
    | _, _ => l
  | .arrive now =>
    match l.awaited with
    | some s =>
      let (s, e) := s.arrive now l.engine
      { l with engine := e, awaited := some s }
    | none => l
  | .arriveLate now k =>
    match l.past[k]? with
    | some s =>
      let (s, e) := s.arrive now l.engine
      { l with engine := e, past := l.past.set k s }
    | none => l
  | .hear cancelled =>
    match l.awaited with
    | some s =>
      match s.answer with
      | some answer =>
        l.endCall { s with heard := true }
          (l.machine.resume cancelled (.receipt (Sending.receipt answer)))
      | none => l
    | none => l
  | .giveUp cancelled message =>
    match l.awaited with
    | some s =>
      l.endCall s (l.machine.resume cancelled (.receipt (.error (.transport message))))
    | none => l
  | .interrupt =>
    if l.machine.demand.any Demand.isCancellable then
      match l.awaited with
      | some s => l.endCall s l.machine.interrupt
      | none => l.goOn l.machine.interrupt l.results
    else l
  | .reply cancelled reply =>
    if reply.isReceipt then l
    else
      l.goOn (l.machine.resume cancelled reply)
        (if l.machine.collects reply then l.results + 1 else l.results)

def run (l : Link σ) (steps : List LinkStep) : Link σ := steps.foldl act l

/-! ## What a step comes to -/

/-- What the arrival of a submission comes to: it is applied unless it was before. -/
inductive Arrives (s : Sending) (e : RoundEngine σ) : Sending → RoundEngine σ → Prop
  | again {answer} : s.answer = some answer → Arrives s e s e
  | first {now answer e'} : s.answer = none →
      e.Transition now (.submit s.message.collaboratorId s.message.toUpdate)
        (answer.map .submitted) e' →
      Arrives s e { s with answer := some answer } e'

theorem arrives_arrive (s : Sending) (now : Nat) (e : RoundEngine σ) :
    Arrives s e (s.arrive now e).1 (s.arrive now e).2 := by
  unfold Sending.arrive
  cases hs : s.answer with
  | some answer => exact .again hs
  | none =>
    exact .first hs (e.transition_submit now s.message.collaboratorId s.message.toUpdate)

theorem Arrives.result {s s' : Sending} {e e' : RoundEngine σ} (h : Arrives s e s' e') :
    s'.result = s.result := by cases h <;> rfl

theorem Arrives.heard {s s' : Sending} {e e' : RoundEngine σ} (h : Arrives s e s' e') :
    s'.heard = s.heard := by cases h <;> rfl

/-- What has arrived before stays as it is. -/
theorem Arrives.eq_or_new {s s' : Sending} {e e' : RoundEngine σ} (h : Arrives s e s' e') :
    s' = s ∨ s.answer = none := by
  cases h with
  | again => exact Or.inl rfl
  | first hs => exact Or.inr hs

/-- Everything a step can come to. -/
inductive Acts (l : Link σ) : Link σ → Prop
  | passed : Acts l l
  | called {now call r e} : l.engine.Transition now call r e → Acts l { l with engine := e }
  | sent {u attempt} : l.machine.phase = .submitting u attempt → l.awaited = none →
      Acts l { l with awaited := some ⟨l.results, .ofUpdate l.machine.config.id u, none, false⟩ }
  | arrived {s s' e} : l.awaited = some s → Arrives s l.engine s' e →
      Acts l { l with engine := e, awaited := some s' }
  | arrivedLate {k s s' e} : l.past[k]? = some s → Arrives s l.engine s' e →
      Acts l { l with engine := e, past := l.past.set k s' }
  | heard {s answer cancelled} : l.awaited = some s → s.answer = some answer →
      Acts l (l.endCall { s with heard := true }
        (l.machine.resume cancelled (.receipt (Sending.receipt answer))))
  | gaveUp {s cancelled message} : l.awaited = some s →
      Acts l (l.endCall s (l.machine.resume cancelled (.receipt (.error (.transport message)))))
  | calledOff {s} : l.awaited = some s → Acts l (l.endCall s l.machine.interrupt)
  | interrupted : l.awaited = none → Acts l (l.goOn l.machine.interrupt l.results)
  | replied {cancelled reply} : reply.isReceipt = false →
      Acts l (l.goOn (l.machine.resume cancelled reply)
        (if l.machine.collects reply then l.results + 1 else l.results))

theorem acts_act (l : Link σ) (step : LinkStep) : l.Acts (l.act step) := by
  cases step with
  | call now call => exact .called (l.engine.transition_perform now call)
  | send =>
    simp only [act]
    split
    · next u hd ha =>
      obtain ⟨attempt, hp⟩ := Machine.phase_of_demand_submit hd
      exact .sent hp ha
    · exact .passed
  | arrive now =>
    simp only [act]
    split
    · next s ha => exact .arrived ha (arrives_arrive s now l.engine)
    · exact .passed
  | arriveLate now k =>
    simp only [act]
    split
    · next s hk => exact .arrivedLate hk (arrives_arrive s now l.engine)
    · exact .passed
  | hear cancelled =>
    simp only [act]
    split
    · next s ha =>
      split
      · next answer hs => exact .heard ha hs
      · exact .passed
    · exact .passed
  | giveUp cancelled message =>
    simp only [act]
    split
    · next s ha => exact .gaveUp ha
    · exact .passed
  | interrupt =>
    simp only [act]
    split
    · split
      · next s ha => exact .calledOff ha
      · next ha => exact .interrupted ha
    · exact .passed
  | reply cancelled reply =>
    simp only [act]
    split
    · exact .passed
    · next hr => exact .replied (Bool.eq_false_of_not_eq_true hr)

end Link

end Federation
