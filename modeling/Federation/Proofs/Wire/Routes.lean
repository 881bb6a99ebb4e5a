/-
  A collaborator that reaches the aggregator by one of two routes.

  * `Machine.Alike`, `Machine.Alike.resume`: machines that differ in nothing but the text of the
    error they ended with, and that alike answers keep them so;
  * `Route`: in the same process, or over the wire;
  * `Errand`, `Errand.run`: a collaborator, the service, and everything that may happen;
  * `Errand.Alike.act`: one step keeps the two routes alike;
  * `transports_agree`: every call does the same on both, and so does every run.
-/
import Federation.Proofs.Collaborator.Machine
import Federation.Proofs.Wire.Calls

namespace Federation

/-! ## Machines that go on alike -/

/-- The same answer, perhaps with another text of its error. -/
inductive Reply.Alike : Reply → Reply → Prop
  | same (r : Reply) : Alike r r
  | view {e e'} : e.Alike e' → Alike (.view (.error e)) (.view (.error e'))
  | receipt {e e'} : e.Alike e' → Alike (.receipt (.error e)) (.receipt (.error e'))

theorem SameAnswer.view {r r' : Except FederationError ModelView} (h : SameAnswer r r') :
    Reply.Alike (.view r) (.view r') := by
  cases h with
  | ok => exact .same _
  | error halike => exact .view halike

theorem SameAnswer.receipt {r r' : Except FederationError SubmitReceipt} (h : SameAnswer r r') :
    Reply.Alike (.receipt r) (.receipt r') := by
  cases h with
  | ok => exact .same _
  | error halike => exact .receipt halike

namespace Machine

/-- The same machine, but for the text of the error it ended with. -/
inductive Alike (m : Machine) : Machine → Prop
  | same : Alike m m
  | failed {e e'} : m.phase = .finished (.error e) → e.Alike e' →
      Alike m (m.goTo (.finished (.error e')))

variable {m m' : Machine} {cancelled : Bool}

theorem Alike.demand (h : m.Alike m') : m'.demand = m.demand := by
  cases h with
  | same => rfl
  | failed hp => simp only [Machine.demand, hp, goTo]

theorem Alike.config (h : m.Alike m') : m'.config = m.config := by
  cases h <;> rfl

/-- An end stays as it is. -/
theorem resume_finished {result : Except FederationError RunSummary}
    (hp : m.phase = .finished result) (cancelled : Bool) (reply : Reply) :
    m.resume cancelled reply = m := by
  unfold resume
  rw [hp]

theorem fail_alike {e e' : FederationError} (h : e.Alike e') (m : Machine) :
    (m.fail e).Alike (m.fail e') := by
  cases h with
  | staleUpdate | cancelled => exact .same
  | _ => exact .failed rfl (by constructor)

theorem mayRetry_alike {e e' : FederationError} (h : e.Alike e') (p : RetryPolicy)
    (attempt : Nat) : mayRetry p attempt e' = mayRetry p attempt e := by
  rw [mayRetry, mayRetry, h.isTransport]

theorem afterRefusal_alike {e e' : FederationError} (h : e.Alike e') (m : Machine) :
    (m.afterRefusal cancelled e).Alike (m.afterRefusal cancelled e') := by
  cases h with
  | staleUpdate | unknownCollaborator | cancelled => exact .same
  | _ => exact .failed rfl (by constructor)

theorem afterLostFetch_alike {e e' : FederationError} (h : e.Alike e') (m : Machine)
    (purpose : FetchPurpose) :
    (m.afterLostFetch cancelled purpose e).Alike (m.afterLostFetch cancelled purpose e') := by
  cases h with
  | staleUpdate | unknownCollaborator | cancelled => exact .same
  | _ =>
    cases purpose with
    | nextRound => exact .failed rfl (by constructor)
    | refresh =>
      simp only [afterLostFetch]
      split
      · exact .same
      · exact .failed rfl (by constructor)

/-- Alike machines go on alike with alike answers. -/
theorem Alike.resume (h : m.Alike m') {reply reply' : Reply} (hr : reply.Alike reply')
    (cancelled : Bool) : (m.resume cancelled reply).Alike (m'.resume cancelled reply') := by
  cases h with
  | failed hp halike =>
    rw [resume_finished hp, resume_finished (m := m.goTo _) rfl]
    exact .failed hp halike
  | same =>
    cases hr with
    | same => exact .same
    | view halike =>
      unfold Machine.resume
      cases hp : m.phase with
      | joining => exact fail_alike halike m
      | fetching purpose attempt =>
        simp only [mayRetry_alike halike]
        split
        · exact .same
        · exact afterLostFetch_alike halike m purpose
      | handing again => cases again <;> exact .same
      | _ => exact .same
    | receipt halike =>
      unfold Machine.resume
      cases hp : m.phase with
      | submitting u attempt =>
        simp only [mayRetry_alike halike]
        split
        · exact .same
        · exact afterRefusal_alike halike m
      | handing again => cases again <;> exact .same
      | _ => exact .same

theorem Alike.interrupt (h : m.Alike m') : m'.interrupt = m.interrupt := by
  cases h <;> rfl

/-! ## Updates of machines -/

/-- The update that is sent, or will be sent again, is one that can be built. -/
def SendsBuilt (m : Machine) : Prop :=
  ∀ u attempt, m.phase = .submitting u attempt ∨ m.phase = .submitBackoff u attempt → u.Built

theorem sendsBuilt_of_isSending (h : m.phase.isSending = false) : m.SendsBuilt := by
  rintro u attempt (hp | hp) <;> rw [hp] at h <;> cases h

theorem sendsBuilt_of_phase {u : ModelUpdate} {attempt : Nat} (hu : u.Built)
    (hp : m.phase = .submitting u attempt ∨ m.phase = .submitBackoff u attempt) :
    m.SendsBuilt := by
  intro w n hw
  rcases hp with hp | hp <;> rcases hw with hw | hw <;> rw [hp] at hw <;> cases hw <;> exact hu

theorem built_sampled (m : Machine) (update : Blob) : (m.sampled update).Built :=
  .withSamples _ (.trainedOn _ (.ofModel update))

theorem SendsBuilt.resume (h : m.SendsBuilt) (cancelled : Bool) (reply : Reply) :
    (m.resume cancelled reply).SendsBuilt := by
  cases hp : m.phase with
  | submitting u attempt =>
    cases reply with
    | receipt result =>
      cases result with
      | ok r => exact sendsBuilt_of_isSending (resume_accepted hp r)
      | error e =>
        rcases @resume_refused m u attempt cancelled hp e with ⟨-, hback⟩ | hrest
        · exact sendsBuilt_of_phase (h u attempt (Or.inl hp)) (Or.inr hback)
        · exact sendsBuilt_of_isSending hrest
    | view | done | slept | update =>
      simp only [Machine.resume, hp]
      exact h
  | submitBackoff u attempt =>
    rcases @resume_backoff m u attempt cancelled hp reply with hsame | hagain
    · rw [hsame]
      exact h
    · exact sendsBuilt_of_phase (h u attempt (Or.inr hp)) (Or.inl hagain)
  | _ =>
    have hrest : m.phase.isSending = false := by rw [hp]; rfl
    rcases resume_resting hrest cancelled reply with hidle | ⟨hcollecting, ⟨update, rfl⟩, -⟩
    · exact sendsBuilt_of_isSending hidle
    · simp only [Machine.resume, hcollecting, unlessCancelled]
      split
      · exact sendsBuilt_of_isSending m.isSending_interrupt
      · exact sendsBuilt_of_phase (m.built_sampled update) (Or.inl rfl)

end Machine

/-! ## Routes -/

/-- How a collaborator reaches the aggregator. -/
inductive Route where
  | inProcess
  | wire

namespace Route

variable {σ : Type} [AggregationStrategy σ]

def join (route : Route) (s : FederationService σ) (now : Nat) (id : String) :
    Except FederationError ModelView × FederationService σ :=
  match route with
  | inProcess =>
    let (result, e) := s.engine.joinDirectly now id
    (result, { s with engine := e })
  | wire => Wire.Client.join s now id

def submit (route : Route) (s : FederationService σ) (now : Nat) (id : String) (u : ModelUpdate) :
    Disk.Program (Except FederationError SubmitReceipt × FederationService σ) :=
  match route with
  | inProcess =>
    let (result, e) := s.engine.submitDirectly now id u
    .done (result, { s with engine := e })
  | wire => Wire.Client.submit s now id u

def longPoll (route : Route) (id : String) (minRound wait : Nat) : LongPoll :=
  match route with
  | inProcess => ⟨id, minRound, wait⟩
  | wire => Wire.Client.longPoll id minRound wait

/-- The end of a long poll as the collaborator sees it. -/
def latest (route : Route) (result : Except FederationError ModelView) :
    Except FederationError ModelView :=
  match route with
  | inProcess => result
  | wire => Wire.Client.latest result

end Route

/-- How far the call has come that a collaborator has made. -/
inductive CallProgress where
  /-- There is none. -/
  | idle
  | polling (phase : LongPollPhase)
  /-- It has returned, and the collaborator goes on with the answer next. -/
  | answered (reply : Reply)

/-- A collaborator and the service it calls, with the disk the service publishes to. -/
structure Errand (σ : Type) where
  service : FederationService σ
  disk : Disk.Tree
  machine : Machine
  progress : CallProgress

inductive ErrandStep where
  /-- A call of anybody else. -/
  | call (now : Nat) (call : RoundCall)
  /-- Make the call that is due.  Publishing may fail. -/
  | make (now : Nat) (faults : Disk.Faults)
  /-- Go on with a long poll. -/
  | poll (clock now : Nat)
  /-- Go on with the answer to a call. -/
  | hear (cancelled : Bool)
  /-- Go on with anything else that was waited for. -/
  | reply (cancelled : Bool) (reply : Reply)
  /-- The run is cancelled while the collaborator waits for something. -/
  | interrupt

/-- Does this answer a call? -/
def Reply.answersCall : Reply → Bool
  | .view _ | .receipt _ => true
  | .done _ | .slept | .update _ => false

namespace Errand

variable {σ : Type}

def start (s : FederationService σ) (t : Disk.Tree) (config : CollaboratorConfig) : Errand σ :=
  ⟨s, t, .fresh config, .idle⟩

/-- What a step of a long poll leaves to be done. -/
def pollProgress (route : Route) (phase : LongPollPhase) : CallProgress :=
  match phase.result? with
  | some result => .answered (.view (route.latest result))
  | none => .polling phase

variable [AggregationStrategy σ]

def act (route : Route) (x : Errand σ) : ErrandStep → Errand σ
  | .call now call =>
    { x with service := { x.service with engine := (x.service.engine.perform now call).2 } }
  | .make now faults =>
    match x.progress, x.machine.demand with
    | .idle, some .join =>
      let (result, s) := route.join x.service now x.machine.config.id
      { x with service := s, progress := .answered (.view result) }
    | .idle, some (.submit u) =>
      let ((result, s), t, _) :=
        (route.submit x.service now x.machine.config.id u).run x.disk faults
      { x with service := s, disk := t, progress := .answered (.receipt result) }
    | .idle, some (.latest _ _) => { x with progress := .polling .reading }
    | _, _ => x
  | .poll clock now =>
    match x.progress, x.machine.demand with
    | .polling phase, some (.latest minRound wait) =>
      let (phase, e) := (route.longPoll x.machine.config.id minRound wait).step clock now
        x.service.engine phase
      { x with
        service := { x.service with engine := e }
        progress := pollProgress route phase }
    | _, _ => x
  | .hear cancelled =>
    match x.progress with
    | .answered reply =>
      { x with machine := x.machine.resume cancelled reply, progress := .idle }
    | _ => x
  | .reply cancelled reply =>
    if reply.answersCall then x
    else { x with machine := x.machine.resume cancelled reply }
  | .interrupt =>
    if x.machine.demand.any Demand.isCancellable then
      { x with machine := x.machine.interrupt, progress := .idle }
    else x

def run (route : Route) (x : Errand σ) (steps : List ErrandStep) : Errand σ :=
  steps.foldl (act route) x

/-! ## Both routes -/

/-- A collaborator is as far on one route as on the other. -/
inductive SameProgress : CallProgress → CallProgress → Prop
  | idle : SameProgress .idle .idle
  | polling (phase : LongPollPhase) : SameProgress (.polling phase) (.polling phase)
  | answered {reply reply'} : reply.Alike reply' →
      SameProgress (.answered reply) (.answered reply')

/-- The same on both routes, but for the texts of errors and for what is published. -/
structure Alike (x y : Errand σ) : Prop where
  engine : y.service.engine = x.service.engine
  machine : x.machine.Alike y.machine
  progress : SameProgress x.progress y.progress

/-- What holds of an errand all along. -/
structure Sound (x : Errand σ) : Prop where
  bounded : x.service.engine.state.round < counterLimit
  built : x.machine.SendsBuilt
  polls : ∀ phase, x.progress = .polling phase → phase.result? = none

end Errand

/-! ## Calls on both routes -/

namespace Route

variable {σ : Type}

theorem longPoll_step (clock now : Nat) (e : RoundEngine σ) (id : String) (minRound wait : Nat)
    (phase : LongPollPhase) :
    (wire.longPoll id minRound wait).step clock now e phase =
      (inProcess.longPoll id minRound wait).step clock now e phase :=
  Wire.Client.longPoll_step clock now e id minRound wait phase

variable [AggregationStrategy σ] {s s' : FederationService σ}

theorem join_agrees (hs : s'.engine = s.engine) (hround : s.engine.state.round < counterLimit)
    (now : Nat) (id : String) :
    (wire.join s' now id).2.engine = (inProcess.join s now id).2.engine ∧
      SameAnswer (inProcess.join s now id).1 (wire.join s' now id).1 := by
  rw [← hs] at hround
  have h := Wire.Client.join_agrees s' now id hround
  rw [hs] at h
  exact h

theorem submit_agrees (hs : s'.engine = s.engine) (hround : s.engine.state.round < counterLimit)
    (now : Nat) (id : String) {u : ModelUpdate} (hu : u.Built) (t t' : Disk.Tree)
    (faults : Disk.Faults) :
    ((wire.submit s' now id u).run t' faults).1.2.engine =
        ((inProcess.submit s now id u).run t faults).1.2.engine ∧
      SameAnswer ((inProcess.submit s now id u).run t faults).1.1
        ((wire.submit s' now id u).run t' faults).1.1 := by
  rw [← hs] at hround
  have h := Wire.Client.submit_agrees s' now id hround hu t' faults
  rw [hs] at h
  exact h

end Route

namespace Errand

variable {σ : Type} [AggregationStrategy σ] {x y : Errand σ}

theorem polling_pollProgress {route : Route} {phase phase' : LongPollPhase}
    (h : pollProgress route phase = .polling phase') : phase'.result? = none := by
  unfold pollProgress at h
  split at h
  · cases h
  · next hr =>
    cases h
    exact hr

/-- A step leaves an errand that was sound so. -/
theorem Sound.act (h : x.Sound) (step : ErrandStep) : (x.act .inProcess step).Sound := by
  have round_lt : ∀ now call, (x.service.engine.perform now call).2.state.round < counterLimit :=
    fun now call => (x.service.engine.transition_perform now call).round_lt h.bounded
  have polls_idle : ∀ phase, CallProgress.idle = .polling phase → phase.result? = none := by
    rintro _ ⟨⟩
  have polls_answered : ∀ reply phase, CallProgress.answered reply = .polling phase →
      phase.result? = none := by
    rintro _ _ ⟨⟩
  cases step with
  | call now call => exact ⟨round_lt now call, h.built, h.polls⟩
  | make now faults =>
    simp only [Errand.act]
    split
    · exact ⟨round_lt now (.join x.machine.config.id), h.built, polls_answered _⟩
    · next u _ _ =>
      exact ⟨round_lt now (.submit x.machine.config.id u), h.built, polls_answered _⟩
    · refine ⟨h.bounded, h.built, fun phase hp => ?_⟩
      cases hp
      rfl
    · exact h
  | poll clock now =>
    simp only [Errand.act]
    split
    · exact ⟨RoundEngine.round_lt_step _ clock now _ h.bounded, h.built,
        fun phase hp => polling_pollProgress hp⟩
    · exact h
  | hear cancelled =>
    simp only [Errand.act]
    split
    · exact ⟨h.bounded, h.built.resume cancelled _, polls_idle⟩
    · exact h
  | reply cancelled reply =>
    simp only [Errand.act]
    split
    · exact h
    · exact ⟨h.bounded, h.built.resume cancelled reply, h.polls⟩
  | interrupt =>
    simp only [Errand.act]
    split
    · exact ⟨h.bounded, Machine.sendsBuilt_of_isSending x.machine.isSending_interrupt, polls_idle⟩
    · exact h

/-- A step of a long poll goes as far on both routes. -/
theorem sameProgress_poll {e : RoundEngine σ} (hround : e.state.round < counterLimit)
    {phase : LongPollPhase} (hphase : phase.result? = none) (clock now : Nat) (id : String)
    (minRound wait : Nat) :
    SameProgress
      (pollProgress .inProcess
        ((Route.inProcess.longPoll id minRound wait).step clock now e phase).1)
      (pollProgress .wire
        ((Route.inProcess.longPoll id minRound wait).step clock now e phase).1) := by
  cases hr : ((Route.inProcess.longPoll id minRound wait).step clock now e phase).1.result? with
  | none =>
    simp only [pollProgress, hr]
    exact .polling _
  | some result =>
    simp only [pollProgress, hr]
    exact .answered (Wire.Client.latest_agrees now id hround hphase hr).view

/-- A step keeps the two routes alike. -/
theorem Alike.act (h : x.Alike y) (hx : x.Sound) (step : ErrandStep) :
    (x.act .inProcess step).Alike (y.act .wire step) := by
  obtain ⟨hengine, hmachine, hprogress⟩ := h
  obtain ⟨hround, hbuilt, hpolls⟩ := hx
  obtain ⟨s, t, m, p⟩ := x
  obtain ⟨s', t', m', p'⟩ := y
  simp only at hengine hmachine hprogress hround hbuilt hpolls
  have hdemand := hmachine.demand
  have hconfig := hmachine.config
  cases step with
  | call now call =>
    exact ⟨by simp only [Errand.act, hengine], hmachine, hprogress⟩
  | make now faults =>
    cases hprogress with
    | polling => exact ⟨hengine, hmachine, .polling _⟩
    | answered hreply => exact ⟨hengine, hmachine, .answered hreply⟩
    | idle =>
      simp only [Errand.act, hdemand, hconfig]
      cases hd : m.demand with
      | none => exact ⟨hengine, hmachine, .idle⟩
      | some d =>
        cases d with
        | join =>
          obtain ⟨he, hanswer⟩ := Route.join_agrees hengine hround now m.config.id
          exact ⟨he, hmachine, .answered hanswer.view⟩
        | submit u =>
          obtain ⟨attempt, hp⟩ := Machine.phase_of_demand_submit hd
          obtain ⟨he, hanswer⟩ := Route.submit_agrees hengine hround now m.config.id
            (hbuilt u attempt (Or.inl hp)) t t' faults
          exact ⟨he, hmachine, .answered hanswer.receipt⟩
        | latest minRound wait => exact ⟨hengine, hmachine, .polling _⟩
        | train | sleep | writeModel | clearUpdate | readUpdate =>
          exact ⟨hengine, hmachine, .idle⟩
  | poll clock now =>
    cases hprogress with
    | idle => exact ⟨hengine, hmachine, .idle⟩
    | answered hreply => exact ⟨hengine, hmachine, .answered hreply⟩
    | polling phase =>
      simp only [Errand.act, hdemand, hconfig, hengine]
      cases hd : m.demand with
      | none => exact ⟨hengine, hmachine, .polling phase⟩
      | some d =>
        cases d with
        | latest minRound wait =>
          simp only [Route.longPoll_step]
          exact ⟨rfl, hmachine,
            sameProgress_poll hround (hpolls phase rfl) clock now m.config.id minRound wait⟩
        | join | submit | train | sleep | writeModel | clearUpdate | readUpdate =>
          exact ⟨hengine, hmachine, .polling phase⟩
  | hear cancelled =>
    cases hprogress with
    | idle | polling => exact ⟨hengine, hmachine, by constructor⟩
    | answered hreply => exact ⟨hengine, hmachine.resume hreply cancelled, .idle⟩
  | reply cancelled reply =>
    simp only [Errand.act]
    split
    · exact ⟨hengine, hmachine, hprogress⟩
    · exact ⟨hengine, hmachine.resume (.same reply) cancelled, hprogress⟩
  | interrupt =>
    simp only [Errand.act, hdemand]
    split
    · exact ⟨hengine, hmachine.interrupt ▸ .same, .idle⟩
    · exact ⟨hengine, hmachine, hprogress⟩

theorem Alike.run (h : x.Alike y) (hx : x.Sound) (steps : List ErrandStep) :
    (x.run .inProcess steps).Alike (y.run .wire steps) := by
  induction steps generalizing x y with
  | nil => exact h
  | cons step steps ih => exact ih (h.act hx step) (hx.act step)

end Errand

/-- **The two transports agree.**  Take any engine whose round is in the range of its counter, inside
a service with any model file.  A join, an update that can be built and a long poll do the same to
the engine in the same process and over the wire, whatever the disk does, and the client gets the
same answer: an equal one, or an error of the same kind, with the same rounds when it is stale.  And
a collaborator that meets the same course of events on both routes goes through the same states on
both: its machine differs in nothing but the text of the error that may have ended it. -/
theorem transports_agree {σ : Type} [AggregationStrategy σ] (s : FederationService σ)
    (hround : s.engine.state.round < counterLimit) :
    (∀ now id, (Wire.Client.join s now id).2.engine = (s.engine.joinDirectly now id).2 ∧
      SameAnswer (s.engine.joinDirectly now id).1 (Wire.Client.join s now id).1) ∧
    (∀ now id u t faults, ModelUpdate.Built u →
      ((Wire.Client.submit s now id u).run t faults).1.2.engine =
        (s.engine.submitDirectly now id u).2 ∧
      SameAnswer (s.engine.submitDirectly now id u).1
        ((Wire.Client.submit s now id u).run t faults).1.1) ∧
    (∀ clock now id minRound wait phase,
      (Wire.Client.longPoll id minRound wait).step clock now s.engine phase =
        (⟨id, minRound, wait⟩ : LongPoll).step clock now s.engine phase ∧
      (phase.result? = none → ∀ result,
        ((⟨id, minRound, wait⟩ : LongPoll).step clock now s.engine phase).1.result? =
          some result → SameAnswer result (Wire.Client.latest result))) ∧
    ∀ config t steps,
      let direct := (Errand.start s t config).run .inProcess steps
      let wired := (Errand.start s t config).run .wire steps
      wired.service.engine = direct.service.engine ∧ direct.machine.Alike wired.machine ∧
        Errand.SameProgress direct.progress wired.progress := by
  refine ⟨fun now id => Wire.Client.join_agrees s now id hround,
    fun now id u t faults hu => Wire.Client.submit_agrees s now id hround hu t faults,
    fun clock now id minRound wait phase => ⟨Wire.Client.longPoll_step clock now s.engine id
      minRound wait phase, fun hphase result hr =>
        Wire.Client.latest_agrees now id hround hphase hr⟩,
    fun config t steps => ?_⟩
  have hstart : (Errand.start s t config).Sound :=
    ⟨hround, Machine.sendsBuilt_of_isSending rfl, nofun⟩
  have h := Errand.Alike.run ⟨rfl, .same, .idle⟩ hstart steps
  exact ⟨h.engine, h.machine, h.progress⟩

/-- An update for a round that is over is told so over the wire, and with the same rounds. -/
theorem stale_update_on_both :
    let s := FederationService.create ((RoundEngine.create 0 ⟨.sync, .default, []⟩ [0, 0, 0, 0]
      Strategy.mean).after [(0, .join "a"), (1, .submit "a" (.ofModel [0, 0, 128, 63]))])
        (some "model.bin")
    let u := (ModelUpdate.ofModel [0, 0, 0, 64]).trainedOn 1
    s.engine.state.round < counterLimit ∧
      (s.engine.submitDirectly 2 "a" u).1 = .error (.staleUpdate 1 2) ∧
      ((Wire.Client.submit s 2 "a" u).run .empty []).1.1 = .error (.staleUpdate 1 2) := by
  intro s u
  have hround : s.engine.state.round < counterLimit := by decide +kernel
  have hdirect : (s.engine.submitDirectly 2 "a" u).1 = .error (.staleUpdate 1 2) := by
    decide +kernel
  have h := ((transports_agree s hround).2.1 2 "a" u .empty []
    (.trainedOn 1 (.ofModel [0, 0, 0, 64]))).2
  refine ⟨hround, hdirect, ?_⟩
  rw [hdirect] at h
  generalize ((Wire.Client.submit s 2 "a" u).run .empty []).1.1 = wired at h ⊢
  cases h with
  | error halike =>
    cases halike
    rfl

end Federation
