/-
  Publications that race.

  A round is closed while the engine is locked, and its model is published after that.  Handlers of
  updates and the watchdog bring their models to the desk in one order and get the lock in another.

  * `Publishing`: the engine, the desk and the calls that are under way;
  * `Act`, `Publishing.run`: a step of somebody, and the state after some steps;
  * `Publishing.Takes`: everything a step can come to;
  * `Publishing.submit_alone`, `Publishing.look_alone`: a handler or a watchdog that meets nobody does
    what the service does in one go;
  * `Publishing.settles`: from any state, all calls can run to completion.
-/
import Federation.Proofs.Publishing.Desk
import Federation.Proofs.Round.Models
import Federation.Proofs.Wire.Calls

namespace Federation

open Disk (Fault Faults Program Request Tree OsError)
open Wire

/-- The handler that waits for a model. -/
def Ticket.caller? (k : Ticket) : Option Nat := k.reply.map (·.1)

/-- The answer of the handler that waits for a model, once that is published or has failed to be. -/
def Ticket.answer (k : Ticket) : Option (Nat × Except Status SubmitAck) :=
  k.reply.map fun r => (r.1, .ok r.2)

/-- What a handler answers, from what the engine said to it. -/
def answerTo (r : Except FederationError SubmitOutcome) : Except Status SubmitAck :=
  (r.map FederationService.submitAck).mapError .ofError

/-! ## Steps -/

structure Publishing (σ : Type) where
  engine : RoundEngine σ
  desk : Desk
  /-- Models of closed rounds that wait for the lock. -/
  waiting : List Ticket
  /-- What the engine said to the handlers, each of which has its place as its number. -/
  outcomes : List (Except FederationError SubmitOutcome)
  /-- What handlers have answered. -/
  answers : List (Nat × Except Status SubmitAck)
  /-- The models that were brought to the desk. -/
  handed : List Ticket
  /-- The models of rounds that were closed by calls past the service. -/
  bypassed : List ModelView

inductive Act where
  /-- A handler has received an update, and calls the engine. -/
  | submit (now : Nat) (m : UpdateMessage)
  /-- The watchdog looks for a round that is overdue. -/
  | look (now timeout : Nat)
  /-- Any other call of the engine. -/
  | call (now : Nat) (call : RoundCall)
  /-- One of those that wait gets the lock. -/
  | acquire (n : Nat)
  | request (fault : Option Fault)
  | release
  /-- The disk changes somewhere else. -/
  | elsewhere (t : Tree)

/-- The call of the engine that a step makes. -/
def Act.call? : Act → Option (Nat × RoundCall)
  | .submit now m => some (now, .submit m.collaboratorId m.toUpdate)
  | .look now timeout => some (now, .closeIfOverdue timeout)
  | .call now c => some (now, c)
  | .acquire _ | .request _ | .release | .elsewhere _ => none

def Act.isSubmit : Act → Bool
  | .submit _ _ => true
  | _ => false

namespace Publishing

variable {σ : Type}

/-- The service as it is between two steps. -/
def service (s : Publishing σ) : FederationService σ := ⟨s.engine, s.desk.publisher⟩

/-- A service that publishes to a path, before the first call. -/
def start (e : RoundEngine σ) (path : String) (t : Tree) : Publishing σ where
  engine := e
  desk := .idle path t
  waiting := []
  outcomes := []
  answers := []
  handed := []
  bypassed := []

theorem service_start (e : RoundEngine σ) (path : String) (t : Tree) :
    (start e path t).service = .create e (some path) := rfl

/-- Nobody has the lock. -/
def isFree (s : Publishing σ) : Bool := s.desk.tenure.isNone

/-- All calls have run to completion. -/
def isSettled (s : Publishing σ) : Bool := s.isFree && s.waiting.isEmpty

/-- The models that are on their way. -/
def inFlight (s : Publishing σ) : List Ticket :=
  (s.desk.tenure.map (·.ticket)).toList ++ s.waiting

/-- What a handler has answered. -/
def answersTo (s : Publishing σ) (n : Nat) : List (Except Status SubmitAck) :=
  (s.answers.filter (·.1 = n)).map (·.2)

def bring (s : Publishing σ) (k : Ticket) : Publishing σ :=
  { s with waiting := s.waiting ++ [k], handed := s.handed ++ [k] }

def reply (s : Publishing σ) (n : Nat) (a : Except Status SubmitAck) : Publishing σ :=
  { s with answers := s.answers ++ [(n, a)] }

/-- A handler has heard from the engine.  It goes to the desk with the model of a round that it
closed, and answers at once otherwise. -/
def heard (s : Publishing σ) (r : Except FederationError SubmitOutcome) : Publishing σ :=
  let n := s.outcomes.length
  let s := { s with outcomes := s.outcomes ++ [r] }
  match r with
  | .error err => s.reply n (.error (.ofError err))
  | .ok o =>
    match o.closed with
    | some v => s.bring ⟨v, some (n, FederationService.submitAck o)⟩
    | none => s.reply n (.ok (FederationService.submitAck o))

/-- The watchdog has heard from the engine. -/
def saw (s : Publishing σ) : Except FederationError (Option ModelView) → Publishing σ
  | .ok (some v) => s.bring ⟨v, none⟩
  | .ok none | .error _ => s

/-- The call that has the lock is done, and the handler that waited for it answers. -/
def finish (s : Publishing σ) (h : Tenure) (p : Publisher) : Publishing σ :=
  { s with
    desk := s.desk.release h p
    answers := s.answers ++ h.ticket.answer.toList }

/-- One of those that wait gets the lock. -/
def acquire (s : Publishing σ) (n : Nat) : Publishing σ :=
  match s.desk.tenure, s.waiting[n]? with
  | none, some k => { s with desk := s.desk.acquire k, waiting := s.waiting.eraseIdx n }
  | _, _ => s

/-- The call that has the lock makes its next request. -/
def request (s : Publishing σ) (fault : Option Fault) : Publishing σ :=
  match s.desk.tenure with
  | none => s
  | some h =>
    match h.rest with
    | .done _ => s
    | .ask r next => { s with desk := s.desk.ask h fault r next }

/-- The call that has the lock gives it back, if nothing is left to be done. -/
def release (s : Publishing σ) : Publishing σ :=
  match s.desk.tenure with
  | none => s
  | some h =>
    match h.rest with
    | .done p => s.finish h p
    | .ask _ _ => s

variable [AggregationStrategy σ]

/-- One step.  What is not possible does not happen. -/
def take (s : Publishing σ) : Act → Publishing σ
  | .submit now m =>
    let (result, e) := s.engine.submit now m.collaboratorId m.toUpdate
    { s with engine := e }.heard result
  | .look now timeout =>
    let (result, e) := s.engine.closeIfOverdue now timeout
    { s with engine := e }.saw result
  | .call now call =>
    let (result, e) := s.engine.perform now call
    { s with
      engine := e
      bypassed := s.bypassed ++ (result.toOption.bind RoundAnswer.closed?).toList }
  | .acquire n => s.acquire n
  | .request fault => s.request fault
  | .release => s.release
  | .elsewhere t => if s.desk.Spares t then { s with desk := { s.desk with disk := t } } else s

def run (s : Publishing σ) (acts : List Act) : Publishing σ := acts.foldl take s

theorem run_append (s : Publishing σ) (acts later : List Act) :
    s.run (acts ++ later) = (s.run acts).run later := List.foldl_append ..

/-- What every step keeps holds after all of them. -/
theorem run_induction {P : Publishing σ → Prop} {s : Publishing σ} (h : P s)
    (hstep : ∀ s a, P s → P (s.take a)) (acts : List Act) : P (s.run acts) := by
  induction acts generalizing s with
  | nil => exact h
  | cons a acts ih => exact ih (hstep s a h)

/-! ## What a step comes to -/

/-- Everything a step can come to. -/
inductive Takes (s : Publishing σ) : Act → Publishing σ → Prop where
  | idle {a} : a.call? = none → Takes s a s
  | refused {now m err e} :
      s.engine.perform now (.submit m.collaboratorId m.toUpdate) = (.error err, e) →
      Takes s (.submit now m) { s with
        engine := e
        outcomes := s.outcomes ++ [.error err]
        answers := s.answers ++ [(s.outcomes.length, .error (.ofError err))] }
  | held {now m o e} :
      s.engine.perform now (.submit m.collaboratorId m.toUpdate) = (.ok (.submitted o), e) →
      o.closed = none →
      Takes s (.submit now m) { s with
        engine := e
        outcomes := s.outcomes ++ [.ok o]
        answers := s.answers ++ [(s.outcomes.length, .ok (FederationService.submitAck o))] }
  | closed {now m o v e} :
      s.engine.perform now (.submit m.collaboratorId m.toUpdate) = (.ok (.submitted o), e) →
      o.closed = some v →
      Takes s (.submit now m)
        ({ s with engine := e, outcomes := s.outcomes ++ [Except.ok o] }.bring
          ⟨v, some (s.outcomes.length, FederationService.submitAck o)⟩)
  | looked {now timeout r e} :
      s.engine.perform now (.closeIfOverdue timeout) = (r, e) →
      r.toOption.bind RoundAnswer.closed? = none →
      Takes s (.look now timeout) { s with engine := e }
  | overdue {now timeout v e} :
      s.engine.perform now (.closeIfOverdue timeout) = (.ok (.closing (some v)), e) →
      Takes s (.look now timeout) ({ s with engine := e }.bring ⟨v, none⟩)
  | called {now call r e} : s.engine.perform now call = (r, e) →
      Takes s (.call now call) { s with
        engine := e
        bypassed := s.bypassed ++ (r.toOption.bind RoundAnswer.closed?).toList }
  | acquired {n k} : s.desk.tenure = none → s.waiting[n]? = some k →
      Takes s (.acquire n)
        { s with desk := s.desk.acquire k, waiting := s.waiting.eraseIdx n }
  | asked {fault h r next} : s.desk.tenure = some h → h.rest = .ask r next →
      Takes s (.request fault) { s with desk := s.desk.ask h fault r next }
  | released {h p} : s.desk.tenure = some h → h.rest = .done p → Takes s .release (s.finish h p)
  | elsewhere {t} : s.desk.Spares t →
      Takes s (.elsewhere t) { s with desk := { s.desk with disk := t } }

theorem takes_submit (s : Publishing σ) (now : Nat) (m : UpdateMessage) :
    s.Takes (.submit now m) (s.take (.submit now m)) := by
  have hp : s.engine.perform now (.submit m.collaboratorId m.toUpdate) =
      ((s.engine.submit now m.collaboratorId m.toUpdate).1.map .submitted,
        (s.engine.submit now m.collaboratorId m.toUpdate).2) := rfl
  simp only [take]
  generalize s.engine.submit now m.collaboratorId m.toUpdate = result at hp ⊢
  obtain ⟨err | o, e⟩ := result
  · exact .refused hp
  · cases hc : o.closed with
    | none => simp only [heard, hc]; exact .held hp hc
    | some v => simp only [heard, hc]; exact .closed hp hc

theorem takes_look (s : Publishing σ) (now timeout : Nat) :
    s.Takes (.look now timeout) (s.take (.look now timeout)) := by
  have hp : s.engine.perform now (.closeIfOverdue timeout) =
      ((s.engine.closeIfOverdue now timeout).1.map .closing,
        (s.engine.closeIfOverdue now timeout).2) := rfl
  simp only [take]
  generalize s.engine.closeIfOverdue now timeout = result at hp ⊢
  obtain ⟨err | _ | v, e⟩ := result
  · exact .looked hp rfl
  · exact .looked hp rfl
  · exact .overdue hp

/-- **Every step is one of these.** -/
theorem takes (s : Publishing σ) (a : Act) : s.Takes a (s.take a) := by
  cases a with
  | submit now m => exact s.takes_submit now m
  | look now timeout => exact s.takes_look now timeout
  | call now call => exact .called rfl
  | acquire n =>
    change s.Takes _ (s.acquire n)
    unfold acquire
    split
    · next k hfree hk => exact .acquired hfree hk
    · exact .idle rfl
  | request fault =>
    change s.Takes _ (s.request fault)
    unfold request
    split
    · exact .idle rfl
    · next h hh =>
      split
      · exact .idle rfl
      · next r next hrest => exact .asked hh hrest
  | release =>
    change s.Takes _ s.release
    unfold release
    split
    · exact .idle rfl
    · next h hh =>
      split
      · next p hrest => exact .released hh hrest
      · exact .idle rfl
  | elsewhere t =>
    simp only [take]
    split
    · next ht => exact .elsewhere ht
    · exact .idle rfl

/-! ## Nobody else around -/

/-- The requests of a program, met by given faults, as steps. -/
theorem requests_alone (s : Publishing σ) {k : Ticket} {p : Program Publisher}
    {before : Except OsError (List UInt8)} {writing : Writing}
    (hh : s.desk.tenure = some ⟨k, p, before, writing⟩) (faults : Faults) :
    ∃ acts d writing', (∀ a ∈ acts, a.call? = none) ∧ s.run acts = { s with desk := d } ∧
      d.tenure = some ⟨k, .done (p.run s.desk.disk faults).1, before, writing'⟩ ∧
      d.disk = (p.run s.desk.disk faults).2.1 := by
  induction p generalizing s writing faults with
  | done p => exact ⟨[], s.desk, writing, nofun, rfl, hh, rfl⟩
  | ask r next ih =>
    have hmeet : r.meet [faults.head?.join] s.desk.disk = r.meet faults s.desk.disk := by
      rcases faults with _ | ⟨_ | f, _⟩ <;> rfl
    have htake : s.take (.request faults.head?.join) =
        { s with
          desk := s.desk.answered ⟨k, .ask r next, before, writing⟩ r next
            (r.meet faults s.desk.disk) } := by
      simp only [take, request, hh]
      rw [← hmeet]
      rfl
    obtain ⟨acts, d, writing', hcalls, hrun, htenure, hdisk⟩ :=
      ih _ (s.take (.request faults.head?.join)) (by rw [htake]; rfl) faults.tail
    rw [htake] at hrun htenure hdisk
    exact ⟨.request faults.head?.join :: acts, d, writing', List.forall_mem_cons.2 ⟨rfl, hcalls⟩,
      (congrArg (run · acts) htake).trans hrun, htenure, hdisk⟩

/-- The last of those that wait, when it publishes its model alone. -/
theorem publish_alone (s : Publishing σ) (hfree : s.desk.tenure = none) {older : List Ticket}
    {k : Ticket} (hw : s.waiting = older ++ [k]) (faults : Faults) :
    ∃ acts d, (∀ a ∈ acts, a.call? = none) ∧
      s.run acts =
        { s with desk := d, waiting := older, answers := s.answers ++ k.answer.toList } ∧
      d.tenure = none ∧
      d.publisher = ((s.desk.publisher.publish k.view).run s.desk.disk faults).1 ∧
      d.disk = ((s.desk.publisher.publish k.view).run s.desk.disk faults).2.1 := by
  have hk : s.waiting[older.length]? = some k := by simp [hw]
  have herase : s.waiting.eraseIdx older.length = older := by
    rw [hw, List.eraseIdx_append_of_length_le le_rfl]
    simp
  have htake : s.take (.acquire older.length) =
      { s with desk := s.desk.acquire k, waiting := older } := by
    simp only [take, acquire, hfree, hk, herase]
  obtain ⟨acts, d, writing, hcalls, hrun, htenure, hdisk⟩ :=
    (s.take (.acquire older.length)).requests_alone (by rw [htake]; rfl) faults
  rw [htake] at hrun htenure hdisk
  let p := ((s.desk.publisher.publish k.view).run s.desk.disk faults).1
  refine ⟨.acquire older.length :: acts ++ [.release],
    d.release ⟨k, .done p, s.desk.file, writing⟩ p, ?_, ?_, rfl, rfl, hdisk⟩
  · exact List.forall_mem_append.2 ⟨List.forall_mem_cons.2 ⟨rfl, hcalls⟩, by simp [Act.call?]⟩
  rw [run_append]
  change (((s.take _).run acts).take .release) = _
  rw [htake, hrun]
  simp only [take, release, htenure]
  rfl

/-- A handler that nobody crosses does what the service does with an update. -/
theorem submit_alone (s : Publishing σ) (hfree : s.desk.tenure = none) (now : Nat)
    (m : UpdateMessage) (faults : Faults) :
    ∃ acts, let s' := s.run (.submit now m :: acts)
      let r := (s.service.submit now m).run s.desk.disk faults
      (∀ a ∈ acts, a.call? = none) ∧ s'.service = r.1.2 ∧ s'.desk.disk = r.2.1 ∧
        s'.answers = s.answers ++ [(s.outcomes.length, r.1.1)] ∧ s'.desk.tenure = none ∧
        s'.waiting = s.waiting := by
  unfold FederationService.submit service
  generalize hr : s.engine.submit now m.collaboratorId m.toUpdate = result
  obtain ⟨err | o, e⟩ := result
  · refine ⟨[], ?_⟩
    simp only [run, List.foldl_cons, List.foldl_nil, take, hr]
    exact ⟨nofun, rfl, rfl, rfl, hfree, rfl⟩
  · cases hc : o.closed with
    | none =>
      refine ⟨[], ?_⟩
      simp only [run, List.foldl_cons, List.foldl_nil, take, hr, heard, hc]
      exact ⟨nofun, rfl, rfl, rfl, hfree, rfl⟩
    | some v =>
      have htake : s.take (.submit now m) =
          { s with engine := e, outcomes := s.outcomes ++ [Except.ok o] }.bring
            ⟨v, some (s.outcomes.length, FederationService.submitAck o)⟩ := by
        simp only [take, hr, heard, hc]
      obtain ⟨acts, d, hcalls, hrun, htenure, hpublisher, hdisk⟩ :=
        (s.take (.submit now m)).publish_alone (by rw [htake]; exact hfree)
          (by rw [htake]; rfl) faults
      rw [htake] at hrun hpublisher hdisk
      have hs' : s.run (.submit now m :: acts) = _ := (congrArg (run · acts) htake).trans hrun
      have hbind : (do return (Except.ok (FederationService.submitAck o),
          ← (⟨e, s.desk.publisher⟩ : FederationService σ).publishClosed (some v))) =
          ((⟨e, s.desk.publisher⟩ : FederationService σ).publishClosed (some v)).bind fun s =>
            Program.done ((Except.ok (FederationService.submitAck o) : Except Status SubmitAck), s) :=
        rfl
      refine ⟨acts, ?_⟩
      simp only [hs', hc, hbind, Program.run_bind, FederationService.publishClosed_run]
      exact ⟨hcalls, congrArg (FederationService.mk e) hpublisher, hdisk, rfl, htenure, trivial⟩

/-- A look of the watchdog that nobody crosses does what the service does. -/
theorem look_alone (s : Publishing σ) (hfree : s.desk.tenure = none) (now timeout : Nat)
    (faults : Faults) :
    ∃ acts, let s' := s.run (.look now timeout :: acts)
      let r := (s.service.look now timeout).run s.desk.disk faults
      (∀ a ∈ acts, a.call? = none) ∧ s'.service = r.1 ∧ s'.desk.disk = r.2.1 ∧
        s'.answers = s.answers ∧ s'.desk.tenure = none ∧ s'.waiting = s.waiting := by
  unfold FederationService.look service
  generalize hr : s.engine.closeIfOverdue now timeout = result
  obtain ⟨err | _ | v, e⟩ := result
  · refine ⟨[], ?_⟩
    simp only [run, List.foldl_cons, List.foldl_nil, take, hr]
    exact ⟨nofun, rfl, rfl, rfl, hfree, rfl⟩
  · refine ⟨[], ?_⟩
    simp only [run, List.foldl_cons, List.foldl_nil, take, hr]
    exact ⟨nofun, rfl, rfl, rfl, hfree, rfl⟩
  · have htake : s.take (.look now timeout) = { s with engine := e }.bring ⟨v, none⟩ := by
      simp only [take, hr, saw]
    obtain ⟨acts, d, hcalls, hrun, htenure, hpublisher, hdisk⟩ :=
      (s.take (.look now timeout)).publish_alone (by rw [htake]; exact hfree)
        (by rw [htake]; rfl) faults
    rw [htake] at hrun hpublisher hdisk
    have hs' : s.run (.look now timeout :: acts) = _ := (congrArg (run · acts) htake).trans hrun
    refine ⟨acts, ?_⟩
    simp only [hs', FederationService.publishClosed_run]
    exact ⟨hcalls, congrArg (FederationService.mk e) hpublisher, hdisk,
      by simp [Ticket.answer, bring], htenure, trivial⟩

/-- Whoever is under way can finish. -/
theorem settles (s : Publishing σ) :
    ∃ acts, (∀ a ∈ acts, a.call? = none) ∧ (s.run acts).isSettled = true := by
  -- those that wait, one after the other
  have hqueue : ∀ (waiting : List Ticket) (s : Publishing σ), s.desk.tenure = none →
      s.waiting = waiting →
      ∃ acts, (∀ a ∈ acts, a.call? = none) ∧ (s.run acts).isSettled = true := by
    intro waiting
    induction waiting using List.reverseRecOn with
    | nil => exact fun s hfree hw => ⟨[], nofun, by simp [isSettled, isFree, run, hfree, hw]⟩
    | append_singleton older k ih =>
      intro s hfree hw
      obtain ⟨acts, d, hcalls, hrun, htenure, -⟩ := s.publish_alone hfree hw []
      obtain ⟨more, hmore, hsettled⟩ := ih (s.run acts) (by rw [hrun]; exact htenure) (by rw [hrun])
      exact ⟨acts ++ more, List.forall_mem_append.2 ⟨hcalls, hmore⟩, by rwa [run_append]⟩
  cases hh : s.desk.tenure with
  | none => exact hqueue s.waiting s hh rfl
  | some tenure =>
    obtain ⟨acts, d, writing, hcalls, hrun, htenure, -⟩ := s.requests_alone hh []
    have hfree : (s.run (acts ++ [.release])).desk.tenure = none := by
      rw [run_append, hrun]
      simp only [run, List.foldl_cons, List.foldl_nil, take, release, htenure]
      rfl
    obtain ⟨more, hmore, hsettled⟩ := hqueue _ _ hfree rfl
    refine ⟨acts ++ [.release] ++ more, ?_, by rwa [run_append]⟩
    exact List.forall_mem_append.2
      ⟨List.forall_mem_append.2 ⟨hcalls, by simp [Act.call?]⟩, hmore⟩

end Publishing

end Federation
