/-
  The pace of a collaborator that works without trouble.

  * `Steady`: the count of its rounds goes with the round it has counted last, and it has ended only
    when the count is full;
  * `Steady.afterSubmit`: an accepted update brings the count to the round it was for;
  * `Pace`: it is not cancelled, nothing fails it but stale updates, and its files can be worked on;
  * `Goes`: it has completed no round but those that were due;
  * `Pace.opened` and its like: the moves it makes keep its pace.
-/
import Federation.Proofs.Fleet.Fit

namespace Federation

open Disk (Program Location Node Holds Tree Request)
open WorkDir (modelAt updateAt Home)

/-! ## Counting rounds -/

/-- The phases of a collaborator in step that has not ended. -/
def Phase.InStep : Phase → Prop
  | .submitBackoff _ _ | .fetchBackoff _ _ | .finished _ => False
  | _ => True

/-- A synchronous collaborator of `R` rounds that has counted every round up to the one it has
counted last, and has ended only with all of them. -/
structure Steady (R : Nat) (m : Machine) : Prop where
  mode : m.config.mode = .sync
  rounds : m.config.rounds = R
  counted : m.countedRound ≠ some 0
  completed : m.roundsCompleted = m.countedRound.getD 0
  standing : m.phase.InStep ∧ m.roundsCompleted < R ∨
    ∃ s, m.phase = .finished (.ok s) ∧ s.roundsCompleted = R ∧ m.roundsCompleted = R

namespace Steady

variable {R : Nat} {m m' : Machine}

theorem running (h : Steady R m) (hp : m.phase.InStep) : m.roundsCompleted < R := by
  rcases h.standing with ⟨-, hlt⟩ | ⟨s, hs, -⟩
  · exact hlt
  · rw [hs] at hp
    exact hp.elim

/-- Going on without counting. -/
theorem move (h : Steady R m) (hp : m.phase.InStep) (hp' : m'.phase.InStep)
    (hconfig : m'.config = m.config) (hcounted : m'.countedRound = m.countedRound)
    (hcompleted : m'.roundsCompleted = m.roundsCompleted) : Steady R m' where
  mode := hconfig ▸ h.mode
  rounds := hconfig ▸ h.rounds
  counted := hcounted ▸ h.counted
  completed := by rw [hcompleted, hcounted, h.completed]
  standing := Or.inl ⟨hp', hcompleted ▸ h.running hp⟩

theorem ceilingReached_eq (h : Steady R m) (hp : m.phase.InStep) : m.ceilingReached = false := by
  have := h.running hp
  simp [Machine.ceilingReached, h.rounds, Nat.not_le.2 this]

/-- Counting the round an accepted update was for. -/
theorem countRound (h : Steady R m) (hp : m.phase.InStep) (hR : R < counterLimit)
    (hround : 0 < m.modelRound) (hle : m.roundsCompleted ≤ m.modelRound)
    (hge : m.modelRound ≤ m.roundsCompleted + 1) :
    m.countRound.countedRound ≠ some 0 ∧
      m.countRound.roundsCompleted = m.countRound.countedRound.getD 0 ∧
      m.countRound.roundsCompleted = m.modelRound := by
  have hlt := h.running hp
  unfold Machine.countRound
  rw [h.mode]
  simp only [CoordinationMode.isAsync, Bool.false_eq_true, if_false]
  split
  · next hc =>
    refine ⟨h.counted, h.completed, ?_⟩
    rw [h.completed, hc]
    rfl
  · next hc =>
    -- the round was not counted before, so it is one more than those that were
    have hne : m.roundsCompleted ≠ m.modelRound := by
      intro he
      rw [h.completed] at he
      cases hcr : m.countedRound with
      | none => rw [hcr] at he; exact absurd he hround.ne
      | some c =>
        rw [hcr] at he hc
        exact hc (congrArg some he)
    have hbump : bump m.roundsCompleted = m.modelRound := by
      rw [bump, Nat.mod_eq_of_lt (by omega)]
      omega
    refine ⟨?_, hbump, hbump⟩
    simpa using hround.ne'

/-- An accepted update brings the count to the round it was for, and the collaborator to its end or
to the next round. -/
theorem afterSubmit (h : Steady R m) (hp : m.phase.InStep) (hR : R < counterLimit)
    (hround : 0 < m.modelRound) (hle : m.roundsCompleted ≤ m.modelRound)
    (hge : m.modelRound ≤ m.roundsCompleted + 1) (r : SubmitReceipt) :
    Steady R (m.afterSubmit false r) ∧
      (m.afterSubmit false r).roundsCompleted = m.modelRound ∧
      ((m.afterSubmit false r).phase = .pausing ∨
        ∃ x, (m.afterSubmit false r).phase = .finished x) := by
  have hlt := h.running hp
  have h' : Steady R { m with lastRound := max m.lastRound r.round } :=
    ⟨h.mode, h.rounds, h.counted, h.completed, h.standing⟩
  obtain ⟨hcounted, hcompleted, hdone⟩ := h'.countRound hp hR hround hle hge
  have hmode : ({ m with lastRound := max m.lastRound r.round } : Machine).countRound.config.mode =
      .sync := by
    rw [Machine.countRound_config]
    exact h.mode
  have hrounds :
      ({ m with lastRound := max m.lastRound r.round } : Machine).countRound.config.rounds = R := by
    rw [Machine.countRound_config]
    exact h.rounds
  unfold Machine.afterSubmit
  generalize ({ m with lastRound := max m.lastRound r.round } : Machine).countRound = m'
    at hcounted hcompleted hdone hmode hrounds
  have hdone : m'.roundsCompleted = m.modelRound := hdone
  simp only
  split
  · next hc =>
    have hfull : m'.roundsCompleted = R := by
      have : R ≤ m'.roundsCompleted := by
        simp only [Machine.ceilingReached, hrounds, Bool.and_eq_true, decide_eq_true_eq] at hc
        exact hc.2
      omega
    exact ⟨⟨hmode, hrounds, hcounted, hcompleted, Or.inr ⟨_, rfl, hfull, hfull⟩⟩, hdone,
      Or.inr ⟨_, rfl⟩⟩
  · next hc =>
    have hopen : m'.roundsCompleted < R := by
      have hpos : 0 < R := by omega
      simpa [Machine.ceilingReached, hrounds, hpos] using hc
    have hnext : m'.unlessCancelled false
        (if m'.config.mode.isAsync = true then m'.refresh else m'.enter .waiting .pausing) =
          m'.enter .waiting .pausing := by
      simp [Machine.unlessCancelled, hmode, CoordinationMode.isAsync]
    rw [hnext]
    exact ⟨⟨hmode, hrounds, hcounted, hcompleted, Or.inl ⟨trivial, hopen⟩⟩, hdone, Or.inl rfl⟩

end Steady

/-! ## Files and calls without trouble -/

/-- The working directory does what it is asked to do, and calls fail for stale updates alone. -/
def Runs (w : WorkDir) (d : Location) (model update : Option Node) : Phase → Activity → Prop
  | .handing _, .filing rest =>
    rest.Ensures Sound w.modelPath (modelAt d) model fun r _ => r = .done (.ok ())
  | .clearing, .filing rest =>
    rest.Ensures Sound w.updatePath (updateAt d) update fun r _ => r = .done (.ok ())
  | .collecting, .idle => ∃ b, Holds update b
  | .collecting, .filing rest =>
    rest.Ensures Sound w.updatePath (updateAt d) update fun r _ => ∃ b, r = .update (.ok b)
  | _, .answered (.view (.error _)) | _, .polling (.finished (.error _)) => False
  | _, .answered (.receipt (.error e)) => ∃ base round, e = .staleUpdate base round
  | _, _ => True

/-- The rounds a party has completed, one that was accepted but is not counted yet included. -/
def Party.due (p : Party) : Nat :=
  match p.activity with
  | .answered (.receipt (.ok _)) => p.machine.modelRound
  | _ => p.machine.roundsCompleted

/-- A party that has gone on, with no round completed that was not due. -/
structure Goes (p p' : Party) : Prop where
  id : p'.id = p.id
  due : p'.due = p.due
  completed : p'.machine.roundsCompleted = p.machine.roundsCompleted ∨
    p'.machine.roundsCompleted = p'.due

/-- A party that works without trouble. -/
structure Pace (R : Nat) (t : Tree) (d : Location) (p : Party) : Prop where
  awake : p.cancelled = false
  steady : Steady R p.machine
  model : ¬ t.IsDirectory (modelAt d)
  update : ¬ t.IsDirectory (updateAt d)
  runs : Runs p.workDir d (t.node? (modelAt d)) (t.node? (updateAt d)) p.machine.phase p.activity

section
variable {R : Nat} {t t' : Tree} {d : Location} {p : Party}

/-- Work elsewhere leaves the party alone. -/
theorem Pace.elsewhere (h : Pace R t d p) {l : Location} (ht : Tree.OnlyAt l t t')
    (hm : modelAt d ≠ l) (hu : updateAt d ≠ l) : Pace R t' d p where
  awake := h.awake
  steady := h.steady
  model := fun hd => h.model ((ht.isDirectory _).1 hd)
  update := fun hd => h.update ((ht.isDirectory _).1 hd)
  runs := by rw [ht.elsewhere _ hm, ht.elsewhere _ hu]; exact h.runs

theorem Party.due_eq (h : ∀ r, p.activity ≠ .answered (.receipt (.ok r))) :
    p.due = p.machine.roundsCompleted := by
  unfold due
  split
  · next r ha => exact absurd ha (h r)
  · rfl

/-- Busy with something else, that is no receipt. -/
theorem Goes.doing (hd : p.due = p.machine.roundsCompleted) {a : Activity}
    (ha : ∀ r, a ≠ .answered (.receipt (.ok r))) : Goes p (p.doing a) :=
  ⟨rfl, (Party.due_eq (p := p.doing a) ha).trans hd.symm, Or.inl rfl⟩

/-- Going on with an answer that counts nothing. -/
theorem Pace.resume (h : Pace R t d p) (hp : p.machine.phase.InStep)
    (hd : p.due = p.machine.roundsCompleted) {reply : Reply} {m : Machine}
    (hm : p.machine.resume false reply = m) (hp' : m.phase.InStep)
    (hcounted : m.countedRound = p.machine.countedRound)
    (hcompleted : m.roundsCompleted = p.machine.roundsCompleted)
    (hruns : Runs p.workDir d (t.node? (modelAt d)) (t.node? (updateAt d)) m.phase .idle) :
    Pace R t d (p.resume reply) ∧ Goes p (p.resume reply) := by
  have hres : p.resume reply = { p with machine := m, activity := .idle } := by
    rw [Party.resume, h.awake, hm]
  have hconfig : m.config = p.machine.config := by rw [← hm, Machine.resume_config]
  rw [hres]
  refine ⟨⟨h.awake, h.steady.move hp hp' hconfig hcounted hcompleted, h.model, h.update, hruns⟩,
    ?_, hcompleted.trans hd.symm, Or.inl hcompleted⟩
  exact congrArg CollaboratorConfig.id hconfig

/-! ## Steps in the working directory -/

theorem Pace.opened (h : Pace R t d p) (ha : p.activity = .idle) {rest : Program Reply}
    (hj : p.IsJob rest) :
    Pace R t d (p.doing (.filing rest)) ∧ Goes p (p.doing (.filing rest)) := by
  refine ⟨⟨h.awake, h.steady, h.model, h.update, ?_⟩,
    .doing (Party.due_eq (by simp [ha])) (by simp)⟩
  have hmodel : ∀ m, t.node? (modelAt d) ≠ some (.directory m) := fun m hm => h.model ⟨m, hm⟩
  have hupdate : ∀ m, t.node? (updateAt d) ≠ some (.directory m) := fun m hm => h.update ⟨m, hm⟩
  have hruns := h.runs
  show Runs p.workDir d _ _ p.machine.phase (.filing rest)
  cases hj with
  | writeModel hph =>
    rw [hph]
    refine Program.Ensures.bind ((WorkDir.sound_writeModel _ _ _ hmodel).mono fun r n hr => ?_)
    exact congrArg Reply.done hr
  | clearUpdate hph =>
    rw [hph]
    refine Program.Ensures.bind ((WorkDir.sound_clearUpdate _ _ hupdate).mono fun r n hr => ?_)
    exact congrArg Reply.done hr
  | readUpdate hph =>
    rw [hph, ha] at hruns
    obtain ⟨b, hb⟩ := hruns
    rw [hph]
    refine Program.Ensures.bind ((WorkDir.sound_readUpdate _ _ hb).mono fun r n hr => ?_)
    exact ⟨b, congrArg Reply.update hr⟩

end

section
variable {R : Nat} {σ : Type} {w : World σ} {d : Location} {p : Party}

theorem Pace.asked (h : Pace R w.disk d p) (hf : Fit w d p) {r : Request}
    {next : Except Disk.OsError r.Reply → Program Reply}
    (ha : p.activity = .filing (.ask r next)) :
    Pace R (r.meet [none] w.disk).2 d
        (p.doing (.filing (next (r.meet [none] w.disk).1))) ∧
      Goes p (p.doing (.filing (next (r.meet [none] w.disk).1))) := by
  have hst := hf.stands
  have hruns := h.runs
  rw [ha] at hst hruns
  obtain ⟨v, hv, hm, hs⟩ := hst.busy nofun nofun
  have key : ∀ l, Tree.OnlyAt l w.disk (r.meet [none] w.disk).2 →
      Runs p.workDir d ((r.meet [none] w.disk).2.node? (modelAt d))
        ((r.meet [none] w.disk).2.node? (updateAt d)) p.machine.phase
        (.filing (next (r.meet [none] w.disk).1)) →
      Pace R (r.meet [none] w.disk).2 d (p.doing (.filing (next (r.meet [none] w.disk).1))) ∧
        Goes p (p.doing (.filing (next (r.meet [none] w.disk).1))) := fun l ht hr =>
    ⟨⟨h.awake, h.steady, fun hd => h.model ((ht.isDirectory _).1 hd),
      fun hd => h.update ((ht.isDirectory _).1 hd), hr⟩,
      .doing (Party.due_eq (by simp [ha])) (by simp)⟩
  cases hph : p.machine.phase with
  | handing again =>
    rw [hph] at hruns key
    exact key _ (hruns.1.onlyAt hf.home.modelPath (WorkDir.modelAt_ne_nil d) _)
      (hruns.2 w.disk none rfl hf.home.modelPath rfl)
  | clearing =>
    rw [hph] at hruns key
    exact key _ (hruns.1.onlyAt hf.home.updatePath (WorkDir.updateAt_ne_nil d) _)
      (hruns.2 w.disk none rfl hf.home.updatePath rfl)
  | collecting =>
    rw [hph] at hruns key
    exact key _ (hruns.1.onlyAt hf.home.updatePath (WorkDir.updateAt_ne_nil d) _)
      (hruns.2 w.disk none rfl hf.home.updatePath rfl)
  | _ => rw [hph] at hs; exact hs.elim

theorem Pace.settled (h : Pace R w.disk d p) (hf : Fit w d p) {reply : Reply}
    (ha : p.activity = .filing (.done reply)) :
    Pace R w.disk d (p.resume reply) ∧ Goes p (p.resume reply) := by
  have hst := hf.stands
  have hruns := h.runs
  have hdue : p.due = p.machine.roundsCompleted := Party.due_eq (by simp [ha])
  rw [ha] at hst hruns
  obtain ⟨v, hv, hm, hs⟩ := hst.busy nofun nofun
  cases hph : p.machine.phase with
  | handing again =>
    rw [hph] at hruns
    obtain rfl : reply = .done (.ok ()) := hruns
    have hstep : p.machine.phase.InStep := by rw [hph]; trivial
    cases again with
    | true =>
      have hres : p.machine.resume false (.done (.ok ())) = p.machine.handOver false := by
        unfold Machine.resume
        rw [hph]
      exact h.resume hstep hdue hres trivial rfl rfl trivial
    | false =>
      have hres : p.machine.resume false (.done (.ok ())) =
          p.machine.enter .training .clearing := by
        unfold Machine.resume
        rw [hph]
        simp [Machine.beginRound, h.steady.ceilingReached_eq hstep, Machine.unlessCancelled]
      exact h.resume hstep hdue hres trivial rfl rfl trivial
  | clearing =>
    rw [hph] at hruns
    obtain rfl : reply = .done (.ok ()) := hruns
    have hres : p.machine.resume false (.done (.ok ())) = p.machine.goTo .training := by
      unfold Machine.resume
      rw [hph]
    exact h.resume (by rw [hph]; trivial) hdue hres trivial rfl rfl trivial
  | collecting =>
    rw [hph] at hruns
    obtain ⟨b, rfl⟩ := hruns
    have hres : p.machine.resume false (.update (.ok b)) =
        p.machine.enter .submitting (.submitting (p.machine.sampled b) 0) := by
      unfold Machine.resume
      rw [hph]
      rfl
    exact h.resume (by rw [hph]; trivial) hdue hres trivial rfl rfl trivial
  | _ => rw [hph] at hs; exact hs.elim

/-! ## Training -/

theorem Pace.started {t : Tree} (h : Pace R t d p) (ha : p.activity = .idle)
    (hph : p.machine.phase = .training) (input : Option Blob) (stale : Bool) :
    Pace R t d (p.doing (.training input stale)) ∧ Goes p (p.doing (.training input stale)) := by
  refine ⟨⟨h.awake, h.steady, h.model, h.update, ?_⟩,
    .doing (Party.due_eq (by simp [ha])) (by simp)⟩
  show Runs p.workDir d _ _ p.machine.phase _
  rw [hph]
  trivial

theorem Pace.edited (h : Pace R w.disk d p) (hf : Fit w d p) {input : Option Blob} {stale : Bool}
    (ha : p.activity = .training input stale) (edit : Edit) :
    Pace R ((edit.request p.workDir.updatePath).perform w.disk).2 d p := by
  have ht := (edit.isAt p.workDir.updatePath).onlyAt hf.home.updatePath
    (WorkDir.updateAt_ne_nil d) []
  refine ⟨h.awake, h.steady, fun hd => h.model ((ht.isDirectory _).1 hd),
    fun hd => h.update ((ht.isDirectory _).1 hd), ?_⟩
  rw [ha, hf.training ha]
  trivial

/-- A trainer that succeeds leaves something to collect. -/
theorem Pace.ended (h : Pace R w.disk d p) (hf : Fit w d p) {input : Option Blob} {stale : Bool}
    (ha : p.activity = .training input stale) {b : Blob}
    (hb : w.disk.read p.workDir.updatePath = .ok b) :
    Pace R w.disk d (p.resume (.done (.ok ()))) ∧ Goes p (p.resume (.done (.ok ()))) := by
  have hph := hf.training ha
  have hres : p.machine.resume false (.done (.ok ())) = p.machine.goTo .collecting := by
    unfold Machine.resume
    rw [hph]
    rfl
  exact h.resume (by rw [hph]; trivial) (Party.due_eq (by simp [ha])) hres trivial rfl rfl
    ⟨b, (Disk.read_ok_iff hf.home.updatePath).1 hb⟩

/-! ## Calls and their answers -/

section
variable {t : Tree}

/-- The pause between two rounds ends. -/
theorem Pace.woke (h : Pace R t d p) (ha : p.activity = .idle) {n : Nat}
    (hd : p.machine.demand = some (.sleep n)) :
    Pace R t d (p.resume .slept) ∧ Goes p (p.resume .slept) := by
  have hdue : p.due = p.machine.roundsCompleted := Party.due_eq (by simp [ha])
  rcases h.steady.standing with ⟨hstep, -⟩ | ⟨s, hs, -⟩
  · cases hph : p.machine.phase with
    | pausing =>
      have hres : p.machine.resume false .slept = p.machine.goTo (.fetching .nextRound 0) := by
        unfold Machine.resume
        rw [hph]
      exact h.resume hstep hdue hres trivial rfl rfl trivial
    | submitBackoff | fetchBackoff | finished => rw [hph] at hstep; exact hstep.elim
    | fetching purpose attempt => cases purpose <;> simp [Machine.demand, hph] at hd
    | _ => simp [Machine.demand, hph] at hd
  · simp [Machine.demand, hs] at hd

theorem Pace.joined (h : Pace R t d p) (ha : p.activity = .idle) {again : Bool}
    (hph : p.machine.phase = .joining again) (v : ModelView) :
    Pace R t d (p.doing (.answered (.view (.ok v)))) ∧
      Goes p (p.doing (.answered (.view (.ok v)))) := by
  refine ⟨⟨h.awake, h.steady, h.model, h.update, ?_⟩,
    .doing (Party.due_eq (by simp [ha])) (by simp)⟩
  show Runs p.workDir d _ _ p.machine.phase _
  rw [hph]
  trivial

theorem Pace.polled (h : Pace R t d p) {purpose : FetchPurpose} {attempt : Nat}
    (hph : p.machine.phase = .fetching purpose attempt)
    (hdue : p.due = p.machine.roundsCompleted) {phase : LongPollPhase}
    (hr : ∀ e, phase ≠ .finished (.error e)) :
    Pace R t d (p.doing (Party.pollActivity phase)) ∧
      Goes p (p.doing (Party.pollActivity phase)) := by
  refine ⟨⟨h.awake, h.steady, h.model, h.update, ?_⟩, .doing hdue ?_⟩
  · show Runs p.workDir d _ _ p.machine.phase (Party.pollActivity phase)
    rw [hph]
    cases phase with
    | finished r =>
      cases r with
      | error e => exact absurd rfl (hr e)
      | ok v => trivial
    | _ => trivial
  · intro r
    cases phase <;> simp [Party.pollActivity]

/-- A submission that is accepted or stale. -/
theorem Pace.submitted (h : Pace R t d p) {u : ModelUpdate} {attempt : Nat}
    (hph : p.machine.phase = .submitting u attempt) {r : Except FederationError SubmitReceipt}
    (hr : ∀ e, r = .error e → ∃ base round, e = .staleUpdate base round) :
    Pace R t d (p.doing (.answered (.receipt r))) := by
  refine ⟨h.awake, h.steady, h.model, h.update, ?_⟩
  show Runs p.workDir d _ _ p.machine.phase (.answered (.receipt r))
  rw [hph]
  cases r with
  | ok r => trivial
  | error e => exact hr e rfl

/-- A model has come. -/
theorem Pace.viewed (h : Pace R t d p) {v : ModelView} (ha : p.activity = .answered (.view (.ok v)))
    (hph : (∃ again, p.machine.phase = .joining again) ∨
      ∃ purpose attempt, p.machine.phase = .fetching purpose attempt) :
    Pace R t d (p.resume (.view (.ok v))) ∧ Goes p (p.resume (.view (.ok v))) := by
  have hdue : p.due = p.machine.roundsCompleted := Party.due_eq (by simp [ha])
  obtain ⟨again, hstep, hres⟩ : ∃ again, p.machine.phase.InStep ∧
      p.machine.resume false (.view (.ok v)) = (p.machine.observe v).handOver again := by
    rcases hph with ⟨again, hph⟩ | ⟨purpose, attempt, hph⟩
    · exact ⟨again, by rw [hph]; trivial, by unfold Machine.resume; rw [hph]⟩
    · exact ⟨false, by rw [hph]; trivial, by unfold Machine.resume; rw [hph]⟩
  exact h.resume hstep hdue hres trivial rfl rfl trivial

/-- An update has come too late, and the collaborator catches up. -/
theorem Pace.late (h : Pace R t d p) {base round : Nat}
    (ha : p.activity = .answered (.receipt (.error (.staleUpdate base round)))) {u : ModelUpdate}
    {attempt : Nat} (hph : p.machine.phase = .submitting u attempt) :
    Pace R t d (p.resume (.receipt (.error (.staleUpdate base round)))) ∧
      Goes p (p.resume (.receipt (.error (.staleUpdate base round)))) := by
  have hres : p.machine.resume false (.receipt (.error (.staleUpdate base round))) =
      p.machine.refresh := by
    unfold Machine.resume
    rw [hph]
    rfl
  exact h.resume (by rw [hph]; trivial) (Party.due_eq (by simp [ha])) hres trivial rfl rfl trivial

/-- An update was accepted, and its round is counted. -/
theorem Pace.accepted (h : Pace R t d p) (hR : R < counterLimit) {r : SubmitReceipt}
    (ha : p.activity = .answered (.receipt (.ok r))) {u : ModelUpdate} {attempt : Nat}
    (hph : p.machine.phase = .submitting u attempt) (hround : 0 < p.machine.modelRound)
    (hahead : p.machine.roundsCompleted ≤ p.due) (hbehind : p.due ≤ p.machine.roundsCompleted + 1) :
    Pace R t d (p.resume (.receipt (.ok r))) ∧ Goes p (p.resume (.receipt (.ok r))) := by
  have hdue : p.due = p.machine.modelRound := by simp [Party.due, ha]
  have hres : p.resume (.receipt (.ok r)) =
      { p with machine := p.machine.afterSubmit false r, activity := .idle } := by
    rw [Party.resume, h.awake]
    unfold Machine.resume
    rw [hph]
  obtain ⟨hsteady, hcount, hphase⟩ := h.steady.afterSubmit (by rw [hph]; trivial) hR hround
    (hdue ▸ hahead) (hdue ▸ hbehind) r
  rw [hres]
  refine ⟨⟨h.awake, hsteady, h.model, h.update, ?_⟩, ?_, hcount.trans hdue.symm, Or.inr rfl⟩
  · show Runs p.workDir d _ _ (p.machine.afterSubmit false r).phase .idle
    rcases hphase with hphase | ⟨x, hphase⟩ <;> rw [hphase] <;> trivial
  · exact congrArg CollaboratorConfig.id (p.machine.afterSubmit_config false r)

end

/-- The answer to a call. -/
theorem Pace.answered (h : Pace R w.disk d p) (hf : Fit w d p) (hs : Sourced w)
    (hR : R < counterLimit) {reply : Reply} (ha : p.activity = .answered reply)
    (hahead : p.machine.roundsCompleted ≤ p.due) (hbehind : p.due ≤ p.machine.roundsCompleted + 1) :
    Pace R w.disk d (p.resume reply) ∧ Goes p (p.resume reply) := by
  have hst := hf.stands
  have hruns := h.runs
  rw [ha] at hst hruns
  rcases hst with ⟨again, hph, hidle | ⟨r, hr⟩⟩ | ⟨r, -, hidle⟩ | ⟨v, hv, hm, hstage⟩
  · cases hidle
  · cases hr
    rw [hph] at hruns
    cases r with
    | error e => exact hruns.elim
    | ok v => exact h.viewed ha (Or.inl ⟨again, hph⟩)
  · cases hidle
  · cases hph : p.machine.phase with
    | fetching purpose attempt =>
      rw [hph] at hstage hruns
      cases reply with
      | view r =>
        cases r with
        | error e => exact hruns.elim
        | ok v => exact h.viewed ha (Or.inr ⟨purpose, attempt, hph⟩)
      | _ => exact hstage.elim
    | submitting u attempt =>
      rw [hph] at hstage hruns
      cases reply with
      | receipt r =>
        cases r with
        | error e =>
          obtain ⟨base, round, rfl⟩ := hruns
          exact h.late ha hph
        | ok r =>
          have hround : p.machine.modelRound = v.round := by simp [Machine.modelRound, hm]
          exact h.accepted hR ha hph (hround ▸ (hs.shown v hv).positive) hahead hbehind
      | _ => exact hstage.elim
    | _ => rw [hph] at hstage; exact hstage.elim

end

end Federation
