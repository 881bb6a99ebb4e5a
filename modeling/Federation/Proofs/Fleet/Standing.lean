/-
  Where a collaborator stands, and what its files hold there.

  * `TrainedOn`: a blob is what a trainer made of a model;
  * `Scene`: what a collaborator has around it;
  * `Scene.Stage`: by the phase and what the collaborator is busy with, what its files hold and
    where its update comes from;
  * `Scene.Rests`: a collaborator that is busy with nothing stands at its stage;
  * `Rests.resume_view` and its like: it does so again after it has gone on with an answer.
-/
import Federation.Proofs.Fleet.System

namespace Federation

open Disk (Program Location Node Holds)
open WorkDir (modelAt updateAt)

/-- A trainer of this identity was started on the model, found no earlier output, and left the
blob. -/
def TrainedOn (trainings : List Training) (id : String) (blob model : Blob) : Prop :=
  ∃ t ∈ trainings,
    t.identity = id ∧ t.input = some model ∧ t.stale = false ∧ t.output = some blob

theorem TrainedOn.mono {ts ts' : List Training} (hts : ts ⊆ ts') {id : String} {b model : Blob}
    (h : TrainedOn ts id b model) : TrainedOn ts' id b model := by
  obtain ⟨t, ht, h⟩ := h
  exact ⟨t, hts ht, h⟩

/-- What a collaborator has around it. -/
structure Scene where
  shown : List ModelView
  trainings : List Training
  identity : String
  workDir : WorkDir
  place : Location
  /-- What is at `model.bin`. -/
  model : Option Node
  /-- What is at `update.bin`. -/
  update : Option Node

namespace Scene

/-- An update for the round of a model, trained on the model. -/
structure Fits (s : Scene) (v : ModelView) (u : ModelUpdate) : Prop where
  base : u.baseRound = some v.round
  trained : TrainedOn s.trainings s.identity u.model v.model

/-- What holds where a collaborator stands that has a model. -/
def Stage (s : Scene) (v : ModelView) : Phase → Activity → Prop
  | .handing _, .filing rest =>
    rest.Ensures Faithful s.workDir.modelPath (modelAt s.place) s.model fun r n =>
      r = .done (.ok ()) → Holds n v.model
  | .clearing, .idle => Holds s.model v.model
  | .clearing, .filing rest =>
    Holds s.model v.model ∧
      rest.Ensures Faithful s.workDir.updatePath (updateAt s.place) s.update fun r n =>
        r = .done (.ok ()) → n = none
  | .training, .idle => Holds s.model v.model ∧ s.update = none
  | .training, .training input stale => input = some v.model ∧ stale = false
  | .collecting, .idle =>
    ∀ b, Holds s.update b → TrainedOn s.trainings s.identity b v.model
  | .collecting, .filing rest =>
    rest.Ensures Faithful s.workDir.updatePath (updateAt s.place) s.update fun r _ =>
      ∃ x, r = .update x ∧ ∀ b, x = .ok b → TrainedOn s.trainings s.identity b v.model
  | .submitting u _, .idle | .submitting u _, .answered (.receipt _)
  | .submitBackoff u _, .idle => s.Fits v u
  | .handing _, .idle | .pausing, .idle | .fetchBackoff _ _, .idle
  | .fetching _ _, .idle | .fetching _ _, .polling _ | .fetching _ _, .answered (.view _) => True
  | _, _ => False

/-- Where a collaborator stands: without a model before it has joined and after its end, else at the
stage of a model that was shown. -/
def Stands (s : Scene) (m : Machine) (a : Activity) : Prop :=
  (∃ again, m.phase = .joining again ∧ (a = .idle ∨ ∃ r, a = .answered (.view r))) ∨
    (∃ r, m.phase = .finished r ∧ a = .idle) ∨
    ∃ v ∈ s.shown, m.model = some v ∧ s.Stage v m.phase a

/-- A collaborator that is busy with nothing. -/
def Rests (s : Scene) (m : Machine) : Prop := s.Stands m .idle

/-- What is about to be submitted, or has just been. -/
theorem Stage.fits {s : Scene} {v : ModelView} {u : ModelUpdate} {attempt : Nat} {a : Activity}
    (h : s.Stage v (.submitting u attempt) a) : s.Fits v u := by
  cases a with
  | idle => exact h
  | answered reply =>
    cases reply with
    | receipt r => exact h
    | _ => exact h.elim
  | _ => exact h.elim

/-- A collaborator that has joined and not ended stands at a stage. -/
theorem Stands.staged {s : Scene} {m : Machine} {a : Activity} (h : s.Stands m a)
    (hj : ∀ again, m.phase ≠ .joining again) (hf : ∀ r, m.phase ≠ .finished r) :
    ∃ v ∈ s.shown, m.model = some v ∧ s.Stage v m.phase a := by
  rcases h with ⟨again, h, -⟩ | ⟨r, h, -⟩ | h
  · exact absurd h (hj again)
  · exact absurd h (hf r)
  · exact h

/-- A collaborator that is busy stands at a stage, unless it has just joined. -/
theorem Stands.busy {s : Scene} {m : Machine} {a : Activity} (h : s.Stands m a) (hi : a ≠ .idle)
    (ha : ∀ r, a ≠ .answered (.view r)) :
    ∃ v ∈ s.shown, m.model = some v ∧ s.Stage v m.phase a := by
  rcases h with ⟨again, -, h | ⟨r, h⟩⟩ | ⟨r, -, h⟩ | h
  · exact absurd h hi
  · exact absurd h (ha r)
  · exact absurd h hi
  · exact h

/-! ## More is shown and trained -/

section
variable {s s' : Scene}

/-- The same scene, with more shown and trained. -/
structure Grows (s s' : Scene) : Prop where
  shown : s.shown ⊆ s'.shown
  trainings : s.trainings ⊆ s'.trainings
  identity : s'.identity = s.identity
  workDir : s'.workDir = s.workDir
  place : s'.place = s.place
  model : s'.model = s.model
  update : s'.update = s.update

theorem Fits.grows (h : Grows s s') {v : ModelView} {u : ModelUpdate} (hu : s.Fits v u) :
    s'.Fits v u :=
  ⟨hu.base, h.identity ▸ hu.trained.mono h.trainings⟩

theorem Stage.grows (h : Grows s s') {v : ModelView} {phase : Phase} {a : Activity}
    (hs : s.Stage v phase a) : s'.Stage v phase a := by
  obtain ⟨sh, ts, id, wd, d, m, u⟩ := s
  obtain ⟨sh', ts', id', wd', d', m', u'⟩ := s'
  obtain ⟨-, hts, h3, h4, h5, h6, h7⟩ := h
  simp only at hts h3 h4 h5 h6 h7
  subst h3 h4 h5 h6 h7
  unfold Stage at hs ⊢
  split at hs
  case h_6 => exact fun b hb => (hs b hb).mono hts
  case h_7 =>
    refine hs.mono fun r n hr => ?_
    obtain ⟨x, hx, hb⟩ := hr
    exact ⟨x, hx, fun b hxb => (hb b hxb).mono hts⟩
  case h_8 | h_9 | h_10 => exact ⟨hs.base, hs.trained.mono hts⟩
  all_goals exact hs

theorem Stands.grows (h : Grows s s') {m : Machine} {a : Activity} (hs : s.Stands m a) :
    s'.Stands m a := by
  rcases hs with hj | hf | ⟨v, hv, hm, hs⟩
  · exact Or.inl hj
  · exact Or.inr (Or.inl hf)
  · exact Or.inr (Or.inr ⟨v, h.shown hv, hm, hs.grows h⟩)

end

/-! ## Going on with an answer -/

namespace Rests

variable {s : Scene} {m : Machine} {v : ModelView}

theorem ended {r : Except FederationError RunSummary} (h : m.phase = .finished r) : s.Rests m :=
  Or.inr (Or.inl ⟨r, h, rfl⟩)

theorem joining {again : Bool} (h : m.phase = .joining again) : s.Rests m :=
  Or.inl ⟨again, h, Or.inl rfl⟩

theorem at_stage (hv : v ∈ s.shown) (hm : m.model = some v) (h : s.Stage v m.phase .idle) :
    s.Rests m :=
  Or.inr (Or.inr ⟨v, hv, hm, h⟩)

theorem stop (m : Machine) : s.Rests m.stop := ended rfl

theorem fail (m : Machine) (e : FederationError) : s.Rests (m.fail e) := by
  cases e <;> exact ended rfl

theorem interrupt (m : Machine) : s.Rests m.interrupt := stop m

theorem unlessCancelled {next : Machine} (cancelled : Bool) (h : s.Rests next) :
    s.Rests (m.unlessCancelled cancelled next) := by
  unfold Machine.unlessCancelled
  split
  · exact interrupt m
  · exact h

theorem join (cancelled again : Bool) : s.Rests (m.join cancelled again) :=
  unlessCancelled cancelled (joining rfl)

theorem refresh (hv : v ∈ s.shown) (hm : m.model = some v) : s.Rests m.refresh :=
  at_stage hv hm trivial

theorem handOver (hv : v ∈ s.shown) (hm : m.model = some v) (again : Bool) :
    s.Rests (m.handOver again) :=
  at_stage hv hm trivial

/-- A model that has just come. -/
theorem observe (m : Machine) (hv : v ∈ s.shown) (again : Bool) :
    s.Rests ((m.observe v).handOver again) :=
  handOver hv rfl again

theorem resume_joining {again : Bool} (hp : m.phase = .joining again)
    {r : Except FederationError ModelView} (hr : ∀ v, r = .ok v → v ∈ s.shown) (cancelled : Bool) :
    s.Rests (m.resume cancelled (.view r)) := by
  unfold Machine.resume
  rw [hp]
  cases r with
  | ok v => exact observe m (hr v rfl) again
  | error e => exact fail m e

theorem resume_handing {again : Bool} (hp : m.phase = .handing again) (hv : v ∈ s.shown)
    (hm : m.model = some v) {reply : Reply} (hr : reply = .done (.ok ()) → Holds s.model v.model)
    (cancelled : Bool) : s.Rests (m.resume cancelled reply) := by
  have same : s.Rests m := at_stage hv hm (by rw [hp]; trivial)
  unfold Machine.resume
  rw [hp]
  cases reply with
  | done result =>
    cases result with
    | error e => cases again <;> exact fail m e
    | ok =>
      cases again with
      | true => exact handOver hv hm false
      | false =>
        show s.Rests (m.beginRound cancelled)
        unfold Machine.beginRound
        split
        · exact stop m
        · exact unlessCancelled cancelled (at_stage hv hm (hr rfl))
  | view | receipt | slept | update => cases again <;> exact same

theorem resume_clearing (hp : m.phase = .clearing) (hv : v ∈ s.shown) (hm : m.model = some v)
    (hf : Holds s.model v.model) {reply : Reply} (hr : reply = .done (.ok ()) → s.update = none)
    (cancelled : Bool) : s.Rests (m.resume cancelled reply) := by
  have same : s.Rests m := at_stage hv hm (by rw [hp]; exact hf)
  unfold Machine.resume
  rw [hp]
  cases reply with
  | done result =>
    cases result with
    | error e => exact fail m e
    | ok => exact at_stage hv hm ⟨hf, hr rfl⟩
  | view | receipt | slept | update => exact same

theorem resume_training (hp : m.phase = .training) (hv : v ∈ s.shown) (hm : m.model = some v)
    (h : ∀ b, Holds s.update b → TrainedOn s.trainings s.identity b v.model)
    (result : Except FederationError Unit) (cancelled : Bool) :
    s.Rests (m.resume cancelled (.done result)) := by
  unfold Machine.resume
  rw [hp]
  cases result with
  | error e => exact fail m e
  | ok => exact unlessCancelled cancelled (at_stage hv hm h)

theorem resume_collecting (hp : m.phase = .collecting) (hv : v ∈ s.shown) (hm : m.model = some v)
    (hround : 0 < v.round) {result : Except FederationError Blob}
    (h : ∀ b, result = .ok b → TrainedOn s.trainings s.identity b v.model) (cancelled : Bool) :
    s.Rests (m.resume cancelled (.update result)) := by
  unfold Machine.resume
  rw [hp]
  cases result with
  | error e => exact fail m e
  | ok b =>
    have hbase : (m.sampled b).baseRound = some v.round := by
      have hr : m.modelRound = v.round := by simp [Machine.modelRound, hm]
      have : v.round ≠ 0 := Nat.pos_iff_ne_zero.1 hround
      simp [Machine.sampled, ModelUpdate.withSamples, ModelUpdate.trainedOn, hr, this]
    exact unlessCancelled cancelled (at_stage hv hm ⟨hbase, h b rfl⟩)

theorem afterSubmit (hv : v ∈ s.shown) (hm : m.model = some v) (cancelled : Bool)
    (r : SubmitReceipt) : s.Rests (m.afterSubmit cancelled r) := by
  have hm' : ({ m with lastRound := max m.lastRound r.round } : Machine).countRound.model =
      some v := by
    unfold Machine.countRound
    split
    · exact hm
    · split <;> exact hm
  unfold Machine.afterSubmit
  generalize ({ m with lastRound := max m.lastRound r.round } : Machine).countRound = m' at hm'
  simp only
  split
  · exact stop m'
  · refine unlessCancelled cancelled ?_
    split
    · exact refresh hv hm'
    · exact at_stage hv hm' trivial

theorem afterRefusal (hv : v ∈ s.shown) (hm : m.model = some v) (cancelled : Bool)
    (e : FederationError) : s.Rests (m.afterRefusal cancelled e) := by
  unfold Machine.afterRefusal
  split
  · exact refresh hv hm
  · exact join cancelled false
  · exact fail m _

theorem resume_submitting {u : ModelUpdate} {attempt : Nat} (hp : m.phase = .submitting u attempt)
    (hv : v ∈ s.shown) (hm : m.model = some v) (hu : s.Fits v u)
    (r : Except FederationError SubmitReceipt) (cancelled : Bool) :
    s.Rests (m.resume cancelled (.receipt r)) := by
  unfold Machine.resume
  rw [hp]
  cases r with
  | ok r => exact afterSubmit hv hm cancelled r
  | error e =>
    simp only
    split
    · exact at_stage hv hm hu
    · exact afterRefusal hv hm cancelled e

theorem afterLostFetch (hv : v ∈ s.shown) (hm : m.model = some v) (cancelled : Bool)
    (purpose : FetchPurpose) (e : FederationError) :
    s.Rests (m.afterLostFetch cancelled purpose e) := by
  unfold Machine.afterLostFetch
  split
  · exact join cancelled true
  · exact interrupt m
  · split
    · exact handOver hv hm false
    · exact fail m _
  · exact fail m _

theorem resume_fetching {purpose : FetchPurpose} {attempt : Nat}
    (hp : m.phase = .fetching purpose attempt) (hv : v ∈ s.shown) (hm : m.model = some v)
    {r : Except FederationError ModelView} (hr : ∀ v, r = .ok v → v ∈ s.shown) (cancelled : Bool) :
    s.Rests (m.resume cancelled (.view r)) := by
  unfold Machine.resume
  rw [hp]
  cases r with
  | ok v => exact observe m (hr v rfl) false
  | error e =>
    simp only
    split
    · exact at_stage hv hm trivial
    · exact afterLostFetch hv hm cancelled purpose e

/-- A collaborator that has slept. -/
theorem resume_slept {n : Nat} (h : s.Rests m) (hd : m.demand = some (.sleep n))
    (cancelled : Bool) : s.Rests (m.resume cancelled .slept) := by
  rcases h with ⟨again, hp, -⟩ | ⟨r, hp, -⟩ | ⟨v, hv, hm, hs⟩
  · simp [Machine.demand, hp] at hd
  · simp [Machine.demand, hp] at hd
  · unfold Machine.resume
    cases hp : m.phase with
    | submitBackoff u attempt => rw [hp] at hs; exact at_stage hv hm hs
    | pausing => exact at_stage hv hm trivial
    | fetchBackoff purpose attempt => exact at_stage hv hm trivial
    | fetching purpose attempt => cases purpose <;> simp [Machine.demand, hp] at hd
    | _ => simp [Machine.demand, hp] at hd

/-- A model, or a failure in place of one, that comes at any time. -/
theorem resume_view (h : s.Rests m) {r : Except FederationError ModelView}
    (hr : ∀ v, r = .ok v → v ∈ s.shown) (cancelled : Bool) :
    s.Rests (m.resume cancelled (.view r)) := by
  rcases h with ⟨again, hp, -⟩ | ⟨r', hp, -⟩ | ⟨v, hv, hm, hs⟩
  · exact resume_joining hp hr cancelled
  · unfold Machine.resume
    rw [hp]
    exact ended hp
  · have same : s.Rests m := at_stage hv hm hs
    cases hp : m.phase with
    | joining again => exact resume_joining hp hr cancelled
    | fetching purpose attempt => exact resume_fetching hp hv hm hr cancelled
    | handing again => unfold Machine.resume; rw [hp]; cases again <;> exact same
    | _ => unfold Machine.resume; rw [hp]; exact same

/-- A receipt that comes at any time. -/
theorem resume_receipt (h : s.Rests m) (r : Except FederationError SubmitReceipt)
    (cancelled : Bool) : s.Rests (m.resume cancelled (.receipt r)) := by
  rcases h with ⟨again, hp, -⟩ | ⟨r', hp, -⟩ | ⟨v, hv, hm, hs⟩
  · unfold Machine.resume
    rw [hp]
    exact joining hp
  · unfold Machine.resume
    rw [hp]
    exact ended hp
  · have same : s.Rests m := at_stage hv hm hs
    cases hp : m.phase with
    | submitting u attempt => rw [hp] at hs; exact resume_submitting hp hv hm hs r cancelled
    | handing again => unfold Machine.resume; rw [hp]; cases again <;> exact same
    | _ => unfold Machine.resume; rw [hp]; exact same

end Rests

end Scene

end Federation
