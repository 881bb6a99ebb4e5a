/-
  Fleets in which everybody stands where they can.

  * `Fit`: a party stands where it can, with a working directory of its own;
  * `Frame`: what a party that works in its directory may change;
  * `Fit.moves`: a move keeps the party fit and the world sourced;
  * `Good`, `Good.act`: every action keeps the whole fleet good;
  * `Good.traced`: what may reach the engine next is traced.
-/
import Federation.Proofs.Fleet.Sourced

namespace Federation

open Disk (Program Location Node Holds Tree Request)
open WorkDir (modelAt updateAt Home)

variable {σ : Type}

/-! ## Parties -/

/-- The models that an activity has brought, and the machine has not seen yet. -/
def Activity.views : Activity → List ModelView
  | .answered (.view (.ok v)) | .polling (.finished (.ok v)) => [v]
  | _ => []

/-- What a party has around it, with its working directory at a location. -/
def Party.scene (p : Party) (w : World σ) (d : Location) : Scene where
  shown := w.shown
  trainings := w.trainings
  identity := p.id
  workDir := p.workDir
  place := d
  model := w.disk.node? (modelAt d)
  update := w.disk.node? (updateAt d)

/-- A party that stands where it can. -/
structure Fit (w : World σ) (d : Location) (p : Party) : Prop where
  home : Home w.disk p.workDir d
  views : ∀ v ∈ p.activity.views, v ∈ w.shown
  stands : (p.scene w d).Stands p.machine p.activity

/-- What a party that works at a location may change. -/
structure Frame (d : Location) (w w' : World σ) : Prop where
  shown : w.shown ⊆ w'.shown
  trainings : w.trainings ⊆ w'.trainings
  disk : ∃ l, (l = modelAt d ∨ l = updateAt d) ∧ Tree.OnlyAt l w.disk w'.disk

section
variable {w w' : World σ} {d d' : Location} {p : Party}

theorem Frame.of_disk_eq (hshown : w.shown ⊆ w'.shown) (htrainings : w.trainings ⊆ w'.trainings)
    (hdisk : w'.disk = w.disk) : Frame d w w' :=
  ⟨hshown, htrainings, modelAt d, Or.inl rfl, hdisk ▸ .refl _ _⟩

theorem Frame.setEngine (w : World σ) (e : RoundEngine σ) : Frame d w (w.setEngine e) :=
  .of_disk_eq (List.subset_append_left ..) (List.Subset.refl _) rfl

theorem Frame.setDisk {l : Location} (hl : l = modelAt d ∨ l = updateAt d) {t : Tree}
    (h : Tree.OnlyAt l w.disk t) : Frame d w (w.setDisk t) :=
  ⟨List.Subset.refl _, List.Subset.refl _, l, hl, h⟩

/-- Work in one directory leaves what is in another. -/
theorem Frame.grows (h : Frame d w w') (hd : d' ≠ d) :
    Scene.Grows (p.scene w d') (p.scene w' d') := by
  obtain ⟨l, hl, ht⟩ := h.disk
  obtain ⟨hmodel, hupdate⟩ := WorkDir.apart hd hl
  exact ⟨h.shown, h.trainings, rfl, rfl, rfl, ht.elsewhere _ hmodel, ht.elsewhere _ hupdate⟩

/-- A party is fit whatever another one does. -/
theorem Fit.frame (hp : Fit w d' p) (h : Frame d w w') (hd : d' ≠ d) : Fit w' d' p where
  home := by
    obtain ⟨l, -, ht⟩ := h.disk
    exact hp.home.onlyAt ht
  views v hv := h.shown (hp.views v hv)
  stands := hp.stands.grows (h.grows hd)

/-- A party is fit whatever is called. -/
theorem Fit.setEngine (hp : Fit w d p) (e : RoundEngine σ) : Fit (w.setEngine e) d p where
  home := hp.home
  views v hv := List.mem_append_left _ (hp.views v hv)
  stands := by
    have hg : Scene.Grows (p.scene w d) (p.scene (w.setEngine e) d) :=
      ⟨List.subset_append_left .., List.Subset.refl _, rfl, rfl, rfl, rfl, rfl⟩
    exact hp.stands.grows hg

theorem Fit.resume {reply : Reply} (home : Home w.disk p.workDir d)
    (h : (p.scene w d).Rests (p.machine.resume p.cancelled reply)) : Fit w d (p.resume reply) where
  home := home
  views v hv := by cases hv
  stands := by
    have hs : (p.resume reply).scene w d = p.scene w d := by
      simp [Party.scene, Party.resume, Party.id]
    rw [hs]
    exact h

theorem Fit.rests (hp : Fit w d p) (ha : p.activity = .idle) : (p.scene w d).Rests p.machine := by
  have := hp.stands
  rw [ha] at this
  exact this

/-! ## Steps in the working directory -/

/-- A step in the working directory begins. -/
theorem Fit.opened (hp : Fit w d p) (ha : p.activity = .idle) {rest : Program Reply}
    (hj : p.IsJob rest) : Fit w d (p.doing (.filing rest)) := by
  refine ⟨hp.home, nofun, ?_⟩
  show (p.scene w d).Stands p.machine (.filing rest)
  have hst := hp.rests ha
  cases hj with
  | writeModel hph =>
    obtain ⟨v, hv, hm, hs⟩ := hst.staged (by simp [hph]) (by simp [hph])
    refine Or.inr (Or.inr ⟨v, hv, hm, ?_⟩)
    rw [hph, hm]
    refine Program.Ensures.bind ((WorkDir.ensures_writeModel _ _ _ _).mono fun r n hr => ?_)
    intro hd
    cases hd
    exact hr rfl
  | clearUpdate hph =>
    obtain ⟨v, hv, hm, hs⟩ := hst.staged (by simp [hph]) (by simp [hph])
    refine Or.inr (Or.inr ⟨v, hv, hm, ?_⟩)
    rw [hph] at hs ⊢
    refine ⟨hs, Program.Ensures.bind ((WorkDir.ensures_clearUpdate _ _).mono fun r n hr => ?_)⟩
    intro hd
    cases hd
    exact hr rfl
  | readUpdate hph =>
    obtain ⟨v, hv, hm, hs⟩ := hst.staged (by simp [hph]) (by simp [hph])
    refine Or.inr (Or.inr ⟨v, hv, hm, ?_⟩)
    rw [hph] at hs ⊢
    refine Program.Ensures.bind ((WorkDir.ensures_readUpdate _ _ _).mono fun r n hr => ?_)
    exact ⟨r, rfl, fun b hb => hs b (hr b hb)⟩

/-- One request of it. -/
theorem Fit.asked (hp : Fit w d p) {r : Request}
    {next : Except Disk.OsError r.Reply → Program Reply} (ha : p.activity = .filing (.ask r next))
    {fault : Option Disk.Fault} (hf : Faithful fault) :
    Fit (w.setDisk (r.meet [fault] w.disk).2) d
        (p.doing (.filing (next (r.meet [fault] w.disk).1))) ∧
      Frame d w (w.setDisk (r.meet [fault] w.disk).2) := by
  have hst := hp.stands
  rw [ha] at hst
  obtain ⟨v, hv, hm, hs⟩ := hst.busy nofun nofun
  have key : ∀ l, (l = modelAt d ∨ l = updateAt d) →
      Tree.OnlyAt l w.disk (r.meet [fault] w.disk).2 →
      (p.scene (w.setDisk (r.meet [fault] w.disk).2) d).Stage v p.machine.phase
        (.filing (next (r.meet [fault] w.disk).1)) →
      Fit (w.setDisk (r.meet [fault] w.disk).2) d
          (p.doing (.filing (next (r.meet [fault] w.disk).1))) ∧
        Frame d w (w.setDisk (r.meet [fault] w.disk).2) := fun l hl ht hstage =>
    ⟨⟨hp.home.onlyAt ht, nofun, Or.inr (Or.inr ⟨v, hv, hm, hstage⟩)⟩, .setDisk hl ht⟩
  cases hph : p.machine.phase with
  | handing again =>
    rw [hph] at hs key
    have hat : r.IsAt p.workDir.modelPath := hs.1
    have ht := hat.onlyAt hp.home.modelPath (WorkDir.modelAt_ne_nil d) [fault]
    exact key (modelAt d) (Or.inl rfl) ht (hs.2 w.disk fault hf hp.home.modelPath rfl)
  | clearing =>
    rw [hph] at hs key
    have hat : r.IsAt p.workDir.updatePath := hs.2.1
    have ht := hat.onlyAt hp.home.updatePath (WorkDir.updateAt_ne_nil d) [fault]
    refine key (updateAt d) (Or.inr rfl) ht ⟨?_, hs.2.2 w.disk fault hf hp.home.updatePath rfl⟩
    -- the model is in the other file
    show Holds ((r.meet [fault] w.disk).2.node? (modelAt d)) v.model
    rw [ht.elsewhere _ (WorkDir.modelAt_ne_updateAt d d)]
    exact hs.1
  | collecting =>
    rw [hph] at hs key
    have hat : r.IsAt p.workDir.updatePath := hs.1
    have ht := hat.onlyAt hp.home.updatePath (WorkDir.updateAt_ne_nil d) [fault]
    exact key (updateAt d) (Or.inr rfl) ht (hs.2 w.disk fault hf hp.home.updatePath rfl)
  | _ => rw [hph] at hs; exact hs.elim

/-- The answer to it. -/
theorem Fit.settled (hp : Fit w d p) (hs : Sourced w) {reply : Reply}
    (ha : p.activity = .filing (.done reply)) : Fit w d (p.resume reply) := by
  refine .resume hp.home ?_
  have hst := hp.stands
  rw [ha] at hst
  obtain ⟨v, hv, hm, hstage⟩ := hst.busy nofun nofun
  cases hph : p.machine.phase with
  | handing again =>
    rw [hph] at hstage
    exact .resume_handing hph hv hm hstage p.cancelled
  | clearing =>
    rw [hph] at hstage
    exact .resume_clearing hph hv hm hstage.1 hstage.2 p.cancelled
  | collecting =>
    rw [hph] at hstage
    obtain ⟨x, rfl, hx⟩ := hstage
    exact .resume_collecting hph hv hm (hs.shown v hv).positive hx p.cancelled
  | _ => rw [hph] at hstage; exact hstage.elim

/-! ## Training -/

theorem Fit.started (hp : Fit w d p) (ha : p.activity = .idle) (hph : p.machine.phase = .training) :
    Fit w d (p.doing (.training (w.disk.read p.workDir.modelPath).toOption
      (w.disk.exists? p.workDir.updatePath))) := by
  refine ⟨hp.home, nofun, ?_⟩
  obtain ⟨v, hv, hm, hs⟩ := (hp.rests ha).staged (by simp [hph]) (by simp [hph])
  rw [hph] at hs
  obtain ⟨hmodel, hupdate⟩ := hs
  have hread : w.disk.read p.workDir.modelPath = .ok v.model :=
    (Disk.read_ok_iff hp.home.modelPath).2 hmodel
  have hfind : w.disk.find p.workDir.updatePath = .error .notFound :=
    Tree.find_of_none hp.home.updatePath hupdate
  refine Or.inr (Or.inr ⟨v, hv, hm, ?_⟩)
  show (p.scene w d).Stage v p.machine.phase _
  rw [hph]
  exact ⟨by rw [hread]; rfl, by rw [Tree.exists?, hfind]; rfl⟩

/-- A trainer runs in its phase alone. -/
theorem Fit.training (hp : Fit w d p) {input : Option Blob} {stale : Bool}
    (ha : p.activity = .training input stale) : p.machine.phase = .training := by
  have hst := hp.stands
  rw [ha] at hst
  obtain ⟨v, hv, hm, hs⟩ := hst.busy nofun nofun
  cases hph : p.machine.phase with
  | training => rfl
  | _ => rw [hph] at hs; exact hs.elim

/-- A trainer changes nothing but its output. -/
theorem Edit.isAt (edit : Edit) (path : String) : (edit.request path).IsAt path := by
  cases edit with
  | changeMode mode => exact .changeMode mode
  | overwrite mode content => exact .overwrite mode content
  | remove => exact .remove

theorem Fit.edited (hp : Fit w d p) {input : Option Blob} {stale : Bool}
    (ha : p.activity = .training input stale) (edit : Edit) :
    Fit (w.setDisk ((edit.request p.workDir.updatePath).perform w.disk).2) d p ∧
      Frame d w (w.setDisk ((edit.request p.workDir.updatePath).perform w.disk).2) := by
  have ht := (edit.isAt p.workDir.updatePath).onlyAt hp.home.updatePath
    (WorkDir.updateAt_ne_nil d) []
  refine ⟨⟨hp.home.onlyAt ht, hp.views, ?_⟩, .setDisk (Or.inr rfl) ht⟩
  have hst := hp.stands
  have hph := hp.training ha
  rw [ha] at hst ⊢
  obtain ⟨v, hv, hm, hs⟩ := hst.busy nofun nofun
  refine Or.inr (Or.inr ⟨v, hv, hm, ?_⟩)
  rw [hph] at hs ⊢
  exact hs

/-- What the trainer has left is what it made of the model. -/
theorem Fit.ended (hp : Fit w d p) {input : Option Blob} {stale : Bool}
    (ha : p.activity = .training input stale) (result : Except FederationError Unit) :
    Fit (w.addTraining ⟨p.id, input, stale, (w.disk.read p.workDir.updatePath).toOption⟩) d
      (p.resume (.done result)) := by
  refine .resume hp.home ?_
  have hst := hp.stands
  have hph := hp.training ha
  rw [ha] at hst
  obtain ⟨v, hv, hm, hs⟩ := hst.busy nofun nofun
  rw [hph] at hs
  obtain ⟨rfl, rfl⟩ := hs
  have hv' : v ∈ (p.scene (w.addTraining ⟨p.id, some v.model, false,
    (w.disk.read p.workDir.updatePath).toOption⟩) d).shown := hv
  refine .resume_training hph hv' hm (fun b hb => ?_) result p.cancelled
  have hread : w.disk.read p.workDir.updatePath = .ok b :=
    (Disk.read_ok_iff hp.home.updatePath).2 hb
  exact ⟨_, List.mem_append_right _ (List.mem_singleton_self _), rfl, rfl, rfl,
    by rw [hread]; rfl⟩

/-! ## Calls -/

theorem RoundEngine.view_of_join {e e' : RoundEngine σ} {now : Nat} {id : String}
    {r : Except FederationError JoinOutcome} (h : e.join now id = (r, e')) :
    ∀ v, r.map JoinOutcome.view = .ok v → v = e.state.view := by
  intro v hv
  unfold join at h
  split at h <;> cases h
  · cases hv
  · cases hv
    rfl

theorem RoundEngine.view_of_latest {e e' : RoundEngine σ} {now : Nat} {id : String}
    {r : Except FederationError ModelView} (h : e.latest now id = (r, e')) :
    ∀ v, r = .ok v → v = e.state.view := by
  rintro v rfl
  unfold latest at h
  split at h
  · cases h
  · split at h <;> cases h
    rfl

/-- What a party is about to submit. -/
theorem Fit.traced (hp : Fit w d p) {u : ModelUpdate} {attempt : Nat}
    (hph : p.machine.phase = .submitting u attempt) : Traced w p.id u := by
  obtain ⟨v, hv, -, hs⟩ := hp.stands.staged (by simp [hph]) (by simp [hph])
  rw [hph] at hs
  exact ⟨v, hv, hs.fits.base, hs.fits.trained⟩

/-- The answer to a call. -/
theorem Fit.answered (hp : Fit w d p) {reply : Reply} (ha : p.activity = .answered reply) :
    Fit w d (p.resume reply) := by
  refine .resume hp.home ?_
  have hst := hp.stands
  have hviews := hp.views
  rw [ha] at hst hviews
  have hshown : ∀ r, reply = .view r → ∀ v, r = .ok v → v ∈ (p.scene w d).shown := by
    rintro r rfl v rfl
    exact hviews v (List.mem_singleton_self v)
  rcases hst with ⟨again, hph, h | ⟨r, h⟩⟩ | ⟨r, -, h⟩ | ⟨v, hv, hm, hs⟩
  · cases h
  · cases h
    exact .resume_joining hph (hshown r rfl) p.cancelled
  · cases h
  · cases hph : p.machine.phase with
    | submitting u attempt =>
      rw [hph] at hs
      cases reply with
      | receipt r => exact .resume_submitting hph hv hm hs r p.cancelled
      | _ => exact hs.elim
    | fetching purpose attempt =>
      rw [hph] at hs
      cases reply with
      | view r => exact .resume_fetching hph hv hm (hshown r rfl) p.cancelled
      | _ => exact hs.elim
    | _ => rw [hph] at hs; exact hs.elim

/-- A model that a step of a long poll brings was current. -/
theorem Polls.views {e' : RoundEngine σ} {now : Nat} {id : String} {phase phase' : LongPollPhase}
    (h : Polls w.engine now id phase phase' e') (hs : Sourced w)
    (hphase : ∀ v, phase = .finished (.ok v) → v ∈ w.shown) {v : ModelView}
    (hv : phase' = .finished (.ok v)) : v ∈ w.shown := by
  cases h with
  | waited hw => exact hphase v (hw _ hv)
  | read hl hr =>
    rw [RoundEngine.view_of_latest hl v (hr _ hv).symm]
    exact hs.current

/-- A party that has called `join` is about to see a model that was shown. -/
theorem Fit.joined (hp : Fit w d p) (e' : RoundEngine σ) {again : Bool}
    (hph : p.machine.phase = .joining again) {r : Except FederationError ModelView}
    (hr : ∀ v, r = .ok v → v ∈ w.shown) :
    Fit (w.setEngine e') d (p.doing (.answered (.view r))) where
  home := hp.home
  views v hv := by
    cases r with
    | error e => cases hv
    | ok v' =>
      obtain rfl := List.mem_singleton.1 hv
      exact List.mem_append_left _ (hr _ rfl)
  stands := Or.inl ⟨again, hph, Or.inr ⟨r, rfl⟩⟩

theorem Fit.submitted (hp : Fit w d p) (e' : RoundEngine σ) {u : ModelUpdate} {attempt : Nat}
    (hph : p.machine.phase = .submitting u attempt) (r : Except FederationError SubmitReceipt) :
    Fit (w.setEngine e') d (p.doing (.answered (.receipt r))) := by
  refine ⟨hp.home, nofun, ?_⟩
  obtain ⟨v, hv, hm, hs⟩ := (hp.setEngine e').stands.staged (by simp [hph]) (by simp [hph])
  rw [hph] at hs
  refine Or.inr (Or.inr ⟨v, hv, hm, ?_⟩)
  show Scene.Stage _ v p.machine.phase _
  rw [hph]
  exact hs.fits

theorem Fit.polled (hp : Fit w d p) (e' : RoundEngine σ) {purpose : FetchPurpose} {attempt : Nat}
    (hph : p.machine.phase = .fetching purpose attempt) {phase : LongPollPhase}
    (hr : ∀ v, phase = .finished (.ok v) → v ∈ w.shown) :
    Fit (w.setEngine e') d (p.doing (Party.pollActivity phase)) where
  home := hp.home
  views v hv := by
    cases phase with
    | finished r =>
      cases r with
      | error e => cases hv
      | ok v' =>
        obtain rfl := List.mem_singleton.1 hv
        exact List.mem_append_left _ (hr _ rfl)
    | _ => cases hv
  stands := by
    obtain ⟨v, hv, hm, -⟩ := (hp.setEngine e').stands.staged (by simp [hph]) (by simp [hph])
    refine Or.inr (Or.inr ⟨v, hv, hm, ?_⟩)
    show Scene.Stage _ v p.machine.phase _
    rw [hph]
    cases phase <;> trivial

variable [AggregationStrategy σ]

/-- A call with no submission in it. -/
theorem Sourced.perform (h : Sourced w) {now : Nat} {call : RoundCall}
    (hcall : call.isSubmit = false) (hne : (w.engine.perform now call).2.state.round ≠ 0) :
    Sourced (w.setEngine (w.engine.perform now call).2) :=
  h.transition (w.engine.transition_perform now call) (by rintro id u rfl; cases hcall) hne

theorem Sourced.submit (h : Sourced w) {now : Nat} {id : String} {u : ModelUpdate}
    (hu : Traced w id u) (hne : (w.engine.submit now id u).2.state.round ≠ 0) :
    Sourced (w.setEngine (w.engine.submit now id u).2) :=
  h.transition (w.engine.transition_perform now (.submit id u))
    (by rintro id u ⟨⟩; exact hu) hne

/-- Reading the model, in whatever way, and what it shows. -/
theorem Polls.sourced {e' : RoundEngine σ} {now : Nat} {id : String} {phase phase' : LongPollPhase}
    (h : Polls w.engine now id phase phase' e') (hs : Sourced w)
    (hne : e'.state.round ≠ 0) : Sourced (w.setEngine e') := by
  cases h with
  | waited => exact hs.keep hs.consistent rfl rfl rfl hs.slots
  | read hl =>
    have he : (w.engine.perform now (.latest id)).2 = e' := congrArg Prod.snd hl
    rw [← he] at hne ⊢
    exact hs.perform rfl hne

/-- **A move keeps the party fit and the world sourced**, and works in the party's directory
alone. -/
theorem Fit.moves (hp : Fit w d p) (hs : Sourced w) {m : Move} {p' : Party}
    (hm : Moves p w m w' p') (hne : w'.engine.state.round ≠ 0) :
    Fit w' d p' ∧ Sourced w' ∧ Frame d w w' := by
  have still : Frame d w w := .of_disk_eq (List.Subset.refl _) (List.Subset.refl _) rfl
  cases hm with
  | cancelled => exact ⟨⟨hp.home, hp.views, hp.stands⟩, hs, still⟩
  | interrupted => exact ⟨⟨hp.home, nofun, Scene.Rests.interrupt p.machine⟩, hs, still⟩
  | opened ha hj => exact ⟨hp.opened ha hj, hs, still⟩
  | asked ha hf =>
    obtain ⟨hfit, hframe⟩ := hp.asked ha hf
    exact ⟨hfit, ⟨hs.mode, hs.consistent, hs.bounded, hs.current, hs.shown, hs.slots, hs.sent⟩,
      hframe⟩
  | settled ha => exact ⟨hp.settled hs ha, hs, still⟩
  | started ha hph => exact ⟨hp.started ha hph, hs, still⟩
  | edited ha =>
    obtain ⟨hfit, hframe⟩ := hp.edited ha _
    exact ⟨hfit, ⟨hs.mode, hs.consistent, hs.bounded, hs.current, hs.shown, hs.slots, hs.sent⟩,
      hframe⟩
  | ended ha =>
    exact ⟨hp.ended ha _, hs.addTraining _,
      .of_disk_eq (List.Subset.refl _) (List.subset_append_left ..) rfl⟩
  | woke ha hd => exact ⟨.resume hp.home (.resume_slept (hp.rests ha) hd p.cancelled), hs, still⟩
  | sent ha hph =>
    exact ⟨⟨hp.home, hp.views, hp.stands⟩, hs.addSent (hp.traced hph),
      .of_disk_eq (List.Subset.refl _) (List.Subset.refl _) rfl⟩
  | heardView ha hv =>
    refine ⟨.resume hp.home (.resume_view (hp.rests ha) ?_ p.cancelled), hs, still⟩
    rintro v ⟨⟩
    exact hv
  | heardFailure ha =>
    exact ⟨.resume hp.home (.resume_view (hp.rests ha) (fun v hv => by cases hv) p.cancelled),
      hs, still⟩
  | heardReceipt ha =>
    exact ⟨.resume hp.home (.resume_receipt (hp.rests ha) _ p.cancelled), hs, still⟩
  | @joined now again r e' ha hph hj =>
    have he : (w.engine.perform now (.join p.id)).2 = e' := congrArg Prod.snd hj
    refine ⟨hp.joined e' hph fun v hv => ?_, ?_, .setEngine w e'⟩
    · rw [RoundEngine.view_of_join hj v hv]
      exact hs.current
    · subst he
      exact hs.perform rfl hne
  | @submitted now u attempt r e' ha hph hsub =>
    have he : (w.engine.submit now p.id u).2 = e' := congrArg Prod.snd hsub
    refine ⟨hp.submitted e' hph _, ?_, .setEngine w e'⟩
    subst he
    exact hs.submit (hp.traced hph) hne
  | @polled _ _ phase _ _ _ _ ha hph hpoll =>
    have hphase : ∀ v, phase = .finished (.ok v) → v ∈ w.shown := by
      rintro v rfl
      rcases ha with ⟨-, h⟩ | h
      · cases h
      · exact hp.views v (by rw [h]; exact List.mem_singleton_self v)
    exact ⟨hp.polled _ hph fun v hv => hpoll.views hs hphase hv, hpoll.sourced hs hne,
      .setEngine w _⟩
  | resumed ha => exact ⟨hp.answered ha, hs, still⟩

end

/-! ## Fleets -/

variable {ι : Type}

/-- A fleet in which every party is fit, at a place of its own. -/
structure Good (f : Fleet ι σ) (place : ι → Location) : Prop where
  sourced : Sourced f.world
  fit : ∀ i, Fit f.world (place i) (f.parties i)

/-- A fleet that has not begun. -/
theorem Good.start {e : RoundEngine σ} {model : Blob} {strategy : σ} (he : e.Opening model strategy)
    {t : Tree} {config : ι → CollaboratorConfig} {workDir : ι → WorkDir} {place : ι → Location}
    (hhome : ∀ i, Home t (workDir i) (place i)) : Good (Fleet.start e t config workDir) place where
  sourced := {
    mode := he.mode
    consistent := he.consistent
    bounded := by
      show e.state.round < counterLimit
      rw [he.round]
      decide
    current := List.mem_singleton_self _
    shown := by
      intro v hv
      obtain rfl := List.mem_singleton.1 hv
      refine ⟨?_, le_rfl, fun _ => rfl⟩
      show 0 < e.state.round
      rw [he.round]
      exact Nat.one_pos
    slots := by
      intro slot hs
      have : slot ∈ e.state.pending := hs
      rw [he.pending] at this
      cases this
    sent := nofun }
  fit i := ⟨hhome i, nofun, Scene.Rests.joining rfl⟩

/-- What may reach the engine is traced. -/
theorem Good.traced {f : Fleet ι σ} {place : ι → Location} (h : Good f place) {id : String}
    {u : ModelUpdate} (hu : f.Submits id u) : Traced f.world id u := by
  rcases hu with hs | ⟨i, attempt, rfl, hph⟩
  · exact h.sourced.sent _ hs
  · exact (h.fit i).traced hph

section
variable [DecidableEq ι] [AggregationStrategy σ] {f : Fleet ι σ} {place : ι → Location}

/-- **Every action keeps the fleet good**, as long as the round counter does not wrap around. -/
theorem Good.act (h : Good f place) (hplace : Function.Injective place) (a : Action ι)
    (hne : (f.act a).world.engine.state.round ≠ 0) :
    Good (f.act a) place ∧ f.world.trainings ⊆ (f.act a).world.trainings := by
  rcases f.act_cases a with ha | ⟨now, call, -, hc, ha⟩ | ⟨now, k, id, u, -, hs, ha⟩ |
    ⟨i, m, w', p', -, hm, ha⟩ <;> rw [ha] at hne ⊢
  · exact ⟨h, List.Subset.refl _⟩
  · exact ⟨⟨h.sourced.perform hc hne, fun i => (h.fit i).setEngine _⟩, List.Subset.refl _⟩
  · have hu : Traced f.world id u := h.sourced.sent _ hs
    exact ⟨⟨h.sourced.submit hu hne, fun i => (h.fit i).setEngine _⟩, List.Subset.refl _⟩
  · obtain ⟨hfit, hsourced, hframe⟩ := (h.fit i).moves h.sourced hm hne
    refine ⟨⟨hsourced, ?_⟩, hframe.trainings⟩
    refine (Function.forall_update_iff f.parties fun j p => Fit w' (place j) p).2
      ⟨hfit, fun j hj => ?_⟩
    exact (h.fit j).frame hframe fun he => hj (hplace he)

end

end Federation
