/-
  Collaborators that go through the rounds of one engine in lockstep.

  * `Fleet.Undisturbed`: a run in which nothing goes wrong and nobody else calls;
  * `InTime`: a party has completed every round before the open one, and the open one iff it has an
    update in it;
  * `Keeps`: what a move of a party leaves as it should be;
  * `Pace.moves`: every move of a run in which nothing goes wrong is of this kind;
  * `Lockstep`, `Lockstep.run`: all of it, for a whole fleet;
  * `sync_lockstep`: what follows for the counts and for the ends of the runs.
-/
import Federation.Proofs.Fleet.Level
import Federation.Proofs.Fleet.Pace

namespace Federation

open Disk (Location Tree)
open WorkDir (modelAt updateAt Home)
open RoundEngine (SameRound Receives)

/-! ## Runs in which nothing goes wrong -/

section
variable {σ : Type}

/-- A move with nothing in its way: no cancellation, calls in the same process, a disk that does
what it is asked to, and a trainer that succeeds and leaves a blob of this many bytes. -/
def Party.undisturbed (size : Nat) (p : Party) (w : World σ) : Move → Bool
  | .startTraining | .edit _ | .wake | .join _ | .submit _ | .poll _ _ | .resume => true
  | .file fault => fault.isNone
  | .endTraining (.ok ()) =>
    decide ((w.disk.read p.workDir.updatePath).toOption.map (·.length) = some size)
  | _ => false

variable {ι : Type} [DecidableEq ι] [AggregationStrategy σ]

/-- A run in which nobody makes any other move, and nobody else calls. -/
def Fleet.Undisturbed (size : Nat) : Fleet ι σ → List (Action ι) → Prop
  | _, [] => True
  | f, .move i m :: actions =>
    (f.parties i).undisturbed size f.world m = true ∧ Undisturbed size (f.act (.move i m)) actions
  | _, _ :: _ => False

instance Fleet.decidableUndisturbed (size : Nat) (f : Fleet ι σ) (actions : List (Action ι)) :
    Decidable (f.Undisturbed size actions) :=
  match actions with
  | [] => isTrue trivial
  | .move i m :: actions =>
    have := decidableUndisturbed size (f.act (.move i m)) actions
    inferInstanceAs (Decidable (_ ∧ _))
  | .call _ _ :: _ => isFalse id
  | .deliver _ _ :: _ => isFalse id

end

/-! ## In time -/

/-- A party that has completed every round before the open one, and the open one iff it has an
update in it. -/
structure InTime {σ : Type} (e : RoundEngine σ) (p : Party) : Prop where
  due : p.due + 1 = e.state.round ∧ ¬ e.HasSlot p.id ∨ p.due = e.state.round ∧ e.HasSlot p.id
  ahead : p.machine.roundsCompleted ≤ p.due
  behind : p.due ≤ p.machine.roundsCompleted + 1

namespace InTime

variable {σ : Type} {e e' : RoundEngine σ} {p p' q : Party}

theorem same (h : InTime e p) (he : e.SameRound e') : InTime e' p where
  due := by
    unfold RoundEngine.HasSlot
    rw [he.round, he.pending]
    exact h.due
  ahead := h.ahead
  behind := h.behind

theorem goes (h : InTime e p) (hp : Goes p p') : InTime e p' where
  due := by
    rw [hp.id, hp.due]
    exact h.due
  ahead := by
    have := h.ahead
    rcases hp.completed with hc | hc
    · rw [hc, hp.due]
      exact this
    · rw [hc]
  behind := by
    have := h.behind
    rcases hp.completed with hc | hc
    · rw [hc, hp.due]
      exact this
    · rw [hc]
      exact Nat.le_succ _

section
variable {base : Nat} {r : Except FederationError SubmitOutcome}

/-- A party whose update is received for the round of its model. -/
theorem receives (h : InTime e p) (ha : p.activity = .idle) (hbase : p.machine.modelRound = base)
    (hr : e.Receives p.id base r e') (hbump : bump e.state.round = e.state.round + 1) :
    InTime e' (p.doing (.answered (.receipt (r.map fun o => ⟨o.round, o.closed.isSome⟩)))) := by
  have hdue : p.due = p.machine.roundsCompleted := Party.due_eq (by simp [ha])
  -- the open round is the last one the collaborator has counted, or the next
  have hclose : p.machine.modelRound = e.state.round →
      p.machine.roundsCompleted ≤ p.machine.modelRound ∧
        p.machine.modelRound ≤ p.machine.roundsCompleted + 1 := by
    intro hnow
    rcases h.due with ⟨hd, -⟩ | ⟨hd, -⟩ <;> omega
  cases hr with
  | late he => exact (h.goes (.doing hdue (by simp [Except.map]))).same he
  | held hopen hround hslots =>
    have hnow : p.machine.modelRound = e.state.round := hbase.trans hopen
    obtain ⟨hahead, hbehind⟩ := hclose hnow
    exact ⟨Or.inr ⟨hnow.trans hround.symm, (hslots _).2 (Or.inl rfl)⟩, hahead, hbehind⟩
  | completed hopen hround hpending =>
    have hnow : p.machine.modelRound = e.state.round := hbase.trans hopen
    obtain ⟨hahead, hbehind⟩ := hclose hnow
    refine ⟨Or.inl ⟨?_, RoundEngine.not_hasSlot hpending _⟩, hahead, hbehind⟩
    show p.machine.modelRound + 1 = e'.state.round
    rw [hround, hbump, hnow]

/-- Another member. -/
theorem elsewhere (h : InTime e q) {id : String} (hq : q.id ≠ id) (hm : e.isMember q.id = true)
    (hr : e.Receives id base r e') (hbump : bump e.state.round = e.state.round + 1) :
    InTime e' q := by
  cases hr with
  | late he => exact h.same he
  | held hopen hround hslots =>
    have hslot : e'.HasSlot q.id ↔ e.HasSlot q.id := by
      rw [hslots]
      exact ⟨fun hs => hs.resolve_left hq, Or.inr⟩
    refine ⟨?_, h.ahead, h.behind⟩
    rw [hround, hslot]
    exact h.due
  | completed hopen hround hpending hall =>
    -- the round could not be completed without it
    have hslot : e.HasSlot q.id := (hall q.id hm).resolve_left hq
    have hdue : q.due = e.state.round := by
      rcases h.due with ⟨-, hn⟩ | ⟨hd, -⟩
      · exact absurd hslot hn
      · exact hd
    exact ⟨Or.inl ⟨by rw [hround, hbump, hdue], RoundEngine.not_hasSlot hpending _⟩, h.ahead,
      h.behind⟩

end

end InTime

/-! ## Moves -/

/-- What a move of a party leaves as it should be: its own pace, and everybody in time. -/
structure Keeps (size R : Nat) (d : Location) (p p' : Party) (w w' : World Strategy) : Prop where
  pace : Pace R w'.disk d p'
  id : p'.id = p.id
  level : Level size w'
  members : ∀ k, w'.engine.isMember k = w.engine.isMember k
  opened : w'.engine.state.round ≠ 0
  inTime : InTime w'.engine p'
  others : ∀ q, q.id ≠ p.id → w.engine.isMember q.id = true → InTime w.engine q →
    InTime w'.engine q

theorem Polls.same {σ : Type} {e e' : RoundEngine σ} {now : Nat} {id : String}
    {phase phase' : LongPollPhase} (h : Polls e now id phase phase' e') (hc : e.Consistent)
    (hm : e.isMember id = true) (hphase : ∀ err, phase ≠ .finished (.error err)) :
    e.SameRound e' ∧ ∀ err, phase' ≠ .finished (.error err) := by
  cases h with
  | waited hw => exact ⟨.refl e, fun err he => hphase err (hw _ he)⟩
  | read hl hr =>
    obtain ⟨⟨v, rfl⟩, hsame⟩ := RoundEngine.latest_of_member hc hm hl
    refine ⟨hsame, fun err he => ?_⟩
    cases hr _ he

section
variable {size R : Nat} {w w' : World Strategy} {d : Location} {p p' : Party}

/-- A move that leaves the open round as it is. -/
theorem Keeps.of_same (hs : Sourced w) (hl : Level size w') (hin : InTime w.engine p)
    (hp : Pace R w'.disk d p' ∧ Goes p p') (hsame : w.engine.SameRound w'.engine) :
    Keeps size R d p p' w w' where
  pace := hp.1
  id := hp.2.id
  level := hl
  members := hsame.members
  opened := by
    rw [hsame.round]
    exact (hs.shown _ hs.current).positive.ne'
  inTime := (hin.goes hp.2).same hsame
  others q _ _ hq := hq.same hsame

/-- A submission. -/
theorem Pace.submits (h : Pace R w.disk d p) (hf : Fit w d p) (hs : Sourced w) (hl : Level size w)
    (hin : InTime w.engine p) (hm : w.engine.isMember p.id = true) (hR : R < counterLimit - 1)
    (ha : p.activity = .idle) {u : ModelUpdate} {attempt now : Nat}
    (hph : p.machine.phase = .submitting u attempt) {r : Except FederationError SubmitOutcome}
    {e' : RoundEngine Strategy} (hsub : w.engine.submit now p.id u = (r, e')) :
    Keeps size R d p (p.doing (.answered (.receipt (r.map fun o => ⟨o.round, o.closed.isSome⟩)))) w
      (w.setEngine e') := by
  obtain ⟨v, -, hv, hstage⟩ := hf.stands.staged (by simp [hph]) (by simp [hph])
  rw [hph] at hstage
  have hround : p.machine.modelRound = v.round := by simp [Machine.modelRound, hv]
  have hr := hl.receives hs hm (hf.traced hph) hstage.fits.base hsub
  -- the collaborator has rounds to go, and the counter room for them
  have hbump : bump w.engine.state.round = w.engine.state.round + 1 := by
    have hlt := h.steady.running (by rw [hph]; trivial)
    have hdue : p.due = p.machine.roundsCompleted := Party.due_eq (by simp [ha])
    rw [bump, Nat.mod_eq_of_lt]
    rcases hin.due with ⟨hd, -⟩ | ⟨hd, -⟩ <;> omega
  have hpos := (hs.shown _ hs.current).positive
  have he : (w.engine.perform now (.submit p.id u)).2 = e' := congrArg Prod.snd hsub
  refine ⟨h.submitted hph ?_, rfl, ?_, ?_, ?_, hin.receives ha hround hr hbump,
    fun q hq hqm hqin => hqin.elsewhere hq hqm hr hbump⟩
  · intro err herr
    cases hr with
    | late => exact ⟨_, _, (Except.error.inj herr).symm⟩
    | held | completed => cases herr
  · rw [← he]
    exact hl.transition (w.engine.transition_perform now (.submit p.id u))
  · cases hr with
    | late hsame => exact hsame.members
    | held _ _ _ hmem | completed _ _ _ _ hmem => exact hmem
  · show e'.state.round ≠ 0
    cases hr with
    | late hsame => rw [hsame.round]; exact hpos.ne'
    | held _ hr => rw [hr]; exact hpos.ne'
    | completed _ hr => rw [hr, hbump]; exact Nat.succ_ne_zero _

/-- **Every move of a run in which nothing goes wrong leaves things as they should be.** -/
theorem Pace.moves (h : Pace R w.disk d p) (hf : Fit w d p) (hs : Sourced w) (hl : Level size w)
    (hin : InTime w.engine p) (hm : w.engine.isMember p.id = true) (hR : R < counterLimit - 1)
    {m : Move} (hmove : Moves p w m w' p') (hu : p.undisturbed size w m = true) :
    Keeps size R d p p' w w' := by
  have stays : w.engine.SameRound w.engine := .refl _
  cases hmove with
  | cancelled | interrupted | sent | heardView | heardFailure | heardReceipt => cases hu
  | opened ha hj => exact .of_same hs hl hin (h.opened ha hj) stays
  | @asked fault r next ha hfault =>
    obtain rfl : fault = none := by simpa [Party.undisturbed] using hu
    exact .of_same hs (hl.keep rfl rfl rfl) hin (h.asked hf ha) stays
  | settled ha => exact .of_same hs hl hin (h.settled hf ha) stays
  | started ha hph => exact .of_same hs hl hin (h.started ha hph _ _) stays
  | edited ha =>
    exact .of_same hs (hl.keep rfl rfl rfl) hin ⟨h.edited hf ha _, rfl, rfl, Or.inl rfl⟩ stays
  | @ended input stale result ha =>
    cases result with
    | error e => cases hu
    | ok =>
      have hread : (w.disk.read p.workDir.updatePath).toOption.map (·.length) = some size := by
        simpa [Party.undisturbed] using hu
      obtain ⟨b, hb, hlen⟩ := Option.map_eq_some_iff.1 hread
      have hok : w.disk.read p.workDir.updatePath = .ok b := by
        cases hr : w.disk.read p.workDir.updatePath with
        | error e => rw [hr] at hb; cases hb
        | ok b' => rw [hr] at hb; cases hb; rfl
      refine .of_same hs (hl.addTraining fun b' hb' => ?_) hin (h.ended hf ha hok) stays
      rw [hb] at hb'
      cases hb'
      exact hlen
  | woke ha hd => exact .of_same hs hl hin (h.woke ha hd) stays
  | @joined now again r e' ha hph hj =>
    obtain ⟨⟨o, rfl⟩, hsame⟩ := RoundEngine.join_of_member hs.consistent hm hj
    exact .of_same hs (hl.keep rfl hsame.model hsame.strategy) hin (h.joined ha hph o.view) hsame
  | submitted ha hph hsub => exact h.submits hf hs hl hin hm hR ha hph hsub
  | @polled clock now phase phase' purpose attempt e' ha hph hpoll =>
    have hphase : ∀ err, phase ≠ .finished (.error err) := by
      rintro err rfl
      rcases ha with ⟨-, h'⟩ | h'
      · cases h'
      · have hruns := h.runs
        rw [h', hph] at hruns
        exact hruns
    have hdue : p.due = p.machine.roundsCompleted := by
      rcases ha with ⟨h', -⟩ | h' <;> exact Party.due_eq (by simp [h'])
    obtain ⟨hsame, hphase'⟩ := hpoll.same hs.consistent hm hphase
    exact .of_same hs (hl.keep rfl hsame.model hsame.strategy) hin (h.polled hph hdue hphase') hsame
  | resumed ha =>
    exact .of_same hs hl hin (h.answered hf hs (by omega) ha hin.ahead hin.behind) stays

end

/-! ## Fleets -/

/-- Collaborators that are ready for the same number of synchronous rounds: each with an identity
and a working directory of its own, and they are the members of the engine. -/
structure Ready {ι σ : Type} (R : Nat) (e : RoundEngine σ) (t : Tree)
    (config : ι → CollaboratorConfig) (workDir : ι → WorkDir) (place : ι → Location) : Prop where
  mode : ∀ i, (config i).mode = .sync
  rounds : ∀ i, (config i).rounds = R
  distinct : Function.Injective fun i => (config i).id
  members : ∀ k, e.isMember k = true ↔ ∃ i, (config i).id = k
  apart : Function.Injective place
  home : ∀ i, Home t (workDir i) (place i)
  /-- The files can be written to. -/
  modelFile : ∀ i, ¬ t.IsDirectory (modelAt (place i))
  updateFile : ∀ i, ¬ t.IsDirectory (updateAt (place i))

/-- A fleet in lockstep. -/
structure Lockstep {ι : Type} (size R : Nat) (place : ι → Location) (f : Fleet ι Strategy) :
    Prop where
  good : Good f place
  level : Level size f.world
  pace : ∀ i, Pace R f.world.disk (place i) (f.parties i)
  inTime : ∀ i, InTime f.world.engine (f.parties i)
  members : ∀ k, f.world.engine.isMember k = true ↔ ∃ i, (f.parties i).id = k
  distinct : Function.Injective fun i => (f.parties i).id

namespace Lockstep

variable {ι : Type} {size R : Nat} {place : ι → Location}

theorem start {e : RoundEngine Strategy} {model : Blob} {strategy : Strategy}
    (he : e.Opening model strategy) (hs : strategy.Sound) (hne : model ≠ [])
    (hwhole : model.length % 4 = 0) (hR : 0 < R) {t : Tree} {config : ι → CollaboratorConfig}
    {workDir : ι → WorkDir} (h : Ready R e t config workDir place) :
    Lockstep model.length R place (Fleet.start e t config workDir) where
  good := .start he h.home
  level := by
    refine ⟨List.length_pos_of_ne_nil hne, hwhole, ?_, nofun, ?_⟩
    · exact congrArg List.length he.model
    · show e.state.strategy.Sound
      rw [he.strategy]
      exact hs
  pace i :=
    ⟨rfl, ⟨h.mode i, h.rounds i, nofun, rfl, Or.inl ⟨trivial, hR⟩⟩, h.modelFile i, h.updateFile i,
      trivial⟩
  inTime i :=
    ⟨Or.inl ⟨he.round.symm, RoundEngine.not_hasSlot he.pending _⟩, le_rfl, Nat.zero_le _⟩
  members := h.members
  distinct := h.distinct

section
variable [DecidableEq ι] {f : Fleet ι Strategy}

/-- A move. -/
theorem move (h : Lockstep size R place f) (hplace : Function.Injective place)
    (hR : R < counterLimit - 1) {i : ι} {m : Move}
    (hu : (f.parties i).undisturbed size f.world m = true) :
    Lockstep size R place (f.act (.move i m)) := by
  cases hm : (f.parties i).move f.world m with
  | none =>
    have hstill : f.act (.move i m) = f := by simp only [Fleet.act, hm]
    rw [hstill]
    exact h
  | some wp =>
    obtain ⟨w', p'⟩ := wp
    have hact : f.act (.move i m) = ⟨w', Function.update f.parties i p'⟩ := by
      simp only [Fleet.act, hm]
    have hmove := Party.moves_of_move hm
    have hmember : ∀ j, f.world.engine.isMember (f.parties j).id = true :=
      fun j => (h.members _).2 ⟨j, rfl⟩
    have hk := (h.pace i).moves (h.good.fit i) h.good.sourced h.level (h.inTime i) (hmember i) hR
      hmove hu
    have hgood : Good (f.act (.move i m)) place := by
      refine (h.good.act hplace (.move i m) ?_).1
      rw [hact]
      exact hk.opened
    obtain ⟨-, -, hframe⟩ := (h.good.fit i).moves h.good.sourced hmove hk.opened
    obtain ⟨l, hl, hdisk⟩ := hframe.disk
    rw [hact] at hgood ⊢
    have hid : ∀ j, (Function.update f.parties i p' j).id = (f.parties j).id :=
      (Function.forall_update_iff f.parties fun j q => q.id = (f.parties j).id).2
        ⟨hk.id, fun _ _ => rfl⟩
    have hpace : ∀ j, Pace R w'.disk (place j) (Function.update f.parties i p' j) := by
      refine (Function.forall_update_iff f.parties fun j q => Pace R w'.disk (place j) q).2
        ⟨hk.pace, fun j hj => ?_⟩
      obtain ⟨hmodel, hupdate⟩ := WorkDir.apart (fun he => hj (hplace he)) hl
      exact (h.pace j).elsewhere hdisk hmodel hupdate
    have hin : ∀ j, InTime w'.engine (Function.update f.parties i p' j) := by
      refine (Function.forall_update_iff f.parties fun _ q => InTime w'.engine q).2
        ⟨hk.inTime, fun j hj => ?_⟩
      exact hk.others _ (fun he => hj (h.distinct he)) (hmember j) (h.inTime j)
    refine ⟨hgood, hk.level, hpace, hin, fun k => ?_, fun j j' hjj => ?_⟩
    · show w'.engine.isMember k = true ↔ ∃ j, (Function.update f.parties i p' j).id = k
      simp only [hid, hk.members]
      exact h.members k
    · have hjj : (Function.update f.parties i p' j).id =
          (Function.update f.parties i p' j').id := hjj
      rw [hid, hid] at hjj
      exact h.distinct hjj

theorem run (h : Lockstep size R place f) (hplace : Function.Injective place)
    (hR : R < counterLimit - 1) {actions : List (Action ι)} (hu : f.Undisturbed size actions) :
    Lockstep size R place (f.run actions) := by
  induction actions generalizing f with
  | nil => exact h
  | cons a actions ih =>
    cases a with
    | move i m => exact ih (h.move hplace hR hu.1) hu.2
    | call | deliver => exact hu.elim

end

variable {f : Fleet ι Strategy}

/-- An open round waits for somebody. -/
theorem awaits [Nonempty ι] (h : Lockstep size R place f) :
    ∃ i, ¬ f.world.engine.HasSlot (f.parties i).id := by
  have hc := h.good.sourced.consistent
  rcases hc.awaits h.good.sourced.mode with hnil | hlt
  · obtain ⟨i⟩ := ‹Nonempty ι›
    exact ⟨i, RoundEngine.not_hasSlot hnil _⟩
  · have hreg : ∀ k ∈ f.world.engine.state.pending.map (·.collaborator),
        f.world.engine.state.members.contains k = true := by
      intro k hk
      obtain ⟨slot, hs, rfl⟩ := List.mem_map.1 hk
      exact hc.registered slot hs
    rw [← List.length_map (f := (·.collaborator)),
      NameMap.length_lt_size_iff hc.distinct hreg] at hlt
    obtain ⟨k, hk, hn⟩ := hlt
    obtain ⟨i, rfl⟩ := (h.members k).1 hk
    exact ⟨i, hn⟩

/-- A party whose submission is not in progress has counted all rounds it has completed. -/
theorem completed (h : Lockstep size R place f) {i : ι}
    (hi : ∀ r, (f.parties i).activity ≠ .answered (.receipt r)) :
    (f.parties i).machine.roundsCompleted + 1 = f.world.engine.state.round ∨
      (f.parties i).machine.roundsCompleted = f.world.engine.state.round := by
  have hd := (h.inTime i).due
  rw [Party.due_eq fun r => hi (.ok r)] at hd
  exact hd.imp And.left And.left

/-- A run that has ended has ended well. -/
theorem ended (h : Lockstep size R place f) {i : ι} {r : Except FederationError RunSummary}
    (hr : (f.parties i).machine.result? = some r) :
    (∃ s, r = .ok s ∧ s.roundsCompleted = R) ∧ (f.parties i).due = R := by
  have hph : (f.parties i).machine.phase = .finished r := by
    unfold Machine.result? at hr
    split at hr
    · next hp => cases hr; exact hp
    · cases hr
  rcases (h.pace i).steady.standing with ⟨hstep, -⟩ | ⟨s, hs, hsR, hR⟩
  · rw [hph] at hstep
    exact hstep.elim
  · rw [hph] at hs
    cases hs
    refine ⟨⟨s, rfl, hsR⟩, ?_⟩
    have hidle : (f.parties i).activity = .idle := by
      rcases (h.good.fit i).stands with ⟨again, hp, -⟩ | ⟨-, -, ha⟩ | ⟨v, -, -, hst⟩
      · rw [hph] at hp; cases hp
      · exact ha
      · rw [hph] at hst
        exact hst.elim
    rw [Party.due_eq (by simp [hidle]), hR]

end Lockstep

/-- **Lockstep of synchronous collaborators.**  Take a synchronous engine with a built-in strategy
and a model of whole weights, whose members are the collaborators, each ready for `R` rounds, and
let nothing go wrong.  Whatever the order of their moves: while no submission of a collaborator is
in progress, it has completed all rounds but the open one, or that one too; no run fails; and once
all runs have ended, each has completed `R` rounds and the engine is one round further. -/
theorem sync_lockstep {ι : Type} [DecidableEq ι] [Nonempty ι] (now : Nat)
    (membership : MembershipPolicy) (expected : List String) {model : Blob} (hne : model ≠ [])
    (hwhole : model.length % 4 = 0) {strategy : Strategy} (hs : strategy.BuiltIn)
    {calls : List (Nat × RoundCall)} (hcalls : ∀ c ∈ calls, c.2.isSubmit = false) {R : Nat}
    (hpos : 0 < R) (hR : R < counterLimit - 1) {t : Tree} {config : ι → CollaboratorConfig}
    {workDir : ι → WorkDir} {place : ι → Location} {e : RoundEngine Strategy}
    (he : e = (RoundEngine.create now ⟨.sync, membership, expected⟩ model strategy).after calls)
    (hready : Ready R e t config workDir place) {f : Fleet ι Strategy}
    (hf : f = Fleet.start e t config workDir) {actions : List (Action ι)}
    (hu : f.Undisturbed model.length actions) :
    let w := (f.run actions).world
    let party := (f.run actions).parties
    (∀ i, (∀ r, (party i).activity ≠ .answered (.receipt r)) →
      (party i).machine.roundsCompleted + 1 = w.engine.state.round ∨
        (party i).machine.roundsCompleted = w.engine.state.round) ∧
    (∀ i err, (party i).machine.result? ≠ some (.error err)) ∧
    ((∀ i, (party i).machine.result?.isSome = true) →
      w.engine.state.round = R + 1 ∧
        ∀ i, ∃ s, (party i).machine.result? = some (.ok s) ∧ s.roundsCompleted = R) := by
  intro w party
  have hopening : e.Opening model strategy :=
    he ▸ (RoundEngine.Opening.create now membership expected model strategy).after hcalls
  have h : Lockstep model.length R place (f.run actions) :=
    (hf ▸ Lockstep.start hopening hs.sound hne hwhole hpos hready).run hready.apart hR hu
  refine ⟨fun i hi => h.completed hi, fun i err herr => ?_, fun hall => ⟨?_, fun i => ?_⟩⟩
  · obtain ⟨⟨s, hr, -⟩, -⟩ := h.ended herr
    cases hr
  · -- the open round waits for somebody, who has completed all the rounds before it
    obtain ⟨i, hi⟩ := h.awaits
    obtain ⟨r, hr⟩ := Option.isSome_iff_exists.1 (hall i)
    obtain ⟨-, hdue⟩ := h.ended hr
    rcases (h.inTime i).due with ⟨hd, -⟩ | ⟨-, hslot⟩
    · rw [← hdue]
      exact hd.symm
    · exact absurd hslot hi
  · obtain ⟨r, hr⟩ := Option.isSome_iff_exists.1 (hall i)
    obtain ⟨⟨s, rfl, hsR⟩, -⟩ := h.ended hr
    exact ⟨s, hr, hsR⟩

/-- Two collaborators of one round, the second of which begins when the first has submitted. -/
theorem lockstep_of_two :
    let e := (RoundEngine.create 0 ⟨.sync, .default, []⟩ [0, 0, 128, 63] Strategy.mean).after
      [(0, .join "a"), (0, .join "b")]
    let t : Tree := ⟨[(["a"], .directory 0o700), (["b"], .directory 0o700)], []⟩
    let name : Bool → String := fun i => bif i then "b" else "a"
    let f := Fleet.start e t (fun i => ⟨name i, .sync, 1, .default⟩) (fun i => ⟨name i⟩)
    let turns := (Move.firstRound [0, 0, 0, 64]).map (Action.move false) ++
      (Move.firstRound [0, 0, 0, 0]).map (Action.move true) ++
        [.move false .resume, .move true .resume]
    (∀ i, ((f.run turns).parties i).machine.result?.isSome = true) ∧
      (f.run turns).world.engine.state.round = 2 ∧
      ∀ i, ∃ s, ((f.run turns).parties i).machine.result? = some (.ok s) ∧
        s.roundsCompleted = 1 := by
  intro e t name f turns
  have hnames : e.state.members.names = ["a", "b"] := by decide +kernel
  have hready : Ready 1 e t (fun i => ⟨name i, .sync, 1, .default⟩) (fun i => ⟨name i⟩)
      fun i => [name i] := by
    refine ⟨fun _ => rfl, fun _ => rfl, by decide, fun k => ?_, by decide, ?_, ?_, ?_⟩
    · show e.state.members.contains k = true ↔ _
      rw [NameMap.contains_iff, hnames]
      simp [name, eq_comm]
    · intro i
      cases i <;> exact ⟨by decide +kernel, 0o700, by decide +kernel⟩
    · rintro i ⟨m, hm⟩
      cases i <;> cases hm
    · rintro i ⟨m, hm⟩
      cases i <;> cases hm
  have hu : f.Undisturbed 4 turns := by decide +kernel
  have hall : ∀ i, ((f.run turns).parties i).machine.result?.isSome = true := by decide +kernel
  have hmean : Strategy.BuiltIn .mean :=
    .built (show AlgorithmConfig.default.build = .ok .mean by decide +kernel)
  obtain ⟨-, -, h⟩ := sync_lockstep 0 .default [] (by decide) (by decide) hmean (by decide)
    Nat.one_pos (by decide) (e := e) rfl hready (f := f) rfl hu
  exact ⟨hall, h hall⟩

end Federation
