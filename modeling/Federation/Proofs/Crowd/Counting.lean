/-
  The rounds a collaborator counts.

  In step with the others, a collaborator counts the rounds in which an update of it was accepted,
  each of them once, however often it submits and whatever the others do.

  * `Activity.Due`, `Course.counted`: the answer that is due, and the rounds that are to be counted;
  * `Sound`, `Sound.take`: what holds of a course, and every turn keeps;
  * `rounds_counted`: the count, the round observed last, the ceiling, and how a run ends.
-/
import Federation.Proofs.Collaborator.Books
import Federation.Proofs.Crowd.System
import Federation.Proofs.Round.Replay
import Federation.Proofs.Wire.Calls

namespace Federation

/-! ## Courses -/

section
variable {σ : Type}

/-- In step with the others, an accepted update is one for the open round. -/
theorem RoundEngine.base_of_accepted [AggregationStrategy σ] {e e' : RoundEngine σ} {now : Nat}
    {id : String} {u : ModelUpdate} {o : SubmitOutcome}
    (ht : e.Transition now (.submit id u) (.ok (.submitted o)) e') (hmode : e.rules.mode = .sync)
    {base : Nat} (hbase : u.baseRound = some base) (hle : base ≤ e.state.round) :
    base = e.state.round := by
  have hstale : e.staleBase u = none := by cases ht <;> assumption
  simp only [staleBase, hmode, isLate, hbase, ite_eq_right_iff, reduceCtorEq, imp_false] at hstale
  omega

/-- An answer that shows no round and tells of no cancellation. -/
def Reply.Quiet (reply : Reply) : Prop := reply.round? = none ∧ reply.error? ≠ some .cancelled

theorem WorkDir.FailsInTraining.quiet {α : Type} {x : WorkDir.Step α} (hx : WorkDir.FailsInTraining x)
    {wrap : Except FederationError α → Reply} (hok : ∀ a, (wrap (.ok a)).Quiet)
    (herror : ∀ text, (wrap (.error (.trainingFailure text))).Quiet) :
    (x.run.bind fun r => .done (wrap r)).Yields Reply.Quiet := by
  refine .bind (hx.mono fun r hr => ?_)
  cases r with
  | ok a => exact hok a
  | error e =>
    obtain ⟨text, rfl⟩ := hr e rfl
    exact herror text

/-- Steps in the working directory end without a round and without a cancellation. -/
theorem Party.IsJob.quiet {p : Party} {rest : Disk.Program Reply} (h : p.IsJob rest) :
    rest.Yields Reply.Quiet := by
  cases h with
  | writeModel =>
    exact (WorkDir.fails_writeModel _ _).quiet (fun _ => ⟨rfl, nofun⟩) fun _ => ⟨rfl, nofun⟩
  | clearUpdate =>
    exact (WorkDir.fails_clearUpdate _).quiet (fun _ => ⟨rfl, nofun⟩) fun _ => ⟨rfl, nofun⟩
  | readUpdate =>
    exact (WorkDir.fails_readUpdate _).quiet (fun _ => ⟨rfl, nofun⟩) fun _ => ⟨rfl, nofun⟩

/-- What a collaborator that is busy with something is going to be answered. -/
def Activity.Due (off : Prop) (n : Nat) (m : Machine) : Activity → Prop
  | .answered reply => m.Fits off n reply
  | .filing rest => rest.Yields Reply.Quiet
  | .polling (.finished _) => False
  | _ => True

theorem Activity.Due.mono {off : Prop} {n n' : Nat} {m : Machine} {a : Activity}
    (h : a.Due off n m) (hn : n ≤ n') : a.Due off n' m := by
  cases a with
  | answered reply => exact Machine.Fits.mono h hn
  | polling phase => cases phase <;> exact h
  | _ => exact h

theorem due_pollActivity {off : Prop} {n : Nat} {m : Machine} {phase : LongPollPhase}
    (h : ∀ r, phase = .finished r → m.Fits off n (.view r)) :
    (Party.pollActivity phase).Due off n m := by
  cases phase with
  | finished r => exact h r rfl
  | _ => trivial

theorem hasReceipt_pollActivity (phase : LongPollPhase) :
    (Party.pollActivity phase).hasReceipt = false := by
  cases phase <;> rfl

/-- Nothing is interrupted between a receipt and what is made of it. -/
theorem hasReceipt_of_allows {a : Activity} (h : a.allows .interrupt = true) :
    a.hasReceipt = false := by
  cases a with
  | answered reply =>
    cases reply with
    | receipt => cases h
    | _ => rfl
  | _ => rfl

namespace Course

/-- The rounds that are to be counted by now. -/
def counted (c : Course σ) : List Nat :=
  if c.party.activity.hasReceipt then c.accepted.dropLast else c.accepted

/-- What holds of a course at all times.  `off` is whether the run may have been cancelled. -/
structure Sound (off : Prop) (initial : Blob) (c : Course (Recorded σ)) : Prop where
  engine : c.world.engine.Counted initial
  mode : c.world.engine.rules.mode = .sync
  keeps : c.machine.Keeps off c.world.engine.state.round c.counted c.heard
  due : c.party.activity.Due off c.world.engine.state.round c.machine
  accepted : c.party.activity.hasReceipt = true → c.accepted = c.counted ++ [c.machine.modelRound]
  cancelled : c.party.cancelled = true → off

variable {off : Prop} {initial : Blob} {c : Course (Recorded σ)}

theorem counted_of_not_hasReceipt (h : c.party.activity.hasReceipt = false) :
    c.counted = c.accepted := by
  unfold counted
  rw [h]
  rfl

theorem Sound.start {e : RoundEngine (Recorded σ)} (he : e.Counted initial)
    (hmode : e.rules.mode = .sync) (t : Disk.Tree) {config : CollaboratorConfig}
    (hsync : config.mode = .sync) (workDir : WorkDir) :
    Sound off initial (start e t config workDir) where
  engine := he
  mode := hmode
  keeps := .fresh hsync
  due := trivial
  accepted h := by cases h
  cancelled h := by cases h

/-- The rounds that are to be counted, once the collaborator has gone on with its answer. -/
theorem Sound.accepted_eq (h : c.Sound off initial) {reply : Reply}
    (ha : c.party.activity = .answered reply) :
    c.accepted = c.counted ++ c.machine.gained reply := by
  cases hr : (Activity.answered reply).hasReceipt with
  | true =>
    rw [h.accepted (ha ▸ hr)]
    rcases reply with _ | (_ | _) | _ | _ | _ <;> first | rfl | cases hr
  | false =>
    rw [counted_of_not_hasReceipt (ha ▸ hr)]
    rcases reply with _ | (_ | _) | _ | _ | _ <;> first | exact (List.append_nil _).symm | cases hr

/-- The collaborator turns to something that brings no receipt. -/
theorem Sound.doing (h : c.Sound off initial) (hold : c.party.activity.hasReceipt = false)
    {w : World (Recorded σ)} (hw : w.engine = c.world.engine) {a : Activity}
    (hnew : a.hasReceipt = false) (ha : a.Due off w.engine.state.round c.machine) :
    Sound off initial ⟨w, c.party.doing a, c.accepted, c.heard⟩ where
  engine := hw ▸ h.engine
  mode := hw ▸ h.mode
  keeps := by
    rw [counted_of_not_hasReceipt hnew]
    have hk := h.keeps
    rw [counted_of_not_hasReceipt hold] at hk
    exact hw ▸ hk
  due := ha
  accepted hr := by rw [show a.hasReceipt = true from hr] at hnew; cases hnew
  cancelled := h.cancelled

/-- The collaborator goes on with a fitting answer. -/
theorem Sound.resume (h : c.Sound off initial)
    (hclosed : c.world.engine.state.round < counterLimit) {w : World (Recorded σ)}
    (hw : w.engine = c.world.engine) {reply : Reply}
    (hf : c.machine.Fits off c.world.engine.state.round reply)
    (hgained : c.accepted = c.counted ++ c.machine.gained reply) :
    Sound off initial
      ⟨w, c.party.resume reply, c.accepted, c.heard ++ reply.round?.toList⟩ where
  engine := hw ▸ h.engine
  mode := hw ▸ h.mode
  keeps := by
    have hk := h.keeps.resume hclosed hf h.cancelled
    rw [← hgained] at hk
    exact hw ▸ hk
  due := trivial
  accepted hr := by cases hr
  cancelled := h.cancelled

/-- Somebody calls the engine. -/
theorem Sound.setEngine [AggregationStrategy σ] (h : c.Sound off initial)
    {e' : RoundEngine (Recorded σ)} {now : Nat} {call : RoundCall}
    {r : Except FederationError RoundAnswer} (ht : c.world.engine.Transition now call r e')
    (hcloses : e'.state.strategy.closes < counterLimit - 1) :
    Sound off initial { c with world := c.world.setEngine e' } := by
  have hcounted := h.engine.transition ht
  have hle : c.world.engine.state.round ≤ e'.state.round := by
    rcases ht.opens with ⟨hround, -⟩ | hround
    · exact hround.ge
    · exact (h.engine.round_lt hcounted ht.calls_prefix hcloses hround).le
  exact ⟨hcounted, ht.rules ▸ h.mode, h.keeps.mono hle, h.due.mono hle, h.accepted, h.cancelled⟩

/-- A move that has not submitted anything nor handed over an answer leaves the record. -/
theorem Sound.of_quiet {m : Move} {w : World (Recorded σ)} {p : Party}
    (h : Sound off initial ⟨w, p, c.accepted, c.heard⟩) (hlanded : c.landed m p = [])
    (htold : c.told m = []) :
    Sound off initial ⟨w, p, c.accepted ++ c.landed m p, c.heard ++ c.told m⟩ := by
  rwa [hlanded, htold, List.append_nil, List.append_nil]

section
variable [AggregationStrategy σ]

/-- A failed call of the engine is no cancellation. -/
theorem Sound.fits_error (h : c.Sound off initial) {now : Nat} {call : RoundCall}
    {e : FederationError} {e' : RoundEngine (Recorded σ)}
    (ht : c.world.engine.Transition now call (.error e) e') {n : Nat} {reply : Reply}
    (hr : reply.round? = none) (he : reply.error? = some e) : c.machine.Fits off n reply := by
  have htravels := ht.travels (h.engine.round ▸ Nat.mod_lt _ (by decide))
  refine .of_round hr fun hc => ?_
  obtain rfl : e = .cancelled := Option.some.inj (he.symm.trans hc)
  exact htravels.elim

/-- A model that the engine shows is one the collaborator can be given. -/
theorem Sound.fits_view (h : c.Sound off initial) {now : Nat} {call : RoundCall}
    {answer : RoundAnswer} {e' : RoundEngine (Recorded σ)}
    (ht : c.world.engine.Transition now call (.ok answer) e')
    (hcloses : e'.state.strategy.closes < counterLimit - 1) {v : ModelView}
    (hv : answer.view? = some v) (hm : c.machine.phase.awaitsModel = true) :
    c.machine.Fits off e'.state.round (.view (.ok v)) := by
  have hsound := h.setEngine ht hcloses
  have hview : v.round = e'.state.round := congrArg ModelView.round (ht.view hv)
  have hround : e'.state.round = e'.state.strategy.closes + 1 := (hsound.engine.isNth hcloses).round
  have hcurrent : c.machine.modelRound ≤ e'.state.round := hsound.keeps.current
  refine ⟨fun v' hv' => ?_, nofun, nofun⟩
  cases hv'
  exact ⟨hm, by omega, hview ▸ hcurrent, hview.le⟩

/-- The collaborator submits an update. -/
theorem Sound.submitted (h : c.Sound off initial) (hidle : c.party.activity = .idle) {now : Nat}
    {u : ModelUpdate} {attempt : Nat} (hp : c.machine.phase = .submitting u attempt)
    {r : Except FederationError SubmitOutcome} {e' : RoundEngine (Recorded σ)}
    (hsub : c.world.engine.submit now c.party.id u = (r, e'))
    (hcloses : e'.state.strategy.closes < counterLimit - 1) :
    let p := c.party.doing (.answered (.receipt (r.map fun o => ⟨o.round, o.closed.isSome⟩)))
    Sound off initial
      ⟨c.world.setEngine e', p, c.accepted ++ c.landed (.submit now) p, c.heard⟩ := by
  intro p
  have hold : c.party.activity.hasReceipt = false := by rw [hidle]; rfl
  have ht := c.world.engine.transition_submit now c.party.id u
  rw [hsub] at ht
  have hsound := h.setEngine ht hcloses
  cases r with
  | error e =>
    show Sound off initial ⟨_, p, c.accepted ++ [], c.heard⟩
    rw [List.append_nil]
    exact hsound.doing hold rfl rfl (h.fits_error ht rfl rfl)
  | ok o =>
    have hbase := h.keeps.sends u (by rw [hp]; rfl)
    have hround : c.machine.modelRound = c.world.engine.state.round :=
      RoundEngine.base_of_accepted ht h.mode hbase h.keeps.current
    have hcounted : Course.counted ⟨c.world.setEngine e', p,
        c.accepted ++ [c.world.engine.state.round], c.heard⟩ = c.accepted :=
      List.dropLast_concat
    have hk : c.machine.Keeps off e'.state.round c.counted c.heard := hsound.keeps
    rw [counted_of_not_hasReceipt hold, ← hcounted] at hk
    refine ⟨hsound.engine, hsound.mode, hk, ?_, fun _ => ?_, h.cancelled⟩
    · exact ⟨nofun, fun _ _ => ⟨u, attempt, hp⟩, nofun⟩
    · show c.accepted ++ [c.world.engine.state.round] = Course.counted _ ++ [c.machine.modelRound]
      rw [hround]
      exact congrArg (· ++ [c.world.engine.state.round]) hcounted.symm

/-- The collaborator asks for the model. -/
theorem Sound.polled (h : c.Sound off initial) {now : Nat} {phase phase' : LongPollPhase}
    {purpose : FetchPurpose} {attempt : Nat} {e' : RoundEngine (Recorded σ)}
    (ha : c.party.activity = .idle ∧ phase = .reading ∨ c.party.activity = .polling phase)
    (hp : c.machine.phase = .fetching purpose attempt)
    (hpoll : Polls c.world.engine now c.party.id phase phase' e')
    (hcloses : e'.state.strategy.closes < counterLimit - 1) :
    Sound off initial ⟨c.world.setEngine e', c.party.doing (Party.pollActivity phase'),
      c.accepted, c.heard⟩ := by
  have hold : c.party.activity.hasReceipt = false := by
    rcases ha with ⟨ha, -⟩ | ha <;> rw [ha] <;> rfl
  cases hpoll with
  | waited hsame =>
    refine h.doing (w := c.world.setEngine c.world.engine) hold rfl
      (hasReceipt_pollActivity phase') (due_pollActivity fun r hr => ?_)
    -- a poll that has been over would have been answered
    obtain rfl := hsame r hr
    rcases ha with ⟨-, hreading⟩ | hpolling
    · cases hreading
    · have hdue := h.due
      rw [hpolling] at hdue
      exact hdue.elim
  | read hl hsame =>
    have ht := c.world.engine.transition_perform now (.latest c.party.id)
    simp only [RoundEngine.perform, RoundEngine.perform.wrap, hl] at ht
    refine (h.setEngine ht hcloses).doing hold rfl (hasReceipt_pollActivity phase')
      (due_pollActivity fun r' hr' => ?_)
    obtain rfl := hsame r' hr'
    cases r' with
    | error e => exact h.fits_error ht rfl rfl
    | ok v => exact h.fits_view ht hcloses rfl (by rw [hp]; rfl)

/-- The collaborator joins. -/
theorem Sound.joined (h : c.Sound off initial) (hidle : c.party.activity = .idle) {now : Nat}
    {again : Bool} (hp : c.machine.phase = .joining again)
    {r : Except FederationError JoinOutcome} {e' : RoundEngine (Recorded σ)}
    (hj : c.world.engine.join now c.party.id = (r, e'))
    (hcloses : e'.state.strategy.closes < counterLimit - 1) :
    Sound off initial ⟨c.world.setEngine e',
      c.party.doing (.answered (.view (r.map JoinOutcome.view))), c.accepted, c.heard⟩ := by
  have ht := c.world.engine.transition_perform now (.join c.party.id)
  simp only [RoundEngine.perform, RoundEngine.perform.wrap, hj] at ht
  refine (h.setEngine ht hcloses).doing (by rw [hidle]; rfl) rfl rfl ?_
  cases r with
  | error e => exact h.fits_error ht rfl rfl
  | ok o => exact h.fits_view ht hcloses rfl (by rw [hp]; rfl)

/-- Every move of the collaborator. -/
theorem Sound.moves (h : c.Sound off initial) {m : Move} {w : World (Recorded σ)} {p : Party}
    (ha : c.party.activity.allows m = true) (hm : Moves c.party c.world m w p)
    (hoff : (Turn.move m).cancels = true → off)
    (hcloses : w.engine.state.strategy.closes < counterLimit - 1) :
    Sound off initial ⟨w, p, c.accepted ++ c.landed m p, c.heard ++ c.told m⟩ := by
  have hlimit : c.world.engine.state.round < counterLimit :=
    h.engine.round ▸ Nat.mod_lt _ (by decide)
  -- an answer from elsewhere than the engine
  have hquiet : ∀ {w' : World (Recorded σ)} {reply : Reply}, w'.engine = c.world.engine →
      c.party.activity.hasReceipt = false → reply.round? = none →
      (reply.error? = some .cancelled → off) →
      Sound off initial ⟨w', c.party.resume reply, c.accepted, c.heard⟩ := by
    intro w' reply hw hold hround herror
    have hgained : c.accepted = c.counted ++ c.machine.gained reply := by
      rw [Machine.gained_of_round hround, List.append_nil, counted_of_not_hasReceipt hold]
    have hr := h.resume hlimit hw (.of_round hround herror) hgained
    rwa [hround, Option.toList_none, List.append_nil] at hr
  cases hm with
  | cancelled => exact .of_quiet { h with cancelled := fun _ => hoff rfl } rfl rfl
  | interrupted hc =>
    have hk := h.keeps.toBooks.stop (Or.inr (h.cancelled hc))
    rw [counted_of_not_hasReceipt (hasReceipt_of_allows ha)] at hk
    exact .of_quiet ⟨h.engine, h.mode, hk, trivial, nofun, h.cancelled⟩ rfl rfl
  | opened hidle hjob =>
    exact .of_quiet (h.doing (by rw [hidle]; rfl) rfl rfl hjob.quiet) rfl rfl
  | @asked fault r next hfiling =>
    have hdue := h.due
    rw [hfiling] at hdue
    exact .of_quiet (h.doing (w := c.world.setDisk (r.meet [fault] c.world.disk).2)
      (by rw [hfiling]; rfl) rfl rfl (hdue _)) rfl rfl
  | settled hfiling =>
    have hdue := h.due
    rw [hfiling] at hdue
    exact .of_quiet (hquiet rfl (by rw [hfiling]; rfl) hdue.1 fun he => absurd he hdue.2) rfl
      rfl
  | started hidle => exact .of_quiet (h.doing (by rw [hidle]; rfl) rfl rfl trivial) rfl rfl
  | edited =>
    exact .of_quiet ⟨h.engine, h.mode, h.keeps, h.due, h.accepted, h.cancelled⟩ rfl rfl
  | @ended _ _ result htraining =>
    refine .of_quiet (hquiet rfl (by rw [htraining]; rfl) rfl fun he => ?_) rfl rfl
    cases result with
    | ok => cases he
    | error e => cases he; exact hoff rfl
  | woke hidle => exact .of_quiet (hquiet rfl (by rw [hidle]; rfl) rfl nofun) rfl rfl
  | sent | heardView | heardFailure | heardReceipt => cases ha
  | joined hidle hph hj => exact .of_quiet (h.joined hidle hph hj hcloses) rfl rfl
  | submitted hidle hph hsub =>
    rw [show c.told (.submit _) = [] from rfl, List.append_nil]
    exact h.submitted hidle hph hsub hcloses
  | polled hactivity hph hpoll => exact .of_quiet (h.polled hactivity hph hpoll hcloses) rfl rfl
  | @resumed reply hanswered =>
    have hdue := h.due
    rw [hanswered] at hdue
    have htold : c.told .resume = reply.round?.toList := by simp only [told, hanswered]
    rw [show c.landed .resume _ = [] from rfl, List.append_nil, htold]
    exact h.resume hlimit rfl hdue (h.accepted_eq hanswered)

/-- **Every turn keeps a course sound.** -/
theorem Sound.take (h : c.Sound off initial) (turn : Turn) (hoff : turn.cancels = true → off)
    (hcloses : (c.take turn).world.engine.state.strategy.closes < counterLimit - 1) :
    (c.take turn).Sound off initial := by
  rcases c.take_cases turn with ht | ⟨now, call, -, ht⟩ | ⟨m, w, p, rfl, ha, hm, ht⟩
  · rw [ht]
    exact h
  · rw [ht] at hcloses ⊢
    exact h.setEngine (c.world.engine.transition_perform now call) hcloses
  · rw [ht] at hcloses ⊢
    exact h.moves ha hm hoff hcloses

/-- What is on record stays on record. -/
theorem calls_prefix_take (c : Course (Recorded σ)) (turn : Turn) :
    c.world.engine.state.strategy.calls <+:
      (c.take turn).world.engine.state.strategy.calls := by
  rcases c.take_cases turn with ht | ⟨now, call, -, ht⟩ | ⟨m, w, p, -, -, hm, ht⟩
  · rw [ht]
  · rw [ht]
    have htransition := c.world.engine.transition_perform now call
    exact htransition.calls_prefix
  · rw [ht]
    rcases hm.engine with he | ⟨_, _, _, htransition, -⟩
    · rw [he]
    · exact htransition.calls_prefix

theorem Sound.run (h : c.Sound off initial) (turns : List Turn)
    (hoff : ∀ turn ∈ turns, turn.cancels = true → off)
    (hcloses : (c.run turns).world.engine.state.strategy.closes < counterLimit - 1) :
    (c.run turns).Sound off initial := by
  induction turns using List.reverseRecOn with
  | nil => exact h
  | append_singleton turns turn ih =>
    rw [run_concat] at hcloses ⊢
    have hle := Recorded.closes_le (calls_prefix_take (c.run turns) turn)
    have hsound := ih (fun t ht => hoff t (List.mem_append_left _ ht)) (hle.trans_lt hcloses)
    exact hsound.take turn (hoff turn (by simp)) hcloses

/-- The rounds that are to be counted change with the receipt of an accepted update alone. -/
theorem counted_take (c : Course (Recorded σ)) (turn : Turn) :
    (c.take turn).counted = c.counted ∨
      turn = .move .resume ∧ c.party.activity.hasReceipt = true ∧
        (c.take turn).counted = c.accepted := by
  rcases c.take_cases turn with ht | ⟨now, call, -, ht⟩ | ⟨m, w, p, rfl, ha, hm, ht⟩ <;> rw [ht]
  · exact Or.inl rfl
  · exact Or.inl rfl
  have hrest : ∀ {p' : Party}, c.landed m p' = [] → p'.activity.hasReceipt = false →
      Course.counted ⟨w, p', c.accepted ++ c.landed m p', c.heard ++ c.told m⟩ = c.accepted := by
    intro p' hlanded hr
    rw [counted_of_not_hasReceipt hr, hlanded, List.append_nil]
  cases hm with
  | cancelled | edited => exact Or.inl (by simp only [counted, landed, List.append_nil])
  | interrupted =>
    exact Or.inl ((hrest rfl rfl).trans (counted_of_not_hasReceipt (hasReceipt_of_allows ha)).symm)
  | opened hold | asked hold | settled hold | started hold | ended hold | woke hold | joined hold =>
    exact Or.inl ((hrest rfl rfl).trans (counted_of_not_hasReceipt (by rw [hold]; rfl)).symm)
  | sent | heardView | heardFailure | heardReceipt => cases ha
  | @submitted now _ _ r _ hold =>
    rw [counted_of_not_hasReceipt (c := c) (by rw [hold]; rfl)]
    cases r with
    | error e => exact Or.inl (hrest rfl rfl)
    | ok o => exact Or.inl List.dropLast_concat
  | @polled _ _ _ phase' _ _ _ hactivity =>
    have hold : c.party.activity.hasReceipt = false := by
      rcases hactivity with ⟨ha', -⟩ | ha' <;> rw [ha'] <;> rfl
    exact Or.inl ((hrest rfl (hasReceipt_pollActivity phase')).trans
      (counted_of_not_hasReceipt hold).symm)
  | resumed =>
    cases hold : c.party.activity.hasReceipt with
    | true => exact Or.inr ⟨rfl, rfl, hrest rfl rfl⟩
    | false => exact Or.inl ((hrest rfl rfl).trans (counted_of_not_hasReceipt hold).symm)

end

end Course

end

/-! ## The count -/

/-- **A collaborator counts the rounds in which an update of it was accepted.**  Let it take part in
step with the others, in the same process as a new synchronous engine, while anybody calls the
engine in between, fewer rounds being closed than the counters can count.  Unless an answer to a
submission is still to be looked at, the count is the number of different rounds in which an update
of it was accepted, and the round observed last is the largest that a model or a receipt showed.
The count grows only by one, with the receipt of an update for a round in which none was accepted
before.  It never exceeds the rounds the collaborator was told to do, and a run that was not
cancelled ends well only when it has done them all. -/
theorem rounds_counted {σ : Type} [AggregationStrategy σ] (start : Nat)
    (membership : MembershipPolicy) (expected : List String) (model : Blob) (strategy : σ)
    (t : Disk.Tree) (config : CollaboratorConfig) (workDir : WorkDir) (turns : List Turn) :
    let first := RoundEngine.create start ⟨.sync, membership, expected⟩ model
      (Recorded.fresh strategy)
    let c := (Course.start first t config workDir).run turns
    config.mode = .sync → c.world.engine.state.strategy.closes < counterLimit - 1 →
    ((∀ r, c.party.activity ≠ .answered (.receipt r)) →
      c.machine.roundsCompleted = c.accepted.toFinset.card ∧
      c.machine.lastRound = c.heard.foldl max 0) ∧
    (∀ turn, (c.take turn).world.engine.state.strategy.closes < counterLimit - 1 →
      (c.take turn).machine.roundsCompleted = c.machine.roundsCompleted ∨
      turn = .move .resume ∧ ∃ r earlier, c.party.activity = .answered (.receipt (.ok r)) ∧
        c.accepted = earlier ++ [c.machine.modelRound] ∧ c.machine.modelRound ∉ earlier ∧
        (c.take turn).machine.roundsCompleted = c.machine.roundsCompleted + 1) ∧
    (0 < config.rounds → c.machine.roundsCompleted ≤ config.rounds) ∧
    (∀ s, c.machine.result? = some (.ok s) → (∀ turn ∈ turns, turn.cancels = false) →
      0 < config.rounds ∧ s.roundsCompleted = config.rounds ∧
        s.roundsCompleted = c.machine.roundsCompleted ∧ s.lastRound = c.machine.lastRound) := by
  intro first c hmode hcloses
  have hfirst : first.Counted model := .create ..
  have hsound : ∀ {off : Prop}, (∀ turn ∈ turns, turn.cancels = true → off) → c.Sound off model :=
    fun hoff => (Course.Sound.start hfirst rfl t hmode workDir).run turns hoff hcloses
  have hany : c.Sound True model := hsound fun _ _ _ => trivial
  have hconfig : c.machine.config = config := Course.config_run ..
  refine ⟨fun hrest => ?_, fun turn hcloses' => ?_, ?_, fun s hs hcalm => ?_⟩
  · have hr : c.party.activity.hasReceipt = false := by
      cases ha : c.party.activity with
      | answered reply =>
        cases reply with
        | receipt r => exact absurd ha (hrest r)
        | _ => rfl
      | _ => rfl
    rw [← Course.counted_of_not_hasReceipt hr]
    exact ⟨hany.keeps.tallied.tally, hany.keeps.heard⟩
  · have hafter := (hany.take turn (fun _ => trivial) hcloses').keeps.tallied.tally
    have hbefore := hany.keeps.tallied.tally
    rcases c.counted_take turn with hsame | ⟨hturn, hr, hgrown⟩
    · rw [hsame, ← hbefore] at hafter
      exact Or.inl hafter
    · have haccepted := hany.accepted hr
      have hset : c.accepted.toFinset = insert c.machine.modelRound c.counted.toFinset := by
        rw [haccepted]
        ext k
        simp [or_comm]
      rw [hgrown, hset] at hafter
      by_cases hmem : c.machine.modelRound ∈ c.counted
      · rw [Finset.insert_eq_of_mem (List.mem_toFinset.2 hmem), ← hbefore] at hafter
        exact Or.inl hafter
      · rw [Finset.card_insert_of_notMem (by simpa using hmem), ← hbefore] at hafter
        obtain ⟨r, hreceipt⟩ := Activity.receipt_of_hasReceipt hr
        exact Or.inr ⟨hturn, r, c.counted, hreceipt, haccepted, hmem, hafter⟩
  · exact hconfig ▸ hany.keeps.ceiling
  · have hquiet : c.Sound False model := hsound fun turn hturn hcancels => by
      rw [hcalm turn hturn] at hcancels
      cases hcancels
    obtain ⟨hrounds, hlast, hend⟩ := hquiet.keeps.ended s (Machine.phase_of_result hs)
    obtain ⟨hpos, hdone⟩ := hend.resolve_left id
    exact ⟨hconfig ▸ hpos, by rw [hrounds, hdone, hconfig], hrounds, hlast⟩

/-- Two rounds of one collaborator, which submits twice in the first of them, and another client
that closes it. -/
theorem counted_of_resubmission :
    let training := (Move.firstRound [0, 0, 0, 64]).drop 2 ++ [.resume]
    let again := [.wake, .poll 0 1, .resume, .file none] ++ training
    let before := [.join 0, .resume] ++ training ++ again
    let turns := [.call 0 (.join "b")] ++ before.map Turn.move ++
      [.call 2 (.submit "b" ⟨[0, 0, 128, 63], some 1, 0⟩)] ++ again.map Turn.move
    let first := RoundEngine.create 0 ⟨.sync, .default, []⟩ [0, 0, 0, 0]
      (Recorded.fresh Strategy.mean)
    let c := (Course.start first ⟨[(["a"], .directory 0o700)], []⟩ ⟨"a", .sync, 2, .default⟩
      ⟨"a"⟩).run turns
    c.accepted = [1, 1, 2] ∧ c.machine.result? = some (.ok ⟨2, 2, .stopped⟩) ∧
      c.machine.roundsCompleted = c.accepted.toFinset.card ∧
      c.machine.lastRound = c.heard.foldl max 0 := by
  intro training again before turns first c
  have haccepted : c.accepted = [1, 1, 2] := by decide +kernel
  have hresult : c.machine.result? = some (.ok ⟨2, 2, .stopped⟩) := by decide +kernel
  obtain ⟨hcount, -⟩ := rounds_counted 0 .default [] [0, 0, 0, 0] Strategy.mean
    ⟨[(["a"], .directory 0o700)], []⟩ ⟨"a", .sync, 2, .default⟩ ⟨"a"⟩ turns rfl (by decide +kernel)
  exact ⟨haccepted, hresult, hcount (Activity.ne_receipt_of_isIdle (by decide +kernel))⟩

end Federation
