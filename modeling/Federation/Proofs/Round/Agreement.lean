/-
  Agreement about the models.

  Callers ask for operations at any moment, and any number of operations are under way at a time.
  Each has its turns at the engine alone: a call has one of them, and a long poll reads the model,
  waits, and may read again, while others have their turns in between.

  * `Operation`, `Progress`: what a caller asks for, and how far it has come;
  * `Traffic`: an engine, the operations under way, and the models that were returned, with the
    moments at which their operations began and ended;
  * `Turns`: what one turn of an operation can come to;
  * `Traffic.Acts`: what one moment can come to;
  * `Traffic.Follows`: a view of one of the models, no older than any that was returned before;
  * `Agrees`, `Agrees.acts`, `Agrees.run`: all views that are held or were returned are such views;
  * `model_agreement`: what this says about any two of them.
-/
import Federation.Proofs.Round.Models

namespace Federation

/-! ## Operations -/

/-- What a caller asks of an engine. -/
inductive Operation where
  | call (call : RoundCall)
  | wait (poll : LongPoll)

/-- How far an operation has come. -/
inductive Progress where
  | due (call : RoundCall)
  | answered (result : Except FederationError RoundAnswer)
  | polling (poll : LongPoll) (phase : LongPollPhase)

namespace Progress

def ofOperation : Operation → Progress
  | .call call => .due call
  | .wait poll => .polling poll .reading

/-- The model that is returned, if any, once nothing is left to be done. -/
def outcome? : Progress → Option (Option ModelView)
  | .due _ => none
  | .answered result => some (result.toOption.bind RoundAnswer.view?)
  | .polling _ phase => phase.result?.map Except.toOption

/-- The model that is about to be returned. -/
def view? (p : Progress) : Option ModelView := p.outcome?.join

/-- One turn at the engine; `clock` is the caller's time, and `now` the engine's. -/
def turn {σ : Type} [AggregationStrategy σ] (clock now : Nat) (e : RoundEngine σ) :
    Progress → Progress × RoundEngine σ
  | .due call =>
    let (result, e) := e.perform now call
    (.answered result, e)
  | .answered result => (.answered result, e)
  | .polling poll phase =>
    let (phase, e) := poll.step clock now e phase
    (.polling poll phase, e)

end Progress

/-- An operation under way. -/
structure Ongoing where
  /-- The moment at which the caller asked for it. -/
  began : Nat
  progress : Progress

/-- A model that was returned. -/
structure Returned where
  view : ModelView
  /-- The moments at which the operation began and ended. -/
  began : Nat
  ended : Nat
  deriving DecidableEq, Repr

/-! ## Traffic -/

/-- An engine with its callers, each of whom has one operation under way at most. -/
structure Traffic (ι σ : Type) where
  engine : RoundEngine σ
  /-- How much has happened so far. -/
  moment : Nat
  ongoing : ι → Option Ongoing
  returned : List Returned

/-- What happens at a moment. -/
inductive Happening (ι : Type) where
  /-- A caller asks for an operation, and gives up the one that is under way. -/
  | start (i : ι) (op : Operation)
  | turn (i : ι) (clock now : Nat)
  /-- An operation with nothing left to be done returns. -/
  | finish (i : ι)

namespace Traffic

variable {ι σ : Type}

/-- Nobody has asked for anything yet. -/
def quiet (e : RoundEngine σ) : Traffic ι σ := ⟨e, 0, fun _ => none, []⟩

/-- A moment passes. -/
def tick (t : Traffic ι σ) : Traffic ι σ := { t with moment := t.moment + 1 }

variable [DecidableEq ι]

def setOngoing (t : Traffic ι σ) (i : ι) (o : Option Ongoing) : Traffic ι σ :=
  { t with ongoing := Function.update t.ongoing i o }

/-- The operation of a caller returns with a model or without. -/
def close (t : Traffic ι σ) (i : ι) (o : Ongoing) (outcome : Option ModelView) : Traffic ι σ :=
  let returned := outcome.toList.map fun v => ⟨v, o.began, t.moment⟩
  { t with returned := t.returned ++ returned }.setOngoing i none

variable [AggregationStrategy σ]

def act (t : Traffic ι σ) : Happening ι → Traffic ι σ
  | .start i op => (t.setOngoing i (some ⟨t.moment, .ofOperation op⟩)).tick
  | .turn i clock now =>
    match t.ongoing i with
    | none => t.tick
    | some o =>
      let (progress, e) := o.progress.turn clock now t.engine
      ({ t with engine := e }.setOngoing i (some ⟨o.began, progress⟩)).tick
  | .finish i =>
    match t.ongoing i with
    | none => t.tick
    | some o =>
      match o.progress.outcome? with
      | none => t.tick
      | some outcome => (t.close i o outcome).tick

def run (t : Traffic ι σ) (happenings : List (Happening ι)) : Traffic ι σ := happenings.foldl act t

end Traffic

/-! ## What a moment comes to -/

section
variable {σ : Type} [AggregationStrategy σ]

/-- What a turn of an operation comes to: it calls the engine, and may hold the model that is
current then, or it leaves the engine alone. -/
inductive Turns (e : RoundEngine σ) (p p' : Progress) : RoundEngine σ → Prop
  | passed : (∀ v, p'.view? = some v → p.view? = some v) → Turns e p p' e
  | called {now call r e'} : e.Transition now call r e' →
      (∀ v, p'.view? = some v → v = e'.state.view) → Turns e p p' e'

theorem Progress.turns_turn (p : Progress) (clock now : Nat) (e : RoundEngine σ) :
    Turns e p (p.turn clock now e).1 (p.turn clock now e).2 := by
  cases p with
  | due call =>
    have ht := e.transition_perform now call
    refine .called ht fun v hv => ?_
    simp only [turn, view?, outcome?] at hv
    cases hr : (e.perform now call).1 with
    | error err => rw [hr] at hv; cases hv
    | ok answer =>
      rw [hr] at ht hv
      exact ht.view hv
  | answered result => exact .passed fun v hv => hv
  | polling poll phase =>
    have hpolls := poll.polls_step clock now e phase
    simp only [turn]
    generalize (poll.step clock now e phase).1 = phase' at hpolls ⊢
    generalize (poll.step clock now e phase).2 = e' at hpolls ⊢
    cases hpolls with
    | waited hphase =>
      refine .passed fun v hv => ?_
      cases phase' with
      | finished r =>
        rw [hphase r rfl]
        exact hv
      | _ => cases hv
    | read hl hr =>
      have ht := e.transition_perform now (.latest poll.id)
      simp only [RoundEngine.perform, RoundEngine.perform.wrap, hl] at ht
      refine .called ht fun v hv => ?_
      cases phase' with
      | finished r' =>
        obtain rfl := hr r' rfl
        cases r' with
        | error err => cases hv
        | ok v' => exact ht.view hv
      | _ => cases hv

variable {ι : Type} [DecidableEq ι]

/-- Everything a moment can come to. -/
inductive Traffic.Acts (t : Traffic ι σ) : Traffic ι σ → Prop
  | passed : Acts t t.tick
  | started {i op} : Acts t (t.setOngoing i (some ⟨t.moment, .ofOperation op⟩)).tick
  | turned {i o p e} : t.ongoing i = some o → Turns t.engine o.progress p e →
      Acts t ({ t with engine := e }.setOngoing i (some ⟨o.began, p⟩)).tick
  | finished {i o outcome} : t.ongoing i = some o → o.progress.outcome? = some outcome →
      Acts t (t.close i o outcome).tick

theorem Traffic.acts_act (t : Traffic ι σ) (a : Happening ι) : t.Acts (t.act a) := by
  cases a with
  | start i op => exact .started
  | turn i clock now =>
    cases ho : t.ongoing i with
    | none => simp only [act, ho]; exact .passed
    | some o => simp only [act, ho]; exact .turned ho (o.progress.turns_turn clock now t.engine)
  | finish i =>
    cases ho : t.ongoing i with
    | none => simp only [act, ho]; exact .passed
    | some o =>
      cases hout : o.progress.outcome? with
      | none => simp only [act, ho, hout]; exact .passed
      | some outcome => simp only [act, ho, hout]; exact .finished ho hout

end

/-! ## Views of models -/

namespace IsNth

variable {σ : Type} {initial : Blob} {r : Recorded σ} {k k' : Nat} {v v' : ModelView}

/-- No view has a round that has not come yet. -/
theorem round_le (h : IsNth initial r k v) : v.round ≤ r.closes + 1 := by
  obtain ⟨hk, -⟩ := List.getElem?_eq_some_iff.1 h.model
  rw [Recorded.length_models] at hk
  rw [h.round]
  exact hk

/-- The round tells which view it is. -/
theorem eq_of_round (h : IsNth initial r k v) (h' : IsNth initial r k' v')
    (hround : v.round = v'.round) : v = v' := by
  have hk : k = k' := by
    rw [h.round, h'.round] at hround
    exact Nat.succ_injective hround
  subst hk
  have hmodel : v.model = v'.model := Option.some.inj (h.model.symm.trans h'.model)
  have hversion : v.version = v'.version := h.version.trans h'.version.symm
  cases v
  cases v'
  simp only at hmodel hround hversion
  rw [hmodel, hround, hversion]

/-- Every model but the first was made by an aggregation. -/
theorem model_made (h : IsNth initial r k v) :
    v.model = initial ∨ ∃ call ∈ r.calls, call.result = .ok v.model := by
  rcases List.mem_cons.1 (List.mem_of_getElem? h.model) with hm | hm
  · exact Or.inl hm
  · obtain ⟨call, hcall, hresult⟩ := List.mem_filterMap.1 hm
    refine Or.inr ⟨call, hcall, ?_⟩
    cases hr : call.result with
    | error err => rw [hr] at hresult; cases hresult
    | ok model => rw [hr] at hresult; cases hresult; rfl

end IsNth

/-! ## Agreement -/

section
variable {ι σ : Type}

/-- A view of one of the models, no older than those returned before a moment in the past. -/
structure Traffic.Follows (t : Traffic ι (Recorded σ)) (initial : Blob) (began : Nat)
    (v : ModelView) : Prop where
  past : began < t.moment
  model : ∃ k, IsNth initial t.engine.state.strategy k v
  order : ∀ a ∈ t.returned, a.ended < began → a.view.round ≤ v.round

/-- All that is about to be returned, and all that was, follows what was returned before. -/
structure Agrees (initial : Blob) (t : Traffic ι (Recorded σ)) : Prop where
  counted : t.engine.Counted initial
  begun : ∀ i o, t.ongoing i = some o → o.began < t.moment
  held : ∀ i o v, t.ongoing i = some o → o.progress.view? = some v → t.Follows initial o.began v
  returned : ∀ a ∈ t.returned, t.Follows initial a.began a.view

variable {initial : Blob} {t t' : Traffic ι (Recorded σ)}

/-- What a moment leaves of the moments before it. -/
structure Traffic.Later (t t' : Traffic ι (Recorded σ)) : Prop where
  moment : t'.moment = t.moment + 1
  calls : t.engine.state.strategy.calls <+: t'.engine.state.strategy.calls
  returned : ∀ a ∈ t'.returned, a ∈ t.returned ∨ a.ended = t.moment

theorem Traffic.Follows.later {began : Nat} {v : ModelView} (h : t.Follows initial began v)
    (hl : t.Later t') : t'.Follows initial began v where
  past := by
    have := h.past
    rw [hl.moment]
    omega
  model := by
    obtain ⟨k, hk⟩ := h.model
    exact ⟨k, hk.mono hl.calls⟩
  order a ha hlt := by
    rcases hl.returned a ha with ha | ha
    · exact h.order a ha hlt
    · -- what ends now does not end before anything that has begun
      have := h.past
      omega

/-- The current view follows everything. -/
theorem Traffic.follows_current {began : Nat} (hc : t.engine.Counted initial)
    (hcloses : t.engine.state.strategy.closes < counterLimit - 1) (hbegan : began < t.moment)
    (hreturned : ∀ a ∈ t.returned, ∃ k, IsNth initial t.engine.state.strategy k a.view) :
    t.Follows initial began t.engine.state.view where
  past := hbegan
  model := ⟨_, hc.isNth hcloses⟩
  order a ha _ := by
    obtain ⟨k, hk⟩ := hreturned a ha
    rw [(hc.isNth hcloses).round]
    exact hk.round_le

theorem Agrees.quiet {e : RoundEngine (Recorded σ)} (h : e.Counted initial) :
    Agrees initial (Traffic.quiet e : Traffic ι (Recorded σ)) where
  counted := h
  begun i o ho := by cases ho
  held i o v ho := by cases ho
  returned a ha := by cases ha

theorem Agrees.later (h : Agrees initial t) (hl : t.Later t') (hc : t'.engine.Counted initial)
    (hongoing : ∀ i o, t'.ongoing i = some o → t.ongoing i = some o ∨
      o.began ≤ t.moment ∧ ∀ v, o.progress.view? = some v → t'.Follows initial o.began v)
    (hreturned : ∀ a ∈ t'.returned, a ∈ t.returned ∨ t'.Follows initial a.began a.view) :
    Agrees initial t' where
  counted := hc
  begun i o ho := by
    rw [hl.moment, Nat.lt_succ_iff]
    rcases hongoing i o ho with ho | ⟨hbegan, -⟩
    · exact (h.begun i o ho).le
    · exact hbegan
  held i o v ho hv := by
    rcases hongoing i o ho with ho | ⟨-, hview⟩
    · exact (h.held i o v ho hv).later hl
    · exact hview v hv
  returned a ha := by
    rcases hreturned a ha with ha | ha
    · exact (h.returned a ha).later hl
    · exact ha

variable [DecidableEq ι]

theorem Traffic.ongoing_of_setOngoing {t : Traffic ι σ} {i j : ι} {x : Option Ongoing}
    {o : Ongoing} (h : (t.setOngoing i x).ongoing j = some o) :
    (j = i ∧ x = some o) ∨ t.ongoing j = some o := by
  simp only [setOngoing] at h
  by_cases hj : j = i
  · subst hj
    rw [Function.update_self] at h
    exact Or.inl ⟨rfl, h⟩
  · rw [Function.update_of_ne hj] at h
    exact Or.inr h

variable [AggregationStrategy σ]

theorem Traffic.Acts.later (ha : t.Acts t') : t.Later t' := by
  cases ha with
  | passed | started => exact ⟨rfl, List.prefix_rfl, fun a ha => Or.inl ha⟩
  | turned _ hturns =>
    refine ⟨rfl, ?_, fun a ha => Or.inl ha⟩
    cases hturns with
    | passed => exact List.prefix_rfl
    | called ht => exact ht.calls_prefix
  | finished =>
    refine ⟨rfl, List.prefix_rfl, fun a ha => ?_⟩
    rcases List.mem_append.1 ha with ha | ha
    · exact Or.inl ha
    · obtain ⟨v, -, rfl⟩ := List.mem_map.1 ha
      exact Or.inr rfl

/-- A moment keeps agreement. -/
theorem Agrees.acts (h : Agrees initial t) (ha : t.Acts t')
    (hcloses : t'.engine.state.strategy.closes < counterLimit - 1) : Agrees initial t' := by
  have hl := ha.later
  cases ha with
  | passed => exact h.later hl h.counted (fun i o ho => Or.inl ho) (fun a ha => Or.inl ha)
  | @started i op =>
    refine h.later hl h.counted (fun j o ho => ?_) (fun a ha => Or.inl ha)
    rcases Traffic.ongoing_of_setOngoing ho with ⟨rfl, ⟨⟩⟩ | ho
    · exact Or.inr ⟨le_rfl, fun v hv => by cases op <;> cases hv⟩
    · exact Or.inl ho
  | @turned i o p e ho hturns =>
    have hbegun := h.begun i o ho
    have hc : e.Counted initial := by
      cases hturns with
      | passed => exact h.counted
      | called ht => exact h.counted.transition ht
    refine h.later hl hc (fun j o' ho' => ?_) (fun a ha => Or.inl ha)
    rcases Traffic.ongoing_of_setOngoing ho' with ⟨rfl, ⟨⟩⟩ | ho'
    · refine Or.inr ⟨hbegun.le, fun v hv => ?_⟩
      cases hturns with
      | passed hview => exact (h.held j o v ho (hview v hv)).later hl
      | called ht hview =>
        obtain rfl := hview v hv
        exact Traffic.follows_current hc hcloses (Nat.lt_succ_of_lt hbegun) fun a ha =>
          ((h.returned a ha).later hl).model
    · exact Or.inl ho'
  | @finished i o outcome ho hout =>
    refine h.later hl h.counted (fun j o' ho' => ?_) (fun a ha => ?_)
    · rcases Traffic.ongoing_of_setOngoing ho' with ⟨-, ⟨⟩⟩ | ho'
      exact Or.inl ho'
    · rcases List.mem_append.1 ha with ha | ha
      · exact Or.inl ha
      · obtain ⟨v, hv, rfl⟩ := List.mem_map.1 ha
        have hview : o.progress.view? = some v := by
          rw [Progress.view?, hout]
          exact Option.mem_toList.1 hv
        exact Or.inr ((h.held i o v ho hview).later hl)

theorem Agrees.run (h : Agrees initial t) (happenings : List (Happening ι))
    (hcloses : (t.run happenings).engine.state.strategy.closes < counterLimit - 1) :
    Agrees initial (t.run happenings) := by
  induction happenings using List.reverseRecOn with
  | nil => exact h
  | append_singleton happenings a ih =>
    have hrun : t.run (happenings ++ [a]) = (t.run happenings).act a := by simp [Traffic.run]
    rw [hrun] at hcloses ⊢
    have ha := (t.run happenings).acts_act a
    -- the record only grows, so it was short enough before
    have hle := Recorded.closes_le ha.later.calls
    exact (ih (hle.trans_lt hcloses)).acts ha hcloses

/-- **Agreement about the models.**  However the operations of any number of callers overlap, as
long as the counters can count the rounds: every model that is returned was the first one or was
made by an aggregation; models returned for the same round are the same, with the same version; a
later round has a later version; and an operation that begins when another one has returned does
not return an earlier round. -/
theorem model_agreement (start : Nat) (rules : RoundRules) (model : Blob) (strategy : σ)
    (happenings : List (Happening ι)) :
    let t := (Traffic.quiet (ι := ι) (RoundEngine.create start rules model
      (Recorded.fresh strategy))).run happenings
    t.engine.state.strategy.closes < counterLimit - 1 → ∀ a ∈ t.returned,
      (a.view.model = model ∨
        ∃ call ∈ t.engine.state.strategy.calls, call.result = .ok a.view.model) ∧
      ∀ b ∈ t.returned,
        (a.view.round = b.view.round → a.view = b.view) ∧
        (a.view.round < b.view.round → a.view.version < b.view.version) ∧
        (a.ended < b.began → a.view.round ≤ b.view.round) := by
  intro t hcloses a ha
  have h : Agrees model t :=
    (Agrees.quiet (RoundEngine.Counted.create start rules model strategy)).run happenings hcloses
  obtain ⟨k, hk⟩ := (h.returned a ha).model
  refine ⟨hk.model_made, fun b hb => ?_⟩
  have hb := h.returned b hb
  obtain ⟨k', hk'⟩ := hb.model
  refine ⟨hk.eq_of_round hk', fun hlt => ?_, hb.order a ha⟩
  rw [hk.version, hk'.version, ← hk.round, ← hk'.round]
  exact hlt

/-- A join, and a wait for the round that a submission closes while somebody else reads. -/
theorem agreement_of_four :
    let happenings : List (Happening ℕ) :=
      [.start 0 (.call (.join "a")), .turn 0 0 0, .finish 0,
        .start 1 (.wait ⟨"a", 2, 1000⟩), .turn 1 0 0, .turn 1 0 0,
        .start 0 (.call (.submit "a" (.ofModel [0, 0, 128, 63]))), .turn 0 0 0,
        .start 2 (.call (.latest "a")), .turn 2 0 0, .finish 2, .finish 0,
        .turn 1 0 0, .turn 1 0 0, .finish 1]
    let t := (Traffic.quiet (RoundEngine.create 0 ⟨.sync, .default, []⟩ [0, 0, 0, 0]
      (Recorded.fresh Strategy.mean))).run happenings
    let joined : Returned := ⟨⟨[0, 0, 0, 0], 1, 1⟩, 0, 2⟩
    let read : Returned := ⟨⟨[0, 0, 128, 63], 2, 2⟩, 8, 10⟩
    let submitted : Returned := ⟨⟨[0, 0, 128, 63], 2, 2⟩, 6, 11⟩
    let waited : Returned := ⟨⟨[0, 0, 128, 63], 2, 2⟩, 3, 14⟩
    t.returned = [joined, read, submitted, waited] ∧
      t.engine.state.strategy.closes < counterLimit - 1 ∧ waited.view = submitted.view ∧
      joined.view.version < waited.view.version ∧ joined.view.round ≤ waited.view.round := by
  intro happenings t joined read submitted waited
  have hreturned : t.returned = [joined, read, submitted, waited] := by decide +kernel
  have hcloses : t.engine.state.strategy.closes < counterLimit - 1 := by decide +kernel
  have h := model_agreement 0 ⟨.sync, .default, []⟩ [0, 0, 0, 0] Strategy.mean happenings hcloses
  have hmem : joined ∈ t.returned ∧ submitted ∈ t.returned ∧ waited ∈ t.returned := by
    rw [hreturned]
    decide
  obtain ⟨-, hlater, hordered⟩ := (h joined hmem.1).2 waited hmem.2.2
  obtain ⟨hsame, -, -⟩ := (h waited hmem.2.2).2 submitted hmem.2.1
  exact ⟨hreturned, hcloses, hsame rfl, hlater (by decide), hordered (by decide)⟩

end

end Federation
