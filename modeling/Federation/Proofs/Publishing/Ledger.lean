/-
  What becomes of models and answers, step by step.

  * `RoundEngine.view_of_open`, `RoundEngine.view_of_closed`: the model after a call, by whether the
    call has closed a round;
  * `Publishing.engine_run`: the rounds are what the calls of the engine make of them;
  * `Publishing.Handing`: a model that was brought to the desk is on its way, or not newer than what
    was written, or its write has failed;
  * `Publishing.Answering`: every handler answers once, with what the engine said to it;
  * `Publishing.Current`: the newest of the models that were brought to the desk is the engine's.
-/
import Federation.Proofs.Publishing.System

namespace Federation

open Disk (Fault Program Request Tree OsError)
open Wire

section
variable {σ : Type} [AggregationStrategy σ] {e e' : RoundEngine σ} {now : Nat} {call : RoundCall}
  {r : Except FederationError RoundAnswer}

/-- A call leaves the current model, or closes a round with a new one that it hands out. -/
theorem RoundEngine.closed_of_perform (h : e.perform now call = (r, e')) :
    (r.toOption.bind RoundAnswer.closed? = none ∧ e'.state.view = e.state.view) ∨
      (r.toOption.bind RoundAnswer.closed? = some e'.state.view ∧
        e'.state.version = bump e.state.version) := by
  have ht := e.transition_perform now call
  rw [h] at ht
  cases ht.renews with
  | left hview _ hclosed =>
    refine Or.inl ⟨?_, hview⟩
    cases r with
    | error err => rfl
    | ok answer => exact hclosed answer rfl
  | failed _ hview hr =>
    subst hr
    exact Or.inl ⟨rfl, hview⟩
  | renewed _ hview hr hclosed =>
    subst hr
    exact Or.inr ⟨hclosed, congrArg ModelView.version hview⟩

theorem RoundEngine.view_of_open (h : e.perform now call = (r, e'))
    (hr : r.toOption.bind RoundAnswer.closed? = none) : e'.state.view = e.state.view := by
  rcases closed_of_perform h with ⟨-, hview⟩ | ⟨hclosed, -⟩
  · exact hview
  · cases hr.symm.trans hclosed

theorem RoundEngine.view_of_closed (h : e.perform now call = (r, e')) {v : ModelView}
    (hr : r.toOption.bind RoundAnswer.closed? = some v) :
    v = e'.state.view ∧ e'.state.version = bump e.state.version := by
  rcases closed_of_perform h with ⟨hopen, -⟩ | ⟨hclosed, hversion⟩
  · cases hr.symm.trans hopen
  · exact ⟨Option.some.inj (hr.symm.trans hclosed), hversion⟩

end

namespace Publishing

variable {σ : Type} {s s' : Publishing σ} {a : Act}

/-! ## The engine and the desk -/

section
variable [AggregationStrategy σ]

theorem Takes.engine (h : s.Takes a s') :
    s'.engine = s.engine.after a.call?.toList := by
  cases h with
  | idle ha => rw [ha]; rfl
  | refused hp | held hp | closed hp | looked hp | overdue hp | called hp =>
    simp only [Act.call?, Option.toList_some, RoundEngine.after_cons, RoundEngine.after_nil, hp,
      bring]
  | acquired | asked | released | elsewhere => rfl

/-- The disk has no part in what becomes of the rounds. -/
theorem engine_run (s : Publishing σ) (acts : List Act) :
    (s.run acts).engine = s.engine.after (acts.filterMap Act.call?) := by
  induction acts generalizing s with
  | nil => rfl
  | cons a acts ih =>
    have ha := (s.takes a).engine
    refine (ih (s.take a)).trans ?_
    rw [ha, List.filterMap_cons]
    cases a.call? <;> rfl

theorem Takes.sound {initial : Except OsError (List UInt8)} (h : s.Takes a s')
    (hs : s.desk.Sound initial) : s'.desk.Sound initial := by
  cases h with
  | idle | refused | held | closed | looked | overdue | called => exact hs
  | acquired hfree => exact hs.acquire hfree _
  | asked hh hrest => exact hs.ask hh hrest _
  | released hh hrest => exact (hs.release hh hrest).1
  | elsewhere ht => exact hs.elsewhere ht

end

/-! ## Models on their way -/

@[simp] theorem inFlight_bring (s : Publishing σ) (k : Ticket) :
    (s.bring k).inFlight = s.inFlight ++ [k] := by
  simp [inFlight, bring]

theorem inFlight_acquired {n : Nat} {k : Ticket} (hfree : s.desk.tenure = none)
    (hk : s.waiting[n]? = some k) :
    ({ s with desk := s.desk.acquire k, waiting := s.waiting.eraseIdx n } :
      Publishing σ).inFlight.Perm s.inFlight := by
  obtain ⟨hn, rfl⟩ := List.getElem?_eq_some_iff.1 hk
  simpa [inFlight, hfree, Desk.acquire] using List.getElem_cons_eraseIdx_perm hn

theorem inFlight_asked {h : Tenure} (hh : s.desk.tenure = some h) (r : Request)
    (next : Except OsError r.Reply → Program Publisher) (fault : Option Fault) :
    ({ s with desk := s.desk.ask h fault r next } : Publishing σ).inFlight = s.inFlight := by
  simp [inFlight, hh, Desk.ask, Desk.answered]

theorem inFlight_of_tenure {h : Tenure} (hh : s.desk.tenure = some h) (p : Publisher) :
    s.inFlight = h.ticket :: (s.finish h p).inFlight := by
  simp [inFlight, hh, finish, Desk.release]

/-- Every model that was brought to the desk is on its way, or the file has one that is not older,
unless a write has failed. -/
structure Handing (s : Publishing σ) : Prop where
  written : ∀ k ∈ s.desk.written, k ∈ s.handed
  inFlight : ∀ k ∈ s.inFlight, k ∈ s.handed
  handed : s.desk.mishaps = [] →
    ∀ k ∈ s.handed, k ∈ s.inFlight ∨ k.view.version ≤ s.desk.publisher.writtenVersion

namespace Handing

theorem start (e : RoundEngine σ) (path : String) (t : Tree) :
    (Publishing.start e path t).Handing := ⟨nofun, nofun, fun _ => nofun⟩

theorem bring (h : s.Handing) (k : Ticket) : (s.bring k).Handing where
  written k' hk' := List.mem_append_left _ (h.written k' hk')
  inFlight k' hk' := by
    rw [inFlight_bring] at hk'
    exact (List.mem_append.1 hk').elim (fun hk' => List.mem_append_left _ (h.inFlight k' hk'))
      (List.mem_append_right _)
  handed hm k' hk' := by
    rw [inFlight_bring]
    rcases List.mem_append.1 hk' with hk' | hk'
    · exact (h.handed hm k' hk').imp_left (List.mem_append_left _)
    · exact Or.inl (List.mem_append_right _ hk')

/-- What has no part in it may change. -/
theorem of_eq (h : s.Handing) (hdesk : s'.desk = s.desk) (hwaiting : s'.waiting = s.waiting)
    (hhanded : s'.handed = s.handed) : s'.Handing := by
  have hin : s'.inFlight = s.inFlight := by simp only [Publishing.inFlight, hdesk, hwaiting]
  exact ⟨by rw [hdesk, hhanded]; exact h.written, by rw [hin, hhanded]; exact h.inFlight,
    by rw [hdesk, hin, hhanded]; exact h.handed⟩

theorem takes [AggregationStrategy σ] (h : s.Handing) {initial : Except OsError (List UInt8)}
    (hsound : s.desk.Sound initial) (ht : s.Takes a s') : s'.Handing := by
  cases ht with
  | idle => exact h
  | refused | held | looked | called => exact h.of_eq rfl rfl rfl
  | closed | overdue =>
    refine Handing.bring ?_ _
    exact h.of_eq rfl rfl rfl
  | acquired hfree hk =>
    have hin := inFlight_acquired hfree hk
    exact ⟨h.written, fun k' hk' => h.inFlight k' (hin.mem_iff.1 hk'),
      fun hm k' hk' => (h.handed hm k' hk').imp_left hin.mem_iff.2⟩
  | @asked fault tenure r next hh hrest =>
    have hin := inFlight_asked hh r next fault
    refine ⟨fun k' hk' => ?_, by rw [hin]; exact h.inFlight, by rw [hin]; exact h.handed⟩
    simp only [Desk.ask, Desk.answered] at hk'
    split at hk'
    · rcases List.mem_append.1 hk' with hk' | hk'
      · exact h.written k' hk'
      · rw [List.mem_singleton.1 hk']
        exact h.inFlight _ (by simp [Publishing.inFlight, hh])
    · exact h.written k' hk'
  | @released tenure p hh hrest =>
    obtain ⟨-, hle, hdone⟩ := hsound.release hh hrest
    have hin := inFlight_of_tenure hh p
    refine ⟨h.written, fun k' hk' => h.inFlight k' (by rw [hin]; exact List.mem_cons_of_mem _ hk'),
      fun hm k' hk' => ?_⟩
    have hm' : s.desk.mishaps = [] := (List.append_eq_nil_iff.1 hm).1
    rcases h.handed hm' k' hk' with hk' | hk'
    · rw [hin] at hk'
      rcases List.mem_cons.1 hk' with rfl | hk'
      · exact Or.inr (hdone hm)
      · exact Or.inl hk'
    · exact Or.inr (hk'.trans hle)
  | elsewhere => exact ⟨h.written, h.inFlight, h.handed⟩

end Handing

/-! ## Answers -/

section
variable [AggregationStrategy σ]

theorem Takes.outcomes (h : s.Takes a s') :
    ∃ new, s'.outcomes = s.outcomes ++ new ∧ new.length = if a.isSubmit then 1 else 0 := by
  cases h with
  | idle ha =>
    refine ⟨[], (List.append_nil _).symm, ?_⟩
    cases a <;> first | rfl | cases ha
  | refused | held | closed => exact ⟨[_], rfl, rfl⟩
  | looked | overdue | called | acquired | asked | released | elsewhere =>
    exact ⟨[], (List.append_nil _).symm, rfl⟩

theorem outcomes_run (s : Publishing σ) (acts : List Act) :
    ∃ new, (s.run acts).outcomes = s.outcomes ++ new ∧ new.length = acts.countP Act.isSubmit := by
  induction acts generalizing s with
  | nil => exact ⟨[], (List.append_nil _).symm, rfl⟩
  | cons a acts ih =>
    obtain ⟨new, hnew, hlength⟩ := (s.takes a).outcomes
    obtain ⟨more, hmore, hlength'⟩ := ih (s.take a)
    refine ⟨new ++ more, hmore.trans (by rw [hnew, List.append_assoc]), ?_⟩
    rw [List.length_append, hlength, hlength', List.countP_cons, Nat.add_comm]

theorem outcomes_submit (s : Publishing σ) (now : Nat) (m : UpdateMessage) :
    (s.take (.submit now m)).outcomes =
      s.outcomes ++ [(s.engine.submit now m.collaboratorId m.toUpdate).1] := by
  simp only [take, heard]
  rcases s.engine.submit now m.collaboratorId m.toUpdate with ⟨err | ⟨_, _ | v, _⟩, e⟩ <;> rfl

/-- What the engine said to a handler is found under its number. -/
theorem outcome_of_submit (e : RoundEngine σ) (path : String) (t : Tree) (before later : List Act)
    (now : Nat) (m : UpdateMessage) :
    ((start e path t).run (before ++ .submit now m :: later)).outcomes[before.countP Act.isSubmit]? =
      some ((e.after (before.filterMap Act.call?)).submit now m.collaboratorId m.toUpdate).1 := by
  obtain ⟨new, hnew, hlength⟩ := (start e path t).outcomes_run before
  obtain ⟨more, hmore, -⟩ := (((start e path t).run before).take (.submit now m)).outcomes_run later
  have hengine := (start e path t).engine_run before
  rw [run_append]
  change ((((start e path t).run before).take (.submit now m)).run later).outcomes[_]? = _
  rw [hmore, outcomes_submit, hnew, hengine, ← hlength]
  simp [start]

end

theorem getElem?_append_of_some {α : Type} {l : List α} {n : Nat} {x : α} (h : l[n]? = some x)
    (l' : List α) : (l ++ l')[n]? = some x := by
  obtain ⟨hn, -⟩ := List.getElem?_eq_some_iff.1 h
  rw [List.getElem?_append_left hn, h]

/-- Every handler has answered or waits for its model, and not both. -/
structure Answering (s : Publishing σ) : Prop where
  handed : ∀ k ∈ s.handed, ∀ n ack, k.reply = some (n, ack) →
    ∃ o, s.outcomes[n]? = some (.ok o) ∧ o.closed = some k.view ∧
      ack = FederationService.submitAck o
  answered : ∀ n a, (n, a) ∈ s.answers → ∃ r, s.outcomes[n]? = some r ∧ a = answerTo r
  once : (s.answers.map (·.1) ++ s.inFlight.filterMap Ticket.caller?).Perm
    (List.range s.outcomes.length)

namespace Answering

theorem start (e : RoundEngine σ) (path : String) (t : Tree) :
    (Publishing.start e path t).Answering := ⟨nofun, nofun, .refl _⟩

/-- Models change places, and nothing else happens. -/
theorem of_perm (h : s.Answering) (hin : s'.inFlight.Perm s.inFlight)
    (hhanded : s'.handed = s.handed) (houtcomes : s'.outcomes = s.outcomes)
    (hanswers : s'.answers = s.answers) : s'.Answering where
  handed := by rw [hhanded, houtcomes]; exact h.handed
  answered := by rw [hanswers, houtcomes]; exact h.answered
  once := by
    rw [hanswers, houtcomes]
    exact ((hin.filterMap _).append_left _).trans h.once

/-- A handler answers at once. -/
theorem reply (h : s.Answering) (r : Except FederationError SubmitOutcome) (e : RoundEngine σ) :
    ({ s with
      engine := e
      outcomes := s.outcomes ++ [r]
      answers := s.answers ++ [(s.outcomes.length, answerTo r)] } : Publishing σ).Answering where
  handed k hk n ack hr := by
    obtain ⟨o, ho, hrest⟩ := h.handed k hk n ack hr
    exact ⟨o, getElem?_append_of_some ho _, hrest⟩
  answered n a ha := by
    rcases List.mem_append.1 ha with ha | ha
    · obtain ⟨r', hr', hrest⟩ := h.answered n a ha
      exact ⟨r', getElem?_append_of_some hr' _, hrest⟩
    · cases List.mem_singleton.1 ha
      exact ⟨r, List.getElem?_concat_length, rfl⟩
  once := by
    rw [List.map_append, List.append_assoc, List.length_append, List.length_singleton,
      List.range_succ]
    refine (List.perm_append_comm.append_left _).trans ?_
    rw [← List.append_assoc]
    exact h.once.append_right _

/-- A handler goes to the desk with a model. -/
theorem bring (h : s.Answering) {o : SubmitOutcome} {v : ModelView} (hv : o.closed = some v)
    (e : RoundEngine σ) :
    ({ s with engine := e, outcomes := s.outcomes ++ [Except.ok o] }.bring
      ⟨v, some (s.outcomes.length, FederationService.submitAck o)⟩).Answering where
  handed k hk n ack hr := by
    rcases List.mem_append.1 hk with hk | hk
    · obtain ⟨o', ho', hrest⟩ := h.handed k hk n ack hr
      exact ⟨o', getElem?_append_of_some ho' _, hrest⟩
    · cases List.mem_singleton.1 hk
      cases hr
      exact ⟨o, List.getElem?_concat_length, hv, rfl⟩
  answered n a ha := by
    obtain ⟨r, hr, hrest⟩ := h.answered n a ha
    exact ⟨r, getElem?_append_of_some hr _, hrest⟩
  once := by
    rw [inFlight_bring, List.filterMap_append, ← List.append_assoc]
    simp only [Publishing.bring, List.length_append, List.length_singleton, List.range_succ]
    exact h.once.append_right _

/-- The watchdog goes to the desk with a model. -/
theorem bring_unasked (h : s.Answering) (v : ModelView) (e : RoundEngine σ) :
    ({ s with engine := e }.bring ⟨v, none⟩).Answering where
  handed k hk n ack hr := by
    rcases List.mem_append.1 hk with hk | hk
    · exact h.handed k hk n ack hr
    · cases List.mem_singleton.1 hk
      cases hr
  answered := h.answered
  once := by
    have hnone : [(⟨v, none⟩ : Ticket)].filterMap Ticket.caller? = [] := rfl
    rw [inFlight_bring, List.filterMap_append, hnone, List.append_nil]
    exact h.once

/-- The call that has the lock gives it back. -/
theorem finish (h : s.Answering) {tenure : Tenure} (hh : s.desk.tenure = some tenure)
    (htenure : tenure.ticket ∈ s.handed) (p : Publisher) : (s.finish tenure p).Answering where
  handed := h.handed
  answered n a ha := by
    rcases List.mem_append.1 ha with ha | ha
    · exact h.answered n a ha
    · obtain ⟨⟨n, ack⟩, hreply, hpair⟩ := Option.map_eq_some_iff.1 (Option.mem_toList.1 ha)
      cases hpair
      obtain ⟨o, ho, -, rfl⟩ := h.handed _ htenure n ack hreply
      exact ⟨.ok o, ho, rfl⟩
  once := by
    have honce := h.once
    rw [inFlight_of_tenure hh p, List.filterMap_cons] at honce
    refine Eq.subst (motive := fun l => List.Perm l _) ?_ honce
    cases hreply : tenure.ticket.reply with
    | none => simp [Publishing.finish, Ticket.caller?, Ticket.answer, hreply]
    | some r => simp [Publishing.finish, Ticket.caller?, Ticket.answer, hreply]

theorem takes [AggregationStrategy σ] (h : s.Answering) (hh : s.Handing) (ht : s.Takes a s') :
    s'.Answering := by
  cases ht with
  | idle | looked | called | elsewhere => exact h.of_perm (.refl _) rfl rfl rfl
  | refused => exact h.reply (.error _) _
  | held => exact h.reply (.ok _) _
  | closed _ hv => exact h.bring hv _
  | overdue => exact h.bring_unasked _ _
  | acquired hfree hk => exact h.of_perm (inFlight_acquired hfree hk) rfl rfl rfl
  | asked htenure => exact h.of_perm (.of_eq (inFlight_asked htenure _ _ _)) rfl rfl rfl
  | released htenure =>
    exact h.finish htenure (hh.inFlight _ (by simp [inFlight, htenure])) _

/-- A handler answers with what the engine said to it. -/
theorem answersTo_eq {n : Nat} (h : s.Answering) {r : Except FederationError SubmitOutcome}
    (hr : s.outcomes[n]? = some r) :
    s.answersTo n = List.replicate ((s.answers.map (·.1)).count n) (answerTo r) := by
  have hlength : (s.answersTo n).length = (s.answers.map (·.1)).count n := by
    rw [List.count, List.countP_map, List.countP_eq_length_filter]
    simp [answersTo, Function.comp_def, beq_eq_decide]
  rw [← hlength]
  refine List.eq_replicate_of_mem fun a ha => ?_
  obtain ⟨⟨n', a'⟩, hfiltered, rfl⟩ := List.mem_map.1 ha
  obtain ⟨hmem, hn⟩ := List.mem_filter.1 hfiltered
  obtain rfl : n' = n := by simpa using hn
  obtain ⟨r', hr', ha'⟩ := h.answered n' a' hmem
  rw [ha', Option.some.inj (hr'.symm.trans hr)]

/-- It does so once, and has done so when it does not wait for its model. -/
theorem count_add_count {n : Nat} (h : s.Answering) (hn : n < s.outcomes.length) :
    (s.answers.map (·.1)).count n + (s.inFlight.filterMap Ticket.caller?).count n = 1 := by
  rw [← List.count_append, h.once.count_eq]
  exact List.count_eq_one_of_mem List.nodup_range (List.mem_range.2 hn)

end Answering

/-! ## The newest model -/

/-- The newest of the models that were brought to the desk is the one the engine has.  `first` is
the version the engine began with. -/
structure Current (first : Nat) (s : Publishing σ) : Prop where
  version : s.engine.state.version = first + s.handed.length
  below : ∀ k ∈ s.handed, k.view.version ≤ s.engine.state.version
  same : ∀ k ∈ s.handed, k.view.version = s.engine.state.version → k.view = s.engine.state.view
  newest : s.handed ≠ [] → ∃ k ∈ s.handed, k.view = s.engine.state.view

namespace Current

variable {first : Nat}

theorem start (e : RoundEngine σ) (path : String) (t : Tree) :
    (Publishing.start e path t).Current e.state.version :=
  ⟨rfl, nofun, nofun, fun h => absurd rfl h⟩

theorem of_eq (h : s.Current first) (hview : s'.engine.state.view = s.engine.state.view)
    (hhanded : s'.handed = s.handed) : s'.Current first := by
  have hversion : s'.engine.state.version = s.engine.state.version :=
    congrArg ModelView.version hview
  exact ⟨by rw [hversion, hhanded]; exact h.version, by rw [hversion, hhanded]; exact h.below,
    by rw [hversion, hhanded, hview]; exact h.same, by rw [hhanded, hview]; exact h.newest⟩

/-- As long as the counter can count the models, a new one is newer than the others. -/
theorem bring (h : s.Current first) {k : Ticket} (hk : k.view = s'.engine.state.view)
    (hversion : s'.engine.state.version = bump s.engine.state.version)
    (hhanded : s'.handed = s.handed ++ [k]) (hcount : first + s'.handed.length < counterLimit) :
    s'.Current first := by
  rw [hhanded, List.length_append, List.length_singleton] at hcount
  have hnext : s'.engine.state.version = s.engine.state.version + 1 := by
    rw [hversion, bump, Nat.mod_eq_of_lt (by rw [h.version]; omega)]
  have hkversion : k.view.version = s'.engine.state.version := congrArg ModelView.version hk
  refine ⟨?_, fun k' hk' => ?_, fun k' hk' hsame => ?_, fun _ => ⟨k, by simp [hhanded], hk⟩⟩
  · rw [hnext, h.version, hhanded, List.length_append, List.length_singleton, Nat.add_assoc]
  all_goals
    rw [hhanded] at hk'
    rcases List.mem_append.1 hk' with hk' | hk'
  · exact (h.below k' hk').trans (hnext ▸ Nat.le_succ _)
  · rw [List.mem_singleton.1 hk']
    exact hkversion.le
  · have := h.below k' hk'
    omega
  · rw [List.mem_singleton.1 hk']
    exact hk

theorem takes [AggregationStrategy σ] (h : s.Current first) (ht : s.Takes a s') (hpast : s'.bypassed = [])
    (hcount : first + s'.handed.length < counterLimit) : s'.Current first := by
  cases ht with
  | idle | acquired | asked | released | elsewhere => exact h.of_eq rfl rfl
  | refused hp => exact h.of_eq (RoundEngine.view_of_open hp rfl) rfl
  | held hp hnone => exact h.of_eq (RoundEngine.view_of_open hp hnone) rfl
  | looked hp hnone => exact h.of_eq (RoundEngine.view_of_open hp hnone) rfl
  | called hp =>
    have hnone := Option.toList_eq_nil_iff.1 (List.append_eq_nil_iff.1 hpast).2
    exact h.of_eq (RoundEngine.view_of_open hp hnone) rfl
  | closed hp hsome =>
    obtain ⟨hview, hversion⟩ := RoundEngine.view_of_closed hp hsome
    exact h.bring hview hversion rfl hcount
  | overdue hp =>
    obtain ⟨hview, hversion⟩ := RoundEngine.view_of_closed hp rfl
    exact h.bring hview hversion rfl hcount

end Current

end Publishing

end Federation
