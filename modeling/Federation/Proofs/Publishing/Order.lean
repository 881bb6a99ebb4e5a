/-
  The published model never goes back.

  * `Publishing.Orderly`: what holds along every run, of the file, the models and the answers;
  * `Orderly.newest`: when the last model that was written is the engine's;
  * `published_in_order`: what all of this says, in whatever order the models come to the lock.
-/
import Federation.Proofs.Publishing.Ledger

namespace Federation

open Disk (Tree OsError)
open Wire

namespace Publishing

variable {σ : Type} {s s' : Publishing σ} {a : Act}

/-! ## What is published -/

/-- What holds of a service along every run; `initial` is the file and `first` the version it began
with. -/
structure Orderly (initial : Except OsError (List UInt8)) (first : Nat) (s : Publishing σ) :
    Prop where
  sound : s.desk.Sound initial
  handing : s.Handing
  answering : s.Answering
  current : s.bypassed = [] → first + s.handed.length < counterLimit → s.Current first

section
variable [AggregationStrategy σ]

theorem Takes.grows (ht : s.Takes a s') : s.bypassed <+: s'.bypassed ∧ s.handed <+: s'.handed := by
  cases ht with
  | closed | overdue => exact ⟨List.prefix_rfl, List.prefix_append ..⟩
  | called => exact ⟨List.prefix_append .., List.prefix_rfl⟩
  | idle | refused | held | looked | acquired | asked | released | elsewhere =>
    exact ⟨List.prefix_rfl, List.prefix_rfl⟩

theorem Orderly.run (e : RoundEngine σ) (path : String) (t : Tree) (acts : List Act) :
    ((start e path t).run acts).Orderly (t.read path) e.state.version := by
  refine run_induction ?_ (fun s a h => ?_) acts
  · exact ⟨.idle path t, .start e path t, .start e path t, fun _ _ => .start e path t⟩
  · have ht := s.takes a
    obtain ⟨hpast', hhanded'⟩ := ht.grows
    refine ⟨ht.sound h.sound, h.handing.takes h.sound ht, h.answering.takes h.handing ht,
      fun hpast hcount => ?_⟩
    have hlength := hhanded'.length_le
    exact (h.current (List.prefix_nil.1 (hpast ▸ hpast')) (by omega)).takes ht hpast hcount

theorem Takes.path (ht : s.Takes a s') : s'.desk.path = s.desk.path := by
  cases ht <;> rfl

theorem path_run (s : Publishing σ) (acts : List Act) : (s.run acts).desk.path = s.desk.path :=
  run_induction (P := fun s' => s'.desk.path = s.desk.path) rfl
    (fun s' a h => (s'.takes a).path.trans h) acts

end

variable {initial : Except OsError (List UInt8)} {first : Nat}

/-- What is known when nobody has the lock. -/
theorem Orderly.free (h : s.Orderly initial first) (hfree : s.isFree = true) :
    Rising s.desk.written s.desk.publisher.writtenVersion ∧
      (s.desk.Harmless → s.desk.file = Desk.content initial s.desk.written) := by
  have hstage := h.sound.stage
  rw [Option.isNone_iff_eq_none.1 hfree] at hstage
  cases hstage with
  | free hr hfile => exact ⟨hr, hfile⟩

/-- When no write has failed and no round was closed past the service, the last model that was
written is the engine's. -/
theorem Orderly.newest (h : s.Orderly initial first) (hsettled : s.isSettled = true)
    (hmishaps : s.desk.mishaps = []) (hpast : s.bypassed = []) (hhanded : s.handed ≠ [])
    (hcount : first + s.handed.length < counterLimit) :
    s.desk.publisher.writtenVersion = s.engine.state.version ∧
      s.desk.file = .ok s.engine.state.model := by
  obtain ⟨hfree, hwaiting⟩ := Bool.and_eq_true_iff.1 hsettled
  obtain ⟨hrising, hfile⟩ := h.free hfree
  have hcurrent := h.current hpast hcount
  have hempty : s.inFlight = [] := by
    simp [inFlight, Option.isNone_iff_eq_none.1 hfree, List.isEmpty_iff.1 hwaiting]
  -- the engine's model was brought to the desk, and so the file has one that is not older
  obtain ⟨k, hk, hview⟩ := hcurrent.newest hhanded
  have hle : s.engine.state.version ≤ s.desk.publisher.writtenVersion := by
    rcases h.handing.handed hmishaps k hk with hin | hle
    · rw [hempty] at hin
      cases hin
    · rw [hview] at hle
      exact hle
  have hpositive : 0 < s.engine.state.version := by
    rw [hcurrent.version]
    have := List.length_pos_iff.2 hhanded
    omega
  cases hlast : s.desk.written.getLast? with
  | none =>
    have hzero : 0 = s.desk.publisher.writtenVersion := by simpa [hlast] using hrising.last
    omega
  | some last =>
    have hversion : last.view.version = s.desk.publisher.writtenVersion := by
      simpa [hlast] using hrising.last
    have hmem : last ∈ s.handed := h.handing.written last (List.mem_of_getLast? hlast)
    have hsame : last.view.version = s.engine.state.version :=
      le_antisymm (hcurrent.below last hmem) (hversion ▸ hle)
    refine ⟨hversion.symm.trans hsame, ?_⟩
    rw [hfile (by simp [Desk.Harmless, hmishaps]), Desk.content, hlast]
    exact congrArg (fun v => Except.ok v.model) (hcurrent.same last hmem hsame)

/-- A handler has answered at most once, and when all calls are complete it has. -/
theorem Orderly.answersTo (h : s.Orderly initial first) {n : Nat}
    {r : Except FederationError SubmitOutcome} (hr : s.outcomes[n]? = some r) :
    (s.answersTo n = [] ∨ s.answersTo n = [answerTo r]) ∧
      (s.isSettled = true → s.answersTo n = [answerTo r]) := by
  obtain ⟨hn, -⟩ := List.getElem?_eq_some_iff.1 hr
  have hcount := h.answering.count_add_count hn
  have heq := h.answering.answersTo_eq hr
  generalize (s.answers.map (·.1)).count n = c at hcount heq
  refine ⟨?_, fun hsettled => ?_⟩
  · obtain rfl | rfl : c = 0 ∨ c = 1 := by omega
    · exact Or.inl heq
    · exact Or.inr heq
  · obtain ⟨hfree, hwaiting⟩ := Bool.and_eq_true_iff.1 hsettled
    have hempty : s.inFlight = [] := by
      simp [inFlight, Option.isNone_iff_eq_none.1 hfree, List.isEmpty_iff.1 hwaiting]
    obtain rfl : c = 1 := by simpa [hempty] using hcount
    exact heq

/-- A handler whose call failed has no model on its way, and has published none. -/
theorem Orderly.caller_ne (h : s.Orderly initial first) {n : Nat} {err : FederationError}
    (hr : s.outcomes[n]? = some (.error err)) {k : Ticket} (hk : k ∈ s.handed ++ s.desk.written) :
    k.caller? ≠ some n := by
  intro hcaller
  have hhanded : k ∈ s.handed := (List.mem_append.1 hk).elim id (h.handing.written k)
  obtain ⟨⟨m, ack⟩, hreply, rfl⟩ := Option.map_eq_some_iff.1 hcaller
  obtain ⟨o, ho, -⟩ := h.answering.handed k hhanded m ack hreply
  cases ho.symm.trans hr

end Publishing

open Publishing in
/-- **The published model never goes back.**  Handlers of updates and the watchdog run on a service
with an output, in any order and met by any failures.

* The versions that are written to the file rise.
* As long as failed writes leave the file as it was: when nobody has the lock, and so when all calls
  are complete, the service knows the version of the model in the file, which is the newest of those
  that were written; without any, it knows of none and the file is the one it began with.
* When all calls are complete, no write has failed, and rounds were closed through the service
  alone, at least one and not more than the version can count, the file has the engine's model.
* The rounds are what the calls of the engine make of them, whatever becomes of the file.
* A handler answers what the engine said to it, once.  It has by the time all calls are complete, and
  one whose call failed publishes nothing. -/
theorem published_in_order {σ : Type} [AggregationStrategy σ] (e : RoundEngine σ) (path : String)
    (t : Tree) (acts : List Act) :
    let s := (Publishing.start e path t).run acts
    let written := s.desk.written.map (·.view)
    let version := s.desk.publisher.writtenVersion
    let file := s.desk.disk.read path
    (written.map (·.version)).Pairwise (· < ·) ∧
    (s.desk.Harmless → s.isFree = true →
      (written = [] ∧ version = 0 ∧ file = t.read path) ∨
      ∃ v ∈ written, (∀ v' ∈ written, v'.version ≤ v.version) ∧ version = v.version ∧
        file = .ok v.model) ∧
    (s.isSettled = true → s.desk.mishaps = [] → s.bypassed = [] → s.handed ≠ [] →
      e.state.version + s.handed.length < counterLimit →
      version = s.engine.state.version ∧ file = .ok s.engine.state.model) ∧
    s.engine = e.after (acts.filterMap Act.call?) ∧
    ∀ before now m later, acts = before ++ .submit now m :: later →
      let n := before.countP Act.isSubmit
      let said := ((e.after (before.filterMap Act.call?)).submit now m.collaboratorId m.toUpdate).1
      (s.answersTo n = [] ∨ s.answersTo n = [answerTo said]) ∧
      (s.isSettled = true → s.answersTo n = [answerTo said]) ∧
      ((∃ err, said = .error err) → ∀ k ∈ s.handed ++ s.desk.written, k.caller? ≠ some n) := by
  intro s written version file
  have h : s.Orderly (t.read path) e.state.version := .run e path t acts
  have hfile : file = s.desk.file := by
    have hpath : s.desk.path = path := path_run _ acts
    rw [Desk.file, hpath]
  refine ⟨?_, fun hharmless hfree => ?_, ?_, engine_run _ acts, ?_⟩
  · rw [List.map_map]
    exact h.sound.increasing
  · obtain ⟨hrising, hcontent⟩ := h.free hfree
    have hcontent := hcontent hharmless
    have hlast := hrising.last
    cases hl : s.desk.written.getLast? with
    | none =>
      rw [hl] at hlast
      rw [Desk.content, hl] at hcontent
      exact Or.inl ⟨by simp [written, List.getLast?_eq_none_iff.1 hl], hlast.symm,
        hfile.trans hcontent⟩
    | some k =>
      rw [hl] at hlast
      rw [Desk.content, hl] at hcontent
      refine Or.inr ⟨k.view, List.mem_map_of_mem (List.mem_of_getLast? hl), ?_, hlast.symm,
        hfile.trans hcontent⟩
      intro v hv
      obtain ⟨k', hk', rfl⟩ := List.mem_map.1 hv
      exact (hrising.below k' hk').trans hlast.ge
  · intro hsettled hmishaps hpast hhanded hcount
    rw [hfile]
    exact h.newest hsettled hmishaps hpast hhanded hcount
  · rintro before now m later rfl n said
    have hsaid : s.outcomes[n]? = some said := outcome_of_submit e path t before later now m
    obtain ⟨honce, hsettled⟩ := h.answersTo hsaid
    refine ⟨honce, hsettled, ?_⟩
    rintro ⟨err, herr⟩ k hk
    exact h.caller_ne (herr ▸ hsaid) hk

open Publishing in
/-- Two handlers close a round each, and come to the lock the other way round.  The model of a third
one cannot be written, and the update of a fourth one cannot be used. -/
theorem published_of_crossing :
    let e := RoundEngine.create 0 ⟨.async none, ⟨false, true⟩, []⟩ [0, 0, 0, 0] Strategy.mean
    let usable : UpdateMessage := ⟨"a", [0, 0, 128, 63], 1, 1⟩
    let useless : UpdateMessage := ⟨"b", [0], 1, 1⟩
    let crossing : List Act :=
      [.submit 1 usable, .submit 2 ⟨"b", [0, 0, 0, 64], 1, 1⟩,
        .acquire 1, .request none, .request none, .release, .acquire 0, .release]
    let failing : List Act :=
      [.submit 3 usable, .submit 4 useless, .acquire 0, .request (some ⟨.noSpace, some 1⟩), .release]
    let s := (Publishing.start e "model.bin" .empty).run crossing
    let s' := (Publishing.start e "model.bin" .empty).run (crossing ++ failing)
    s.isSettled = true ∧ s.handed.map (·.view.version) = [2, 3] ∧
      s.desk.written.map (·.view.version) = [3] ∧
      s.desk.disk.read "model.bin" = .ok s.engine.state.model ∧
      s'.isSettled = true ∧ s'.desk.Harmless ∧ s'.desk.mishaps.length = 1 ∧
      s'.engine.state.version = 4 ∧ s'.desk.publisher.writtenVersion = 3 ∧
      s'.desk.disk.read "model.bin" = .ok [0, 0, 0, 64] ∧
      s'.answersTo 2 = [.ok ⟨true, 4, true, 0⟩] ∧
      ∀ k ∈ s'.handed ++ s'.desk.written, k.caller? ≠ some 3 := by
  intro e usable useless crossing failing s s'
  have hsettled : s.isSettled = true := by decide +kernel
  have hhanded : s.handed.map (·.view.version) = [2, 3] := by decide +kernel
  have hwritten : s.desk.written.map (·.view.version) = [3] := by decide +kernel
  have hfine : s.desk.mishaps = [] ∧ s.bypassed = [] ∧ s.handed ≠ [] ∧
      e.state.version + s.handed.length < counterLimit := by decide +kernel
  have hsettled' : s'.isSettled = true := by decide +kernel
  have hharmless' : s'.desk.Harmless := by decide +kernel
  have hmishaps' : s'.desk.mishaps.length = 1 ∧ s'.engine.state.version = 4 := by decide +kernel
  have hwritten' : s'.desk.written.map (·.view) = [⟨[0, 0, 0, 64], 3, 3⟩] := by decide +kernel
  have hthird : crossing.countP Act.isSubmit = 2 ∧
      answerTo ((e.after (crossing.filterMap Act.call?)).submit 3 usable.collaboratorId
        usable.toUpdate).1 = .ok ⟨true, 4, true, 0⟩ := by decide +kernel
  have hfourth : (crossing ++ failing.take 1).countP Act.isSubmit = 3 ∧
      ((e.after ((crossing ++ failing.take 1).filterMap Act.call?)).submit 4
        useless.collaboratorId useless.toUpdate).1 = .error (.aggregation (.malformedBlob 1)) := by
    decide +kernel
  have hkey := published_in_order e "model.bin" .empty crossing
  have hkey' := published_in_order e "model.bin" .empty (crossing ++ failing)
  -- what is known of the two runs is all that is needed from here on
  have hs : (Publishing.start e "model.bin" .empty).run crossing = s := rfl
  have hs' : (Publishing.start e "model.bin" .empty).run (crossing ++ failing) = s' := rfl
  rw [hs] at hkey
  rw [hs'] at hkey'
  clear_value s s'
  obtain ⟨-, -, hnewest, -, -⟩ := hkey
  obtain ⟨-, hfile', -, -, hrpc'⟩ := hkey'
  obtain ⟨-, hfile⟩ := hnewest hsettled hfine.1 hfine.2.1 hfine.2.2.1 hfine.2.2.2
  have hanswer := (hrpc' crossing 3 usable failing.tail rfl).2.1 hsettled'
  have hnothing := (hrpc' (crossing ++ failing.take 1) 4 useless (failing.drop 2) rfl).2.2
    ⟨_, hfourth.2⟩
  rw [hthird.1, hthird.2] at hanswer
  rw [hfourth.1] at hnothing
  refine ⟨hsettled, hhanded, hwritten, hfile, hsettled', hharmless', hmishaps'.1, hmishaps'.2, ?_⟩
  rcases hfile' hharmless' (Bool.and_eq_true_iff.1 hsettled').1 with
    ⟨hnone, -⟩ | ⟨v, hv, -, hversion, hmodel⟩
  · exact absurd (hwritten'.symm.trans hnone) (by simp)
  · rw [hwritten'] at hv
    cases List.mem_singleton.1 hv
    exact ⟨hversion, hmodel, hanswer, hnothing⟩

end Federation
