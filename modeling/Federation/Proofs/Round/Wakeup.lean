/-
  Waiting for a round without missing it.

  A long poll reads the round, subscribes, and waits, each on its own, and anything may be called in
  between.  While it waits it sleeps: it looks again only when something was announced since it
  looked last, or when its time is up.

  * `Transition.announces`: every call leaves the open round announced, whatever comes of it;
  * `Vigil`, `Vigil.run`: an engine under a clock with somebody who waits at it;
  * `Vigil.Acts`: what a step can come to;
  * `Vigil.Spent`: a wait that was spent to its end with the round below the one waited for;
  * `Vigil.Knows`, `Vigil.Holds.step`: what is known in each phase, and that steps keep it;
  * `Vigil.Ready`, `Vigil.finished_of_turns`: once there is something to go on for, turns are all
    that it takes;
  * `no_wakeup_lost`: all of it, for every poll and every course of events.
-/
import Federation.Proofs.Round.Replay

namespace Federation

/-! ## Announcements -/

namespace RoundEngine

variable {σ : Type} [AggregationStrategy σ]

/-- A call leaves the open round announced. -/
theorem Transition.announces {e e' : RoundEngine σ} {now : Nat} {call : RoundCall}
    {r : Except FederationError RoundAnswer} (ht : e.Transition now call r e')
    (h : e.state.announced = e.state.round) : e'.state.announced = e'.state.round := by
  have henrolled : ∀ id, (e.enrolled now id).state.announced = e.state.round := fun id => by
    rw [← h]
    unfold enrolled
    split <;> rfl
  cases ht with
  | refused | passed | joined | shown | jammed => exact h
  | stale | spoiled => exact (henrolled _).trans (enrolled_round ..).symm
  | held => exact (henrolled _).trans (enrolled_round ..).symm
  | completed | closed => rfl

theorem announced_after {e : RoundEngine σ} (h : e.state.announced = e.state.round)
    (calls : List (Nat × RoundCall)) :
    (e.after calls).state.announced = (e.after calls).state.round :=
  after_induction (P := fun e' => e'.state.announced = e'.state.round) h
    (fun he ht => ht.announces he) calls

end RoundEngine

/-! ## Vigils -/

/-- An engine under a clock, and somebody who waits at it. -/
structure Vigil (σ : Type) where
  engine : RoundEngine σ
  clock : Nat
  phase : LongPollPhase
  /-- The announcement looked at last, if there was a look since the subscription. -/
  seen : Option Nat

inductive VigilStep where
  /-- A call of anybody else. -/
  | call (now : Nat) (call : RoundCall)
  /-- Time passes. -/
  | pass (span : Nat)
  /-- The one who waits has a turn. -/
  | turn (now : Nat)

namespace VigilStep

def isTurn : VigilStep → Bool
  | turn _ => true
  | _ => false

end VigilStep

namespace Vigil

variable {σ : Type}

def start (e : RoundEngine σ) (clock : Nat) : Vigil σ := ⟨e, clock, .reading, none⟩

/-- Does the one who waits sleep?  Nothing was announced since the last look, and time is left. -/
def asleep (v : Vigil σ) : Bool :=
  match v.phase with
  | .waiting deadline =>
    decide (v.seen = some v.engine.state.announced) && decide (v.clock < deadline)
  | _ => false

variable [AggregationStrategy σ]

def act (poll : LongPoll) (v : Vigil σ) : VigilStep → Vigil σ
  | .call now call => { v with engine := (v.engine.perform now call).2 }
  | .pass span => { v with clock := v.clock + span }
  | .turn now =>
    if v.asleep then v
    else
      let (phase, e) := poll.step v.clock now v.engine v.phase
      let seen :=
        match v.phase with
        | .waiting _ => some v.engine.state.announced
        | _ => none
      ⟨e, v.clock, phase, seen⟩

def run (poll : LongPoll) (v : Vigil σ) (steps : List VigilStep) : Vigil σ :=
  steps.foldl (act poll) v

/-! ## What a step comes to -/

/-- The phase after the first reading. -/
def afterReading (poll : LongPoll) : Except FederationError ModelView → LongPollPhase
  | .error error => .finished (.error error)
  | .ok view => if poll.satisfiedBy view then .finished (.ok view) else .subscribing

/-- Everything a step can come to. -/
inductive Acts (poll : LongPoll) (v : Vigil σ) : VigilStep → Vigil σ → Prop
  | called {now call r e} : v.engine.Transition now call r e →
      Acts poll v (.call now call) { v with engine := e }
  | passed {span} : Acts poll v (.pass span) { v with clock := v.clock + span }
  | slept {now} : v.asleep = true → Acts poll v (.turn now) v
  | read {now r e} : v.phase = .reading → v.engine.latest now poll.id = (r, e) →
      Acts poll v (.turn now) ⟨e, v.clock, afterReading poll r, none⟩
  | subscribed {now} : v.phase = .subscribing →
      Acts poll v (.turn now)
        ⟨v.engine, v.clock, .waiting (v.clock + min poll.timeout maxWait), none⟩
  | looked {now deadline} : v.phase = .waiting deadline →
      v.engine.state.announced < poll.minRound → v.clock < deadline →
      Acts poll v (.turn now)
        ⟨v.engine, v.clock, .waiting deadline, some v.engine.state.announced⟩
  | woke {now deadline} : v.phase = .waiting deadline →
      poll.minRound ≤ v.engine.state.announced ∨ deadline ≤ v.clock →
      Acts poll v (.turn now) ⟨v.engine, v.clock, .rereading, some v.engine.state.announced⟩
  | reread {now r e} : v.phase = .rereading → v.engine.latest now poll.id = (r, e) →
      Acts poll v (.turn now) ⟨e, v.clock, .finished r, none⟩
  | ended {now r} : v.phase = .finished r →
      Acts poll v (.turn now) ⟨v.engine, v.clock, .finished r, none⟩

theorem acts_act (poll : LongPoll) (v : Vigil σ) (s : VigilStep) :
    v.Acts poll s (v.act poll s) := by
  cases s with
  | call now call => exact .called (v.engine.transition_perform now call)
  | pass span => exact .passed
  | turn now =>
    simp only [act]
    split
    · next h => exact .slept h
    · next h =>
      cases hp : v.phase with
      | reading =>
        rcases hl : v.engine.latest now poll.id with ⟨r, e⟩
        have hread : v.Acts poll (.turn now) ⟨e, v.clock, afterReading poll r, none⟩ :=
          .read hp hl
        cases r with
        | error err => simpa [LongPoll.step, hl, afterReading] using hread
        | ok view => simpa [LongPoll.step, hl, afterReading] using hread
      | subscribing => exact .subscribed hp
      | waiting deadline =>
        simp only [LongPoll.step]
        split
        · next hw => exact .woke hp (by simpa using hw)
        · next hw =>
          simp only [Bool.or_eq_true, decide_eq_true_eq, not_or, Nat.not_le] at hw
          exact .looked hp hw.1 hw.2
      | rereading => exact .reread hp rfl
      | finished r => exact .ended hp

/-- A step keeps what every call keeps of the engine. -/
theorem Acts.keeps {poll : LongPoll} {v v' : Vigil σ} {s : VigilStep} (ha : v.Acts poll s v')
    {P : RoundEngine σ → Prop} (h : P v.engine)
    (hcall : ∀ {e now call r e'}, P e → RoundEngine.Transition e now call r e' → P e') :
    P v'.engine := by
  have read : ∀ {now r e}, v.engine.latest now poll.id = (r, e) → P e := by
    intro now r e hl
    have ht := v.engine.transition_perform now (.latest poll.id)
    simp only [RoundEngine.perform, RoundEngine.perform.wrap, hl] at ht
    exact hcall h ht
  cases ha with
  | called ht => exact hcall h ht
  | read _ hl | reread _ hl => exact read hl
  | passed | slept | subscribed | looked | woke | ended => exact h

section
variable (poll : LongPoll) (v : Vigil σ)

theorem run_append (steps more : List VigilStep) :
    v.run poll (steps ++ more) = (v.run poll steps).run poll more := List.foldl_append

theorem run_concat (steps : List VigilStep) (s : VigilStep) :
    v.run poll (steps ++ [s]) = (v.run poll steps).act poll s := by simp [run]

end

theorem run_induction {P : RoundEngine σ → Prop} {v : Vigil σ} (h : P v.engine)
    (hcall : ∀ {e now call r e'}, P e → RoundEngine.Transition e now call r e' → P e')
    (poll : LongPoll) (steps : List VigilStep) : P (v.run poll steps).engine := by
  induction steps using List.reverseRecOn with
  | nil => exact h
  | append_singleton steps s ih =>
    rw [run_concat]
    exact ((v.run poll steps).acts_act poll s).keeps ih hcall

/-! ## What is known in each phase -/

/-- The wait was spent to its end, and all the while the round was below the one waited for. -/
def Spent (poll : LongPoll) (first : Vigil σ) (steps : List VigilStep) : Prop :=
  ∃ asked waited, asked ++ waited <+: steps ∧
    (first.run poll asked).phase =
      .waiting ((first.run poll asked).clock + min poll.timeout maxWait) ∧
    (first.run poll asked).clock + min poll.timeout maxWait ≤
      (first.run poll (asked ++ waited)).clock ∧
    ∀ p, p <+: asked ++ waited → (first.run poll p).engine.state.round < poll.minRound

/-- The wait with this deadline began in the course of some steps. -/
def Began (poll : LongPoll) (first : Vigil σ) (steps : List VigilStep) (deadline : Nat) : Prop :=
  ∃ asked, asked <+: steps ∧ (first.run poll asked).phase = .waiting deadline ∧
    deadline = (first.run poll asked).clock + min poll.timeout maxWait

/-- What is known in each phase of a poll that began at `first`. -/
def Knows (poll : LongPoll) (first : Vigil σ) (steps : List VigilStep) (v : Vigil σ) : Prop :=
  match v.phase with
  | .reading => True
  | .subscribing => v.engine.isMember poll.id = true
  | .waiting deadline =>
    v.engine.isMember poll.id = true ∧ first.Began poll steps deadline ∧
      ∀ a, v.seen = some a → a < poll.minRound
  | .rereading =>
    v.engine.isMember poll.id = true ∧
      (poll.minRound ≤ v.engine.state.round ∨ first.Spent poll steps)
  | .finished (.ok view) =>
    poll.minRound ≤ view.round ∨ poll.timeout = 0 ∨ first.Spent poll steps
  | .finished (.error _) => first.engine.isMember poll.id = false

/-- What every step keeps. -/
structure Holds (initial : Blob) (poll : LongPoll) (first : Vigil (Recorded σ))
    (steps : List VigilStep) (v : Vigil (Recorded σ)) : Prop where
  counted : v.engine.Counted initial
  consistent : v.engine.Consistent
  announced : v.engine.state.announced = v.engine.state.round
  members : ∀ k, first.engine.isMember k = true → v.engine.isMember k = true
  knows : first.Knows poll steps v

theorem Spent.mono {poll : LongPoll} {first : Vigil σ} {steps steps' : List VigilStep}
    (h : first.Spent poll steps) (hs : steps <+: steps') : first.Spent poll steps' := by
  obtain ⟨asked, waited, hp, hrest⟩ := h
  exact ⟨asked, waited, hp.trans hs, hrest⟩

theorem Began.mono {poll : LongPoll} {first : Vigil σ} {steps steps' : List VigilStep}
    {deadline : Nat} (h : first.Began poll steps deadline) (hs : steps <+: steps') :
    first.Began poll steps' deadline := by
  obtain ⟨asked, hp, hrest⟩ := h
  exact ⟨asked, hp.trans hs, hrest⟩

/-- What is known stays known while others have their turns. -/
theorem Knows.later {poll : LongPoll} {first v v' : Vigil σ} {steps steps' : List VigilStep}
    (h : first.Knows poll steps v) (hphase : v'.phase = v.phase) (hseen : v'.seen = v.seen)
    (hmembers : ∀ k, v.engine.isMember k = true → v'.engine.isMember k = true)
    (hround : v.engine.state.round ≤ v'.engine.state.round) (hs : steps <+: steps') :
    first.Knows poll steps' v' := by
  unfold Knows at h ⊢
  rw [hphase]
  split at h
  · trivial
  · exact hmembers _ h
  · obtain ⟨hm, hbegan, hbelow⟩ := h
    exact ⟨hmembers _ hm, hbegan.mono hs, hseen ▸ hbelow⟩
  · obtain ⟨hm, hwoken⟩ := h
    exact ⟨hmembers _ hm, hwoken.imp (·.trans hround) (·.mono hs)⟩
  · exact h.imp_right (Or.imp_right (·.mono hs))
  · exact h

/-- A step keeps what is known, and adds to it. -/
theorem Knows.acts {poll : LongPoll} {first v v' : Vigil σ} {steps : List VigilStep}
    {s : VigilStep} (h : first.Knows poll steps v) (hc : v.engine.Consistent)
    (ha : v.Acts poll s v') (hannounced : v.engine.state.announced = v.engine.state.round)
    (hfirst : ∀ k, first.engine.isMember k = true → v.engine.isMember k = true)
    (hv : first.run poll steps = v) (hv' : first.run poll (steps ++ [s]) = v')
    (hround : v.engine.state.round ≤ v'.engine.state.round)
    (hrounds : ∀ p, p <+: steps →
      (first.run poll p).engine.state.round ≤ v.engine.state.round) :
    first.Knows poll (steps ++ [s]) v' := by
  have hs : steps <+: steps ++ [s] := List.prefix_append ..
  have reads : ∀ {now r e}, v.engine.latest now poll.id = (r, e) →
      (v.engine.isMember poll.id = true ∧ e.isMember poll.id = true ∧
        r = .ok v.engine.state.view) ∨
      (first.engine.isMember poll.id = false ∧ v.engine.isMember poll.id = false ∧
        ∃ err, r = .error err) := by
    intro now r e hl
    rcases hc.latest_cases now poll.id with ⟨hm, h⟩ | ⟨hm, err, h⟩ <;> rw [h] at hl <;> cases hl
    · exact Or.inl ⟨hm, by simpa using hm, rfl⟩
    · refine Or.inr ⟨?_, hm, err, rfl⟩
      by_contra hf
      rw [hfirst _ (Bool.eq_true_of_not_eq_false hf)] at hm
      cases hm
  cases ha with
  | called ht => exact h.later rfl rfl (fun k hk => ht.isMember hk) hround hs
  | passed | slept => exact h.later rfl rfl (fun k hk => hk) hround hs
  | read hp hl =>
    rcases reads hl with ⟨-, hm, rfl⟩ | ⟨hm, -, err, rfl⟩
    · by_cases hsat : poll.satisfiedBy v.engine.state.view = true
      · rw [Knows, afterReading, if_pos hsat]
        rw [LongPoll.satisfiedBy, Bool.or_eq_true, decide_eq_true_eq, decide_eq_true_eq] at hsat
        exact hsat.imp_right Or.inl
      · rw [Knows, afterReading, if_neg hsat]
        exact hm
    · exact hm
  | subscribed hp =>
    rw [Knows, hp] at h
    exact ⟨h, ⟨_, List.prefix_rfl, by rw [hv'], by rw [hv']⟩, nofun⟩
  | looked hp hbelow =>
    rw [Knows, hp] at h
    refine ⟨h.1, h.2.1.mono hs, fun a ha => ?_⟩
    cases ha
    exact hbelow
  | @woke _ deadline hp hup =>
    rw [Knows, hp] at h
    obtain ⟨hm, ⟨asked, ⟨waited, rfl⟩, hphase, rfl⟩, -⟩ := h
    refine ⟨hm, ?_⟩
    by_cases hreached : poll.minRound ≤ v.engine.state.round
    · exact Or.inl hreached
    · rw [hannounced] at hup
      refine Or.inr ⟨asked, waited, hs, hphase, ?_, fun p hp => ?_⟩
      · rw [hv]
        exact hup.resolve_left hreached
      · have := hrounds p hp
        omega
  | reread hp hl =>
    rw [Knows, hp] at h
    rcases reads hl with ⟨-, hm, rfl⟩ | ⟨-, hm, -⟩
    · exact h.2.imp_right fun hspent => Or.inr (hspent.mono hs)
    · rw [h.1] at hm
      cases hm
  | @ended _ r hp =>
    rw [Knows, hp] at h
    cases r with
    | error err => exact h
    | ok view => exact h.imp_right (Or.imp_right (·.mono hs))

theorem calls_prefix_run (poll : LongPoll) (first : Vigil (Recorded σ))
    {steps steps' : List VigilStep} (hs : steps <+: steps') :
    (first.run poll steps).engine.state.strategy.calls <+:
      (first.run poll steps').engine.state.strategy.calls := by
  obtain ⟨more, rfl⟩ := hs
  rw [run_append]
  exact run_induction
    (P := fun e : RoundEngine (Recorded σ) => _ <+: e.state.strategy.calls)
    List.prefix_rfl (fun he ht => he.trans ht.calls_prefix) poll more

/-- As long as the counters can count the rounds, no round comes after a later one. -/
theorem round_le {initial : Blob} {poll : LongPoll} {first : Vigil (Recorded σ)}
    {steps steps' : List VigilStep} (hs : steps <+: steps')
    (h : (first.run poll steps).engine.Counted initial)
    (h' : (first.run poll steps').engine.Counted initial)
    (hcloses : (first.run poll steps').engine.state.strategy.closes < counterLimit - 1) :
    (first.run poll steps).engine.state.round ≤ (first.run poll steps').engine.state.round := by
  have hle := Recorded.closes_le (calls_prefix_run poll first hs)
  have hr := (h.isNth (hle.trans_lt hcloses)).round
  have hr' := (h'.isNth hcloses).round
  simp only [RoundState.view] at hr hr'
  omega

variable {initial : Blob} {poll : LongPoll} {first : Vigil (Recorded σ)} {steps : List VigilStep}

/-- A step keeps what is known. -/
theorem Holds.step (h : Holds initial poll first steps (first.run poll steps)) (s : VigilStep)
    (hcounted : ∀ p, (first.run poll p).engine.Counted initial)
    (hcloses : (first.run poll (steps ++ [s])).engine.state.strategy.closes < counterLimit - 1) :
    Holds initial poll first (steps ++ [s]) (first.run poll (steps ++ [s])) := by
  have hs : steps <+: steps ++ [s] := List.prefix_append ..
  have hround := round_le hs h.counted (hcounted _) hcloses
  have hrounds : ∀ p, p <+: steps →
      (first.run poll p).engine.state.round ≤ (first.run poll steps).engine.state.round :=
    fun p hp => round_le hp (hcounted p) h.counted
      ((Recorded.closes_le (calls_prefix_run poll first hs)).trans_lt hcloses)
  have ha := (first.run poll steps).acts_act poll s
  rw [← run_concat] at ha
  exact ⟨hcounted _, ha.keeps h.consistent fun he ht => he.transition ht,
    ha.keeps (P := fun e => e.state.announced = e.state.round) h.announced
      fun he ht => ht.announces he,
    ha.keeps (P := fun e => ∀ k, first.engine.isMember k = true → e.isMember k = true) h.members
      fun he ht k hk => ht.isMember (he k hk),
    h.knows.acts h.consistent ha h.announced h.members rfl rfl hround hrounds⟩

theorem Holds.start {e : RoundEngine (Recorded σ)} (hcounted : e.Counted initial)
    (hconsistent : e.Consistent) (hannounced : e.state.announced = e.state.round) (clock : Nat) :
    Holds initial poll (Vigil.start e clock) [] (Vigil.start e clock) :=
  ⟨hcounted, hconsistent, hannounced, fun _ hk => hk, trivial⟩

theorem Holds.run (h : Holds initial poll first [] first) (steps : List VigilStep)
    (hcloses : (first.run poll steps).engine.state.strategy.closes < counterLimit - 1) :
    Holds initial poll first steps (first.run poll steps) := by
  induction steps using List.reverseRecOn with
  | nil => exact h
  | append_singleton steps s ih =>
    -- the record only grows, so it was short enough before
    have hle := Recorded.closes_le
      (calls_prefix_run poll first (List.prefix_append steps [s]))
    exact (ih (hle.trans_lt hcloses)).step s
      (run_induction h.counted (fun he ht => he.transition ht) poll) hcloses

/-- The last step of a run, and what holds before it. -/
theorem Holds.last (h : Holds initial poll first [] first) (steps : List VigilStep) (s : VigilStep)
    (hcloses : (first.run poll (steps ++ [s])).engine.state.strategy.closes < counterLimit - 1) :
    (first.run poll steps).engine.state.strategy.closes < counterLimit - 1 ∧
      Holds initial poll first steps (first.run poll steps) ∧
      (first.run poll steps).engine.state.round ≤
        (first.run poll (steps ++ [s])).engine.state.round ∧
      (first.run poll steps).Acts poll s (first.run poll (steps ++ [s])) := by
  have hs : steps <+: steps ++ [s] := List.prefix_append ..
  have hcloses' := (Recorded.closes_le (calls_prefix_run poll first hs)).trans_lt hcloses
  have hholds := h.run steps hcloses'
  refine ⟨hcloses', hholds, round_le hs hholds.counted (h.run _ hcloses).counted hcloses, ?_⟩
  rw [run_concat]
  exact (first.run poll steps).acts_act poll s

/-- Who sleeps has time left and no reason to go on. -/
theorem Holds.asleep {v : Vigil (Recorded σ)} (h : Holds initial poll first steps v)
    (hs : v.asleep = true) :
    v.engine.state.round < poll.minRound ∧ ∃ deadline, v.phase = .waiting deadline ∧
      v.clock < deadline := by
  have hk := h.knows
  unfold Vigil.asleep at hs
  split at hs
  · next deadline hp =>
    rw [Bool.and_eq_true, decide_eq_true_eq, decide_eq_true_eq] at hs
    rw [Knows, hp] at hk
    exact ⟨h.announced ▸ hk.2.2 _ hs.1, deadline, hp, hs.2⟩
  · cases hs

/-! ## Going on -/

/-- How many turns are left at most, once nothing holds them up. -/
def turnsLeft : LongPollPhase → Nat
  | .reading => 4
  | .subscribing => 3
  | .waiting _ => 2
  | .rereading => 1
  | .finished _ => 0

theorem turnsLeft_le (phase : LongPollPhase) : turnsLeft phase ≤ 4 := by
  cases phase <;> simp [turnsLeft]

theorem finished_of_turnsLeft {phase : LongPollPhase} (h : turnsLeft phase = 0) :
    ∃ r, phase = .finished r := by
  cases phase with
  | finished r => exact ⟨r, rfl⟩
  | _ => cases h

/-- The wait is over, or its time is up. -/
def TimeUp (v : Vigil σ) : Prop :=
  match v.phase with
  | .reading | .subscribing => False
  | .waiting deadline => deadline ≤ v.clock
  | .rereading | .finished _ => True

theorem TimeUp.turnsLeft_le {τ : Type} {v : Vigil τ} (h : v.TimeUp) : turnsLeft v.phase ≤ 2 := by
  obtain ⟨e, clock, phase, seen⟩ := v
  cases phase with
  | reading | subscribing => exact h.elim
  | waiting | rereading | finished => simp [turnsLeft]

/-- There is something to go on for. -/
def Ready (poll : LongPoll) (v : Vigil σ) : Prop :=
  poll.minRound ≤ v.engine.state.round ∨ v.TimeUp

/-- The round is there, and whoever is answered is shown it. -/
structure Reached (poll : LongPoll) (v : Vigil σ) : Prop where
  round : poll.minRound ≤ v.engine.state.round
  shown : ∀ view, v.phase = .finished (.ok view) → poll.minRound ≤ view.round

section
variable {v v' : Vigil σ} {s : VigilStep}

theorem TimeUp.acts (h : v.TimeUp) (ha : v.Acts poll s v') : v'.TimeUp := by
  unfold TimeUp at h ⊢
  cases ha with
  | called | slept => exact h
  | passed =>
    cases hp : v.phase with
    | waiting deadline =>
      simp only [hp] at h ⊢
      exact Nat.le_add_right_of_le h
    | _ =>
      simp only [hp] at h ⊢
  | read hp | subscribed hp => rw [hp] at h; exact h.elim
  | looked hp => rw [hp] at h; exact h
  | woke | reread | ended => trivial

/-- A turn gets on as long as there is something to go on for, and there stays something. -/
theorem Ready.acts (h : v.Ready poll) (ha : v.Acts poll s v')
    (hannounced : v.engine.state.announced = v.engine.state.round)
    (hasleep : v.asleep = true → v.engine.state.round < poll.minRound ∧
      ∃ deadline, v.phase = .waiting deadline ∧ v.clock < deadline)
    (hround : v.engine.state.round ≤ v'.engine.state.round) :
    v'.Ready poll ∧
      turnsLeft v'.phase ≤ turnsLeft v.phase - (if s.isTurn then 1 else 0) := by
  refine ⟨h.imp hround.trans' (·.acts ha), ?_⟩
  cases ha with
  | called | passed => exact le_rfl
  | slept hs =>
    -- nobody sleeps when there is something to go on for
    obtain ⟨hbelow, deadline, hp, hleft⟩ := hasleep hs
    rcases h with h | h
    · omega
    · rw [TimeUp, hp] at h
      omega
  | @read _ r _ hp =>
    rw [hp]
    cases r with
    | error err => exact Nat.zero_le _
    | ok view =>
      rw [afterReading]
      split
      · exact Nat.zero_le _
      · exact le_rfl
  | looked hp hbelow hleft =>
    rcases h with h | h
    · omega
    · rw [TimeUp, hp] at h
      omega
  | subscribed hp | woke hp | reread hp | ended hp => rw [hp]; exact le_rfl

theorem Reached.acts (h : v.Reached poll) (ha : v.Acts poll s v') (hc : v.engine.Consistent)
    (hround : v.engine.state.round ≤ v'.engine.state.round) : v'.Reached poll := by
  refine ⟨h.round.trans hround, ?_⟩
  have reads : ∀ {now r e view}, v.engine.latest now poll.id = (r, e) → r = .ok view →
      poll.minRound ≤ view.round := by
    rintro now r e view hl rfl
    rcases hc.latest_cases now poll.id with ⟨-, hok⟩ | ⟨-, err, herr⟩
    · rw [hok] at hl
      cases hl
      exact h.round
    · rw [herr] at hl
      cases hl
  cases ha with
  | called | passed | slept => exact h.shown
  | @read _ r _ _ hl =>
    intro view hview
    cases r with
    | error err => cases hview
    | ok shown =>
      rw [afterReading] at hview
      split at hview
      · cases hview
        exact reads hl rfl
      · cases hview
  | reread _ hl =>
    intro view hview
    cases hview
    exact reads hl rfl
  | ended hp => exact fun view hview => h.shown view (hp.trans hview)
  | subscribed | looked | woke => exact nofun

end

section
variable (hstart : Holds initial poll first [] first) (more : List VigilStep)
  (hcloses : (first.run poll (steps ++ more)).engine.state.strategy.closes < counterLimit - 1)
include hstart hcloses

/-- Every turn gets on, whatever is called between the turns. -/
theorem Ready.run (h : (first.run poll steps).Ready poll) :
    (first.run poll (steps ++ more)).Ready poll ∧
      turnsLeft (first.run poll (steps ++ more)).phase ≤
        turnsLeft (first.run poll steps).phase - more.countP VigilStep.isTurn := by
  induction more using List.reverseRecOn with
  | nil => simpa using h
  | append_singleton more s ih =>
    rw [← List.append_assoc] at hcloses ⊢
    obtain ⟨hcloses', hholds, hround, ha⟩ := hstart.last (steps ++ more) s hcloses
    obtain ⟨hready, hle⟩ := ih hcloses'
    have hturn := hready.acts ha hholds.announced hholds.asleep hround
    refine ⟨hturn.1, hturn.2.trans ?_⟩
    rw [List.countP_append, List.countP_singleton]
    omega

theorem Reached.run (h : (first.run poll steps).Reached poll) :
    (first.run poll (steps ++ more)).Reached poll := by
  induction more using List.reverseRecOn with
  | nil => simpa using h
  | append_singleton more s ih =>
    rw [← List.append_assoc] at hcloses ⊢
    obtain ⟨hcloses', hholds, hround, ha⟩ := hstart.last (steps ++ more) s hcloses
    exact (ih hcloses').acts ha hholds.consistent hround

/-- Once there is something to go on for, turns are all that it takes. -/
theorem finished_of_turns (h : (first.run poll steps).Ready poll)
    (hturns : turnsLeft (first.run poll steps).phase ≤ more.countP VigilStep.isTurn) :
    ∃ r, (first.run poll (steps ++ more)).phase = .finished r := by
  have hle := (Ready.run hstart more hcloses h).2
  exact finished_of_turnsLeft (by omega)

end

end Vigil

variable {σ : Type} [AggregationStrategy σ]

/-- **No wakeup is lost.**  Between any two calls the open round is the announced one.  Take any
poll at an engine that any calls have led to, and any course of events from its first reading on.
Whoever sleeps has the awaited round ahead; whoever is registered gets a model; and a model of an
earlier round than the awaited one is returned only to those who would not wait, or who waited to
the end with the round below.  If the awaited round is there at any moment before the poll has
ended, or its time is up, then turns are all that it takes to end it, whatever else is called. -/
theorem no_wakeup_lost (begun : Nat) (rules : RoundRules) (model : Blob) (strategy : σ)
    (calls : List (Nat × RoundCall)) (clock : Nat) (poll : LongPoll)
    (steps more : List VigilStep) :
    let first := Vigil.start ((RoundEngine.create begun rules model
      (Recorded.fresh strategy)).after calls) clock
    let v := first.run poll steps
    let w := v.run poll more
    v.engine.state.announced = v.engine.state.round ∧
    (w.engine.state.strategy.closes < counterLimit - 1 →
      (v.asleep = true → v.engine.state.round < poll.minRound) ∧
      (∀ err, v.phase = .finished (.error err) → first.engine.isMember poll.id = false) ∧
      (∀ view, v.phase = .finished (.ok view) →
        poll.minRound ≤ view.round ∨ poll.timeout = 0 ∨ first.Spent poll steps) ∧
      (poll.minRound ≤ v.engine.state.round → v.phase.result? = none →
        4 ≤ more.countP VigilStep.isTurn →
        ∃ r, w.phase = .finished r ∧ ∀ view, r = .ok view → poll.minRound ≤ view.round) ∧
      (v.TimeUp → 2 ≤ more.countP VigilStep.isTurn → ∃ r, w.phase = .finished r)) := by
  intro first v w
  have hstart : Vigil.Holds model poll first [] first :=
    .start ((RoundEngine.Counted.create ..).after calls)
      ((RoundEngine.Consistent.create ..).after calls) (RoundEngine.announced_after (by rfl) calls)
      clock
  have hw : w = first.run poll (steps ++ more) := (Vigil.run_append ..).symm
  refine ⟨Vigil.run_induction (P := fun e => e.state.announced = e.state.round)
    hstart.announced (fun he ht => ht.announces he) poll steps, fun hcloses => ?_⟩
  rw [hw] at hcloses ⊢
  have hv : Vigil.Holds model poll first steps v :=
    hstart.run steps ((Recorded.closes_le (Vigil.calls_prefix_run poll first
      (List.prefix_append steps more))).trans_lt hcloses)
  refine ⟨fun hs => (hv.asleep hs).1, fun err herr => ?_, fun view hview => ?_,
    fun hround hunfinished hturns => ?_, fun hup hturns => ?_⟩
  · have := hv.knows
    rw [Vigil.Knows, herr] at this
    exact this
  · have := hv.knows
    rw [Vigil.Knows, hview] at this
    exact this
  · have hreached : v.Reached poll :=
      ⟨hround, fun view hview => by rw [hview] at hunfinished; cases hunfinished⟩
    obtain ⟨r, hr⟩ := Vigil.finished_of_turns hstart more hcloses (Or.inl hround)
      ((Vigil.turnsLeft_le _).trans hturns)
    exact ⟨r, hr, fun view hview =>
      (Vigil.Reached.run hstart more hcloses hreached).shown view (hview ▸ hr)⟩
  · exact Vigil.finished_of_turns hstart more hcloses (Or.inr hup) (hup.turnsLeft_le.trans hturns)

/-- A round that closes between the first reading and the subscription. -/
theorem wakeup_of_early_close :
    let poll : LongPoll := ⟨"a", 2, 1000⟩
    let first := Vigil.start ((RoundEngine.create 0 ⟨.sync, .default, []⟩ [0, 0, 0, 0]
      (Recorded.fresh Strategy.mean)).after [(0, .join "a")]) 0
    let v := first.run poll [.turn 1, .call 2 (.submit "a" (.ofModel [0, 0, 128, 63]))]
    let w := v.run poll [.turn 3, .turn 4, .turn 5, .turn 6]
    v.phase.result? = none ∧ v.engine.state.round = 2 ∧
      w.engine.state.strategy.closes < counterLimit - 1 ∧
      ∃ view, w.phase = .finished (.ok view) ∧ 2 ≤ view.round := by
  intro poll first v w
  have hok : w.phase.result?.any Except.isOk = true := by decide +kernel
  obtain ⟨-, h⟩ := no_wakeup_lost 0 ⟨.sync, .default, []⟩ [0, 0, 0, 0] Strategy.mean
    [(0, .join "a")] 0 poll [.turn 1, .call 2 (.submit "a" (.ofModel [0, 0, 128, 63]))]
    [.turn 3, .turn 4, .turn 5, .turn 6]
  obtain ⟨-, -, -, hreached, -⟩ := h (by decide +kernel)
  obtain ⟨r, hr, hview⟩ := hreached (by decide +kernel) (by decide +kernel) (by decide)
  refine ⟨by decide +kernel, by decide +kernel, by decide +kernel, ?_⟩
  cases r with
  | error err =>
    change w.phase = _ at hr
    rw [hr] at hok
    cases hok
  | ok view => exact ⟨view, hr, hview view rfl⟩

end Federation
