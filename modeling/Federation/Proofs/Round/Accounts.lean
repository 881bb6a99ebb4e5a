/-
  The books of the engine, against what happened.

  Round, version and the accounts of the members are counters that the engine moves on by itself.
  What they ought to say is read off the calls and their answers alone.

  * `accountOf`: how many updates the books credit an identity with;
  * `Balanced`: the counters say what the events say;
  * `Transition.accounts`: a call credits the sender of the update that it accepts, and nobody else;
  * `Renews.counts`: round and version move on with a call that closes a round, and with no other;
  * `Balanced.transition`: calls keep the balance;
  * `closes_eq_accepted`: without rounds to wait for, every accepted update closes one;
  * `books_balance`: what the counters say after any calls, and what a submission is answered.
-/
import Federation.Proofs.Round.AsyncRound
import Federation.Proofs.Round.Replay

namespace Federation

namespace RoundEngine

variable {σ : Type}

/-! ## Accounts -/

/-- How many updates the books credit an identity with. -/
def accountOf (e : RoundEngine σ) (id : String) : Nat :=
  (e.state.members.find? id).elim 0 Member.accepted

section
variable (e : RoundEngine σ) (now : Nat) (id k : String)

@[simp] theorem accountOf_enrolled : (e.enrolled now id).accountOf k = e.accountOf k := by
  unfold enrolled
  split
  · rfl
  · next h =>
    have hnone : e.state.members.find? id = none := by
      simpa [isMember, NameMap.contains] using h
    by_cases hk : k = id
    · simp [accountOf, setMembers, NameMap.find?_insert, hk, hnone, Member.joining]
    · simp [accountOf, setMembers, NameMap.find?_insert, hk]

@[simp] theorem accountOf_welcomed : (e.welcomed now id).accountOf k = e.accountOf k := by
  by_cases hk : k = id
  · cases h : e.state.members.find? id <;>
      simp [accountOf, welcomed, setMembers, NameMap.find?_insert, hk, h, Member.seen,
        Member.joining]
  · simp [accountOf, welcomed, setMembers, NameMap.find?_insert, hk]

@[simp] theorem accountOf_noticed : (e.noticed now id).accountOf k = e.accountOf k := by
  by_cases hk : k = id
  · cases h : e.state.members.find? id <;>
      simp [accountOf, noticed, setMembers, NameMap.find?_modify, hk, h, Member.seen]
  · simp [accountOf, noticed, setMembers, NameMap.find?_modify, hk]

@[simp] theorem accountOf_holding (u : ModelUpdate) :
    (e.holding now id u).accountOf k = e.accountOf k := rfl

@[simp] theorem accountOf_advanced (model : Blob) (s : σ) :
    (e.advanced now model s).accountOf k = e.accountOf k := rfl

variable {e id} in
theorem accountOf_credit (hm : e.isMember id = true) (closed : Bool) :
    (e.credit now id closed).accountOf k =
      if k = id then bump (e.accountOf k) else e.accountOf k := by
  have hmembers : (e.credit now id closed).state.members =
      e.state.members.modify id (Member.credited now) := by cases closed <;> rfl
  obtain ⟨record, hrecord⟩ : ∃ record, e.state.members.find? id = some record :=
    Option.isSome_iff_exists.1 hm
  by_cases hk : k = id
  · simp [accountOf, hmembers, NameMap.find?_modify, hk, hrecord, Member.credited]
  · simp [accountOf, hmembers, NameMap.find?_modify, hk]

end

/-- The accounts of the members are what their records say. -/
theorem map_accepted_entries (e : RoundEngine σ) :
    e.state.members.entries.map (·.2.accepted) = e.state.members.names.map e.accountOf := by
  unfold NameMap.names
  rw [List.map_map]
  refine List.map_congr_left fun entry hentry => ?_
  simp [accountOf, NameMap.find?_of_mem hentry]

/-! ## Balance -/

/-- The counters say what the events say, as far as they can count. -/
structure Balanced (events : List Event) (e : RoundEngine σ) : Prop where
  round : e.state.round = (1 + events.countP Event.closes) % counterLimit
  version : e.state.version = (1 + events.countP Event.closes) % counterLimit
  accounts : ∀ id, e.accountOf id = (acceptedIn events).countP (·.1 = id) % counterLimit
  senders : ∀ a ∈ acceptedIn events, e.isMember a.1 = true

namespace Balanced

variable {events : List Event} {e : RoundEngine σ}

theorem create (start : Nat) (rules : RoundRules) (model : Blob) (strategy : σ) :
    Balanced [] (RoundEngine.create start rules model strategy) :=
  ⟨rfl, rfl, fun _ => rfl, fun _ h => absurd h List.not_mem_nil⟩

section
variable (h : Balanced events e) (hbound : (acceptedIn events).length < counterLimit)
include h hbound

/-- As long as the counters can count them, the accounts are the numbers of accepted updates. -/
theorem accountOf_eq (id : String) : e.accountOf id = (acceptedIn events).countP (·.1 = id) := by
  rw [h.accounts]
  exact Nat.mod_eq_of_lt (List.countP_le_length.trans_lt hbound)

/-- All accounts together are as many as the accepted updates. -/
theorem sum_accepted :
    (e.state.members.entries.map (·.2.accepted)).sum = (acceptedIn events).length := by
  rw [map_accepted_entries, List.map_congr_left fun id _ => h.accountOf_eq hbound id]
  exact NameMap.sum_countP_names h.senders

end

end Balanced

/-! ## Single calls -/

variable [AggregationStrategy σ]

section
variable {e e' : RoundEngine σ} {now : Nat} {call : RoundCall}
  {r : Except FederationError RoundAnswer}

/-- A call credits the sender of the update that it accepts, and nobody else. -/
theorem Transition.accounts (ht : e.Transition now call r e') :
    (Event.accepted? ⟨now, call, r⟩ = none ∧ ∀ k, e'.accountOf k = e.accountOf k) ∨
    ∃ id u, Event.accepted? ⟨now, call, r⟩ = some (id, u) ∧ e'.isMember id = true ∧
      ∀ k, e'.accountOf k = if k = id then bump (e.accountOf k) else e.accountOf k := by
  cases ht with
  | refused | jammed => exact Or.inl ⟨by simp [Event.accepted?], fun _ => rfl⟩
  | joined | shown => exact Or.inl ⟨rfl, fun _ => by simp⟩
  | stale | spoiled => exact Or.inl ⟨rfl, accountOf_enrolled e now _⟩
  | passed hcall =>
    refine Or.inl ⟨?_, fun _ => rfl⟩
    rcases hcall with rfl | ⟨timeout, rfl⟩ <;> rfl
  | closed hclosing => exact Or.inl ⟨by cases hclosing <;> rfl, fun _ => rfl⟩
  | @held id u =>
    have hm : ((e.enrolled now id).holding now id u).isMember id = true :=
      isMember_enrolled_self e now id
    refine Or.inr ⟨id, u, rfl, by rw [isMember_credit]; exact hm, fun k => ?_⟩
    rw [accountOf_credit now k hm, accountOf_holding, accountOf_enrolled]
  | @completed id u cs model s =>
    have hm : ((e.enrolled now id).advanced now model s).isMember id = true :=
      isMember_enrolled_self e now id
    refine Or.inr ⟨id, u, rfl, by rw [isMember_credit]; exact hm, fun k => ?_⟩
    rw [accountOf_credit now k hm, accountOf_advanced, accountOf_enrolled]

/-- Round and version move on with a call that closes a round, and with no other one. -/
theorem Renews.counts (h : e.Renews r e') (now : Nat) (call : RoundCall) :
    e'.state.round =
        (if Event.closes ⟨now, call, r⟩ then bump e.state.round else e.state.round) ∧
      e'.state.version =
        (if Event.closes ⟨now, call, r⟩ then bump e.state.version else e.state.version) := by
  cases h with
  | left hview _ hopen =>
    rw [Event.closes_eq_false hopen]
    exact ⟨congrArg (·.round) hview, congrArg (·.version) hview⟩
  | failed _ hview hr =>
    rw [hr]
    exact ⟨congrArg (·.round) hview, congrArg (·.version) hview⟩
  | renewed _ hview hr hclosed =>
    rw [show Event.closes ⟨now, call, r⟩ = true by simp [Event.closes, hr, hclosed]]
    exact ⟨congrArg (·.round) hview, congrArg (·.version) hview⟩

/-- What an accepted update is answered is the state that it leaves. -/
theorem Transition.submitted {id : String} {u : ModelUpdate} {o : SubmitOutcome}
    (ht : e.Transition now (.submit id u) (.ok (.submitted o)) e') :
    o.round = e'.state.round ∧ o.pending = e'.state.pending.length ∧
      (∀ v, o.closed = some v → v = e'.state.view ∧ o.pending = 0 ∧ o.round = v.round) ∧
      (o.closed = none → e'.state.view = e.state.view) := by
  have hview : ∀ v, o.closed = some v → v = e'.state.view := fun v hv => ht.view hv
  have hopen : o.closed = none → e'.state.view = e.state.view := fun hn =>
    ht.renews.view_of_open fun answer hanswer => by cases hanswer; exact hn
  cases ht with
  | held => exact ⟨by simp [holding], by simp [holding], fun v hv => (by cases hv), hopen⟩
  | completed =>
    refine ⟨by simp [RoundEngine.advanced, RoundState.advance],
      by simp [RoundEngine.advanced, RoundState.advance], fun v hv => ⟨hview v hv, rfl, ?_⟩, hopen⟩
    cases hv
    rfl

end

/-! ## All calls -/

theorem bump_mod (n : Nat) : bump (n % counterLimit) = (n + 1) % counterLimit := by simp [bump]

theorem ite_bump_mod (b : Bool) (n : Nat) :
    (if b then bump (n % counterLimit) else n % counterLimit) =
      (n + if b then 1 else 0) % counterLimit := by
  cases b with
  | false => rfl
  | true => exact bump_mod n

/-- Calls keep the balance. -/
theorem Balanced.transition {events : List Event} {e e' : RoundEngine σ} (h : Balanced events e)
    {now : Nat} {call : RoundCall} {r : Except FederationError RoundAnswer}
    (ht : e.Transition now call r e') : Balanced (events ++ [⟨now, call, r⟩]) e' := by
  have hcloses : 1 + (events ++ [Event.mk now call r]).countP Event.closes =
      1 + events.countP Event.closes + if Event.closes ⟨now, call, r⟩ then 1 else 0 := by
    rw [List.countP_append, List.countP_singleton, Nat.add_assoc]
  obtain ⟨hround, hversion⟩ := ht.renews.counts now call
  rw [h.round, ite_bump_mod, ← hcloses] at hround
  rw [h.version, ite_bump_mod, ← hcloses] at hversion
  have hmember : ∀ a ∈ acceptedIn events, e'.isMember a.1 = true := fun a ha =>
    ht.isMember (h.senders a ha)
  have haccepted := acceptedIn_append events ⟨now, call, r⟩
  rcases ht.accounts with ⟨hnone, hsame⟩ | ⟨id, u, hsome, hm, hcredit⟩
  · rw [hnone, Option.toList_none, List.append_nil] at haccepted
    refine ⟨hround, hversion, fun k => ?_, haccepted ▸ hmember⟩
    rw [haccepted, hsame]
    exact h.accounts k
  · rw [hsome, Option.toList_some] at haccepted
    refine ⟨hround, hversion, fun k => ?_, fun a ha => ?_⟩
    · rw [haccepted, hcredit, h.accounts, List.countP_append, List.countP_singleton, bump_mod]
      by_cases hk : k = id
      · simp [hk]
      · simp [hk, Ne.symm hk]
    · rw [haccepted, List.mem_append, List.mem_singleton] at ha
      rcases ha with ha | rfl
      · exact hmember a ha
      · exact hm

theorem Balanced.history {e : RoundEngine σ} (h : Balanced [] e) (calls : List (Nat × RoundCall)) :
    Balanced (e.history calls).1 (e.after calls) :=
  history_induction h (fun he ht => he.transition ht) calls

/-- Without rounds to wait for, every accepted update closes one, and nothing else does. -/
theorem closes_eq_accepted {e : RoundEngine σ} {limit : Option Nat}
    (hmode : e.rules.mode = .async limit) (calls : List (Nat × RoundCall)) :
    (e.history calls).1.countP Event.closes = (acceptedIn (e.history calls).1).length := by
  refine (history_induction (P := fun events e => e.rules.mode = .async limit ∧
    events.countP Event.closes = (acceptedIn events).length) ⟨hmode, rfl⟩
    (fun {events e now call r e'} ⟨hmode, hcount⟩ ht => ⟨ht.rules ▸ hmode, ?_⟩) calls).2
  rw [List.countP_append, acceptedIn_append, List.length_append, hcount, List.countP_singleton]
  rcases ht.async_cases hmode with
    ⟨hnone, hopen⟩ | ⟨id, u, model, hsome, -, -, answer, rfl, hclosed⟩
  · rw [hnone, Event.closes_eq_false hopen]
    rfl
  · simp [hsome, Event.closes, hclosed]

/-- **The books balance.**  Take any calls on a new engine, in either mode.  As long as the counters
can count them, round and version are one more than the calls that were answered with the model of a
round they closed, the account of each identity is the number of its updates that were accepted, and
without rounds to wait for, all accounts together are the rounds that are over.  An accepted update
is answered with the round, the number of pending updates and the model of the state that it leaves;
a round that it closes leaves nothing pending. -/
theorem books_balance (start : Nat) (rules : RoundRules) (model : Blob) (strategy : σ)
    (calls : List (Nat × RoundCall)) :
    let first := RoundEngine.create start rules model strategy
    let e := first.after calls
    let events := (first.history calls).1
    let accepted := acceptedIn events
    (events.countP Event.closes < counterLimit - 1 →
      e.state.round = 1 + events.countP Event.closes ∧
      e.state.version = 1 + events.countP Event.closes) ∧
    (accepted.length < counterLimit - 1 →
      (∀ id, e.accountOf id = accepted.countP (·.1 = id)) ∧
      (rules.mode.isAsync = true →
        (e.state.members.entries.map (·.2.accepted)).sum = e.state.round - 1)) ∧
    (∀ now id u o, (e.submit now id u).1 = .ok o →
      let e' := (e.submit now id u).2
      o.round = e'.state.round ∧ o.pending = e'.state.pending.length ∧
      (∀ v, o.closed = some v → v = e'.state.view ∧ o.pending = 0 ∧ o.round = v.round) ∧
      (o.closed = none → e'.state.view = e.state.view)) := by
  intro first e events accepted
  have h : Balanced events e := (Balanced.create start rules model strategy).history calls
  refine ⟨fun hbound => ?_, fun hbound => ?_, fun now id u o ho => ?_⟩
  · have hmod : (1 + events.countP Event.closes) % counterLimit =
        1 + events.countP Event.closes := Nat.mod_eq_of_lt (by omega)
    exact ⟨h.round.trans hmod, h.version.trans hmod⟩
  · have hlt : accepted.length < counterLimit := by omega
    refine ⟨h.accountOf_eq hlt, fun hasync => ?_⟩
    obtain ⟨limit, hmode⟩ : ∃ limit, rules.mode = .async limit := by
      cases hm : rules.mode with
      | sync => rw [hm] at hasync; cases hasync
      | async limit => exact ⟨limit, rfl⟩
    have hcloses : events.countP Event.closes = accepted.length :=
      closes_eq_accepted (e := first) hmode calls
    have hround : e.state.round = 1 + accepted.length := by
      rw [h.round, hcloses, Nat.mod_eq_of_lt (by omega)]
    rw [h.sum_accepted hlt, hround, Nat.add_sub_cancel_left]
  · have ht := e.transition_submit now id u
    rw [ho] at ht
    exact ht.submitted

/-- Two updates of one member and one of another, with a refused one between them. -/
theorem books_of_two :
    let rules : RoundRules := ⟨.async none, .default, []⟩
    let u := ModelUpdate.ofModel [0, 0, 128, 63]
    let first := RoundEngine.create 0 rules [0, 0, 0, 0] Strategy.mean
    let calls := [(0, .join "a"), (1, .join "b"), (2, .submit "a" u),
      (3, .submit "b" (.ofModel [1, 2, 3])), (4, .submit "b" u), (5, .submit "a" u)]
    let e := first.after calls
    let events := (first.history calls).1
    events.countP Event.closes = 3 ∧ (acceptedIn events).length = 3 ∧
      e.state.round = 1 + 3 ∧ e.accountOf "a" = (acceptedIn events).countP (·.1 = "a") ∧
      e.accountOf "a" = 2 ∧
      (e.state.members.entries.map (·.2.accepted)).sum = e.state.round - 1 ∧
      ∃ o, (e.submit 6 "b" u).1 = .ok o ∧ o.round = (e.submit 6 "b" u).2.state.round := by
  intro rules u first calls e events
  have hcloses : events.countP Event.closes = 3 := by decide +kernel
  have haccepted : (acceptedIn events).length = 3 := by decide +kernel
  have ho : (e.submit 6 "b" u).1 = .ok ⟨5, some ⟨[0, 0, 128, 63], 5, 5⟩, 0⟩ := by decide +kernel
  obtain ⟨hrounds, haccounts, hsubmit⟩ := books_balance 0 rules [0, 0, 0, 0] Strategy.mean calls
  have hround := (hrounds (by rw [hcloses]; decide)).1
  obtain ⟨haccount, hsum⟩ := haccounts (by rw [haccepted]; decide)
  rw [hcloses] at hround
  have htwo : e.accountOf "a" = 2 := by decide +kernel
  have hsum := hsum rfl
  have hanswer := (hsubmit 6 "b" u _ ho).1
  with_reducible exact ⟨hcloses, haccepted, hround, haccount "a", htwo, hsum, _, ho, hanswer⟩

end RoundEngine

end Federation
