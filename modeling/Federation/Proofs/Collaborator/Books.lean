/-
  The books of a collaborator.

  In step with the others, a collaborator counts the rounds in which an update of it was accepted,
  each of them once, and keeps the largest round it has heard of.

  * `Tallied`: the count and the round counted last, against the rounds that are to be counted;
  * `Keeps`: the books of a collaborator, against what it was answered;
  * `Fits`: an answer that the collaborator can be given;
  * `Keeps.resume`: whatever fitting answer it is given, its books stay in order.
-/
import Federation.Proofs.Collaborator.Answers

namespace Federation

/-! ## Tallies -/

/-- The bound of an ascending list is in it when the last element is the bound. -/
theorem mem_iff_getLast?_of_le {l : List Nat} {k : Nat} (hl : l.Pairwise (· ≤ ·))
    (hk : ∀ j ∈ l, j ≤ k) : k ∈ l ↔ l.getLast? = some k := by
  constructor
  · intro h
    rcases List.eq_nil_or_concat' l with rfl | ⟨before, last, rfl⟩
    · cases h
    · have hle : k ≤ last := by
        rcases List.mem_append.1 h with hb | hb
        · exact (List.pairwise_append.1 hl).2.2 k hb last List.mem_cons_self
        · exact (List.mem_singleton.1 hb).le
      rw [List.getLast?_concat, le_antisymm hle (hk last (by simp))]
  · exact List.mem_of_getLast?

/-- There are no more different rounds than there have been. -/
theorem card_le_of_range {l : List Nat} {n : Nat} (h : ∀ k ∈ l, 1 ≤ k ∧ k ≤ n) :
    l.toFinset.card ≤ n := by
  have hsub : l.toFinset ⊆ Finset.Icc 1 n := fun k hk =>
    Finset.mem_Icc.2 (h k (List.mem_toFinset.1 hk))
  have hcard := Finset.card_le_card hsub
  rwa [Nat.card_Icc, Nat.add_sub_cancel] at hcard

namespace Machine

/-- What a collaborator has counted, against the rounds that are to be counted. -/
structure Tallied (m : Machine) (counted : List Nat) : Prop where
  last : m.countedRound = counted.getLast?
  tally : m.roundsCompleted = counted.toFinset.card
  ordered : counted.Pairwise (· ≤ ·)
  range : ∀ k ∈ counted, 1 ≤ k ∧ k ≤ m.modelRound

variable {m m' : Machine} {counted heard : List Nat}

theorem Tallied.of_books (h : m.Tallied counted) (hround : m.modelRound ≤ m'.modelRound)
    (hlast : m'.countedRound = m.countedRound)
    (htally : m'.roundsCompleted = m.roundsCompleted) : m'.Tallied counted where
  last := hlast.trans h.last
  tally := htally.trans h.tally
  ordered := h.ordered
  range k hk := ⟨(h.range k hk).1, (h.range k hk).2.trans hround⟩

/-- An accepted update adds its round, which counts unless it was there before. -/
theorem Tallied.counting (h : m.Tallied counted) (hmode : m.config.mode = .sync)
    (hpos : 1 ≤ m.modelRound) (hlimit : m.modelRound < counterLimit) (r : SubmitReceipt) :
    (m.counting r).Tallied (counted ++ [m.modelRound]) := by
  have hmem := mem_iff_getLast?_of_le h.ordered fun k hk => (h.range k hk).2
  have hordered : (counted ++ [m.modelRound]).Pairwise (· ≤ ·) :=
    List.pairwise_append.2 ⟨h.ordered, List.pairwise_singleton .., fun k hk j hj =>
      List.mem_singleton.1 hj ▸ (h.range k hk).2⟩
  have hrange : ∀ k ∈ counted ++ [m.modelRound], 1 ≤ k ∧ k ≤ m.modelRound := by
    intro k hk
    rcases List.mem_append.1 hk with hk | hk
    · exact h.range k hk
    · obtain rfl := List.mem_singleton.1 hk
      exact ⟨hpos, le_rfl⟩
  have hset : (counted ++ [m.modelRound]).toFinset = insert m.modelRound counted.toFinset := by
    ext k
    simp [or_comm]
  rcases m.counting_cases r hmode with ⟨hlast, hc⟩ | ⟨hlast, hc⟩
  · have hin : m.modelRound ∈ counted := hmem.2 (h.last ▸ hlast)
    rw [hc]
    refine ⟨?_, ?_, hordered, hrange⟩
    · rw [List.getLast?_concat]
      exact hlast
    · rw [hset, Finset.insert_eq_of_mem (List.mem_toFinset.2 hin)]
      exact h.tally
  · have hout : m.modelRound ∉ counted := fun hin => hlast (h.last.trans (hmem.1 hin))
    rw [hc]
    refine ⟨?_, ?_, hordered, hrange⟩
    · rw [List.getLast?_concat]
    · have hcard := Finset.card_insert_of_notMem fun hin => hout (List.mem_toFinset.1 hin)
      rw [← hset, ← h.tally] at hcard
      -- the count stays in the range of the counter, as the rounds do
      have hle := card_le_of_range hrange
      rw [hcard]
      exact Nat.mod_eq_of_lt (by omega)

/-! ## Books -/

/-- The round in which an update was accepted, if the answer says that it was. -/
def gained (m : Machine) : Reply → List Nat
  | .receipt (.ok _) => [m.modelRound]
  | _ => []

/-- The books of a collaborator, against the rounds that are to be counted and the rounds it heard
of, when the engine is in round `n`. -/
structure Books (n : Nat) (counted heard : List Nat) (m : Machine) : Prop where
  mode : m.config.mode = .sync
  current : m.modelRound ≤ n
  tallied : m.Tallied counted
  heard : m.lastRound = heard.foldl max 0
  ceiling : 0 < m.config.rounds → m.roundsCompleted ≤ m.config.rounds

/-- A collaborator with its books in order.  `off` is whether the run may have been cancelled. -/
structure Keeps (off : Prop) (n : Nat) (counted heard : List Nat) (m : Machine) : Prop
    extends Books n counted heard m where
  known : m.phase.hasModel = true → 1 ≤ m.modelRound
  sends : ∀ u, m.phase.sends? = some u → u.baseRound = some m.modelRound
  running : m.phase.isFinished = false → 0 < m.config.rounds →
    m.roundsCompleted < m.config.rounds
  ended : ∀ s, m.phase = .finished (.ok s) →
    s.roundsCompleted = m.roundsCompleted ∧ s.lastRound = m.lastRound ∧
      (off ∨ 0 < m.config.rounds ∧ m.roundsCompleted = m.config.rounds)

/-- An answer that a collaborator can be given. -/
structure Fits (off : Prop) (n : Nat) (m : Machine) (reply : Reply) : Prop where
  view : ∀ v, reply = .view (.ok v) →
    m.phase.awaitsModel = true ∧ 1 ≤ v.round ∧ m.modelRound ≤ v.round ∧ v.round ≤ n
  receipt : ∀ r, reply = .receipt (.ok r) → ∃ u attempt, m.phase = .submitting u attempt
  error : reply.error? = some .cancelled → off

theorem Fits.of_round {off : Prop} {n : Nat} {reply : Reply} (hr : reply.round? = none)
    (he : reply.error? = some .cancelled → off) : m.Fits off n reply where
  view := by rintro v rfl; cases hr
  receipt := by rintro r rfl; cases hr
  error := he

theorem Fits.mono {off : Prop} {n n' : Nat} {reply : Reply} (h : m.Fits off n reply)
    (hn : n ≤ n') : m.Fits off n' reply where
  view v hv := ⟨(h.view v hv).1, (h.view v hv).2.1, (h.view v hv).2.2.1,
    (h.view v hv).2.2.2.trans hn⟩
  receipt := h.receipt
  error := h.error

theorem gained_of_round {reply : Reply} (hr : reply.round? = none) : m.gained reply = [] := by
  cases reply with
  | receipt r =>
    cases r with
    | ok => cases hr
    | error => rfl
  | _ => rfl

theorem round_of_error {reply : Reply} {e : FederationError} (h : reply.error? = some e) :
    reply.round? = none := by
  rcases reply with (_ | _) | (_ | _) | _ | _ | _ <;> first | rfl | cases h

section
variable {off : Prop} {n n' : Nat}

/-- Done with its rounds, or cancelled, a collaborator stops. -/
theorem Books.stop (h : m.Books n counted heard) (hend : m.ceilingReached = true ∨ off) :
    m.stop.Keeps off n counted heard where
  mode := h.mode
  current := h.current
  tallied := h.tallied.of_books le_rfl rfl rfl
  heard := h.heard
  ceiling := h.ceiling
  known hp := by cases hp
  sends u hu := by cases hu
  running hp := by cases hp
  ended s hs := by
    cases hs
    refine ⟨rfl, rfl, ?_⟩
    rcases hend with hc | hoff
    · rw [ceilingReached, Bool.and_eq_true, decide_eq_true_eq, decide_eq_true_eq] at hc
      exact Or.inr ⟨hc.1, (h.ceiling hc.1).antisymm hc.2⟩
    · exact Or.inl hoff

/-- Otherwise it goes on with the same books, or fails. -/
theorem Books.enter (h : m.Books n counted heard) {state : CollaboratorState} {phase : Phase}
    (hknown : phase.hasModel = true → 1 ≤ m.modelRound)
    (hsends : ∀ u, phase.sends? = some u → u.baseRound = some m.modelRound)
    (hrunning : phase.isFinished = false → 0 < m.config.rounds →
      m.roundsCompleted < m.config.rounds)
    (hended : ∀ s, phase ≠ .finished (.ok s)) : (m.enter state phase).Keeps off n counted heard where
  mode := h.mode
  current := h.current
  tallied := h.tallied.of_books le_rfl rfl rfl
  heard := h.heard
  ceiling := h.ceiling
  known := hknown
  sends := hsends
  running := hrunning
  ended s hs := absurd hs (hended s)

namespace Keeps

theorem fresh {config : CollaboratorConfig} (hmode : config.mode = .sync) :
    (Machine.fresh config).Keeps off n [] [] where
  mode := hmode
  current := Nat.zero_le n
  tallied := ⟨rfl, rfl, .nil, nofun⟩
  heard := rfl
  ceiling _ := Nat.zero_le _
  known h := by cases h
  sends u h := by cases h
  running _ h := h
  ended s h := by cases h

theorem mono (h : m.Keeps off n counted heard) (hn : n ≤ n') : m.Keeps off n' counted heard :=
  { h with current := h.current.trans hn }

theorem went (h : m.Keeps off n counted heard) {state : CollaboratorState} {phase : Phase}
    (hm : m.phase.hasModel = true) (hphase : phase.isFinished = false)
    (hsends : ∀ u, phase.sends? = some u → m.phase.sends? = some u ∨ ∃ b, u = m.sampled b) :
    (m.enter state phase).Keeps off n counted heard := by
  have hpos := h.known hm
  refine h.toBooks.enter (fun _ => hpos) (fun u hu => ?_)
    (fun _ => h.running (Phase.isFinished_of_hasModel hm)) (by rintro s rfl; cases hphase)
  rcases hsends u hu with hu | ⟨b, rfl⟩
  · exact h.sends u hu
  · exact if_neg (Nat.one_le_iff_ne_zero.1 hpos)

theorem failed (h : m.Keeps off n counted heard) {e : FederationError} (he : e = .cancelled → off) :
    (m.fail e).Keeps off n counted heard := by
  rcases m.fail_cases e with ⟨hc, hf⟩ | ⟨-, hf⟩
  · exact hf ▸ h.toBooks.stop (Or.inr (he hc))
  · exact hf ▸ h.toBooks.enter nofun nofun nofun nofun

theorem observed (h : m.Keeps off n counted heard) (hm : m.phase.awaitsModel = true)
    {v : ModelView} (hpos : 1 ≤ v.round) (hv : m.modelRound ≤ v.round) (hn : v.round ≤ n)
    (again : Bool) : ((m.observe v).handOver again).Keeps off n counted (heard ++ [v.round]) := by
  have hbooks : (m.observe v).Books n counted (heard ++ [v.round]) := by
    refine ⟨h.mode, hn, h.tallied.of_books hv rfl rfl, ?_, h.ceiling⟩
    rw [List.foldl_append, ← h.heard]
    rfl
  exact hbooks.enter (fun _ => hpos) nofun (fun _ => h.running (Phase.isFinished_of_awaitsModel hm))
    nofun

theorem accepted (h : m.Keeps off n counted heard) (hn : n < counterLimit)
    {u : ModelUpdate} {attempt : Nat} (hp : m.phase = .submitting u attempt)
    {cancelled : Bool} (hc : cancelled = true → off) (r : SubmitReceipt) :
    (m.afterSubmit cancelled r).Keeps off n (counted ++ [m.modelRound]) (heard ++ [r.round]) := by
  have hpos : 1 ≤ m.modelRound := h.known (by rw [hp]; rfl)
  have htallied := h.tallied.counting h.mode hpos (h.current.trans_lt hn) r
  -- one round more at most, and there was one left
  have hmore : 0 < m.config.rounds → (m.counting r).roundsCompleted ≤ m.config.rounds := by
    intro hrounds
    have hlt := h.running (by rw [hp]; rfl) hrounds
    have hcard : (counted ++ [m.modelRound]).toFinset.card ≤ counted.toFinset.card + 1 := by
      rw [List.toFinset_append]
      exact Finset.card_union_le ..
    rw [← htallied.tally, ← h.tallied.tally] at hcard
    omega
  have hsame : (m.counting r).config = m.config ∧ (m.counting r).modelRound = m.modelRound ∧
      (m.counting r).lastRound = max m.lastRound r.round := by
    rcases counting_cases r h.mode with ⟨-, he⟩ | ⟨-, he⟩ <;> rw [he] <;> exact ⟨rfl, rfl, rfl⟩
  obtain ⟨hconfig, hround, hlast⟩ := hsame
  have hbooks : (m.counting r).Books n (counted ++ [m.modelRound]) (heard ++ [r.round]) := by
    refine ⟨hconfig ▸ h.mode, hround ▸ h.current, htallied, ?_, hconfig ▸ hmore⟩
    rw [hlast, List.foldl_append, ← h.heard]
    rfl
  rcases m.afterSubmit_cases cancelled r with ⟨hend, ha⟩ | ⟨hceiling, state, phase, hm, hs, ha⟩
  · exact ha ▸ hbooks.stop (hend.imp_right hc)
  · rw [ha]
    refine hbooks.enter (fun _ => hround ▸ hpos) (by rw [hs]; nofun) (fun _ hrounds => ?_)
      (by rintro s rfl; cases hm)
    simpa [ceilingReached, hrounds] using hceiling

/-- Whatever fitting answer a collaborator is given, its books stay in order. -/
theorem resume (h : m.Keeps off n counted heard) (hn : n < counterLimit) {reply : Reply}
    (hf : m.Fits off n reply) {cancelled : Bool} (hc : cancelled = true → off) :
    (m.resume cancelled reply).Keeps off n (counted ++ m.gained reply)
      (heard ++ reply.round?.toList) := by
  -- an answer that shows no round adds nothing
  have hquiet : ∀ {m' : Machine}, reply.round? = none → m'.Keeps off n counted heard →
      m'.Keeps off n (counted ++ m.gained reply) (heard ++ reply.round?.toList) := by
    intro m' hr h'
    rwa [gained_of_round hr, hr, Option.toList_none, List.append_nil, List.append_nil]
  have hres := m.resumes_resume cancelled reply
  generalize m.resume cancelled reply = m' at hres
  cases hres with
  | went hm hr hphase hsends => exact hquiet hr (h.went hm hphase hsends)
  | @observed v again hm =>
    obtain ⟨-, hpos, hv, hle⟩ := hf.view v rfl
    rw [show m.gained (.view (.ok v)) = [] from rfl, List.append_nil]
    exact h.observed hm hpos hv hle again
  | accepted hp => exact h.accepted hn hp hc _
  | failed he => exact hquiet (round_of_error he) (h.failed fun hcancel => hf.error (hcancel ▸ he))
  | interrupted hcancel hr => exact hquiet hr (h.toBooks.stop (Or.inr (hc hcancel)))
  | full hceiling hr => exact hquiet hr (h.toBooks.stop (Or.inl hceiling))
  | ignored hview hreceipt =>
    have hr : reply.round? = none := by
      -- an answer that shows a round and fits is not ignored
      rcases reply with (_ | v) | (_ | r) | _ | _ | _
      case view.ok =>
        have hm := (hf.view v rfl).1
        rw [hview v rfl] at hm
        cases hm
      case receipt.ok =>
        obtain ⟨u, attempt, hp⟩ := hf.receipt r rfl
        exact absurd hp (hreceipt r rfl u attempt)
      all_goals rfl
    exact hquiet hr h

end Keeps

end

end Machine

end Federation
