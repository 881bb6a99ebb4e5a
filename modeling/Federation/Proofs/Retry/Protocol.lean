/-
  What retrying does, from the first attempt to the last.

  Whatever the operation answers, the attempts are numbered from zero without a gap, one wait stands
  between two of them, and the last one is the first whose answer ends the matter.

  * `Backoff.Ends`: the three ways in which an attempt is the last one;
  * `Backoff.script`: the attempts from one number to another, with the waits between them;
  * `attemptFrom_of_ends`, `attemptFrom_of_goes_on`: one attempt;
  * `attemptFrom_run`: all of them;
  * `retry_protocol`: all of them, and how long the waits are.
-/
import Federation.Proofs.Retry.Delay

namespace Federation

namespace Backoff

variable {ε α : Type} (b : Backoff) {maxRetries : Nat} {retryable : ε → Bool}
  {op : Nat → Except ε α}

/-! ## One attempt -/

/-- Attempt `k` is the last one if it is reached: it succeeds, fails for good, or uses up the
budget. -/
def Ends (maxRetries : Nat) (retryable : ε → Bool) (op : Nat → Except ε α) (k : Nat) : Prop :=
  (∃ a, op k = .ok a) ∨ (∃ e, op k = .error e ∧ retryable e = false) ∨ k = maxRetries

theorem attemptFrom_of_ends {n : Nat} (h : Ends maxRetries retryable op n) :
    b.attemptFrom maxRetries retryable op n = ⟨op n, [.attempt n]⟩ := by
  rw [attemptFrom]
  rcases h with ⟨a, ha⟩ | ⟨e, he, hfinal⟩ | rfl
  · rw [ha]
  · rw [he]
    simp [hfinal]
  · split <;> simp [*]

theorem attemptFrom_of_goes_on {n : Nat} (hn : n ≤ maxRetries)
    (h : ¬ Ends maxRetries retryable op n) :
    b.attemptFrom maxRetries retryable op n =
      ⟨(b.attemptFrom maxRetries retryable op (n + 1)).result,
        .attempt n :: .wait (b.delayAfter n) ::
          (b.attemptFrom maxRetries retryable op (n + 1)).events⟩ := by
  simp only [Ends, not_or, not_exists, not_and, Bool.not_eq_false] at h
  obtain ⟨hok, hretryable, hlast⟩ := h
  rw [attemptFrom]
  cases hop : op n with
  | ok a => exact absurd hop (hok a)
  | error e =>
    have hgoes : ¬ (maxRetries ≤ n ∨ retryable e = false) := by
      simp [hretryable e hop]
      omega
    simp only [if_neg hgoes]

/-! ## All attempts -/

/-- Attempts `n` to `n + steps`, with the wait after each but the last. -/
def script (n : Nat) : Nat → List RetryEvent
  | 0 => [.attempt n]
  | steps + 1 => .attempt n :: .wait (b.delayAfter n) :: script (n + 1) steps

theorem attempts_script (n steps : Nat) :
    (b.script n steps).filterMap RetryEvent.attempt? = List.range' n (steps + 1) := by
  induction steps generalizing n with
  | zero => rfl
  | succ steps ih => simp [script, List.filterMap_cons, RetryEvent.attempt?, ih, List.range'_succ]

theorem delays_script (n steps : Nat) :
    (b.script n steps).filterMap RetryEvent.wait? =
      (List.range' n steps).map b.delayAfter := by
  induction steps generalizing n with
  | zero => rfl
  | succ steps ih => simp [script, List.filterMap_cons, RetryEvent.wait?, ih, List.range'_succ]

/-- The attempts from number `n` on end with the first that ends them. -/
theorem attemptFrom_run (retryable : ε → Bool) (op : Nat → Except ε α) {n : Nat} (hn : n ≤ maxRetries) :
    ∃ steps, n + steps ≤ maxRetries ∧ Ends maxRetries retryable op (n + steps) ∧
      (∀ i, n ≤ i → i < n + steps → ¬ Ends maxRetries retryable op i) ∧
      b.attemptFrom maxRetries retryable op n = ⟨op (n + steps), b.script n steps⟩ := by
  obtain ⟨budget, hbudget⟩ : ∃ budget, budget = maxRetries - n := ⟨_, rfl⟩
  -- the budget left carries the induction, as it ends the loop
  induction budget generalizing n with
  | zero =>
    have hends : Ends maxRetries retryable op n := .inr (.inr (by omega))
    exact ⟨0, hn, hends, fun i _ _ => by omega, b.attemptFrom_of_ends hends⟩
  | succ budget ih =>
    by_cases hends : Ends maxRetries retryable op n
    · exact ⟨0, hn, hends, fun i _ _ => by omega, b.attemptFrom_of_ends hends⟩
    obtain ⟨steps, hle, hlast, hfirst, hrun⟩ := ih (n := n + 1) (by omega) (by omega)
    have hshift : n + 1 + steps = n + (steps + 1) := by omega
    rw [hshift] at hle hlast hfirst hrun
    refine ⟨steps + 1, hle, hlast, fun i hi hlt => ?_, ?_⟩
    · rcases hi.eq_or_lt with rfl | hi
      · exact hends
      · exact hfirst i hi hlt
    · rw [b.attemptFrom_of_goes_on hn hends, hrun, script]

theorem retryIf_run (maxRetries : Nat) (retryable : ε → Bool) (op : Nat → Except ε α) :
    ∃ k ≤ maxRetries, Ends maxRetries retryable op k ∧
      (∀ i < k, ¬ Ends maxRetries retryable op i) ∧
      b.retryIf maxRetries retryable op = ⟨op k, b.script 0 k⟩ := by
  obtain ⟨k, hle, hlast, hfirst, hrun⟩ :=
    b.attemptFrom_run retryable op (Nat.zero_le maxRetries)
  rw [Nat.zero_add] at hle hlast hfirst hrun
  exact ⟨k, hle, hlast, fun i hi => hfirst i (Nat.zero_le i) hi, hrun⟩

/-! ## The waits -/

theorem delayAfter_of_no_jitter {b : Backoff} (hjitter : b.jitter = .zero) (n : Nat) :
    b.delayAfter n = min (b.doubled n) b.limit := by
  have hle : Double.zero.le .zero = true := by decide
  rw [delayAfter, hjitter, if_pos hle]

/-- The wait `d` is computed where exact arithmetic has `ideal`. -/
structure Computes (d ideal : Nat) : Prop where
  near : |(d : ℚ) - ideal| ≤ 2 ^ (-52 : ℤ) * ideal + 1 / 2
  short : ideal < 2 ^ 51 → d = ideal
  span : d < spanEnd

theorem doubled_computes {b : Backoff} (hbase : b.base + 954 ≤ 2 ^ 34 * nanosPerSecond) (n : Nat) :
    Computes (b.doubled n) (b.ideal n) :=
  ⟨doubled_error (by omega) n, doubled_eq (by omega), doubled_lt_spanEnd hbase n⟩

theorem delayAfter_mono {b : Backoff} (hjitter : b.jitter = .zero)
    (hbase : b.base < 2 ^ 34 * nanosPerSecond) {m n : Nat} (h : m ≤ n) :
    b.delayAfter m ≤ b.delayAfter n := by
  rw [delayAfter_of_no_jitter hjitter, delayAfter_of_no_jitter hjitter]
  exact min_le_min_right _ (doubled_mono hbase h)

/-- Retrying makes attempts number 0 to `k`, where `k` is the first that ends the matter, and
returns what the last of them came to.  It waits once between two attempts, `base * 2 ^ min n 30` as
it is computed or the limit after attempt `n`; so waits never shrink and never exceed the limit. -/
theorem retry_protocol {b : Backoff} (hjitter : b.jitter = .zero)
    (hbase : b.base + 954 ≤ 2 ^ 34 * nanosPerSecond) (maxRetries : Nat) (retryable : ε → Bool)
    (op : Nat → Except ε α) :
    (∃ k ≤ maxRetries, Ends maxRetries retryable op k ∧
      (∀ i < k, ¬ Ends maxRetries retryable op i) ∧
      (b.retryIf maxRetries retryable op).result = op k ∧
      (b.retryIf maxRetries retryable op).events = b.script 0 k ∧
      (b.retryIf maxRetries retryable op).attempts = List.range (k + 1) ∧
      (b.retryIf maxRetries retryable op).delays = (List.range k).map b.delayAfter) ∧
    (∀ n, b.delayAfter n = min (b.doubled n) b.limit ∧ Computes (b.doubled n) (b.ideal n) ∧
      (b.limit < 2 ^ 51 → b.delayAfter n = min (b.ideal n) b.limit)) ∧
    (b.retryIf maxRetries retryable op).delays.Pairwise (· ≤ ·) ∧
    (∀ d ∈ (b.retryIf maxRetries retryable op).delays, d ≤ b.limit) ∧
    b.retry maxRetries op = b.retryIf maxRetries (fun _ => true) op := by
  have hdelay := delayAfter_of_no_jitter hjitter
  obtain ⟨k, hk, hlast, hfirst, hrun⟩ := b.retryIf_run maxRetries retryable op
  have hdelays : (b.retryIf maxRetries retryable op).delays = (List.range k).map b.delayAfter := by
    rw [hrun, RetryOutcome.delays, delays_script, List.range_eq_range']
  refine ⟨⟨k, hk, hlast, hfirst, ?_, ?_, ?_, hdelays⟩, fun n => ⟨hdelay n, doubled_computes hbase n,
    fun hlimit => ?_⟩, ?_, ?_, rfl⟩
  · rw [hrun]
  · rw [hrun]
  · rw [hrun, RetryOutcome.attempts, attempts_script, List.range_eq_range']
  · rw [hdelay, min_doubled (by omega) n hlimit]
  · rw [hdelays, List.pairwise_map]
    exact List.pairwise_lt_range.imp fun h => delayAfter_mono hjitter (by omega) h.le
  · simp only [hdelays, List.mem_map, List.mem_range]
    rintro d ⟨n, -, rfl⟩
    rw [hdelay]
    exact min_le_right _ _

/-- Three attempts that fail for the time being, then one that fails for good. -/
theorem retry_protocol_fatal :
    let b : Backoff := ⟨1000000, 3000000, .zero⟩
    let op : Nat → Except String Unit := fun n => .error (if n < 3 then "busy" else "fatal")
    let o := b.retryIf 5 (fun e => e != "fatal") op
    (b.jitter = .zero ∧ b.base + 954 ≤ 2 ^ 34 * nanosPerSecond) ∧
      o.result = .error "fatal" ∧ o.attempts = [0, 1, 2, 3] ∧
      o.delays = [1000000, 2000000, 3000000] := by
  intro b op o
  have hbase : b.base + 954 ≤ 2 ^ 34 * nanosPerSecond := by decide
  obtain ⟨⟨k, hk, hends, hfirst, hresult, -, hattempts, hdelays⟩, -⟩ :=
    retry_protocol (b := b) rfl hbase 5 (fun e => e != "fatal") op
  obtain rfl : k = 3 := by
    have hlast : Ends 5 (fun e => e != "fatal") op 3 := .inr (.inl ⟨"fatal", rfl, rfl⟩)
    have hle : k ≤ 3 := not_lt.mp fun h => hfirst 3 h hlast
    rcases hends with ⟨a, ha⟩ | ⟨e, he, hfinal⟩ | rfl
    · cases ha
    · obtain rfl : e = "fatal" := by simpa using hfinal
      by_contra hne
      simp [op, show k < 3 by omega] at he
    · omega
  exact ⟨⟨rfl, hbase⟩, hresult, hattempts, hdelays.trans (by decide +kernel)⟩

/-- Long waits are not the exact ones, and a first wait of nearly `2 ^ 34` seconds is doubled until
it is no span. -/
theorem long_waits_rounded :
    (∃ b : Backoff, b.jitter = .zero ∧ b.ideal maxDoublings < spanEnd ∧
      (b.retry 26 fun _ => (.error "down" : Except String Unit)).delays ≠
        (List.range 26).map fun n => min (b.ideal n) b.limit) ∧
    (∃ b : Backoff, b.jitter = .zero ∧ b.ideal maxDoublings < spanEnd ∧
      b.base + 953 = 2 ^ 34 * nanosPerSecond ∧ b.doubled maxDoublings = spanEnd) := by
  refine ⟨⟨⟨333000000, 2 ^ 62, .zero⟩, rfl, by decide, fun h => ?_⟩,
    ⟨2 ^ 34 * nanosPerSecond - 953, 0, .zero⟩, rfl, by decide, by decide, by decide +kernel⟩
  obtain ⟨k, -, hends, -, hrun⟩ := retryIf_run ⟨333000000, 2 ^ 62, .zero⟩ 26 (fun _ => true)
    fun _ => (.error "down" : Except String Unit)
  obtain rfl : k = 26 := by simpa [Ends] using hends
  rw [retry, hrun, RetryOutcome.delays, delays_script, ← List.range_eq_range'] at h
  have hlast := congrArg (·[25]?) h
  revert hlast
  decide +kernel

end Backoff

end Federation
