/-
  How long the waits of a backoff are.

  The first wait is turned into seconds once, which are off by at most one part in `2 ^ 52`; every
  doubling of them is exact, and rounding to nanoseconds is off by at most a half.

  * `value_secondsOfNanos`, `nanosOfSeconds_near`: the two conversions;
  * `Backoff.doubled_near`: what every wait is rounded from;
  * `Backoff.doubled_mono`, `doubled_error`, `doubled_eq`, `doubled_lt_spanEnd`: waits never shrink,
    how far they are from `base * 2 ^ n`, when they are exactly that, and that they are spans;
  * `Backoff.min_doubled`: a limit below `2 ^ 51` nanoseconds hides the rounding.
-/
import Federation.Retry
import Federation.Proofs.Numeric.Rounding

namespace Federation

/-! ## Conversions -/

/-- Spans are shorter than this; in nanoseconds. -/
def spanEnd : Nat := 2 ^ 64 * nanosPerSecond

/-- A fraction of a second, as it is read. -/
theorem value_fraction {r : Nat} (hr : r < nanosPerSecond) :
    ∃ q, (Double.ofNat r / Double.ofNat nanosPerSecond).value = some q ∧ 0 ≤ q ∧
      |q - r / nanosPerSecond| ≤ 2 ^ (-53 : ℤ) * (r / nanosPerSecond) := by
  have hsecond : (nanosPerSecond : ℚ) = 1000000000 := by norm_num [nanosPerSecond]
  have hwhole : r < 2 ^ 53 := hr.trans (by norm_num [nanosPerSecond])
  have hnonneg : (0 : ℚ) ≤ r / nanosPerSecond := by positivity
  have hlt : (r : ℚ) / nanosPerSecond < 1 := by
    rw [hsecond, div_lt_one (by norm_num)]
    exact_mod_cast hr
  obtain ⟨q, hvalue, hnear⟩ := Double.value_div (Double.value_ofNat hwhole)
    (Double.value_ofNat (n := nanosPerSecond) (by norm_num [nanosPerSecond]))
    (by rw [hsecond]; norm_num)
    (Double.lt_reach (n := 0) (by rwa [abs_of_nonneg hnonneg]) (by norm_num))
  refine ⟨q, hvalue, hnear.nonneg hnonneg, ?_⟩
  rcases Nat.eq_zero_or_pos r with rfl | hpos
  · have hzero : q = 0 := by
      rw [Nat.cast_zero, zero_div] at hnear
      exact hnear.eq_of_whole (j := 0) (s := 0) (by simp) (by norm_num) (by norm_num)
    simp [hzero]
  · have hlarge : (2 : ℚ) ^ (-1022 : ℤ) ≤ |(r : ℚ) / nanosPerSecond| := by
      have hunit : (2 : ℚ) ^ (-30 : ℤ) ≤ r / nanosPerSecond := by
        have : (1 : ℚ) ≤ r := by exact_mod_cast hpos
        rw [hsecond]
        norm_num
        linarith
      rw [abs_of_nonneg hnonneg]
      exact (zpow_le_zpow_right₀ one_le_two (by norm_num)).trans hunit
    have := hnear.relative hlarge
    rwa [abs_of_nonneg hnonneg] at this

theorem nanosPerSecond_pos : (0 : ℚ) < nanosPerSecond := by norm_num [nanosPerSecond]

theorem fraction_le_one (n : Nat) : ((n % nanosPerSecond : Nat) : ℚ) / nanosPerSecond ≤ 1 := by
  rw [div_le_one nanosPerSecond_pos]
  exact_mod_cast (Nat.mod_lt n (by norm_num [nanosPerSecond])).le

theorem cast_eq_seconds (n : Nat) :
    (n : ℚ) =
      ((n / nanosPerSecond : Nat) + (n % nanosPerSecond : Nat) / nanosPerSecond) *
        nanosPerSecond := by
  rw [add_mul, div_mul_cancel₀ _ nanosPerSecond_pos.ne']
  exact_mod_cast (Nat.div_add_mod' n nanosPerSecond).symm

/-- The seconds of a span: a whole number of them and a fraction, added with one rounding. -/
theorem value_secondsOfNanos {n : Nat} (hn : n < 2 ^ 53 * nanosPerSecond) :
    ∃ x q : ℚ, (secondsOfNanos n).value = some x ∧ 0 ≤ q ∧
      |q - (n % nanosPerSecond : Nat) / nanosPerSecond| ≤
        2 ^ (-53 : ℤ) * ((n % nanosPerSecond : Nat) / nanosPerSecond) ∧
      Nearest x ((n / nanosPerSecond : Nat) + q) ∧ (n / nanosPerSecond = 0 → x = q) := by
  obtain ⟨q, hq, hq0, hqnear⟩ := value_fraction (Nat.mod_lt n (by norm_num [nanosPerSecond]))
  have hwhole : n / nanosPerSecond < 2 ^ 53 := Nat.div_lt_of_lt_mul (by rwa [Nat.mul_comm])
  have hbound : |((n / nanosPerSecond : Nat) : ℚ) + q| < Double.reach := by
    have hqle := (abs_le.mp hqnear).2
    have hfraction := fraction_le_one n
    have : ((n / nanosPerSecond : Nat) : ℚ) < 2 ^ 53 := by exact_mod_cast hwhole
    refine Double.lt_reach (n := 54) ?_ (by norm_num)
    rw [abs_of_nonneg (by positivity)]
    norm_num at hqle ⊢
    linarith
  obtain ⟨x, hx, hxnear⟩ := Double.value_add (Double.value_ofNat hwhole) hq hbound
  refine ⟨x, q, hx, hq0, hqnear, hxnear, fun hzero => ?_⟩
  obtain ⟨j, s, hj, hjlt, hs⟩ := Double.value_whole hq
  rw [hzero, Nat.cast_zero, zero_add] at hxnear
  exact hxnear.eq_of_whole hj hjlt hs

/-- Adding two numbers of which the second is a rounded fraction. -/
theorem abs_sub_le_of_fraction {whole : Nat} {x q ρ : ℚ} (hq : 0 ≤ q) (hρ0 : 0 ≤ ρ) (hρ1 : ρ ≤ 1)
    (hqnear : |q - ρ| ≤ 2 ^ (-53 : ℤ) * ρ) (hx : Nearest x (whole + q))
    (hzero : whole = 0 → x = q) :
    |x - (whole + ρ)| ≤ 2 ^ (-52 : ℤ) * (whole + ρ) := by
  rcases Nat.eq_zero_or_pos whole with rfl | hpos
  · rw [hzero rfl, Nat.cast_zero, zero_add]
    refine hqnear.trans ?_
    gcongr <;> norm_num
  · have hone : (1 : ℚ) ≤ whole := by exact_mod_cast hpos
    have habs : |(whole : ℚ) + q| = whole + q := abs_of_nonneg (by positivity)
    have hnear := hx.relative (by
      rw [habs]
      exact (zpow_le_one_of_nonpos₀ one_le_two (by norm_num)).trans (by linarith))
    rw [habs] at hnear
    rw [abs_le] at hqnear hnear ⊢
    norm_num at hqnear hnear ⊢
    constructor <;> linarith

/-- Seconds are off by at most one part in `2 ^ 52`. -/
theorem secondsOfNanos_near {n : Nat} (hn : n < 2 ^ 53 * nanosPerSecond) :
    ∃ x, (secondsOfNanos n).value = some x ∧ 0 ≤ x ∧
      |x * nanosPerSecond - n| ≤ 2 ^ (-52 : ℤ) * n := by
  obtain ⟨x, q, hx, hq0, hqnear, hxnear, hzero⟩ := value_secondsOfNanos hn
  have hpos := nanosPerSecond_pos
  have hspan := cast_eq_seconds n
  have hnear := abs_sub_le_of_fraction hq0 (by positivity) (fraction_le_one n) hqnear hxnear hzero
  refine ⟨x, hx, hxnear.nonneg (by positivity), ?_⟩
  have hscaled := mul_le_mul_of_nonneg_right hnear hpos.le
  rwa [mul_assoc, ← hspan, ← abs_of_pos hpos, ← abs_mul, sub_mul, abs_of_pos hpos, ← hspan]
    at hscaled

/-- Just below `2 ^ 34` seconds, rounding stays below. -/
theorem secondsOfNanos_le {n : Nat} (hn : n + 954 ≤ 2 ^ 34 * nanosPerSecond) {x : ℚ}
    (hx : (secondsOfNanos n).value = some x) : x ≤ 2 ^ 34 - 2 ^ (-21 : ℤ) := by
  obtain ⟨x', q, hx', hq0, hqnear, hxnear, -⟩ := value_secondsOfNanos (n := n) (by omega)
  obtain rfl : x' = x := by simpa [hx'] using hx
  refine hxnear.le_below_power (n := 34) (by positivity) ?_ (by norm_num)
  have hqle := (abs_le.mp hqnear).2
  have hfraction := fraction_le_one n
  have hspan : (n : ℚ) / nanosPerSecond =
      (n / nanosPerSecond : Nat) + (n % nanosPerSecond : Nat) / nanosPerSecond := by
    rw [div_eq_iff nanosPerSecond_pos.ne']
    exact cast_eq_seconds n
  have hbound : (n : ℚ) / nanosPerSecond ≤ 2 ^ 34 - 954 / 1000000000 := by
    have : (n : ℚ) + 954 ≤ 2 ^ 34 * 1000000000 := by exact_mod_cast hn
    have hsecond : (nanosPerSecond : ℚ) = 1000000000 := by norm_num [nanosPerSecond]
    rw [div_le_iff₀ nanosPerSecond_pos, hsecond]
    linarith
  norm_num at hqle hbound ⊢
  linarith

theorem nanosOfParts_near (m : Nat) (e : ℤ) :
    |(nanosOfParts m e : ℚ) - m * 2 ^ e * nanosPerSecond| ≤ 1 / 2 := by
  unfold nanosOfParts
  split_ifs with he
  · have : (2 : ℚ) ^ e = 2 ^ e.toNat := by rw [← zpow_natCast, Int.toNat_of_nonneg he]
    rw [this, twoTo_eq]
    push_cast
    rw [mul_right_comm, sub_self, abs_zero]
    norm_num
  · have hnear := Format.shiftRound_near false (m := m * nanosPerSecond) (n := (-e).toNat)
      (by omega) le_rfl (lt_add_one _) (fun _ => rfl)
    have hpow : (2 : ℚ) ^ (-e).toNat * 2 ^ e = 1 := by
      rw [← zpow_natCast, Int.toNat_of_nonneg (by omega), ← zpow_add₀ two_ne_zero, neg_add_cancel,
        zpow_zero]
    have hpos : (0 : ℚ) < 2 ^ e := by positivity
    have hscaled := mul_le_mul_of_nonneg_right hnear hpos.le
    rwa [← abs_of_pos hpos, ← abs_mul, sub_mul, abs_of_pos hpos, mul_assoc, hpow, mul_one,
      div_mul_eq_mul_div, hpow, Nat.cast_mul, mul_right_comm] at hscaled

/-- Seconds become the nearest whole number of nanoseconds. -/
theorem nanosOfSeconds_near {x : Double} {q : ℚ} (hx : x.value = some q) (hq : 0 ≤ q) :
    |(nanosOfSeconds x : ℚ) - q * nanosPerSecond| ≤ 1 / 2 := by
  obtain ⟨neg, m, e, hunpack, rfl⟩ := Double.value_eq_some_iff.mp hx
  cases neg with
  | false =>
    rw [nanosOfSeconds, hunpack]
    exact nanosOfParts_near m e
  | true =>
    have hzero : (m : ℚ) * 2 ^ e = 0 := by
      have := magnitude_nonneg m e
      simp only [signed, if_true] at hq
      linarith
    rw [nanosOfSeconds, hunpack, hzero]
    simp

/-! ## Doubling -/

namespace Backoff

variable (b : Backoff)

/-- The wait without a limit, in exact arithmetic. -/
def ideal (n : Nat) : Nat := b.base * 2 ^ min n maxDoublings

/-- Waits are rounded from the powers of two of one number `w` of nanoseconds, which is the first
wait off by at most one part in `2 ^ 52`. -/
theorem doubled_near {b : Backoff} (hb : b.base < 2 ^ 34 * nanosPerSecond) :
    ∃ x w : ℚ, (secondsOfNanos b.base).value = some x ∧ w = x * nanosPerSecond ∧ 0 ≤ w ∧
      |w - b.base| ≤ 2 ^ (-52 : ℤ) * b.base ∧
      ∀ n, |(b.doubled n : ℚ) - 2 ^ min n maxDoublings * w| ≤ 1 / 2 := by
  obtain ⟨x, hx, hx0, hnear⟩ := secondsOfNanos_near (n := b.base) (by omega)
  refine ⟨x, x * nanosPerSecond, hx, rfl, by positivity, hnear, fun n => ?_⟩
  have hk : min n maxDoublings ≤ 30 := min_le_right _ _
  rw [doubled]
  generalize min n maxDoublings = k at *
  have hpow : (Double.ofNat (twoTo k)).value = some (2 ^ k) := by
    have hlt : 2 ^ k < 2 ^ 53 := Nat.pow_lt_pow_right one_lt_two (by omega)
    rw [twoTo_eq, Double.value_ofNat hlt, Nat.cast_pow, Nat.cast_ofNat]
  have hbound : |2 ^ k * x| < Double.reach := by
    have hbase : (b.base : ℚ) ≤ 2 ^ 34 * nanosPerSecond := by exact_mod_cast hb.le
    have hle : x * nanosPerSecond ≤ 2 ^ 35 * nanosPerSecond :=
      calc x * nanosPerSecond ≤ b.base + 2 ^ (-52 : ℤ) * b.base := by
            linarith [(abs_le.mp hnear).2]
        _ ≤ b.base + 1 * b.base := by
            gcongr
            norm_num
        _ ≤ 2 ^ 35 * nanosPerSecond := by linarith
    have hx35 : x ≤ 2 ^ 35 := le_of_mul_le_mul_right hle nanosPerSecond_pos
    refine Double.lt_reach (n := 66) ?_ (by norm_num)
    rw [abs_of_nonneg (by positivity)]
    calc 2 ^ k * x ≤ 2 ^ 30 * 2 ^ 35 := by
          gcongr
          norm_num
      _ < 2 ^ (66 : ℤ) := by norm_num
  obtain ⟨y, hy, hynear⟩ := Double.value_mul hpow hx hbound
  obtain ⟨j, s, rfl, hjlt, hs⟩ := Double.value_whole hx
  have hexact : y = 2 ^ k * (j * 2 ^ s) := by
    refine hynear.eq_of_whole (j := j) (s := s + k) ?_ hjlt (by omega)
    rw [zpow_add₀ two_ne_zero, zpow_natCast]
    ring
  rw [← mul_assoc, ← hexact]
  exact nanosOfSeconds_near hy (hexact ▸ by positivity)

/-- Waits never shrink. -/
theorem doubled_mono {b : Backoff} (hb : b.base < 2 ^ 34 * nanosPerSecond) {m n : Nat} (h : m ≤ n) :
    b.doubled m ≤ b.doubled n := by
  obtain ⟨-, w, -, -, hw, -, hround⟩ := doubled_near hb
  have hm := abs_le.mp (hround m)
  have hn := abs_le.mp (hround n)
  rcases (min_le_min_right maxDoublings h).eq_or_lt with heq | hlt
  · rw [doubled, doubled, heq]
  have hpow : (2 : ℚ) ^ min m maxDoublings * 2 ≤ 2 ^ min n maxDoublings := by
    rw [← pow_succ]
    exact pow_le_pow_right₀ one_le_two hlt
  have hone : (1 : ℚ) ≤ 2 ^ min m maxDoublings := one_le_pow₀ one_le_two
  have hlt : (b.doubled m : ℚ) < b.doubled n + 1 := by
    rcases hw.eq_or_lt with rfl | hpos
    · linarith
    · nlinarith
  exact Nat.lt_succ_iff.mp (by exact_mod_cast hlt)

theorem cast_ideal (n : Nat) : (b.ideal n : ℚ) = 2 ^ min n maxDoublings * b.base := by
  rw [ideal]
  push_cast
  ring

/-- How far a wait is from exact arithmetic. -/
theorem doubled_error {b : Backoff} (hb : b.base < 2 ^ 34 * nanosPerSecond) (n : Nat) :
    |(b.doubled n : ℚ) - b.ideal n| ≤ 2 ^ (-52 : ℤ) * b.ideal n + 1 / 2 := by
  obtain ⟨-, w, -, -, -, hnear, hround⟩ := doubled_near hb
  have hscaled : |2 ^ min n maxDoublings * w - b.ideal n| ≤ 2 ^ (-52 : ℤ) * b.ideal n := by
    have hpos : (0 : ℚ) < 2 ^ min n maxDoublings := by positivity
    rw [cast_ideal, ← mul_sub, abs_mul, abs_of_pos hpos, mul_left_comm]
    gcongr
  calc |(b.doubled n : ℚ) - b.ideal n|
      ≤ |(b.doubled n : ℚ) - 2 ^ min n maxDoublings * w| +
          |2 ^ min n maxDoublings * w - b.ideal n| := abs_sub_le _ _ _
    _ ≤ 1 / 2 + 2 ^ (-52 : ℤ) * b.ideal n := add_le_add (hround n) hscaled
    _ = 2 ^ (-52 : ℤ) * b.ideal n + 1 / 2 := add_comm _ _

/-- Waits of less than `2 ^ 51` nanoseconds are exact. -/
theorem doubled_eq {b : Backoff} (hb : b.base < 2 ^ 34 * nanosPerSecond) {n : Nat}
    (hn : b.ideal n < 2 ^ 51) : b.doubled n = b.ideal n := by
  have hideal : (b.ideal n : ℚ) < 2 ^ 51 := by exact_mod_cast hn
  have herror : |(b.doubled n : ℚ) - b.ideal n| < 1 :=
    calc |(b.doubled n : ℚ) - b.ideal n| ≤ 2 ^ (-52 : ℤ) * b.ideal n + 1 / 2 := doubled_error hb n
      _ < 2 ^ (-52 : ℤ) * 2 ^ 51 + 1 / 2 := by gcongr
      _ = 1 := by norm_num
  have : |(b.doubled n : ℤ) - b.ideal n| < 1 := by exact_mod_cast herror
  have := Int.abs_lt_one_iff.mp this
  omega

/-- A limit below `2 ^ 51` nanoseconds hides the rounding. -/
theorem min_doubled {b : Backoff} (hb : b.base < 2 ^ 34 * nanosPerSecond) (n : Nat) {limit : Nat}
    (hlimit : limit < 2 ^ 51) : min (b.doubled n) limit = min (b.ideal n) limit := by
  rcases Nat.lt_or_ge (b.ideal n) (2 ^ 51) with hsmall | hlarge
  · rw [doubled_eq hb hsmall]
  -- both are at least the limit
  have hideal : (2 : ℚ) ^ 51 ≤ b.ideal n := by exact_mod_cast hlarge
  have herror := (abs_le.mp (doubled_error hb n)).1
  have hle : (2 : ℚ) ^ 51 ≤ b.doubled n + 1 :=
    calc (2 : ℚ) ^ 51 = (1 - (2 : ℚ) ^ (-52 : ℤ)) * 2 ^ 51 + 1 / 2 := by norm_num
      _ ≤ (1 - (2 : ℚ) ^ (-52 : ℤ)) * b.ideal n + 1 / 2 := by
          gcongr
      _ ≤ b.doubled n + 1 := by linarith
  have : 2 ^ 51 ≤ b.doubled n + 1 := by exact_mod_cast hle
  omega

/-- Waits are spans. -/
theorem doubled_lt_spanEnd {b : Backoff} (hb : b.base + 954 ≤ 2 ^ 34 * nanosPerSecond) (n : Nat) :
    b.doubled n < spanEnd := by
  obtain ⟨x, w, hx, rfl, hw, -, hround⟩ := doubled_near (b := b) (by omega)
  have hle := secondsOfNanos_le hb hx
  have hpow : (2 : ℚ) ^ min n maxDoublings ≤ 2 ^ 30 :=
    pow_le_pow_right₀ one_le_two (min_le_right _ _)
  have hn := (abs_le.mp (hround n)).2
  have hsecond : (nanosPerSecond : ℚ) = 1000000000 := by norm_num [nanosPerSecond]
  have hproduct : 2 ^ min n maxDoublings * (x * nanosPerSecond) ≤
      2 ^ 30 * ((2 ^ 34 - 2 ^ (-21 : ℤ)) * 1000000000) := by
    rw [hsecond] at hw ⊢
    gcongr
  have hend : (spanEnd : ℚ) = 2 ^ 64 * 1000000000 := by norm_num [spanEnd, nanosPerSecond]
  have hlt : (b.doubled n : ℚ) < spanEnd :=
    calc (b.doubled n : ℚ) ≤ 2 ^ min n maxDoublings * (x * nanosPerSecond) + 1 / 2 := by linarith
      _ ≤ 2 ^ 30 * ((2 ^ 34 - 2 ^ (-21 : ℤ)) * 1000000000) + 1 / 2 := by gcongr
      _ < spanEnd := by
          rw [hend]
          norm_num
  exact_mod_cast hlt

end Backoff

end Federation
