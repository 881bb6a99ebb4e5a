/-
  What floating-point words stand for, and how far one rounding is from the exact result.

  * `Unpacked.value`, `Double.value`: the rational number a finite word stands for;
  * `Nearest`: a number of 53 bits that no other one is nearer to the given number than, with its
    uses, `Nearest.relative`, `Nearest.eq_of_whole`, `Nearest.below` and `Nearest.above`;
  * `Format.shiftRound_near`: the one place where bits are dropped;
  * `Double.value_pack`: packing rounds once;
  * `Double.value_ofNat`, `value_mul`, `value_add`, `value_div`: so do the operations.
-/
import Federation.Numeric.Binary
import Mathlib

namespace Federation

theorem twoTo_eq (n : Nat) : twoTo n = 2 ^ n := by
  rw [twoTo]
  exact Nat.pow_eq

/-! ## Values -/

/-- A magnitude with its sign. -/
def signed (neg : Bool) (q : ℚ) : ℚ := if neg then -q else q

@[simp]
theorem signed_zero (neg : Bool) : signed neg 0 = 0 := by cases neg <;> simp [signed]

@[simp]
theorem abs_signed (neg : Bool) (q : ℚ) : |signed neg q| = |q| := by cases neg <;> simp [signed]

theorem signed_mul_signed (s t : Bool) (p q : ℚ) :
    signed s p * signed t q = signed (s != t) (p * q) := by
  cases s <;> cases t <;> simp [signed]

theorem signed_div_signed (s t : Bool) (p q : ℚ) :
    signed s p / signed t q = signed (s != t) (p / q) := by
  cases s <;> cases t <;> simp [signed, neg_div, div_neg]

theorem signed_mul (neg : Bool) (p q : ℚ) : signed neg (p * q) = signed neg p * q := by
  cases neg <;> simp [signed]

theorem signed_natAbs (i : ℤ) : signed (decide (i < 0)) (i.natAbs : ℚ) = i := by
  rw [Nat.cast_natAbs]
  rcases lt_or_ge i 0 with h | h
  · simp [signed, h, abs_of_neg]
  · simp [signed, h, not_lt.mpr h, abs_of_nonneg]

theorem magnitude_nonneg (m : Nat) (e : ℤ) : (0 : ℚ) ≤ m * 2 ^ e := by positivity

/-- A magnitude in units of a smaller exponent. -/
theorem mul_two_zpow (m : Nat) {base e : ℤ} (h : base ≤ e) :
    (m : ℚ) * 2 ^ e = (m * twoTo (e - base).toNat : Nat) * 2 ^ base := by
  rw [twoTo_eq, Nat.cast_mul, Nat.cast_pow, Nat.cast_ofNat, mul_assoc, ← zpow_natCast,
    ← zpow_add₀ two_ne_zero]
  congr 2
  omega

/-- The number a word stands for; infinities and what is no number stand for none. -/
def Unpacked.value : Unpacked → Option ℚ
  | .nan => none
  | .infinite _ => none
  | .finite neg m e => some (signed neg (m * 2 ^ e))

def Double.value (x : Double) : Option ℚ := x.unpack.value

theorem Unpacked.value_eq_some_iff {w : Unpacked} {q : ℚ} :
    w.value = some q ↔ ∃ neg m e, w = .finite neg m e ∧ signed neg (m * 2 ^ e) = q := by
  cases w <;> simp [Unpacked.value]

/-- No number below this overflows, however it is rounded. -/
def Double.reach : ℚ := 2 ^ (1023 : ℤ)

theorem Double.lt_reach {q : ℚ} {n : ℤ} (hq : q < 2 ^ n) (hn : n ≤ 1023) : q < Double.reach :=
  hq.trans_le (zpow_le_zpow_right₀ one_le_two hn)

/-! ## The nearest number -/

/-- `u` is `v` rounded to a multiple of `2 ^ t`, the weight of the last of 53 bits of `v`. -/
structure RoundedAt (t : ℤ) (u v : ℚ) : Prop where
  whole : ∃ r : ℤ, u = r * 2 ^ t
  near : |u - v| ≤ 2 ^ (t - 1)
  low : -1074 ≤ t
  fits : t = -1074 ∨ 2 ^ (t + 52) ≤ |v|

/-- `u` is `v` rounded once. -/
def Nearest (u v : ℚ) : Prop := ∃ t, RoundedAt t u v

theorem lt_of_two_zpow_lt {a b : ℤ} (h : (2 : ℚ) ^ a < 2 ^ b) : a < b :=
  (zpow_lt_zpow_iff_right₀ one_lt_two).mp h

theorem half_two_zpow (t : ℤ) : (2 : ℚ) ^ (t - 1) = 2 ^ t / 2 := by
  rw [zpow_sub₀ two_ne_zero, zpow_one]

/-- Multiples of the same unit that are at most half of it apart from a third one on either side
are one unit apart at most; one that is itself a multiple is met. -/
theorem RoundedAt.eq_of_whole {t : ℤ} {u v : ℚ} (h : RoundedAt t u v) {r : ℤ}
    (hv : v = r * 2 ^ t) : u = v := by
  obtain ⟨⟨k, rfl⟩, near, -, -⟩ := h
  have hpos : (0 : ℚ) < 2 ^ t := by positivity
  rw [hv, half_two_zpow, ← sub_mul, abs_mul, abs_of_pos hpos] at near
  have hlt : |((k - r : ℤ) : ℚ)| < 1 := by
    push_cast
    nlinarith [near, hpos, abs_nonneg ((k : ℚ) - r)]
  have hzero : k - r = 0 := Int.abs_lt_one_iff.mp (by exact_mod_cast hlt)
  rw [hv, Int.sub_eq_zero.mp hzero]

theorem Nearest.neg {u v : ℚ} (h : Nearest u v) : Nearest (-u) (-v) := by
  obtain ⟨t, ⟨r, rfl⟩, near, low, fits⟩ := h
  refine ⟨t, ⟨-r, by push_cast; ring⟩, ?_, low, by rwa [abs_neg]⟩
  rwa [neg_sub_neg, abs_sub_comm]

theorem Nearest.signed {u v : ℚ} (neg : Bool) (h : Nearest u v) :
    Nearest (signed neg u) (signed neg v) := by
  cases neg
  · exact h
  · exact h.neg

theorem Nearest.zero : Nearest 0 0 := ⟨-1074, ⟨0, by simp⟩, by simp, le_rfl, .inl rfl⟩

/-- A number that 53 bits can tell. -/
def Representable (p : ℚ) : Prop := ∃ j s : ℤ, p = j * 2 ^ s ∧ |j| < 2 ^ 53 ∧ -1074 ≤ s

namespace RoundedAt

variable {t j s : ℤ} {u v : ℚ}

/-- A number of 53 bits is whole in the unit in which a smaller number is rounded. -/
theorem le_of_abs_le (h : RoundedAt t u v) (hv : |v| ≤ |(j : ℚ) * 2 ^ s|) (hj : |j| < 2 ^ 53)
    (hs : -1074 ≤ s) : t ≤ s := by
  rcases h.fits with rfl | hfits
  · exact hs
  have habs : |(j : ℚ) * 2 ^ s| < 2 ^ (s + 53) := by
    rw [abs_mul, abs_of_pos (by positivity : (0 : ℚ) < 2 ^ s), zpow_add₀ two_ne_zero, mul_comm]
    have : |(j : ℚ)| < 2 ^ 53 := by exact_mod_cast hj
    gcongr
    exact_mod_cast this
  have := lt_of_two_zpow_lt (hfits.trans_lt (hv.trans_lt habs))
  omega

/-- Multiples of the unit are not passed by rounding upwards, -/
theorem abs_le_whole (h : RoundedAt t u v) {r : ℤ} (hv : |v| ≤ |(r : ℚ) * 2 ^ t|) :
    |u| ≤ |(r : ℚ) * 2 ^ t| := by
  obtain ⟨⟨k, rfl⟩, near, -, -⟩ := h
  have hpos : (0 : ℚ) < 2 ^ t := by positivity
  have hle : |(k : ℚ) * 2 ^ t| ≤ |v| + 2 ^ t / 2 := by
    rw [half_two_zpow] at near
    linarith [abs_sub_abs_le_abs_sub ((k : ℚ) * 2 ^ t) v]
  simp only [abs_mul, abs_of_pos hpos] at hle hv ⊢
  have hlt : |(k : ℚ)| < |(r : ℚ)| + 1 := by
    refine lt_of_mul_lt_mul_right ?_ hpos.le
    linarith
  have : |k| < |r| + 1 := by exact_mod_cast hlt
  have hle : |(k : ℚ)| ≤ |(r : ℚ)| := by exact_mod_cast (by omega : |k| ≤ |r|)
  exact mul_le_mul_of_nonneg_right hle hpos.le

/-- nor by rounding downwards. -/
theorem whole_le_abs (h : RoundedAt t u v) {r : ℤ} (hv : |(r : ℚ) * 2 ^ t| ≤ |v|) :
    |(r : ℚ) * 2 ^ t| ≤ |u| := by
  obtain ⟨⟨k, rfl⟩, near, -, -⟩ := h
  have hpos : (0 : ℚ) < 2 ^ t := by positivity
  have hle : |v| ≤ |(k : ℚ) * 2 ^ t| + 2 ^ t / 2 := by
    rw [half_two_zpow, abs_sub_comm] at near
    linarith [abs_sub_abs_le_abs_sub v ((k : ℚ) * 2 ^ t)]
  simp only [abs_mul, abs_of_pos hpos] at hle hv ⊢
  have hlt : |(r : ℚ)| < |(k : ℚ)| + 1 := by
    refine lt_of_mul_lt_mul_right ?_ hpos.le
    linarith
  have : |r| < |k| + 1 := by exact_mod_cast hlt
  have hle : |(r : ℚ)| ≤ |(k : ℚ)| := by exact_mod_cast (by omega : |r| ≤ |k|)
  exact mul_le_mul_of_nonneg_right hle hpos.le

end RoundedAt

theorem mul_two_zpow_eq (j : ℤ) {t s : ℤ} (h : t ≤ s) :
    (j : ℚ) * 2 ^ s = (j * 2 ^ (s - t).toNat : ℤ) * 2 ^ t := by
  push_cast
  rw [mul_assoc, ← zpow_natCast, Int.toNat_of_nonneg (by omega), ← zpow_add₀ two_ne_zero]
  congr 2
  omega

/-- A number of 53 bits is not rounded at all. -/
theorem Nearest.eq_of_whole {u v : ℚ} (h : Nearest u v) {j s : ℤ} (hv : v = j * 2 ^ s)
    (hj : |j| < 2 ^ 53) (hs : -1074 ≤ s) : u = v := by
  obtain ⟨t, h⟩ := h
  have hts := h.le_of_abs_le (by rw [hv]) hj hs
  exact h.eq_of_whole (hv.trans (mul_two_zpow_eq j hts))

/-- Rounding does not pass a number of 53 bits upwards, -/
theorem Nearest.below {u v p : ℚ} (h : Nearest u v) (hp : Representable p) (hv : |v| ≤ |p|) :
    |u| ≤ |p| := by
  obtain ⟨t, h⟩ := h
  obtain ⟨j, s, rfl, hj, hs⟩ := hp
  have hts := h.le_of_abs_le hv hj hs
  rw [mul_two_zpow_eq j hts] at hv ⊢
  exact h.abs_le_whole hv

/-- nor downwards. -/
theorem Nearest.above {u v p : ℚ} (h : Nearest u v) (hp : Representable p) (hv : |p| ≤ |v|) :
    |p| ≤ |u| := by
  obtain ⟨t, h⟩ := h
  obtain ⟨j, s, rfl, hj, hs⟩ := hp
  rcases le_or_gt t s with hts | hts
  · rw [mul_two_zpow_eq j hts] at hv ⊢
    exact h.whole_le_abs hv
  · -- the unit is larger than that of the number, and so is the first number of 53 bits in it
    have hfits := h.fits.resolve_left (by omega)
    have hpower : |((2 ^ 52 : ℤ) : ℚ) * 2 ^ t| = 2 ^ (t + 52) := by
      rw [abs_of_nonneg (by positivity), zpow_add₀ two_ne_zero, mul_comm]
      norm_num
    have hsmall : |(j : ℚ) * 2 ^ s| ≤ 2 ^ (t + 52) := by
      rw [abs_mul, abs_of_pos (by positivity : (0 : ℚ) < 2 ^ s)]
      have hj : |(j : ℚ)| ≤ 2 ^ (53 : ℤ) := by exact_mod_cast hj.le
      calc |(j : ℚ)| * 2 ^ s ≤ 2 ^ (53 : ℤ) * 2 ^ s := by gcongr
        _ = 2 ^ (53 + s) := (zpow_add₀ two_ne_zero _ _).symm
        _ ≤ 2 ^ (t + 52) := zpow_le_zpow_right₀ one_le_two (by omega)
    rw [← hpower] at hsmall hfits
    exact hsmall.trans (h.whole_le_abs hfits)

theorem Representable.one : Representable 1 := ⟨1, 0, by norm_num, by norm_num, by norm_num⟩

/-- Only zero is rounded to zero, among the multiples of the smallest unit. -/
theorem Nearest.eq_zero {v : ℚ} (h : Nearest 0 v) {i s : ℤ} (hv : v = i * 2 ^ s)
    (hs : -1074 ≤ s) : v = 0 := by
  rcases eq_or_ne i 0 with rfl | hi
  · simpa using hv
  have hle : |((1 : ℤ) : ℚ) * 2 ^ s| ≤ |v| := by
    have hone : |((1 : ℤ) : ℚ)| ≤ |(i : ℚ)| := by
      rw [Int.cast_one, abs_one]
      exact_mod_cast Int.one_le_abs hi
    rw [hv, abs_mul, abs_mul]
    exact mul_le_mul_of_nonneg_right hone (abs_nonneg _)
  have := h.above ⟨1, s, rfl, by norm_num, hs⟩ hle
  rw [abs_zero] at this
  exact absurd (abs_nonpos_iff.mp this) (by positivity)

/-- Rounding changes a number by at most one part in `2 ^ 53`, unless it is very small. -/
theorem Nearest.relative {u v : ℚ} (h : Nearest u v) (hv : 2 ^ (-1022 : ℤ) ≤ |v|) :
    |u - v| ≤ 2 ^ (-53 : ℤ) * |v| := by
  obtain ⟨t, h⟩ := h
  have hunit : (2 : ℚ) ^ (t + 52) ≤ |v| := by
    rcases h.fits with rfl | hfits
    · exact hv
    · exact hfits
  calc |u - v| ≤ 2 ^ (t - 1) := h.near
    _ = 2 ^ (-53 : ℤ) * 2 ^ (t + 52) := by
        rw [← zpow_add₀ two_ne_zero]
        congr 1
        ring
    _ ≤ 2 ^ (-53 : ℤ) * |v| := by gcongr

theorem Nearest.nonneg {u v : ℚ} (h : Nearest u v) (hv : 0 ≤ v) : 0 ≤ u := by
  obtain ⟨t, ⟨r, rfl⟩, near, -, -⟩ := h
  have hpos : (0 : ℚ) < 2 ^ t := by positivity
  rw [half_two_zpow] at near
  have hlow : -(2 ^ t / 2) ≤ (r : ℚ) * 2 ^ t := by linarith [(abs_le.mp near).1]
  have hr : (-1 : ℚ) < r := by nlinarith
  have : -1 < r := by exact_mod_cast hr
  have : (0 : ℚ) ≤ r := by exact_mod_cast (by omega : 0 ≤ r)
  positivity

/-- A number that is nearer to the last one before a power of two than to the power itself stays
below the power. -/
theorem Nearest.le_below_power {u v : ℚ} (h : Nearest u v) {n : ℤ} (hv0 : 0 ≤ v)
    (hv : v < 2 ^ n - 2 ^ (n - 54)) (hn : -1020 ≤ n) : u ≤ 2 ^ n - 2 ^ (n - 55) := by
  obtain ⟨t, ⟨r, rfl⟩, near, low, fits⟩ := h
  have hnear := (abs_le.mp near).2
  have ht : t ≤ n - 53 := by
    rcases fits with rfl | hfits
    · omega
    rw [abs_of_nonneg hv0] at hfits
    have hlt : (2 : ℚ) ^ (t + 52) < 2 ^ n :=
      hfits.trans_lt (hv.trans (sub_lt_self _ (by positivity)))
    have := lt_of_two_zpow_lt hlt
    omega
  have hfine : (2 : ℚ) ^ (n - 54) = 2 * 2 ^ (n - 55) := by
    rw [show n - 54 = 1 + (n - 55) by ring, zpow_add₀ two_ne_zero, zpow_one]
  rcases ht.eq_or_lt with rfl | ht
  · -- the last number before the power is one unit below it
    have hunit : (0 : ℚ) < 2 ^ (n - 53) := by positivity
    have hpower : (2 : ℚ) ^ n = 2 ^ 53 * 2 ^ (n - 53) := by
      rw [← zpow_natCast, ← zpow_add₀ two_ne_zero]
      congr 1
      omega
    have hhalf : (2 : ℚ) ^ (n - 53 - 1) = 2 ^ (n - 54) := by
      congr 1
      ring
    have hlt : (r : ℚ) < 2 ^ 53 := by
      refine lt_of_mul_lt_mul_right ?_ hunit.le
      linarith
    have hle : (r : ℚ) ≤ 2 ^ 53 - 1 := by
      have : r ≤ 2 ^ 53 - 1 := by
        have : r < 2 ^ 53 := by exact_mod_cast hlt
        omega
      exact_mod_cast this
    have hstep : (2 : ℚ) ^ (n - 55) ≤ 2 ^ (n - 53) := zpow_le_zpow_right₀ one_le_two (by omega)
    have := mul_le_mul_of_nonneg_right hle hunit.le
    linarith
  · have : (2 : ℚ) ^ (t - 1) ≤ 2 ^ (n - 55) := zpow_le_zpow_right₀ one_le_two (by omega)
    linarith

/-! ## Dropping bits -/

/-- Shifting right rounds to the nearest number: by at most half a unit of what is kept. -/
theorem Format.shiftRound_near {m n : Nat} (sticky : Bool) {y : ℚ} (hn : 0 < n) (hlow : m ≤ y)
    (hhigh : y < m + 1) (hexact : sticky = false → y = m) :
    |(Format.shiftRound m n sticky : ℚ) * 2 ^ n - y| ≤ 2 ^ n / 2 := by
  obtain ⟨n, rfl⟩ : ∃ k, n = k + 1 := ⟨n - 1, by omega⟩
  have hsplit : (m : ℚ) = 2 ^ (n + 1) * (m / 2 ^ (n + 1) : Nat) + (m % 2 ^ (n + 1) : Nat) := by
    exact_mod_cast (Nat.div_add_mod m (2 ^ (n + 1))).symm
  have hlost : ((m % 2 ^ (n + 1) : Nat) : ℚ) + 1 ≤ 2 ^ (n + 1) := by
    exact_mod_cast Nat.mod_lt m (by positivity)
  have hpow : (2 : ℚ) ^ (n + 1) = 2 * 2 ^ n := by ring
  simp only [Format.shiftRound, twoTo_eq, Nat.add_sub_cancel]
  rw [abs_le]
  split_ifs with habove htie hup
  · have : (2 : ℚ) ^ n + 1 ≤ (m % 2 ^ (n + 1) : Nat) := by exact_mod_cast habove
    push_cast
    constructor <;> linarith
  · have : ((m % 2 ^ (n + 1) : Nat) : ℚ) = 2 ^ n := by exact_mod_cast htie
    push_cast
    constructor <;> linarith
  · have : ((m % 2 ^ (n + 1) : Nat) : ℚ) = 2 ^ n := by exact_mod_cast htie
    have hsticky : sticky = false := by
      cases sticky
      · rfl
      · simp at hup
    have := hexact hsticky
    constructor <;> linarith
  · have : ((m % 2 ^ (n + 1) : Nat) : ℚ) + 1 ≤ 2 ^ n := by
      exact_mod_cast Nat.lt_of_le_of_ne (Nat.not_lt.mp habove) htie
    constructor <;> linarith

/-! ## Packing -/

/-- A word taken apart, with or without the sign bit. -/
theorem Format.unpack_signed (neg : Bool) {g : Nat} (hg : g < 2 ^ 63) :
    Format.double.unpack (if neg then 2 ^ 63 + g else g) =
      if g = 2047 * 2 ^ 52 then .infinite neg
      else if 2047 * 2 ^ 52 < g then .nan
      else if g / 2 ^ 52 = 0 then .finite neg (g % 2 ^ 52) (-1074)
      else .finite neg (2 ^ 52 + g % 2 ^ 52) (-1074 + (g / 2 ^ 52 - 1 : Nat)) := by
  have hsign : decide (2 ^ 63 ≤ if neg then 2 ^ 63 + g else g) = neg := by
    cases neg
    · simp
      omega
    · simp
  have hmagnitude : (if neg then 2 ^ 63 + g else g) % 2 ^ 63 = g := by
    cases neg
    · simp
      omega
    · simp
      omega
  simp only [Format.unpack, Format.double, twoTo_eq, Nat.reduceSub]
  rw [hsign, hmagnitude]

/-- A word with exponent field `k` and significand `r`, a carry out of the significand included. -/
theorem Format.value_unpack_word (neg : Bool) {k r : Nat} (hr : r ≤ 2 ^ 53)
    (hk : k = 0 ∨ 2 ^ 52 ≤ r) (hfits : k * 2 ^ 52 + r < 2047 * 2 ^ 52) :
    (Format.double.unpack
        (if neg then 2 ^ 63 + (k * 2 ^ 52 + r) else k * 2 ^ 52 + r)).value =
      some (signed neg (r * 2 ^ ((k : ℤ) - 1074))) := by
  rw [Format.unpack_signed neg (by omega), if_neg (by omega), if_neg (by omega)]
  rcases Nat.lt_or_ge r (2 ^ 52) with hsmall | hlarge
  · obtain rfl : k = 0 := by omega
    have hmod : (0 * 2 ^ 52 + r) % 2 ^ 52 = r := by omega
    rw [if_pos (by omega), hmod]
    simp [Unpacked.value]
  rcases Nat.lt_or_ge r (2 ^ 53) with hnormal | hcarry
  · have hdiv : (k * 2 ^ 52 + r) / 2 ^ 52 = k + 1 := by omega
    have hmod : 2 ^ 52 + (k * 2 ^ 52 + r) % 2 ^ 52 = r := by omega
    rw [if_neg (by omega), hdiv, hmod, Nat.add_sub_cancel]
    simp only [Unpacked.value]
    congr 4
  · obtain rfl : r = 2 ^ 53 := by omega
    have hdiv : (k * 2 ^ 52 + 2 ^ 53) / 2 ^ 52 = k + 2 := by omega
    have hmod : 2 ^ 52 + (k * 2 ^ 52 + 2 ^ 53) % 2 ^ 52 = 2 ^ 52 := by omega
    have hexp : (-1074 : ℤ) + (k + 2 - 1 : Nat) = 1 + (k - 1074) := by omega
    have hvalue : ((2 ^ 52 : Nat) : ℚ) * 2 ^ (1 + ((k : ℤ) - 1074)) =
        ((2 ^ 53 : Nat) : ℚ) * 2 ^ ((k : ℤ) - 1074) := by
      rw [zpow_add₀ two_ne_zero, zpow_one, Nat.cast_pow, Nat.cast_pow]
      ring
    rw [if_neg (by omega), hdiv, hmod, hexp, Unpacked.value, hvalue]

/-- The exact magnitude `v` of what is packed: `m * 2 ^ e`, or with `sticky` something above it
that is less than `(m + 1) * 2 ^ e`. -/
structure Packable (m : Nat) (e : ℤ) (sticky : Bool) (v : ℚ) : Prop where
  positive : m ≠ 0
  low : m * 2 ^ e ≤ v
  high : v < (m + 1) * 2 ^ e
  exact : sticky = false → v = m * 2 ^ e
  /-- Something left over is only seen below the bits that are kept. -/
  wide : sticky = true → 2 ^ 53 ≤ m

namespace Packable

variable {m : Nat} {e : ℤ} {sticky : Bool} {v : ℚ}

/-- The weight of the last bit that is kept. -/
def unit (m : Nat) (e : ℤ) : ℤ := max (-1074) (e + (m.log2 + 1 : Nat) - 53)

/-- The significand that is kept. -/
def kept (m : Nat) (e : ℤ) (sticky : Bool) : Nat :=
  if unit m e ≤ e then m * twoTo (e - unit m e).toNat
  else Format.shiftRound m (unit m e - e).toNat sticky

theorem two_pow_log2_le (h : Packable m e sticky v) : 2 ^ (e + m.log2) ≤ v := by
  refine le_trans ?_ h.low
  have hlog : (2 : ℚ) ^ m.log2 ≤ m := by exact_mod_cast Nat.log2_self_le h.positive
  rw [zpow_add₀ two_ne_zero, zpow_natCast, mul_comm]
  gcongr

theorem lt_two_pow_unit (h : Packable m e sticky v) : v < 2 ^ (unit m e + 53) := by
  have hlog : (m : ℚ) + 1 ≤ 2 ^ (m.log2 + 1) := by exact_mod_cast Nat.lt_log2_self (n := m)
  calc v < (m + 1) * 2 ^ e := h.high
    _ ≤ 2 ^ (m.log2 + 1) * 2 ^ e := by gcongr
    _ = 2 ^ (((m.log2 + 1 : Nat) : ℤ) + e) := by rw [zpow_add₀ two_ne_zero, zpow_natCast]
    _ ≤ 2 ^ (unit m e + 53) := by
        refine zpow_le_zpow_right₀ one_le_two ?_
        unfold unit
        omega

theorem kept_near (h : Packable m e sticky v) :
    |(kept m e sticky : ℚ) * 2 ^ unit m e - v| ≤ 2 ^ (unit m e - 1) := by
  unfold kept
  split_ifs with hfits
  · have hsticky : sticky = false := by
      cases hs : sticky
      · rfl
      have hlog : 53 ≤ m.log2 := (Nat.le_log2 h.positive).mpr (h.wide hs)
      unfold unit at hfits
      omega
    rw [h.exact hsticky, mul_two_zpow m hfits, sub_self, abs_zero]
    positivity
  · have hpos : (0 : ℚ) < 2 ^ e := by positivity
    have hshift : (2 : ℚ) ^ (unit m e - e).toNat * 2 ^ e = 2 ^ unit m e := by
      rw [← zpow_natCast, ← zpow_add₀ two_ne_zero]
      congr 1
      omega
    have hnear := Format.shiftRound_near sticky (n := (unit m e - e).toNat) (y := v / 2 ^ e)
      (by omega) ((le_div_iff₀ hpos).mpr h.low) ((div_lt_iff₀ hpos).mpr h.high)
      fun hs => (div_eq_iff hpos.ne').mpr (h.exact hs)
    have hscaled := mul_le_mul_of_nonneg_right hnear hpos.le
    rwa [← abs_of_pos hpos, ← abs_mul, sub_mul, abs_of_pos hpos, div_mul_cancel₀ _ hpos.ne',
      mul_assoc, hshift, div_mul_eq_mul_div, hshift, ← half_two_zpow] at hscaled

theorem kept_le (h : Packable m e sticky v) : kept m e sticky ≤ 2 ^ 53 := by
  have hnear := (abs_le.mp h.kept_near).2
  have hlt := h.lt_two_pow_unit
  have hpos : (0 : ℚ) < 2 ^ unit m e := by positivity
  rw [half_two_zpow] at hnear
  rw [zpow_add₀ two_ne_zero] at hlt
  have : (kept m e sticky : ℚ) < 2 ^ 53 + 1 := by
    refine lt_of_mul_lt_mul_right ?_ hpos.le
    have : (2 : ℚ) ^ (53 : ℤ) = 2 ^ 53 := by norm_cast
    rw [this] at hlt
    linarith
  exact Nat.lt_succ_iff.mp (by exact_mod_cast this)

theorem unit_fits (h : Packable m e sticky v) :
    unit m e = -1074 ∨ 2 ^ (unit m e + 52) ≤ v := by
  rcases le_or_gt (e + (m.log2 + 1 : Nat) - 53) (-1074) with hsmall | hlarge
  · exact .inl (max_eq_left hsmall)
  · refine .inr (le_of_eq_of_le ?_ h.two_pow_log2_le)
    congr 1
    unfold unit
    omega

theorem le_kept (h : Packable m e sticky v) (hunit : unit m e ≠ -1074) :
    2 ^ 52 ≤ kept m e sticky := by
  have hnear := (abs_le.mp h.kept_near).1
  have hle := h.unit_fits.resolve_left hunit
  have hpos : (0 : ℚ) < 2 ^ unit m e := by positivity
  rw [half_two_zpow] at hnear
  rw [zpow_add₀ two_ne_zero] at hle
  have : (2 : ℚ) ^ 52 < kept m e sticky + 1 := by
    refine lt_of_mul_lt_mul_right ?_ hpos.le
    have : (2 : ℚ) ^ (52 : ℤ) = 2 ^ 52 := by norm_cast
    rw [this] at hle
    linarith
  exact Nat.lt_succ_iff.mp (by exact_mod_cast this)

theorem roundedAt (h : Packable m e sticky v) :
    RoundedAt (unit m e) (kept m e sticky * 2 ^ unit m e) v where
  whole := ⟨kept m e sticky, by push_cast; rfl⟩
  near := h.kept_near
  low := le_max_left _ _
  fits := by
    rw [abs_of_nonneg (le_trans (by positivity) h.two_pow_log2_le)]
    exact h.unit_fits

theorem unit_le (h : Packable m e sticky v) (hbound : v < Double.reach) : unit m e ≤ 970 := by
  rcases h.unit_fits with hunit | hle
  · omega
  have := lt_of_two_zpow_lt (hle.trans_lt hbound)
  omega

theorem pack_eq (h : Packable m e sticky v) (neg : Bool) :
    Format.double.pack neg m e sticky =
      if neg then
        2 ^ 63 + min (2047 * 2 ^ 52) ((unit m e + 1074).toNat * 2 ^ 52 + kept m e sticky)
      else min (2047 * 2 ^ 52) ((unit m e + 1074).toNat * 2 ^ 52 + kept m e sticky) := by
  simp only [Format.pack, if_neg h.positive, Format.double, twoTo_eq]
  rfl

end Packable

/-- Packing rounds once, or says that the number is too large. -/
theorem Double.value_pack_cases (neg : Bool) {m : Nat} {e : ℤ} {sticky : Bool} {v : ℚ}
    (h : Packable m e sticky v) :
    (∃ u, (Double.pack neg m e sticky).value = some u ∧ Nearest u (signed neg v)) ∨
      (Double.pack neg m e sticky).value = none ∧ Double.reach ≤ v := by
  obtain ⟨k, hk⟩ : ∃ k : Nat, (k : ℤ) = Packable.unit m e + 1074 :=
    ⟨_, Int.toNat_of_nonneg (by have : -1074 ≤ Packable.unit m e := le_max_left _ _; omega)⟩
  have hkept := h.kept_le
  have hfield : k = 0 ∨ 2 ^ 52 ≤ Packable.kept m e sticky := by
    rcases eq_or_ne (Packable.unit m e) (-1074) with heq | hne
    · exact .inl (by omega)
    · exact .inr (h.le_kept hne)
  have hbits : (UInt64.ofNat (Format.double.pack neg m e sticky)).toNat =
      Format.double.pack neg m e sticky := by
    refine UInt64.toNat_ofNat_of_lt' ?_
    rw [h.pack_eq, UInt64.size]
    cases neg
    · simp
    · simp
      omega
  rw [Double.value, Double.unpack, Double.pack, hbits, h.pack_eq, ← hk, Int.toNat_natCast]
  rcases Nat.lt_or_ge (k * 2 ^ 52 + Packable.kept m e sticky) (2047 * 2 ^ 52) with hfits | hlarge
  · refine .inl ⟨_, ?_, .signed neg ⟨_, h.roundedAt⟩⟩
    rw [min_eq_right hfits.le, Format.value_unpack_word neg hkept hfield hfits, hk,
      add_sub_cancel_right]
  · refine .inr ⟨?_, ?_⟩
    · rw [min_eq_left hlarge, Format.unpack_signed neg (by norm_num), if_pos rfl]
      rfl
    · by_contra hbound
      have := h.unit_le (not_le.mp hbound)
      omega

theorem Double.value_pack (neg : Bool) {m : Nat} {e : ℤ} {sticky : Bool} {v : ℚ}
    (h : Packable m e sticky v) (hbound : v < Double.reach) :
    ∃ u, (Double.pack neg m e sticky).value = some u ∧ Nearest u (signed neg v) :=
  (Double.value_pack_cases neg h).resolve_right fun hlarge => not_le.mpr hbound hlarge.2

/-! ## Operations -/

namespace Double

variable {x y : Double} {p q : ℚ}

theorem value_pack_zero (neg : Bool) (e : ℤ) (sticky : Bool) :
    (pack neg 0 e sticky).value = some 0 := by
  have hword : (pack neg 0 e sticky).bits = if neg then 9223372036854775808 else 0 := by
    cases neg <;> rfl
  have hunpack : (pack neg 0 e sticky).unpack = .finite neg 0 (-1074) := by
    rw [unpack, hword]
    cases neg <;> decide
  rw [value, hunpack]
  simp [Unpacked.value]

/-- What is not cut off is rounded once, whatever its length. -/
theorem value_pack_whole_cases (neg : Bool) (m : Nat) (e : ℤ) :
    (∃ u, (pack neg m e false).value = some u ∧ Nearest u (signed neg (m * 2 ^ e))) ∨
      (pack neg m e false).value = none ∧ reach ≤ m * 2 ^ e := by
  rcases Nat.eq_zero_or_pos m with rfl | hpos
  · exact .inl ⟨0, value_pack_zero _ _ _, by simpa using Nearest.zero⟩
  refine value_pack_cases neg ⟨hpos.ne', le_rfl, ?_, fun _ => rfl, nofun⟩
  have : (0 : ℚ) < 2 ^ e := by positivity
  linarith

theorem value_pack_whole (neg : Bool) {m : Nat} {e : ℤ} (hm : (m : ℚ) * 2 ^ e < reach) :
    ∃ u, (pack neg m e false).value = some u ∧ Nearest u (signed neg (m * 2 ^ e)) :=
  (value_pack_whole_cases neg m e).resolve_right fun hlarge => not_le.mpr hm hlarge.2

theorem value_eq_some_iff :
    x.value = some q ↔ ∃ neg m e, x.unpack = .finite neg m e ∧ signed neg (m * 2 ^ e) = q :=
  Unpacked.value_eq_some_iff

/-- A word has at most 53 bits of significand. -/
theorem significand_of_unpack {x : Double} {neg : Bool} {m : Nat} {e : ℤ}
    (h : x.unpack = .finite neg m e) : m < 2 ^ 53 ∧ -1074 ≤ e := by
  have hmod : x.bits.toNat % 2 ^ 63 % 2 ^ 52 < 2 ^ 52 := Nat.mod_lt _ (by norm_num)
  simp only [unpack, Format.unpack, Format.double, twoTo_eq, Nat.reduceSub] at h
  split_ifs at h <;> cases h <;> omega

theorem value_whole (hx : x.value = some p) : Representable p := by
  obtain ⟨neg, m, e, hunpack, rfl⟩ := value_eq_some_iff.mp hx
  obtain ⟨hm, he⟩ := significand_of_unpack hunpack
  refine ⟨if neg then -m else m, e, ?_, ?_, he⟩
  · cases neg <;> simp [signed]
  · have : (m : ℤ) < 2 ^ 53 := by exact_mod_cast hm
    cases neg <;> simpa using this

/-- Natural numbers of 53 bits are kept as they are. -/
theorem value_ofNat {n : Nat} (hn : n < 2 ^ 53) : (ofNat n).value = some (n : ℚ) := by
  have hbound : (n : ℚ) * 2 ^ (0 : ℤ) < reach := by
    rw [zpow_zero, mul_one]
    exact lt_reach (n := 53) (by exact_mod_cast hn) (by norm_num)
  obtain ⟨u, hu, hnear⟩ := value_pack_whole false hbound
  have hwhole : u = n := by
    have : signed false ((n : ℚ) * 2 ^ (0 : ℤ)) = n := by simp [signed]
    rw [this] at hnear
    refine hnear.eq_of_whole (j := n) (s := 0) (by simp) ?_ (by norm_num)
    simpa using (by exact_mod_cast hn : (n : ℤ) < 2 ^ 53)
  rw [ofNat, hu, hwhole]

/-- A product is rounded once, unless it is too large. -/
theorem value_mul_cases (hx : x.value = some p) (hy : y.value = some q) :
    (∃ u, (x * y).value = some u ∧ Nearest u (p * q)) ∨
      (x * y).value = none ∧ reach ≤ |p * q| := by
  obtain ⟨s, m, d, hxu, rfl⟩ := value_eq_some_iff.mp hx
  obtain ⟨t, n, e, hyu, rfl⟩ := value_eq_some_iff.mp hy
  have hproduct : ((m * n : Nat) : ℚ) * 2 ^ (d + e) = m * 2 ^ d * (n * 2 ^ e) := by
    rw [zpow_add₀ two_ne_zero]
    push_cast
    ring
  have hmul : x * y = pack (s != t) (m * n) (d + e) false := by
    change mul x y = _
    simp only [mul, hxu, hyu]
  rw [signed_mul_signed, ← hproduct, abs_signed, abs_of_nonneg (magnitude_nonneg _ _), hmul]
  exact value_pack_whole_cases ..

theorem value_mul (hx : x.value = some p) (hy : y.value = some q)
    (hbound : |p * q| < reach) :
    ∃ u, (x * y).value = some u ∧ Nearest u (p * q) :=
  (value_mul_cases hx hy).resolve_right fun hlarge => not_le.mpr hbound hlarge.2

/-- A sum is rounded once, unless it is too large. -/
theorem value_add_cases (hx : x.value = some p) (hy : y.value = some q) :
    (∃ u, (x + y).value = some u ∧ Nearest u (p + q)) ∨
      (x + y).value = none ∧ reach ≤ |p + q| := by
  obtain ⟨s, m, d, hxu, rfl⟩ := value_eq_some_iff.mp hx
  obtain ⟨t, n, e, hyu, rfl⟩ := value_eq_some_iff.mp hy
  -- both terms in units of the smaller exponent
  obtain ⟨sum, hsum⟩ : ∃ sum : ℤ,
      sum = (if s then -((m * twoTo (d - min d e).toNat : Nat) : ℤ)
          else (m * twoTo (d - min d e).toNat : Nat)) +
        (if t then -((n * twoTo (e - min d e).toNat : Nat) : ℤ)
          else (n * twoTo (e - min d e).toNat : Nat)) := ⟨_, rfl⟩
  have hexact : signed s (m * 2 ^ d) + signed t (n * 2 ^ e) = sum * 2 ^ min d e := by
    have hleft := mul_two_zpow m (min_le_left d e)
    have hright := mul_two_zpow n (min_le_right d e)
    rw [hsum, hleft, hright]
    cases s <;> cases t <;> simp [signed, twoTo_eq] <;> ring
  have hadd : x + y = if sum = 0 then pack (s && t) 0 0 false
      else pack (decide (sum < 0)) sum.natAbs (min d e) false := by
    change add x y = _
    simp only [add, hxu, hyu, ← hsum]
  rw [hexact, hadd]
  split_ifs with hzero
  · exact .inl ⟨0, value_pack_zero _ _ _, by simpa [hzero] using Nearest.zero⟩
  have hsigned : signed (decide (sum < 0)) ((sum.natAbs : ℚ) * 2 ^ min d e) =
      sum * 2 ^ min d e := by
    rw [← signed_natAbs, signed_mul]
  rw [← hsigned, abs_signed, abs_of_nonneg (magnitude_nonneg _ _)]
  exact value_pack_whole_cases ..

theorem value_add (hx : x.value = some p) (hy : y.value = some q) (hbound : |p + q| < reach) :
    ∃ u, (x + y).value = some u ∧ Nearest u (p + q) :=
  (value_add_cases hx hy).resolve_right fun hlarge => not_le.mpr hbound hlarge.2

/-- What an integer quotient with enough bits and its remainder say about the exact quotient. -/
theorem packable_quotient {m n : Nat} (hm : m ≠ 0) (hn : n ≠ 0) (d e : ℤ) {shift : Nat}
    (hshift : 58 + n.log2 ≤ m.log2 + shift) :
    Packable (m * twoTo shift / n) (d - e - shift) (decide (m * twoTo shift % n ≠ 0))
      (m * 2 ^ d / (n * 2 ^ e)) := by
  have hwide : 2 ^ 53 ≤ m * twoTo shift / n := by
    rw [Nat.le_div_iff_mul_le (Nat.pos_of_ne_zero hn), twoTo_eq]
    calc 2 ^ 53 * n ≤ 2 ^ 53 * 2 ^ (n.log2 + 1) := by gcongr; exact Nat.lt_log2_self.le
      _ = 2 ^ (54 + n.log2) := by rw [← pow_add]; congr 1; ring
      _ ≤ 2 ^ (m.log2 + shift) := Nat.pow_le_pow_right two_pos (by omega)
      _ = 2 ^ m.log2 * 2 ^ shift := pow_add _ _ _
      _ ≤ m * 2 ^ shift := by gcongr; exact Nat.log2_self_le hm
  have hpos : (0 : ℚ) < n := by exact_mod_cast Nat.pos_of_ne_zero hn
  have hunit : (m : ℚ) * 2 ^ d / (n * 2 ^ e) =
      (m * twoTo shift : Nat) / n * 2 ^ (d - e - shift) := by
    rw [zpow_sub₀ two_ne_zero, zpow_sub₀ two_ne_zero, zpow_natCast, twoTo_eq, Nat.cast_mul,
      Nat.cast_pow, Nat.cast_ofNat]
    field_simp
  have hzpow : (0 : ℚ) < 2 ^ (d - e - shift) := by positivity
  have hsplit : ((m * twoTo shift : Nat) : ℚ) =
      n * (m * twoTo shift / n : Nat) + (m * twoTo shift % n : Nat) := by
    exact_mod_cast (Nat.div_add_mod _ n).symm
  refine ⟨by omega, ?_, ?_, ?_, fun _ => hwide⟩
  · rw [hunit]
    gcongr
    rw [le_div_iff₀ hpos, hsplit]
    have : (0 : ℚ) ≤ (m * twoTo shift % n : Nat) := Nat.cast_nonneg _
    linarith
  · rw [hunit]
    gcongr
    rw [div_lt_iff₀ hpos, hsplit]
    have : ((m * twoTo shift % n : Nat) : ℚ) < n := by
      exact_mod_cast Nat.mod_lt _ (Nat.pos_of_ne_zero hn)
    linarith
  · intro hexact
    have hzero : m * twoTo shift % n = 0 := by simpa using hexact
    rw [hunit, hsplit, hzero, Nat.cast_zero, add_zero, mul_div_cancel_left₀ _ hpos.ne']

theorem value_div (hx : x.value = some p) (hy : y.value = some q) (hq : q ≠ 0)
    (hbound : |p / q| < reach) :
    ∃ u, (x / y).value = some u ∧ Nearest u (p / q) := by
  obtain ⟨s, m, d, hxu, rfl⟩ := value_eq_some_iff.mp hx
  obtain ⟨t, n, e, hyu, rfl⟩ := value_eq_some_iff.mp hy
  have hn : n ≠ 0 := by
    rintro rfl
    simp at hq
  have hdiv : x / y = pack (s != t) (m * twoTo (58 + n.log2 - m.log2) / n)
      (d - e - (58 + n.log2 - m.log2 : Nat))
      (decide (m * twoTo (58 + n.log2 - m.log2) % n ≠ 0)) := by
    change div x y = _
    simp only [div, hxu, hyu, if_neg hn]
  rw [signed_div_signed] at hbound ⊢
  rw [abs_signed, abs_of_nonneg (div_nonneg (magnitude_nonneg _ _) (magnitude_nonneg _ _))]
    at hbound
  rw [hdiv]
  rcases eq_or_ne m 0 with rfl | hm
  · simp only [Nat.zero_mul, Nat.zero_div]
    exact ⟨0, value_pack_zero _ _ _, by simpa using Nearest.zero⟩
  · exact value_pack _ (packable_quotient hm hn d e (by omega)) hbound

end Double

end Federation
