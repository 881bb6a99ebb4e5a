/-
  Computed sums that are zero and computed powers that are one.

  Rounding makes neither a sum zero that is not, nor a power one.

  * `value_neg`, `of_value_add`, `of_value_mul`: the numbers that a result is made of;
  * `value_div_zero`: a quotient by zero is no number;
  * `value_sub_eq_zero_iff`, `value_add_eq_zero_iff`: a sum is zero exactly when it is so without
    rounding;
  * `AtLeastOne`: sums of numbers from one on stay there;
  * `loop_induction`: what squarings and products keep is true of a power;
  * `value_powi_eq_one_iff`: a power is one exactly when it is so without rounding.
-/
import Federation.Proofs.Numeric.Rounding

namespace Federation

/-- The sign of a word is the sign of its number. -/
theorem Format.value_unpack_signed (neg : Bool) {g : Nat} (hg : g < 2 ^ 63) :
    (Format.double.unpack (if neg then 2 ^ 63 + g else g)).value =
      (Format.double.unpack g).value.map (signed neg) := by
  have hplain := Format.unpack_signed false hg
  rw [if_neg Bool.false_ne_true] at hplain
  rw [Format.unpack_signed neg hg, hplain]
  split_ifs <;> simp [Unpacked.value, signed]

theorem Nearest.one_le {u v : ℚ} (h : Nearest u v) (hv : 1 ≤ v) : 1 ≤ u := by
  have hle := h.above Representable.one (by rwa [abs_one, abs_of_nonneg (by linarith)])
  rwa [abs_one, abs_of_nonneg (h.nonneg (by linarith))] at hle

namespace Double

variable {x y : Double} {p q : ℚ}

/-! ## What a result is made of -/

theorem value_neg (x : Double) : (-x).value = x.value.map (-·) := by
  obtain ⟨n, hn⟩ : ∃ n, n = x.bits.toNat := ⟨_, rfl⟩
  have hlt : n < 2 ^ 64 := hn ▸ x.bits.toNat_lt
  have hg : n % 2 ^ 63 < 2 ^ 63 := Nat.mod_lt _ (by norm_num)
  have hx : n = if decide (2 ^ 63 ≤ n) then 2 ^ 63 + n % 2 ^ 63 else n % 2 ^ 63 := by
    split_ifs with h <;> simp at h <;> omega
  have hneg : (neg x).bits.toNat =
      if !decide (2 ^ 63 ≤ n) then 2 ^ 63 + n % 2 ^ 63 else n % 2 ^ 63 := by
    unfold neg isNegative
    rw [← hn, twoTo_eq]
    split_ifs with h h' h' <;> simp at h h' ⊢ <;> omega
  have hflip : signed (!decide (2 ^ 63 ≤ n)) = fun q => -signed (decide (2 ^ 63 ≤ n)) q := by
    funext q
    cases decide (2 ^ 63 ≤ n) <;> simp [signed]
  have hvalue := Format.value_unpack_signed (decide (2 ^ 63 ≤ n)) hg
  rw [← hx, hn] at hvalue
  change (neg x).value = x.unpack.value.map _
  rw [unpack, hvalue, value, unpack, hneg, Format.value_unpack_signed _ hg, hflip, hn,
    Option.map_map]
  rfl

theorem value_nan : nan.value = none := by decide +kernel

theorem value_infinite (s : Bool) : (infinite s).value = none := by cases s <;> decide +kernel

theorem value_add_of_none (h : x.value = none ∨ y.value = none) : (x + y).value = none := by
  change (add x y).value = none
  cases hx : x.unpack with
  | nan => simp only [add, hx, value_nan]
  | infinite s =>
    cases hy : y.unpack with
    | nan => simp only [add, hx, hy, value_nan]
    | infinite t =>
      simp only [add, hx, hy]
      split_ifs
      · exact value_infinite s
      · exact value_nan
    | finite t n e => simp only [add, hx, hy, value_infinite]
  | finite s m d =>
    cases hy : y.unpack with
    | nan => simp only [add, hx, hy, value_nan]
    | infinite t => simp only [add, hx, hy, value_infinite]
    | finite t n e => simp [value, hx, hy, Unpacked.value] at h

theorem value_mul_of_none (h : x.value = none ∨ y.value = none) : (x * y).value = none := by
  have hzero : ∀ (n : Nat) (s : Bool), (if n = 0 then nan else infinite s).value = none := by
    intro n s
    split_ifs
    · exact value_nan
    · exact value_infinite s
  change (mul x y).value = none
  cases hx : x.unpack with
  | nan => simp only [mul, hx, value_nan]
  | infinite s =>
    cases hy : y.unpack with
    | nan => simp only [mul, hx, hy, value_nan]
    | infinite t => simp only [mul, hx, hy, value_infinite]
    | finite t n e => simp only [mul, hx, hy, hzero]
  | finite s m d =>
    cases hy : y.unpack with
    | nan => simp only [mul, hx, hy, value_nan]
    | infinite t => simp only [mul, hx, hy, hzero]
    | finite t n e => simp [value, hx, hy, Unpacked.value] at h

theorem value_div_of_none (h : x.value = none) : (x / y).value = none := by
  change (div x y).value = none
  cases hx : x.unpack with
  | nan => simp only [div, hx, value_nan]
  | infinite s => cases hy : y.unpack <;> simp only [div, hx, hy, value_nan, value_infinite]
  | finite s m d => simp [value, hx, Unpacked.value] at h

/-- A quotient by zero is no number. -/
theorem value_div_zero (h : y.value = some 0) : (x / y).value = none := by
  obtain ⟨t, n, e, hy, hn⟩ := value_eq_some_iff.mp h
  have hn : n = 0 := by
    have : |signed t ((n : ℚ) * 2 ^ e)| = 0 := by rw [hn, abs_zero]
    rw [abs_signed, abs_eq_zero, mul_eq_zero] at this
    exact_mod_cast this.resolve_right (by positivity)
  change (div x y).value = none
  cases hx : x.unpack with
  | nan => simp only [div, hx, value_nan]
  | infinite s => simp only [div, hx, hy, value_infinite]
  | finite s m d =>
    simp only [div, hx, hy, if_pos hn]
    split_ifs
    · exact value_nan
    · exact value_infinite _

/-- The terms of a sum that is a number. -/
theorem of_value_add (h : (x + y).value = some q) :
    ∃ a b, x.value = some a ∧ y.value = some b ∧ Nearest q (a + b) := by
  cases hx : x.value with
  | none => cases (value_add_of_none (.inl hx)).symm.trans h
  | some a =>
    cases hy : y.value with
    | none => cases (value_add_of_none (.inr hy)).symm.trans h
    | some b =>
      rcases value_add_cases hx hy with ⟨u, hu, hnear⟩ | ⟨hnone, -⟩
      · exact ⟨a, b, rfl, rfl, Option.some.inj (hu.symm.trans h) ▸ hnear⟩
      · cases hnone.symm.trans h

/-- The factors of a product that is a number. -/
theorem of_value_mul (h : (x * y).value = some q) :
    ∃ a b, x.value = some a ∧ y.value = some b ∧ Nearest q (a * b) := by
  cases hx : x.value with
  | none => cases (value_mul_of_none (.inl hx)).symm.trans h
  | some a =>
    cases hy : y.value with
    | none => cases (value_mul_of_none (.inr hy)).symm.trans h
    | some b =>
      rcases value_mul_cases hx hy with ⟨u, hu, hnear⟩ | ⟨hnone, -⟩
      · exact ⟨a, b, rfl, rfl, Option.some.inj (hu.symm.trans h) ▸ hnear⟩
      · cases hnone.symm.trans h

/-! ## Sums that vanish -/

/-- A sum of two numbers of 53 bits is whole in the smallest unit. -/
theorem add_whole (hp : Representable p) (hq : Representable q) :
    ∃ i : ℤ, p + q = i * 2 ^ (-1074 : ℤ) := by
  obtain ⟨j, s, rfl, -, hs⟩ := hp
  obtain ⟨k, t, rfl, -, ht⟩ := hq
  exact ⟨_, by rw [mul_two_zpow_eq j hs, mul_two_zpow_eq k ht, ← add_mul, ← Int.cast_add]⟩

/-- A sum is zero only when its terms cancel out. -/
theorem value_add_eq_zero_iff :
    (x + y).value = some 0 ↔ ∃ p, x.value = some p ∧ y.value = some (-p) := by
  constructor
  · intro h
    obtain ⟨a, b, ha, hb, hnear⟩ := of_value_add h
    obtain ⟨i, hi⟩ := add_whole (value_whole ha) (value_whole hb)
    have hzero : a + b = 0 := hnear.eq_zero hi le_rfl
    exact ⟨a, ha, by rw [hb, eq_neg_of_add_eq_zero_right hzero]⟩
  · rintro ⟨p, hx, hy⟩
    have hreach : |p + -p| < reach := by
      rw [add_neg_cancel, abs_zero, reach]
      positivity
    obtain ⟨u, hu, hnear⟩ := value_add hx hy hreach
    rw [hu, hnear.eq_of_whole (j := 0) (s := 0) (by simp) (by norm_num) (by norm_num),
      add_neg_cancel]

/-- A difference is zero only between equals. -/
theorem value_sub_eq_zero_iff :
    (x - y).value = some 0 ↔ ∃ p, x.value = some p ∧ y.value = some p := by
  change (x + -y).value = some 0 ↔ _
  rw [value_add_eq_zero_iff]
  refine exists_congr fun p => and_congr_right fun _ => ?_
  rw [value_neg, Option.map_eq_some_iff]
  constructor
  · rintro ⟨a, ha, hneg⟩
    rw [ha, neg_inj.mp hneg]
  · exact fun h => ⟨p, h, rfl⟩

theorem value_one : one.value = some 1 := by
  have hunpack : one.unpack = .finite false (2 ^ 52) (-52) := by decide +kernel
  rw [value, hunpack, Unpacked.value, signed]
  norm_num

theorem value_zero : zero.value = some 0 := by
  have hunpack : zero.unpack = .finite false 0 (-1074) := by decide +kernel
  rw [value, hunpack, Unpacked.value, signed]
  norm_num

/-! ## Sums of numbers from one on -/

/-- A number from one on, or none. -/
def AtLeastOne (x : Double) : Prop := ∀ p, x.value = some p → 1 ≤ p

theorem atLeastOne_one : AtLeastOne one := by
  intro p hp
  rw [value_one] at hp
  exact (Option.some.inj hp).le

theorem atLeastOne_ofNat {n : Nat} (hn : 0 < n) : AtLeastOne (ofNat n) := by
  intro p hp
  rcases value_pack_whole_cases false n 0 with ⟨u, hu, hnear⟩ | ⟨hnone, -⟩
  · obtain rfl : u = p := Option.some.inj (hu.symm.trans hp)
    refine hnear.one_le ?_
    rw [zpow_zero, mul_one, signed, if_neg Bool.false_ne_true]
    exact_mod_cast hn
  · cases hnone.symm.trans hp

theorem AtLeastOne.add (hx : AtLeastOne x) (hy : AtLeastOne y) : AtLeastOne (x + y) := by
  intro q hq
  obtain ⟨a, b, ha, hb, hnear⟩ := of_value_add hq
  exact hnear.one_le (by linarith [hx a ha, hy b hb])

theorem AtLeastOne.zero_add (hy : AtLeastOne y) : AtLeastOne (zero + y) := by
  intro q hq
  obtain ⟨a, b, ha, hb, hnear⟩ := of_value_add hq
  obtain rfl : 0 = a := Option.some.inj (value_zero.symm.trans ha)
  exact hnear.one_le (by linarith [hy b hb])

/-- The sum of one or more numbers from one on. -/
theorem AtLeastOne.sum {x : Double} {xs : List Double} (hx : AtLeastOne x)
    (hxs : ∀ y ∈ xs, AtLeastOne y) : AtLeastOne ((x :: xs).foldl (· + ·) zero) := by
  have hfirst : AtLeastOne (zero + x) := hx.zero_add
  rw [List.foldl_cons]
  generalize zero + x = total at hfirst ⊢
  induction xs generalizing total with
  | nil => exact hfirst
  | cons y ys ih =>
    exact ih (fun z hz => hxs z (List.mem_cons_of_mem y hz)) _
      (hfirst.add (hxs y List.mem_cons_self))

/-! ## Powers that are one -/

/-- What the squares keep, and a product with one of them gives, is true of a power. -/
theorem loop_induction {P Q : Double → Prop} (square : ∀ x, P x → P (x * x))
    (product : ∀ r x, Q r → P x → P (r * x)) (weaken : ∀ x, P x → Q x) {fuel n : Nat}
    {r : Double} (hx : P x) (hr : Q r) (hn : 0 < n) (hfuel : n < 2 ^ fuel) :
    P (powi.loop fuel x r n) := by
  induction fuel generalizing x r n with
  | zero => omega
  | succ fuel ih =>
    rw [powi.loop]
    rcases Nat.eq_zero_or_pos (n / 2) with hlast | hmore
    · have hodd : n % 2 = 1 := by omega
      rw [if_pos hlast, if_pos hodd]
      exact product r x hr hx
    · have hfuel : n / 2 < 2 ^ fuel := by rw [pow_succ] at hfuel; omega
      rw [if_neg (by omega)]
      split_ifs
      · exact ih (square x hx) (weaken _ (product r x hr hx)) hmore hfuel
      · exact ih (square x hx) hr hmore hfuel

/-- Signs are multiplied without rounding. -/
theorem value_mul_signs (hx : x.value = some p) (hy : y.value = some q) (hp : |p| = 1)
    (hq : |q| = 1) : (x * y).value = some (p * q) := by
  have hpq : |p * q| = 1 := by rw [abs_mul, hp, hq, mul_one]
  have hreach : |p * q| < reach := by
    rw [hpq, reach]
    exact one_lt_zpow₀ one_lt_two (by norm_num)
  obtain ⟨u, hu, hnear⟩ := value_mul hx hy hreach
  rw [hu]
  rcases eq_or_eq_neg_of_abs_eq hpq with hone | hone <;> rw [hone] at hnear ⊢
  · rw [hnear.eq_of_whole (j := 1) (s := 0) (by simp) (by norm_num) (by norm_num)]
  · rw [hnear.eq_of_whole (j := -1) (s := 0) (by simp) (by norm_num) (by norm_num)]

theorem value_loop_signs {fuel n : Nat} {r : Double} (hx : x.value = some p)
    (hr : r.value = some q) (hp : |p| = 1) (hq : |q| = 1) (hfuel : n < 2 ^ fuel) :
    (powi.loop fuel x r n).value = some (q * p ^ n) := by
  induction fuel generalizing x r n p q with
  | zero =>
    obtain rfl : n = 0 := by omega
    rw [powi.loop, hr, pow_zero, mul_one]
  | succ fuel ih =>
    have hfuel : n / 2 < 2 ^ fuel := by rw [pow_succ] at hfuel; omega
    have hsplit : p ^ n = p ^ (n % 2) * (p * p) ^ (n / 2) := by
      rw [← sq, ← pow_mul, ← pow_add, Nat.mod_add_div]
    obtain ⟨q', hq', hr', habs⟩ : ∃ q', q' = q * p ^ (n % 2) ∧
        (if n % 2 = 1 then r * x else r).value = some q' ∧ |q'| = 1 := by
      rcases Nat.mod_two_eq_zero_or_one n with hmod | hmod
      · exact ⟨q, by rw [hmod, pow_zero, mul_one], by rw [if_neg (by omega), hr], hq⟩
      · exact ⟨q * p, by rw [hmod, pow_one], by rw [if_pos hmod, value_mul_signs hr hx hq hp],
          by rw [abs_mul, hp, hq, mul_one]⟩
    rw [powi.loop, hsplit, ← mul_assoc, ← hq']
    rcases Nat.eq_zero_or_pos (n / 2) with hlast | hmore
    · rw [if_pos hlast, hr', hlast, pow_zero, mul_one]
    · rw [if_neg (by omega)]
      exact ih (value_mul_signs hx hx hp hp) hr' (by rw [abs_mul, hp, mul_one]) habs hfuel

/-- The powers of a number below one stay there, -/
theorem loop_below_one {fuel n : Nat} (hx : x.value = some p) (hp : |p| < 1) (hn : 0 < n)
    (hfuel : n < 2 ^ fuel) : ∃ u, (powi.loop fuel x one n).value = some u ∧ |u| < 1 := by
  have product : ∀ r x : Double, (∃ q, r.value = some q ∧ |q| ≤ 1) →
      (∃ p, x.value = some p ∧ |p| < 1) → ∃ u, (r * x).value = some u ∧ |u| < 1 := by
    rintro r x ⟨q, hr, hq⟩ ⟨p, hx, hp⟩
    have hle : |q * p| ≤ |p| := by
      rw [abs_mul]
      exact mul_le_of_le_one_left (abs_nonneg p) hq
    have hreach : |q * p| < reach :=
      (hle.trans_lt hp).trans (one_lt_zpow₀ one_lt_two (by norm_num))
    obtain ⟨u, hu, hnear⟩ := value_mul hr hx hreach
    exact ⟨u, hu, (hnear.below (value_whole hx) hle).trans_lt hp⟩
  exact loop_induction (P := fun x => ∃ p, x.value = some p ∧ |p| < 1)
    (Q := fun r => ∃ q, r.value = some q ∧ |q| ≤ 1)
    (fun x ⟨p, hx, hp⟩ => product x x ⟨p, hx, hp.le⟩ ⟨p, hx, hp⟩) product
    (fun _ ⟨p, hx, hp⟩ => ⟨p, hx, hp.le⟩) ⟨p, hx, hp⟩ ⟨1, value_one, by simp⟩ hn hfuel

/-- and so do those of a number above one, or they are none. -/
theorem loop_above_one {fuel n : Nat} (hx : ∀ p, x.value = some p → 1 < |p|) (hn : 0 < n)
    (hfuel : n < 2 ^ fuel) : ∀ u, (powi.loop fuel x one n).value = some u → 1 < |u| := by
  have product : ∀ r x : Double, (∀ q, r.value = some q → 1 ≤ |q|) →
      (∀ p, x.value = some p → 1 < |p|) → ∀ u, (r * x).value = some u → 1 < |u| := by
    intro r x hr hx u hu
    obtain ⟨q, p, hq, hp, hnear⟩ := of_value_mul hu
    have hle : |p| ≤ |q * p| := by
      rw [abs_mul]
      exact le_mul_of_one_le_left (abs_nonneg p) (hr q hq)
    exact (hx p hp).trans_le (hnear.above (value_whole hp) hle)
  refine loop_induction (P := fun x => ∀ p, x.value = some p → 1 < |p|)
    (Q := fun r => ∀ q, r.value = some q → 1 ≤ |q|)
    (fun x hx => product x x (fun p hp => (hx p hp).le) hx) product
    (fun x hx p hp => (hx p hp).le) hx (fun q hq => ?_) hn hfuel
  rw [value_one] at hq
  cases hq
  simp

/-- A power is computed to be one exactly when it is one. -/
theorem value_powi_eq_one_iff {n : ℤ} (hn : 0 < n) (hlt : n < 2 ^ 64) :
    (x.powi n).value = some 1 ↔ ∃ p, x.value = some p ∧ p ^ n = 1 := by
  obtain ⟨k, rfl⟩ := Int.eq_ofNat_of_zero_le hn.le
  have hk : 0 < k := by exact_mod_cast hn
  have hfuel : k < 2 ^ 64 := by exact_mod_cast hlt
  have hpowi : x.powi k = powi.loop 64 x one k := by
    rw [powi, if_neg (by omega), Int.natAbs_natCast]
  simp only [hpowi, zpow_natCast]
  by_cases habove : ∀ p, x.value = some p → 1 < |p|
  · refine iff_of_false (fun h => ?_) ?_
    · exact absurd (loop_above_one habove hk hfuel 1 h) (by simp)
    · rintro ⟨p, hp, hone⟩
      have := one_lt_pow₀ (habove p hp) hk.ne'
      rw [← abs_pow, hone, abs_one] at this
      exact lt_irrefl 1 this
  · push Not at habove
    obtain ⟨p, hp, hle⟩ := habove
    have hunique : (∃ p, x.value = some p ∧ p ^ k = 1) ↔ p ^ k = 1 := by
      simp [hp]
    rw [hunique]
    rcases hle.lt_or_eq with hbelow | hsign
    · obtain ⟨u, hu, habs⟩ := loop_below_one hp hbelow hk hfuel
      refine iff_of_false (fun h => ?_) fun hone => ?_
      · obtain rfl : u = 1 := Option.some.inj (hu.symm.trans h)
        simp at habs
      · have := pow_lt_one₀ (abs_nonneg p) hbelow hk.ne'
        rw [← abs_pow, hone, abs_one] at this
        exact lt_irrefl 1 this
    · rw [value_loop_signs hp value_one hsign abs_one hfuel, one_mul, Option.some.injEq]

end Double

end Federation
