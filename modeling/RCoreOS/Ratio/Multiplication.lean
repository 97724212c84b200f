import RCoreOS.Ratio.Approximation

/-! Multiplication by a ratio. The product is rounded exactly as long as the error of the fraction
that is kept does not carry it over an integer or over the middle between two of them.
-/

namespace RCoreOS.Ratio

open Rounding (nearest IsNearest)

def mulTrunc (ratio : Ratio) (value : UInt64) : Except Panic UInt64 := do
  let product ← checked 128 (value.toNat * ratio.mult.toNat)
  let result ← shiftRight 128 product ratio.shift.toNat
  .ok (.ofNat result)

def mulRound (ratio : Ratio) (value : UInt64) : Except Panic UInt64 := do
  let product ← checked 128 (value.toNat * ratio.mult.toNat)
  let one ← shiftLeft 128 1 ratio.shift.toNat
  let half ← shiftRight 128 one 1
  let sum ← checked 128 (product + half)
  let result ← shiftRight 128 sum ratio.shift.toNat
  .ok (.ofNat result)

section Products

variable {ratio : Ratio} (small : ratio.shift.toNat ≤ 32) (value : UInt64)

theorem product_lt (ratio : Ratio) : value.toNat * ratio.mult.toNat < 2 ^ 64 * 2 ^ 32 :=
  Nat.mul_lt_mul'' value.toNat_lt ratio.mult.toNat_lt

include small

/-- The product with the fraction is rounded down. -/
theorem mulTrunc_eq
    : ratio.mulTrunc value
      = .ok (.ofNat (value.toNat * ratio.mult.toNat / 2 ^ ratio.shift.toNat)) := by
  have product := product_lt value ratio
  rw [mulTrunc, checked_ok (by omega), Outcome.ok_bind, shiftRight_ok (by omega), Outcome.ok_bind]

/-- The product with the fraction is rounded to the nearest integer. -/
theorem mulRound_eq
    : ratio.mulRound value
      = .ok (.ofNat (nearest (value.toNat * ratio.mult.toNat) (2 ^ ratio.shift.toNat))) := by
  have product := product_lt value ratio
  have power : 2 ^ ratio.shift.toNat ≤ 2 ^ 32 := Nat.pow_le_pow_right (by decide) small
  rw [mulRound, checked_ok (by omega), Outcome.ok_bind, shiftLeft_ok (by omega) (by omega),
    Outcome.ok_bind, shiftRight_ok (by omega), Outcome.ok_bind, checked_ok (by omega),
    Outcome.ok_bind, shiftRight_ok (by omega), Outcome.ok_bind, Nat.one_mul, Nat.pow_one, nearest]

end Products

-----------------------------------------------------------------------------------------
-- The fraction that is kept
-----------------------------------------------------------------------------------------

/-- If its product with `n / d` is below `2 ^ 63`, a value is not too large for the shift. -/
theorem value_lt {n d value : Nat} (word : value < 2 ^ 64) (below : value * n < 2 ^ 63 * d)
    : value < 2 ^ 33 * 2 ^ bestShift n d := by
  by_cases most : bestShift n d = 32
  · rw [most]
    omega
  · -- the next shift makes the multiplier too large for a word
    have less : bestShift n d < 32 := Nat.lt_of_le_of_ne (Nat.findGreatest_le 32) most
    have next : ¬ nearest (n * 2 ^ (bestShift n d + 1)) d ≤ u32Max :=
      Nat.findGreatest_is_greatest (P := fun s => nearest (n * 2 ^ s) d ≤ u32Max)
        (Nat.lt_succ_self (bestShift n d)) less
    have positive : 0 < d := Nat.pos_of_mul_pos_left (Nat.lt_of_le_of_lt (Nat.zero_le _) below)
    have large : 2 ^ 30 * d ≤ n * 2 ^ bestShift n d := by
      have least : u32Max + 1 ≤ nearest (n * 2 ^ (bestShift n d + 1)) d := Nat.not_le.mp next
      rw [nearest, Nat.le_div_iff_mul_le positive, Nat.pow_succ, ← Nat.mul_assoc, u32Max] at least
      omega
    by_contra high
    have absurd : 2 ^ 63 * d * 2 ^ bestShift n d ≤ value * n * 2 ^ bestShift n d := calc
      2 ^ 63 * d * 2 ^ bestShift n d = 2 ^ 33 * 2 ^ bestShift n d * (2 ^ 30 * d) := by ring
      _ ≤ value * (n * 2 ^ bestShift n d) := Nat.mul_le_mul (Nat.not_lt.mp high) large
      _ = value * n * 2 ^ bestShift n d := (Nat.mul_assoc ..).symm
    exact Nat.not_le.mpr below (Nat.le_of_mul_le_mul_right absurd (Nat.two_pow_pos _))

/-- The multiplier for the best shift. -/
def bestMult (n d : Nat) : Nat :=
  nearest (n * 2 ^ bestShift n d) d

/-- The rounded product is a word. -/
theorem nearest_product_lt {n d value : Nat} (positive : 0 < d) (word : value < 2 ^ 64)
    (below : value * n < 2 ^ 63 * d)
    : nearest (value * bestMult n d) (2 ^ bestShift n d) < 2 ^ 64 := by
  have limit := value_lt word below
  obtain ⟨lower, -⟩ := (Rounding.nearest_eq_iff (q := bestMult n d) positive).mp rfl
  set power := 2 ^ bestShift n d
  have least : 0 < power := Nat.two_pow_pos _
  have product : 2 * (value * bestMult n d) * d < (2 ^ 64 + 2 ^ 33) * power * d := by
    calc
      2 * (value * bestMult n d) * d = value * (2 * (bestMult n d * d)) := by ring
      _ ≤ value * (2 * (n * power) + d) := Nat.mul_le_mul_left value lower
      _ = 2 * (value * n) * power + value * d := by ring
      _ < 2 * (2 ^ 63 * d) * power + 2 ^ 33 * power * d := by
        have first : 2 * (value * n) * power < 2 * (2 ^ 63 * d) * power :=
          Nat.mul_lt_mul_of_pos_right (by omega) least
        have second : value * d < 2 ^ 33 * power * d :=
          Nat.mul_lt_mul_of_pos_right limit positive
        exact Nat.add_lt_add first second
      _ = (2 ^ 64 + 2 ^ 33) * power * d := by ring
  have product := Nat.lt_of_mul_lt_mul_right product
  rw [Rounding.nearest_lt_iff least]
  omega

/-- The results of both multiplications. -/
theorem products_eq {n d : UInt32} {value : UInt64} (positive : 0 < d)
    (below : value.toNat * n.toNat < 2 ^ 63 * d.toNat)
    : ∃ ratio t q, new n d = .ok ratio ∧ ratio.mulTrunc value = .ok t ∧ ratio.mulRound value = .ok q
      ∧ t.toNat = value.toNat * bestMult n.toNat d.toNat / 2 ^ bestShift n.toNat d.toNat
      ∧ q.toNat
        = nearest (value.toNat * bestMult n.toNat d.toNat) (2 ^ bestShift n.toNat d.toNat) := by
  obtain ⟨ratio, made, keeps, -⟩ := new_eq (n := n) positive
  obtain ⟨count, product, total⟩ := keeps.scaled
  have fits := nearest_product_lt (toNat_pos positive) value.toNat_lt below
  have trunc : value.toNat * ratio.mult.toNat / 2 ^ ratio.shift.toNat
      = value.toNat * bestMult n.toNat d.toNat / 2 ^ bestShift n.toNat d.toNat := by
    rw [bestMult, ← product, ← total, Nat.pow_add, ← Nat.mul_assoc,
      Nat.mul_div_mul_right _ _ (Nat.two_pow_pos count)]
  have round : nearest (value.toNat * ratio.mult.toNat) (2 ^ ratio.shift.toNat)
      = nearest (value.toNat * bestMult n.toNat d.toNat) (2 ^ bestShift n.toNat d.toNat) := by
    rw [bestMult, ← product, ← total, Nat.pow_add, ← Nat.mul_assoc,
      Rounding.nearest_mul (Nat.two_pow_pos _) (Nat.two_pow_pos count)]
  refine ⟨ratio, _, _, made, mulTrunc_eq keeps.shift_le value, mulRound_eq keeps.shift_le value, ?_,
    ?_⟩
  · rw [trunc]
    exact UInt64.toNat_ofNat_of_lt' (Nat.lt_of_le_of_lt (Rounding.div_le_nearest ..) fits)
  · rw [round]
    exact UInt64.toNat_ofNat_of_lt' fits

/-- Larger values have larger products, so that a clock that is read through a ratio does not go
back.
-/
theorem mulTrunc_mono {n d : UInt32} {value value' : UInt64} {ratio : Ratio} {t t' : UInt64}
    (positive : 0 < d) (below : value'.toNat * n.toNat < 2 ^ 63 * d.toNat)
    (made : new n d = .ok ratio) (trunc : ratio.mulTrunc value = .ok t)
    (trunc' : ratio.mulTrunc value' = .ok t') (ordered : value ≤ value')
    : t ≤ t' := by
  have less : value.toNat ≤ value'.toNat := UInt64.le_iff_toNat_le.mp ordered
  have below₁ : value.toNat * n.toNat < 2 ^ 63 * d.toNat :=
    Nat.lt_of_le_of_lt (Nat.mul_le_mul_right _ less) below
  obtain ⟨_, s, _, made₁, trunc₁, -, small, -⟩ := products_eq positive below₁
  obtain ⟨_, s', _, made₂, trunc₂, -, large, -⟩ := products_eq positive below
  cases made.symm.trans made₁
  cases made.symm.trans made₂
  cases trunc.symm.trans trunc₁
  cases trunc'.symm.trans trunc₂
  rw [UInt64.le_iff_toNat_le, small, large]
  exact Nat.div_le_div_right (Nat.mul_le_mul_right _ less)

/-- The product is less than one away from the exact one, up to the error of the kept fraction. -/
theorem mulTrunc_error_lt {n d : UInt32} {value : UInt64} (positive : 0 < d)
    (below : value.toNat * n.toNat < 2 ^ 63 * d.toNat)
    : ∃ ratio t, new n d = .ok ratio ∧ ratio.mulTrunc value = .ok t
      ∧ |(t.toNat : ℚ) - value.toNat * n.toNat / d.toNat|
        < 1 + value.toNat / (2 * (2 ^ bestShift n.toNat d.toNat : Nat)) := by
  obtain ⟨ratio, t, -, made, trunc, -, result, -⟩ := products_eq positive below
  refine ⟨ratio, t, made, trunc, ?_⟩
  set power := 2 ^ bestShift n.toNat d.toNat
  set mult := bestMult n.toNat d.toNat
  have near := Rounding.abs_nearest_div_sub_le n.toNat (p := power) (toNat_pos positive)
    (Nat.two_pow_pos _)
  have kept : |(value.toNat * mult / power : ℚ) - value.toNat * n.toNat / d.toNat|
      ≤ value.toNat / (2 * power) := by
    calc
      |(value.toNat * mult / power : ℚ) - value.toNat * n.toNat / d.toNat|
        = value.toNat * |(mult / power : ℚ) - n.toNat / d.toNat| := by
          rw [mul_div_assoc, mul_div_assoc, ← mul_sub, abs_mul, Nat.abs_cast]
      _ ≤ value.toNat * (1 / (2 * power)) := mul_le_mul_of_nonneg_left near (Nat.cast_nonneg _)
      _ = value.toNat / (2 * power) := mul_one_div ..
  have truncated : |(t.toNat : ℚ) - value.toNat * mult / power| < 1 := by
    rw [result, ← Nat.cast_mul]
    exact Rounding.abs_div_sub_lt ..
  calc
    |(t.toNat : ℚ) - value.toNat * n.toNat / d.toNat|
      ≤ |(t.toNat : ℚ) - value.toNat * mult / power|
        + |(value.toNat * mult / power : ℚ) - value.toNat * n.toNat / d.toNat| :=
          abs_sub_le ..
    _ < 1 + value.toNat / (2 * power) := add_lt_add_of_lt_of_le truncated kept

-----------------------------------------------------------------------------------------
-- When the products are exact
-----------------------------------------------------------------------------------------

/-- Both multiplications of a value round as documented. -/
def RoundsAsDocumented (n d : UInt32) (value : UInt64) : Prop :=
  ∃ ratio t q, new n d = .ok ratio ∧ ratio.mulTrunc value = .ok t ∧ ratio.mulRound value = .ok q
    ∧ t.toNat = value.toNat * n.toNat / d.toNat
    ∧ IsNearest q.toNat ((value.toNat * n.toNat : Nat) / d.toNat)

/-- The rest of the product, as a multiple of `1 / 2 ^ s` for the best shift `s`, that is moved by the
balanced remainder of `n * 2 ^ s`.
-/
def movedRest (n d value : Nat) : ℤ :=
  let s := bestShift n d
  Rounding.excess n d (2 ^ s) value (Int.bmod (n * (2 ^ s : Nat)) d)

/-- The rest of the product is moved neither over an integer nor over the middle between two. -/
def Negligible (n d value : Nat) : Prop :=
  let rest := value * n % d
  let unit : ℤ := d * (2 ^ bestShift n d : Nat)
  0 ≤ movedRest n d value
  ∧ movedRest n d value < unit
  ∧ (2 * rest < d → 2 * movedRest n d value < unit)
  ∧ (d < 2 * rest → unit ≤ 2 * movedRest n d value)

instance (n d value : Nat) : Decidable (Negligible n d value) :=
  inferInstanceAs (Decidable (_ ∧ _ ∧ _ ∧ _))

/-- If the fraction that is kept is the ratio, the error is negligible for every value. -/
theorem negligible_of_dvd {n d : Nat} (positive : 0 < d) (exact : d ∣ n * 2 ^ bestShift n d)
    (value : Nat)
    : Negligible n d value := by
  have power : (0 : ℤ) < (2 ^ bestShift n d : Nat) := Int.natCast_pos.mpr (Nat.two_pow_pos _)
  have none : Int.bmod (n * (2 ^ bestShift n d : Nat)) d = 0 := by
    rw [← Int.natCast_mul]
    exact Int.dvd_iff_bmod_eq_zero.mp (Int.natCast_dvd_natCast.mpr exact)
  have moved : movedRest n d value = (value * n % d : Nat) * (2 ^ bestShift n d : Nat) := by
    rw [movedRest, Rounding.excess, none, mul_zero, sub_zero]
  have rest : value * n % d < d := Nat.mod_lt _ positive
  dsimp only [Negligible]
  rw [moved]
  refine ⟨by positivity, ?_, fun low => ?_, fun high => ?_⟩
  · exact mul_lt_mul_of_pos_right (Int.ofNat_lt.mpr rest) power
  · rw [← mul_assoc]
    exact mul_lt_mul_of_pos_right (by exact_mod_cast low) power
  · rw [← mul_assoc]
    exact mul_le_mul_of_nonneg_right (by exact_mod_cast high.le) power.le

/-- Both products are rounded as documented exactly if the error of the kept fraction is negligible.
-/
theorem roundsAsDocumented_iff {n d : UInt32} {value : UInt64} (positive : 0 < d)
    (below : value.toNat * n.toNat < 2 ^ 63 * d.toNat)
    : RoundsAsDocumented n d value ↔ Negligible n.toNat d.toNat value.toNat := by
  obtain ⟨ratio, t, q, made, trunc, round, truncated, rounded⟩ := products_eq positive below
  have approximates := Rounding.approximates_nearest (n := n.toNat) (toNat_pos positive)
    (Nat.two_pow_pos (bestShift n.toNat d.toNat))
  have whole := approximates.div_eq_iff value.toNat
  have same : RoundsAsDocumented n d value
      ↔ t.toNat = value.toNat * n.toNat / d.toNat
        ∧ IsNearest q.toNat ((value.toNat * n.toNat : Nat) / d.toNat) := by
    constructor
    · rintro ⟨ratio', t', q', made', trunc', round', results⟩
      cases made.symm.trans made'
      cases trunc.symm.trans trunc'
      cases round.symm.trans round'
      exact results
    · exact fun results => ⟨ratio, t, q, made, trunc, round, results⟩
  have nearest := approximates.isNearest_iff value.toNat
  rw [same, truncated, rounded, bestMult, and_congr_right nearest, whole, and_assoc]
  rfl

theorem two_thirds_documented : RoundsAsDocumented 2 3 100 :=
  (roundsAsDocumented_iff (by decide) (by decide)).mpr (by decide +kernel)

/-- The third of 3 is rounded down to 0, and that of a large value to an integer that is not the
nearest one.
-/
theorem third_rounded_down
    : ∃ ratio, new 1 3 = .ok ratio ∧ ratio.mulTrunc 3 = .ok 0
      ∧ ratio.mulRound 2147483651 = .ok 715827883
      ∧ ¬ RoundsAsDocumented 1 3 3 ∧ ¬ RoundsAsDocumented 1 3 2147483651 := by
  have made : new 1 3
      = .ok { numerator := 1, denominator := 3, mult := 1431655765, shift := 32 } := by
    decide +kernel
  refine ⟨_, made, by decide +kernel, by decide +kernel, ?_, ?_⟩
  · rintro ⟨ratio, t, q, made', trunc, -, whole, -⟩
    cases made.symm.trans made'
    have zero : t = 0 := Except.ok.inj (trunc.symm.trans (by decide +kernel))
    rw [zero] at whole
    exact absurd whole (by decide)
  · rintro ⟨ratio, t, q, made', -, round, -, least⟩
    cases made.symm.trans made'
    have low : q = 715827883 := Except.ok.inj (round.symm.trans (by decide +kernel))
    rw [low, Rounding.isNearest_div_iff (by decide)] at least
    exact absurd least (by decide)

end RCoreOS.Ratio
