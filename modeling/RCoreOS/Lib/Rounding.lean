import Mathlib.Algebra.Order.Floor.Semifield
import Mathlib.Algebra.Order.Round
import Mathlib.Data.Rat.Floor
import Mathlib.Tactic.Linarith
import Mathlib.Tactic.Ring

/-! Rounded quotients of natural numbers, and products with a fraction that is approximated by
another one: when they have the whole part, and when they are rounded to the nearest integer.
-/

namespace Rounding

variable {a d q : Nat}

/-- The quotient rounded to the nearest integer, and upwards from the middle. -/
def nearest (a d : Nat) : Nat :=
  (a + d / 2) / d

theorem nearest_eq_iff (positive : 0 < d)
    : nearest a d = q ↔ 2 * (q * d) ≤ 2 * a + d ∧ 2 * a < 2 * (q * d) + d := by
  rw [nearest, Nat.div_eq_iff positive]
  omega

theorem nearest_lt_iff (positive : 0 < d) : nearest a d < q ↔ a + d / 2 < q * d := by
  rw [nearest, Nat.div_lt_iff_lt_mul positive]

theorem div_le_nearest (a d : Nat) : a / d ≤ nearest a d :=
  Nat.div_le_div_right (Nat.le_add_right a (d / 2))

theorem nearest_eq_round (positive : 0 < d) : (nearest a d : ℤ) = round ((a : ℚ) / d) := by
  have above : (0 : ℚ) < d := Nat.cast_pos.mpr positive
  obtain ⟨lower, upper⟩ := (nearest_eq_iff (q := nearest a d) positive).mp rfl
  have lower : (2 * (nearest a d * d) : ℚ) ≤ 2 * a + d := by exact_mod_cast lower
  have upper : (2 * a : ℚ) < 2 * (nearest a d * d) + d := by exact_mod_cast upper
  rw [eq_comm, round_eq_iff, Set.mem_Ico, le_div_iff₀ above, div_lt_iff₀ above]
  constructor
  · push_cast
    linarith
  · push_cast
    linarith

theorem abs_div_sub_lt (a d : Nat) : |((a / d : Nat) : ℚ) - a / d| < 1 := by
  have lower := Nat.floor_le (a := (a / d : ℚ)) (by positivity)
  have upper := Nat.lt_floor_add_one (a / d : ℚ)
  rw [Nat.floor_div_eq_div] at lower upper
  rw [abs_lt]
  constructor <;> linarith

/-- A fraction with a given denominator is at most half of its unit away. -/
theorem abs_nearest_div_sub_le (n : Nat) {p : Nat} (positive : 0 < d) (positive' : 0 < p)
    : |(nearest (n * p) d : ℚ) / p - n / d| ≤ 1 / (2 * p) := by
  have above : (0 : ℚ) < p := Nat.cast_pos.mpr positive'
  have half := abs_sub_round (((n * p : Nat) : ℚ) / d)
  rw [← nearest_eq_round positive] at half
  have scaled : (nearest (n * p) d : ℚ) / p - n / d
      = -(((n * p : Nat) : ℚ) / d - (nearest (n * p) d : ℤ)) / p := by
    push_cast
    field_simp
    ring
  calc
    |(nearest (n * p) d : ℚ) / p - n / d|
      = |((n * p : Nat) : ℚ) / d - (nearest (n * p) d : ℤ)| / p := by
        rw [scaled, abs_div, abs_neg, abs_of_pos above]
    _ ≤ 1 / 2 / p := by gcongr
    _ = 1 / (2 * p) := div_div ..

/-- The numerator and the denominator may have a common factor. -/
theorem nearest_mul {c : Nat} (positive : 0 < d) (factor : 0 < c)
    : nearest (a * c) (d * c) = nearest a d := by
  obtain ⟨lower, upper⟩ := (nearest_eq_iff (q := nearest a d) positive).mp rfl
  rw [nearest_eq_iff (Nat.mul_pos positive factor)]
  constructor
  · calc
      2 * (nearest a d * (d * c)) = 2 * (nearest a d * d) * c := by ring
      _ ≤ (2 * a + d) * c := Nat.mul_le_mul_right c lower
      _ = 2 * (a * c) + d * c := by ring
  · calc
      2 * (a * c) = 2 * a * c := by ring
      _ < (2 * (nearest a d * d) + d) * c := Nat.mul_lt_mul_of_pos_right upper factor
      _ = 2 * (nearest a d * (d * c)) + d * c := by ring

/-- What is lost in rounding is the balanced remainder. -/
theorem nearest_mul_eq (positive : 0 < d) : (nearest a d * d : ℤ) = a - Int.bmod a d := by
  have parts : a / d * d + a % d = a := Nat.div_add_mod' a d
  have small : a % d < d := Nat.mod_lt a positive
  rw [Int.bmod_def]
  split
  · next low =>
      have down : nearest a d = a / d := by
        rw [nearest_eq_iff positive]
        omega
      rw [down]
      push_cast
      have parts : (a / d * d + a % d : ℤ) = a := by exact_mod_cast parts
      linarith
  · next high =>
      have up : nearest a d = a / d + 1 := by
        rw [nearest_eq_iff positive, Nat.add_mul]
        omega
      rw [up]
      push_cast
      have parts : (a / d * d + a % d : ℤ) = a := by exact_mod_cast parts
      linarith

-----------------------------------------------------------------------------------------
-- Nearest integers
-----------------------------------------------------------------------------------------

/-- No integer is nearer to the number. -/
def IsNearest (q : ℤ) (x : ℚ) : Prop :=
  ∀ k : ℤ, |x - q| ≤ |x - k|

theorem isNearest_iff {q : ℤ} {x : ℚ} : IsNearest q x ↔ |x - q| ≤ 1 / 2 := by
  constructor
  · intro least
    exact (least (round x)).trans (abs_sub_round x)
  · intro half k
    by_cases same : q = k
    · rw [same]
    · have apart : (1 : ℚ) ≤ |(q : ℚ) - k| := by
        exact_mod_cast Int.one_le_abs (sub_ne_zero.mpr same)
      have between := abs_sub_le (q : ℚ) x k
      rw [abs_sub_comm (q : ℚ) x] at between
      linarith

theorem isNearest_div_iff (positive : 0 < d) {q : ℤ}
    : IsNearest q ((a : ℚ) / d) ↔ -(d : ℤ) ≤ 2 * (q * d - a) ∧ 2 * (q * d - a) ≤ d := by
  have above : (0 : ℚ) < d := Nat.cast_pos.mpr positive
  have scaled : 2 * ((a : ℚ) / d - q) * d = -(2 * (q * d - a)) := by
    field_simp
    ring
  calc
    IsNearest q ((a : ℚ) / d) ↔ |2 * ((a : ℚ) / d - q) * d| ≤ d := by
      rw [isNearest_iff, abs_mul, abs_of_pos above, abs_mul, abs_two]
      rw [mul_le_iff_le_one_left above]
      constructor <;> intro small <;> linarith
    _ ↔ -(d : ℚ) ≤ 2 * (q * d - a) ∧ (2 * (q * d - a) : ℚ) ≤ d := by
      rw [scaled, abs_neg, abs_le]
    _ ↔ -(d : ℤ) ≤ 2 * (q * d - a) ∧ 2 * (q * d - a) ≤ d := by
      norm_cast

-----------------------------------------------------------------------------------------
-- Products with an approximated fraction
-----------------------------------------------------------------------------------------

section Approximation

/-- The fraction `n / d`, and `m / p` that is less by `e / (d * p)`. -/
structure Approximates (n d m p : Nat) (e : ℤ) : Prop where
  positive : 0 < d
  positive' : 0 < p
  less : (m * d : ℤ) = n * p - e

/-- What `v * m / p` is above the whole part of `v * n / d`, as a multiple of `1 / (d * p)`. -/
def excess (n d p v : Nat) (e : ℤ) : ℤ :=
  (v * n % d : Nat) * p - v * e

/-- The nearest fraction with a given denominator. -/
theorem approximates_nearest {n d p : Nat} (positive : 0 < d) (positive' : 0 < p)
    : Approximates n d (nearest (n * p) d) p (Int.bmod (n * p) d) where
  positive
  positive'
  less := by exact_mod_cast nearest_mul_eq (a := n * p) positive

variable {n d m p : Nat} {e : ℤ} (approximates : Approximates n d m p e) (v : Nat)
include approximates

theorem Approximates.product_eq
    : (v * m * d : ℤ) = (v * n / d : Nat) * (d * p) + excess n d p v e := by
  have parts : ((v * n / d : Nat) * d + (v * n % d : Nat) : ℤ) = v * n := by
    exact_mod_cast Nat.div_add_mod' (v * n) d
  calc
    (v * m * d : ℤ) = v * n * p - v * e := by rw [mul_assoc, approximates.less]; ring
    _ = ((v * n / d : Nat) * d + (v * n % d : Nat)) * p - v * e := by rw [parts]
    _ = (v * n / d : Nat) * (d * p) + excess n d p v e := by rw [excess]; ring

/-- The whole part of the product is that with the fraction. -/
theorem Approximates.div_eq_iff
    : v * m / p = v * n / d ↔ 0 ≤ excess n d p v e ∧ excess n d p v e < d * p := by
  have product := approximates.product_eq v
  have positive := Nat.mul_pos approximates.positive' approximates.positive
  set whole := v * n / d
  calc
    v * m / p = whole ↔ v * m * d / (p * d) = whole := by
      rw [Nat.mul_div_mul_right _ _ approximates.positive]
    _ ↔ whole * (p * d) ≤ v * m * d ∧ v * m * d < whole * (p * d) + p * d := by
      rw [Nat.div_eq_iff positive]
      omega
    _ ↔ (whole * (p * d) : ℤ) ≤ v * m * d ∧ (v * m * d : ℤ) < whole * (p * d) + p * d := by
      norm_cast
    _ ↔ 0 ≤ excess n d p v e ∧ excess n d p v e < d * p := by
      rw [product, mul_comm (p : ℤ) d, le_add_iff_nonneg_right, add_lt_add_iff_left]

/-- The product is rounded down below the middle, and up from there. -/
theorem Approximates.nearest_eq (whole : v * m / p = v * n / d)
    : nearest (v * m) p
      = if 2 * excess n d p v e < d * p then v * n / d else v * n / d + 1 := by
  have product := approximates.product_eq v
  have positive := Nat.mul_pos approximates.positive' approximates.positive
  obtain ⟨least, most⟩ := (approximates.div_eq_iff v).mp whole
  set part := v * n / d
  rw [← nearest_mul approximates.positive' approximates.positive, nearest_eq_iff positive]
  zify
  rw [product, mul_comm (p : ℤ) d]
  split
  · constructor <;> linarith
  · constructor <;> linarith

/-- The product is rounded to the nearest integer if it is on the same side of the middle. -/
theorem Approximates.isNearest_iff (whole : v * m / p = v * n / d)
    : IsNearest (nearest (v * m) p) ((v * n : Nat) / d)
      ↔ (2 * (v * n % d) < d → 2 * excess n d p v e < d * p)
        ∧ (d < 2 * (v * n % d) → d * p ≤ 2 * excess n d p v e) := by
  have parts : ((v * n / d : Nat) * d + (v * n % d : Nat) : ℤ) = (v * n : Nat) := by
    exact_mod_cast Nat.div_add_mod' (v * n) d
  rw [isNearest_div_iff approximates.positive, approximates.nearest_eq v whole, ← parts]
  set part := v * n / d
  set rest := v * n % d
  split
  · next low =>
      have middle : ¬ (d * p : ℤ) ≤ 2 * excess n d p v e := not_le.mpr low
      simp only [low, middle, implies_true, true_and, imp_false]
      omega
  · next high =>
      have middle : (d * p : ℤ) ≤ 2 * excess n d p v e := not_lt.mp high
      simp only [high, middle, implies_true, and_true, imp_false]
      push_cast
      have below : rest < d := Nat.mod_lt (v * n) approximates.positive
      rw [add_mul, one_mul]
      omega

end Approximation

end Rounding
