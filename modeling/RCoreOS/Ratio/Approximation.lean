import RCoreOS.Lib.Outcome
import RCoreOS.Lib.Rounding
import Mathlib.Data.Nat.Find
import Mathlib.Order.Bounds.Defs

/-! Ratios of two words. A ratio is kept as the nearest fraction `mult / 2 ^ shift`, for the largest
shift with which the multiplier is a word.
-/

namespace RCoreOS

open Rounding (nearest)

structure Ratio where
  numerator : UInt32
  denominator : UInt32
  mult : UInt32
  shift : UInt32
deriving DecidableEq, Repr

namespace Ratio

inductive Panic where
  | assertion
  | overflow
  | divideByZero
deriving DecidableEq, Repr

/-- The largest `u32`. -/
def u32Max : Nat :=
  2 ^ 32 - 1

/-- The result of an operation on words of some bits. -/
def checked (bits value : Nat) : Except Panic Nat :=
  if value < 2 ^ bits then .ok value else .error .overflow

/-- `<<`, which does not check the bits that leave the word. -/
def shiftLeft (bits value count : Nat) : Except Panic Nat :=
  if count < bits then .ok (value <<< count % 2 ^ bits) else .error .overflow

def shiftRight (bits value count : Nat) : Except Panic Nat :=
  if count < bits then .ok (value >>> count) else .error .overflow

theorem checked_ok {bits value : Nat} (fits : value < 2 ^ bits) : checked bits value = .ok value :=
  if_pos fits

theorem shiftLeft_ok {bits value count : Nat} (inside : count < bits)
    (fits : value * 2 ^ count < 2 ^ bits)
    : shiftLeft bits value count = .ok (value * 2 ^ count) := by
  rw [shiftLeft, if_pos inside, Nat.shiftLeft_eq, Nat.mod_eq_of_lt fits]

theorem shiftRight_ok {bits value count : Nat} (inside : count < bits)
    : shiftRight bits value count = .ok (value / 2 ^ count) := by
  rw [shiftRight, if_pos inside, Nat.shiftRight_eq_div_pow]

/-- The multiplier for a shift. -/
def scaled (numerator denominator : UInt32) (shift : Nat) : Except Panic Nat := do
  let shifted ← shiftLeft 64 numerator.toNat shift
  let sum ← checked 64 (shifted + denominator.toNat / 2)
  if denominator = 0 then .error .divideByZero else .ok (sum / denominator.toNat)

/-- The first loop of `new`, from a shift downwards. -/
def search (numerator denominator : UInt32) : Nat → Except Panic (Nat × Nat)
  | 0 => do
      let mult ← scaled numerator denominator 0
      .ok (mult, 0)
  | shift + 1 => do
      let mult ← scaled numerator denominator (shift + 1)
      if mult ≤ u32Max then .ok (mult, shift + 1) else search numerator denominator shift

/-- The second loop of `new`. -/
def reduce (mult : Nat) : Nat → Nat × Nat
  | 0 => (mult, 0)
  | shift + 1 => if mult % 2 = 0 then reduce (mult / 2) shift else (mult, shift + 1)

/-- The multiplier and the shift, before they are stored in words. -/
def fraction (numerator denominator : UInt32) : Except Panic (Nat × Nat) := do
  let (mult, shift) ← search numerator denominator 32
  .ok (reduce mult shift)

def new (numerator denominator : UInt32) : Except Panic Ratio :=
  if denominator = 0 ∧ numerator ≠ 0 then .error .assertion
  else if numerator = 0 then .ok { numerator, denominator, mult := 0, shift := 0 }
  else do
    let (mult, shift) ← fraction numerator denominator
    .ok { numerator, denominator, mult := .ofNat mult, shift := .ofNat shift }

def inverse (ratio : Ratio) : Except Panic Ratio :=
  new ratio.denominator ratio.numerator

-----------------------------------------------------------------------------------------
-- The shift
-----------------------------------------------------------------------------------------

/-- The largest shift with which the rounded quotient is a word. -/
def bestShift (n d : Nat) : Nat :=
  Nat.findGreatest (fun s => nearest (n * 2 ^ s) d ≤ u32Max) 32

section Search

variable {n d : UInt32} (positive : 0 < d)
include positive

theorem toNat_pos : 0 < d.toNat :=
  UInt32.lt_iff_toNat_lt.mp positive

/-- No bits leave the word in the loop. -/
theorem scaled_eq {shift : Nat} (small : shift ≤ 32)
    : scaled n d shift = .ok (nearest (n.toNat * 2 ^ shift) d.toNat) := by
  have nonzero : d ≠ 0 := UInt32.pos_iff_ne_zero.mp positive
  have power : 2 ^ shift ≤ 2 ^ 32 := Nat.pow_le_pow_right (by decide) small
  have product : n.toNat * 2 ^ shift ≤ (2 ^ 32 - 1) * 2 ^ 32 :=
    Nat.mul_le_mul (Nat.le_sub_one_of_lt n.toNat_lt) power
  have denominator : d.toNat < 2 ^ 32 := d.toNat_lt
  rw [scaled, shiftLeft_ok (by omega) (by omega), Outcome.ok_bind, checked_ok (by omega),
    Outcome.ok_bind, if_neg nonzero]
  rfl

/-- Without a shift the quotient is a word. -/
theorem nearest_le_u32Max : nearest (n.toNat * 2 ^ 0) d.toNat ≤ u32Max := by
  have denominator := toNat_pos positive
  have numerator : n.toNat < 2 ^ 32 := n.toNat_lt
  refine Nat.le_of_lt_succ ((Rounding.nearest_lt_iff denominator).mpr ?_)
  rw [u32Max]
  omega

/-- The first loop finds the largest shift, by induction on the turns. -/
theorem search_eq {shift : Nat} (small : shift ≤ 32)
    : let best := Nat.findGreatest (fun s => nearest (n.toNat * 2 ^ s) d.toNat ≤ u32Max) shift
      search n d shift = .ok (nearest (n.toNat * 2 ^ best) d.toNat, best) := by
  induction shift with
  | zero => rw [search, scaled_eq positive small]; rfl
  | succ shift ih =>
      dsimp only
      rw [search, scaled_eq positive small, Outcome.ok_bind, Nat.findGreatest_succ]
      split
      · rfl
      · exact ih (Nat.le_of_succ_le small)

end Search

/-- The second loop cancels a power of two, by induction on the turns. -/
theorem reduce_eq (mult shift : Nat)
    : ∃ mult' shift' count, reduce mult shift = (mult', shift')
      ∧ mult' * 2 ^ count = mult ∧ shift' + count = shift ∧ (mult' % 2 = 1 ∨ shift' = 0) := by
  induction shift generalizing mult with
  | zero => exact ⟨mult, 0, 0, rfl, Nat.mul_one mult, rfl, .inr rfl⟩
  | succ shift ih =>
      rw [reduce]
      split
      · next even =>
          obtain ⟨mult', shift', count, reduced, product, total, odd⟩ := ih (mult / 2)
          refine ⟨mult', shift', count + 1, reduced, ?_, congrArg (· + 1) total, odd⟩
          rw [Nat.pow_succ, ← Nat.mul_assoc, product]
          omega
      · next odd => exact ⟨mult, shift + 1, 0, rfl, Nat.mul_one mult, rfl, .inl (by omega)⟩

-----------------------------------------------------------------------------------------
-- New ratios
-----------------------------------------------------------------------------------------

/-- The fraction that is kept for `n / d`: the nearest one with the largest shift, up to a power of
two.
-/
structure Keeps (n d mult shift : Nat) : Prop where
  mult_le : mult ≤ u32Max
  shift_le : shift ≤ 32
  reduced : mult % 2 = 1 ∨ shift = 0
  scaled : ∃ count, mult * 2 ^ count = nearest (n * 2 ^ bestShift n d) d
    ∧ shift + count = bestShift n d

section New

variable {n d : UInt32} (positive : 0 < d)
include positive

theorem bestShift_spec (n : UInt32)
    : nearest (n.toNat * 2 ^ bestShift n.toNat d.toNat) d.toNat ≤ u32Max :=
  Nat.findGreatest_spec (P := fun s => nearest (n.toNat * 2 ^ s) d.toNat ≤ u32Max)
    (Nat.zero_le 32) (nearest_le_u32Max positive)

theorem fraction_eq
    : ∃ mult shift, fraction n d = .ok (mult, shift) ∧ Keeps n.toNat d.toNat mult shift := by
  have found := search_eq (n := n) positive (Nat.le_refl 32)
  have fits := bestShift_spec positive n
  have least : bestShift n.toNat d.toNat ≤ 32 := Nat.findGreatest_le 32
  obtain ⟨mult, shift, count, reduced, product, total, odd⟩ := reduce_eq
    (nearest (n.toNat * 2 ^ bestShift n.toNat d.toNat) d.toNat) (bestShift n.toNat d.toNat)
  refine ⟨mult, shift, ?_, ?_, ?_, odd, count, product, total⟩
  · rw [bestShift] at reduced
    rw [fraction, found, Outcome.ok_bind]
    dsimp only
    rw [reduced]
  · rw [← product] at fits
    exact Nat.le_trans (Nat.le_mul_of_pos_right mult (Nat.two_pow_pos count)) fits
  · omega

/-- The loops are not run for the numerator zero. -/
theorem keeps_zero : Keeps 0 d.toNat 0 0 where
  mult_le := Nat.zero_le _
  shift_le := Nat.zero_le _
  reduced := .inr rfl
  scaled := by
    have zero : ∀ s, nearest (0 * 2 ^ s) d.toNat = 0 := by
      intro s
      have half := Nat.div_lt_self (toNat_pos positive) (Nat.le_refl 2)
      rw [Nat.zero_mul, nearest, Nat.zero_add, Nat.div_eq_of_lt half]
    have best : bestShift 0 d.toNat = 32 := by
      refine Nat.findGreatest_eq ?_
      rw [zero]
      exact Nat.zero_le _
    exact ⟨32, by rw [zero, Nat.zero_mul], by rw [best]⟩

theorem new_eq
    : ∃ ratio, new n d = .ok ratio ∧ Keeps n.toNat d.toNat ratio.mult.toNat ratio.shift.toNat
      ∧ (n ≠ 0 → fraction n d = .ok (ratio.mult.toNat, ratio.shift.toNat)) := by
  have nonzero : d ≠ 0 := UInt32.pos_iff_ne_zero.mp positive
  rw [new, if_neg fun both => nonzero both.1]
  split
  · next zero =>
      subst zero
      exact ⟨_, rfl, keeps_zero positive, fun other => absurd rfl other⟩
  · obtain ⟨mult, shift, found, keeps⟩ := fraction_eq (n := n) positive
    have word : (UInt32.ofNat mult).toNat = mult :=
      UInt32.toNat_ofNat_of_lt' (Nat.lt_of_le_of_lt keeps.mult_le (by decide))
    have small : (UInt32.ofNat shift).toNat = shift :=
      UInt32.toNat_ofNat_of_lt' (Nat.lt_of_le_of_lt keeps.shift_le (by decide))
    rw [found]
    exact ⟨_, rfl, by rwa [word, small], fun _ => by rw [word, small]⟩

end New

/-- Without a denominator there is only the ratio with the numerator zero. -/
theorem new_returns_iff {n d : UInt32} : (∃ ratio, new n d = .ok ratio) ↔ d ≠ 0 ∨ n = 0 := by
  constructor
  · rintro ⟨ratio, made⟩
    by_contra neither
    rw [not_or, not_not] at neither
    rw [new, if_pos neither] at made
    cases made
  · rintro (nonzero | rfl)
    · obtain ⟨ratio, made, -⟩ := new_eq (n := n) (UInt32.pos_iff_ne_zero.mpr nonzero)
      exact ⟨ratio, made⟩
    · exact ⟨_, by rw [new, if_neg (fun both => both.2 rfl), if_pos rfl]⟩

/-- The fraction that is kept is as far away as the nearest one. -/
theorem Keeps.error_le {n d mult shift : Nat} (positive : 0 < d) (keeps : Keeps n d mult shift)
    : |(mult : ℚ) / 2 ^ shift - n / d| ≤ 1 / 2 ^ (bestShift n d + 1) := by
  obtain ⟨count, product, total⟩ := keeps.scaled
  set s := bestShift n d
  have kept : (mult : ℚ) / 2 ^ shift = nearest (n * 2 ^ s) d / (2 ^ s : Nat) := by
    rw [← product, ← total]
    push_cast
    field_simp
    ring
  calc
    |(mult : ℚ) / 2 ^ shift - n / d| ≤ 1 / (2 * (2 ^ s : Nat)) := by
      rw [kept]
      exact Rounding.abs_nearest_div_sub_le n positive (Nat.two_pow_pos s)
    _ = 1 / 2 ^ (s + 1) := by
      rw [pow_succ, mul_comm (2 ^ s)]
      push_cast
      rfl

/-- The shift is the largest one with which the rounded quotient is a word. -/
theorem bestShift_isGreatest {n d : UInt32} (positive : 0 < d)
    : IsGreatest {s : ℕ | s ≤ 32 ∧ round ((n.toNat * 2 ^ s : Nat) / d.toNat : ℚ) ≤ u32Max}
        (bestShift n.toNat d.toNat) := by
  have fits (s : ℕ)
      : round ((n.toNat * 2 ^ s : Nat) / d.toNat : ℚ) ≤ u32Max
        ↔ nearest (n.toNat * 2 ^ s) d.toNat ≤ u32Max := by
    rw [← Rounding.nearest_eq_round (toNat_pos positive)]
    exact Int.ofNat_le
  constructor
  · exact ⟨Nat.findGreatest_le 32, (fits _).mpr (bestShift_spec positive n)⟩
  · rintro s ⟨small, word⟩
    exact Nat.le_findGreatest small ((fits s).mp word)

/-- The ratio of `n` and `d` approximates it as well as the shift `s` allows. -/
structure IsBest (n d : UInt32) (ratio : Ratio) (s : ℕ) : Prop where
  made : new n d = .ok ratio
  /-- No multiplier overflows. -/
  exact : ∀ shift ≤ 32, scaled n d shift = .ok (nearest (n.toNat * 2 ^ shift) d.toNat)
  /-- The multiplier and the shift fit in their words. -/
  fits : fraction n d = .ok (ratio.mult.toNat, ratio.shift.toNat)
  reduced : ratio.mult.toNat % 2 = 1 ∨ ratio.shift.toNat = 0
  largest : IsGreatest {s : ℕ | s ≤ 32 ∧ round ((n.toNat * 2 ^ s : Nat) / d.toNat : ℚ) ≤ u32Max} s
  error_le : |(ratio.mult.toNat : ℚ) / 2 ^ ratio.shift.toNat - n.toNat / d.toNat| ≤ 1 / 2 ^ (s + 1)

/-- A new ratio is the best approximation, and ratios other than zero have an inverse. -/
theorem new_best
    : (∀ n d : UInt32, 0 < n → 0 < d → ∃ ratio s, IsBest n d ratio s)
      ∧ ∀ ratio : Ratio, ratio.numerator ≠ 0 → ∃ ratio', ratio.inverse = .ok ratio' := by
  constructor
  · intro n d some positive
    obtain ⟨ratio, made, keeps, loops⟩ := new_eq (n := n) positive
    exact ⟨ratio, bestShift n.toNat d.toNat, {
      made
      exact := fun shift small => scaled_eq positive small
      fits := loops (UInt32.pos_iff_ne_zero.mp some)
      reduced := keeps.reduced
      largest := bestShift_isGreatest positive
      error_le := keeps.error_le (toNat_pos positive) }⟩
  · intro ratio some
    exact new_returns_iff.mpr (.inl some)

theorem new_best_third
    : (∃ ratio s, IsBest 1 3 ratio s)
      ∧ ∃ ratio, inverse { numerator := 1, denominator := 3, mult := 1431655765, shift := 32 }
        = .ok ratio :=
  ⟨new_best.1 1 3 (by decide) (by decide), new_best.2 _ (by decide)⟩

example : new 625000 1000000
    = .ok { numerator := 625000, denominator := 1000000, mult := 5, shift := 3 } := by
  decide +kernel

end Ratio

end RCoreOS
