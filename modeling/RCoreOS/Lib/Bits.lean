import Mathlib.Data.List.Sort
import Mathlib.Algebra.Ring.Nat

/-! The bits of a machine word: masks of one bit, and the set bits in increasing order, from
which a scan takes the lowest one after the other.
-/

namespace BitVec

variable {w : Nat}

theorem getLsbD_one_shiftLeft (place bit : Nat)
    : (1#w <<< place).getLsbD bit = (decide (bit < w) && decide (bit = place)) := by
  by_cases inside : bit < w
  · by_cases same : bit = place
    · simp [same ▸ inside, same]
    · simp [inside, same]
      omega
  · simp [inside]

/-- A mask of one bit tests this bit. -/
theorem and_one_shiftLeft_eq_zero {x : BitVec w} {place : Nat}
    : x &&& 1#w <<< place = 0#w ↔ x.getLsbD place = false := by
  constructor
  · intro zero
    by_cases inside : place < w
    · have bit := congrArg (getLsbD · place) zero
      simpa [getLsbD_one_shiftLeft, inside] using bit
    · exact getLsbD_of_ge x place (Nat.le_of_not_lt inside)
  · intro clear
    refine eq_of_getLsbD_eq fun bit inside => ?_
    rw [getLsbD_and, getLsbD_one_shiftLeft, getLsbD_zero]
    by_cases same : bit = place
    · rw [same, clear, Bool.false_and]
    · simp [same]

/-- The complement of a mask of one bit clears this bit. -/
theorem getLsbD_and_not_one_shiftLeft (x : BitVec w) (place bit : Nat)
    : (x &&& ~~~(1#w <<< place)).getLsbD bit = (x.getLsbD bit && decide (bit ≠ place)) := by
  by_cases inside : bit < w
  · rw [getLsbD_and, getLsbD_not, getLsbD_one_shiftLeft]
    simp [inside]
  · simp [getLsbD_of_ge x bit (Nat.le_of_not_lt inside)]

/-- A mask of one bit sets this bit. -/
theorem getLsbD_or_one_shiftLeft {place : Nat} (x : BitVec w) (inside : place < w) (bit : Nat)
    : (x ||| 1#w <<< place).getLsbD bit = (x.getLsbD bit || decide (bit = place)) := by
  rw [getLsbD_or, getLsbD_one_shiftLeft]
  by_cases same : bit = place
  · simp [same, inside]
  · simp [same]

-----------------------------------------------------------------------------------------
-- The set bits in increasing order
-----------------------------------------------------------------------------------------

def setBits (x : BitVec w) : List Nat :=
  (List.range w).filter x.getLsbD

theorem mem_setBits {x : BitVec w} {bit : Nat} : bit ∈ x.setBits ↔ x.getLsbD bit = true := by
  rw [setBits, List.mem_filter, List.mem_range]
  exact ⟨And.right, fun set => ⟨lt_of_getLsbD set, set⟩⟩

theorem setBits_pairwise (x : BitVec w) : x.setBits.Pairwise (· < ·) :=
  List.pairwise_lt_range.filter _

theorem setBits_zero : (0#w).setBits = [] := by
  simp [setBits]

/-- The trailing zeros of a word count up to its first set bit; the others are those of the word
without it.
-/
theorem setBits_of_ne_zero {x : BitVec w} (some : x ≠ 0#w)
    : x.setBits = x.ctz.toNat :: (x &&& ~~~(1#w <<< x.ctz.toNat)).setBits := by
  refine x.setBits_pairwise.eq_of_mem_iff (List.pairwise_cons.mpr ⟨?_, setBits_pairwise _⟩) ?_
  · intro bit later
    rw [mem_setBits, getLsbD_and_not_one_shiftLeft, Bool.and_eq_true, decide_eq_true_iff] at later
    refine Nat.lt_of_le_of_ne (Nat.le_of_not_lt fun below => ?_) (Ne.symm later.2)
    rw [getLsbD_false_of_lt_ctz below] at later
    exact Bool.noConfusion later.1
  · intro bit
    have lowest := getLsbD_true_ctz_of_ne_zero some
    rw [List.mem_cons, mem_setBits, mem_setBits, getLsbD_and_not_one_shiftLeft]
    by_cases same : bit = x.ctz.toNat
    · simp [same, lowest]
    · simp [same]

/-- The word without its lowest set bit is smaller. -/
theorem clear_lowest_lt {x : BitVec w} (some : x ≠ 0#w)
    : (x &&& ~~~(1#w <<< x.ctz.toNat)).toNat < x.toNat := by
  refine Nat.lt_of_le_of_ne (by rw [toNat_and]; exact Nat.and_le_left) fun same => ?_
  have bit := congrArg (getLsbD · x.ctz.toNat) (eq_of_toNat_eq same)
  simp only [getLsbD_and_not_one_shiftLeft, getLsbD_true_ctz_of_ne_zero some] at bit
  simp at bit

end BitVec
