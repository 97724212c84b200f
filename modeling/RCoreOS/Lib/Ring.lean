import Mathlib.Data.Nat.ModEq
import Mathlib.Data.Fin.Basic
import Mathlib.Data.List.Induction

/-! Queues in a ring of `n` cells: the elements follow each other from the head cell on, and
the cell after the last one is the first one.
-/

namespace Ring

variable {n : Nat} [NeZero n] {α : Type}

/-- The cell `i` places after `head`. -/
def slot (head : Fin n) (i : Nat) : Fin n :=
  Fin.ofNat n (head + i)

@[simp]
theorem slot_val (head : Fin n) (i : Nat) : (slot head i).val = (head + i) % n :=
  rfl

@[simp]
theorem slot_zero (head : Fin n) : slot head 0 = head := by
  apply Fin.ext
  simpa using Nat.mod_eq_of_lt head.isLt

theorem slot_slot (head : Fin n) (i j : Nat) : slot (slot head i) j = slot head (i + j) := by
  apply Fin.ext
  simp [Nat.add_assoc]

/-- Different places of one round are different cells. -/
theorem slot_injective {head : Fin n} {i j : Nat} (hi : i < n) (hj : j < n)
    (same : slot head i = slot head j)
    : i = j := by
  have sums : head + i ≡ head + j [MOD n] := congrArg Fin.val same
  exact (Nat.ModEq.add_left_cancel' head.val sums).eq_of_lt_of_lt hi hj

/-- The elements of the `len` cells from `head` on. -/
def content (cells : Vector α n) (head : Fin n) (len : Nat) : List α :=
  (List.range len).map fun i => cells.get (slot head i)

@[simp]
theorem content_zero (cells : Vector α n) (head : Fin n) : content cells head 0 = [] :=
  rfl

@[simp]
theorem content_length (cells : Vector α n) (head : Fin n) (len : Nat)
    : (content cells head len).length = len := by
  simp [content]

/-- Writing the cell behind the last element adds an element at the end. -/
theorem content_push (cells : Vector α n) {head tail : Fin n} {len : Nat}
    (behind : tail = slot head len) (room : len < n) (a : α)
    : content (cells.set tail a) head (len + 1) = content cells head len ++ [a] := by
  subst behind
  have others : ∀ i ∈ List.range len,
      (cells.set (slot head len) a).get (slot head i) = cells.get (slot head i) := by
    intro i mem
    have before : i < len := List.mem_range.mp mem
    have apart : (slot head len).val ≠ (slot head i).val := by
      intro same
      exact absurd (slot_injective room (before.trans room) (Fin.ext same)) before.ne'
    exact Vector.getElem_set_ne _ _ apart
  have last : (cells.set (slot head len) a).get (slot head len) = a :=
    Vector.getElem_set_self _
  simp only [content, List.range_succ, List.map_append, List.map_cons, List.map_nil, last,
    List.map_congr_left others]

/-- The first of some elements lies in the head cell, the others follow it. -/
theorem content_pop (cells : Vector α n) (head : Fin n) (len : Nat)
    : content cells head (len + 1)
      = cells.get head :: content cells (slot head 1) len := by
  simp [content, List.range_succ_eq_map, slot_slot, Nat.add_comm 1]

/-- The cell behind the last element tells how many elements there are, unless there are
none.
-/
theorem distance {head tail : Fin n} {len : Nat} (behind : tail = slot head len)
    (some : 0 < len) (bound : len ≤ n)
    : (if tail.val > head.val then tail.val - head.val else tail.val + n - head.val) = len := by
  have below := head.isLt
  have value : tail.val = (head + len) % n := congrArg Fin.val behind
  by_cases wraps : head.val + len < n
  · rw [Nat.mod_eq_of_lt wraps] at value
    grind
  · rw [Nat.mod_eq_sub_mod (by omega), Nat.mod_eq_of_lt (by omega)] at value
    grind

/-- The queue is empty or fills the ring when its two ends are the same cell. -/
theorem slot_eq_head {head : Fin n} {len : Nat} (bound : len ≤ n)
    : slot head len = head ↔ len = 0 ∨ len = n := by
  constructor
  · intro same
    by_cases full : len = n
    · exact .inr full
    · have first : slot head len = slot head 0 := by rw [same, slot_zero]
      exact .inl (slot_injective (by omega) (Nat.pos_of_neZero n) first)
  · rintro (rfl | rfl)
    · exact slot_zero head
    · apply Fin.ext
      simpa using Nat.mod_eq_of_lt head.isLt

end Ring
