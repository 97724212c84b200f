import Mathlib.Data.List.TakeDrop
import Mathlib.Algebra.Ring.Nat

/-! Windows of a list: reading and overwriting the places from a position on, and how the
windows of equal blocks lie in the concatenation of the blocks.
-/

namespace List

variable {α : Type}

/-- The `count` entries from `pos` on. -/
def window (list : List α) (pos count : Nat) : List α :=
  (list.drop pos).take count

/-- The list with the entries from `pos` on overwritten by `part`. -/
def patch (list : List α) (pos : Nat) (part : List α) : List α :=
  list.take pos ++ part ++ list.drop (pos + part.length)

theorem length_window {list : List α} {pos count : Nat} (inside : pos + count ≤ list.length)
    : (list.window pos count).length = count := by
  simp only [window, length_take, length_drop]
  omega

/-- A window is read in two parts. -/
theorem window_add (list : List α) (pos front back : Nat)
    : list.window pos (front + back)
      = list.window pos front ++ list.window (pos + front) back := by
  rw [window, window, window, take_add, drop_drop]

@[simp]
theorem window_zero (list : List α) (pos : Nat) : list.window pos 0 = [] := by
  simp [window]

theorem extract_eq_nil_iff {list : List α} {start stop : Nat} (inside : stop ≤ list.length)
    : list.extract start stop = [] ↔ stop ≤ start := by
  rw [extract_eq_take_drop, ← length_eq_zero_iff, length_take, length_drop]
  omega

/-- A slice that ends one place later. -/
theorem extract_succ {list : List α} {start pos : Nat} (ordered : start ≤ pos)
    (inside : pos < list.length)
    : list.extract start (pos + 1) = list.extract start pos ++ [list[pos]] := by
  have here : (list.drop start)[pos - start]? = some list[pos] := by
    rw [getElem?_drop, Nat.add_sub_cancel' ordered, getElem?_eq_getElem inside]
  rw [extract_eq_take_drop, extract_eq_take_drop, Nat.succ_sub ordered,
    take_add_one, here]
  rfl

@[simp]
theorem patch_nil (list : List α) (pos : Nat) : list.patch pos [] = list := by
  simp [patch]

/-- The window behind the end. -/
theorem patch_length (list part : List α) : list.patch list.length part = list ++ part := by
  simp [patch]

/-- The list grows if the window reaches beyond its end. -/
theorem length_patch_eq_max {list : List α} {pos : Nat} {part : List α}
    (inside : pos ≤ list.length)
    : (list.patch pos part).length = max list.length (pos + part.length) := by
  simp only [patch, length_append, length_take, length_drop]
  omega

theorem length_patch {list : List α} {pos : Nat} {part : List α}
    (inside : pos + part.length ≤ list.length)
    : (list.patch pos part).length = list.length := by
  rw [length_patch_eq_max (by omega), max_eq_left inside]

/-- The entry at a place is the new one inside the window and the old one elsewhere. -/
theorem getElem?_patch {list : List α} {pos : Nat} {part : List α} (inside : pos ≤ list.length)
    (place : Nat)
    : (list.patch pos part)[place]?
      = if pos ≤ place ∧ place < pos + part.length then part[place - pos]?
        else list[place]? := by
  have front : (list.take pos).length = pos := by
    rw [length_take]
    omega
  rw [patch, append_assoc]
  by_cases before : place < pos
  · rw [getElem?_append_left (by omega), getElem?_take_of_lt before, if_neg (by omega)]
  · rw [getElem?_append_right (by omega), front]
    by_cases within : place < pos + part.length
    · rw [getElem?_append_left (by omega), if_pos ⟨by omega, within⟩]
    · rw [getElem?_append_right (by omega), getElem?_drop, if_neg (by omega)]
      congr 1
      omega

/-- A window is overwritten in two parts. -/
theorem patch_append {list : List α} {pos : Nat} {front back : List α}
    (inside : pos ≤ list.length)
    : (list.patch pos front).patch (pos + front.length) back
      = list.patch pos (front ++ back) := by
  have reached : pos + front.length ≤ (list.patch pos front).length := by
    rw [length_patch_eq_max inside]
    exact le_max_right ..
  apply ext_getElem?
  intro place
  rw [getElem?_patch reached, getElem?_patch inside, getElem?_patch inside, length_append]
  by_cases early : pos ≤ place ∧ place < pos + front.length
  · rw [if_neg (by omega), if_pos early, if_pos (by omega), getElem?_append_left (by omega)]
  · by_cases late : pos + front.length ≤ place ∧ place < pos + front.length + back.length
    · rw [if_pos late, if_pos (by omega), getElem?_append_right (by omega), Nat.sub_sub]
    · rw [if_neg late, if_neg early, if_neg (by omega)]

-----------------------------------------------------------------------------------------
-- Blocks
-----------------------------------------------------------------------------------------

variable {size : Nat}

theorem length_flatten_blocks {blocks : List (List α)}
    (sized : ∀ block ∈ blocks, block.length = size)
    : blocks.flatten.length = blocks.length * size := by
  induction blocks with
  | nil => simp
  | cons block rest ih =>
      rw [flatten_cons, length_append, sized block mem_cons_self, length_cons,
        ih fun other member => sized other (mem_cons_of_mem _ member), Nat.succ_mul]
      exact Nat.add_comm _ _

/-- A window inside one block is a window of the concatenation, by induction on the blocks. -/
theorem window_flatten {blocks : List (List α)} {index start count : Nat} {block : List α}
    (sized : ∀ block ∈ blocks, block.length = size) (found : blocks[index]? = some block)
    (inside : start + count ≤ size)
    : blocks.flatten.window (index * size + start) count = block.window start count := by
  induction blocks generalizing index with
  | nil => cases found
  | cons head rest ih =>
      have long := sized head mem_cons_self
      have others := fun other member => sized other (mem_cons_of_mem head member)
      cases index with
      | zero =>
          cases found
          rw [flatten_cons, Nat.zero_mul, Nat.zero_add, window, window,
            drop_append_of_le_length (by omega), take_append_of_le_length]
          rw [length_drop]
          omega
      | succ index =>
          have shift : (index + 1) * size + start = head.length + (index * size + start) := by
            rw [long, Nat.succ_mul]
            omega
          rw [← ih others found, flatten_cons, window, window, shift, drop_length_add_append]

/-- Overwriting inside one block overwrites in the concatenation, by induction on the
blocks.
-/
theorem patch_flatten {blocks : List (List α)} {index start : Nat} {block part : List α}
    (sized : ∀ block ∈ blocks, block.length = size) (found : blocks[index]? = some block)
    (inside : start + part.length ≤ size)
    : (blocks.set index (block.patch start part)).flatten
      = blocks.flatten.patch (index * size + start) part := by
  induction blocks generalizing index with
  | nil => cases found
  | cons head rest ih =>
      have long := sized head mem_cons_self
      have others := fun other member => sized other (mem_cons_of_mem head member)
      cases index with
      | zero =>
          cases found
          rw [set_cons_zero, flatten_cons, flatten_cons, Nat.zero_mul, Nat.zero_add, patch, patch,
            take_append_of_le_length (by omega), drop_append_of_le_length (by omega)]
          simp only [append_assoc]
      | succ index =>
          have shift : (index + 1) * size + start = head.length + (index * size + start) := by
            rw [long, Nat.succ_mul]
            omega
          rw [set_cons_succ, flatten_cons, ih others found, flatten_cons, patch, patch, shift,
            take_length_add_append, Nat.add_assoc head.length, drop_length_add_append]
          simp only [append_assoc]

end List
