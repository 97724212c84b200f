import RCoreOS.Lib.Window
import Mathlib.Data.List.GetD

/-! Arrays of a size with a fill value behind their end: an array grows by taking over fill
values, so that a hole reads as if it had been written with them.
-/

/-- An array of the given size whose entries behind the end are `fill`. -/
@[ext]
structure FilledArray (α : Type) (fill : α) where
  size : Nat
  entry : Nat → α
  beyond : ∀ place, size ≤ place → entry place = fill

namespace FilledArray

variable {α : Type} {fill : α}

def empty : FilledArray α fill where
  size := 0
  entry _ := fill
  beyond _ _ := rfl

/-- The entries from `pos` on are overwritten, and the array reaches at least to their end. -/
def write (array : FilledArray α fill) (pos : Nat) (part : List α) : FilledArray α fill where
  size := max array.size (pos + part.length)
  entry place :=
    if pos ≤ place ∧ place < pos + part.length then part.getD (place - pos) fill
    else array.entry place
  beyond place outside := by
    rw [if_neg (by omega)]
    exact array.beyond place (by omega)

/-- The array is cut or filled up to the size. -/
def truncate (array : FilledArray α fill) (size : Nat) : FilledArray α fill where
  size := size
  entry place := if place < size then array.entry place else fill
  beyond _ outside := if_neg (by omega)

/-- The existing entries among the `count` ones from `pos` on. -/
def read (array : FilledArray α fill) (pos count : Nat) : List α :=
  (List.range' pos (min array.size (pos + count) - pos)).map array.entry

@[simp]
theorem write_size (array : FilledArray α fill) (pos : Nat) (part : List α)
    : (array.write pos part).size = max array.size (pos + part.length) :=
  rfl

@[simp]
theorem write_entry (array : FilledArray α fill) (pos : Nat) (part : List α) (place : Nat)
    : (array.write pos part).entry place
      = if pos ≤ place ∧ place < pos + part.length then part.getD (place - pos) fill
        else array.entry place :=
  rfl

@[simp]
theorem truncate_size (array : FilledArray α fill) (newSize : Nat)
    : (array.truncate newSize).size = newSize :=
  rfl

@[simp]
theorem truncate_entry (array : FilledArray α fill) (newSize place : Nat)
    : (array.truncate newSize).entry place = if place < newSize then array.entry place else fill :=
  rfl

/-- The array that a list holds. -/
def ofList (list : List α) : FilledArray α fill where
  size := list.length
  entry place := list.getD place fill
  beyond _ outside := List.getD_eq_default _ _ outside

@[simp]
theorem ofList_size (list : List α) : (ofList list : FilledArray α fill).size = list.length :=
  rfl

@[simp]
theorem ofList_entry (list : List α) (place : Nat)
    : (ofList list : FilledArray α fill).entry place = list.getD place fill :=
  rfl

theorem ofList_nil : (ofList [] : FilledArray α fill) = empty := by
  ext place
  · rfl
  · simp [empty]

/-- A list that is filled up by hand holds the same entries and has the new size. -/
theorem getD_fillUp (list : List α) (count place : Nat)
    : (list ++ List.replicate count fill).getD place fill = list.getD place fill := by
  by_cases inside : place < list.length
  · rw [List.getD_append _ _ _ _ inside]
  · rw [List.getD_append_right _ _ _ _ (by omega), List.getD_eq_getElem?_getD,
      List.getElem?_getD_replicate_default_eq, List.getD_eq_default _ _ (by omega)]

theorem ofList_fillUp {list : List α} {newSize : Nat} (grows : list.length ≤ newSize)
    : (ofList (list ++ List.replicate (newSize - list.length) fill) : FilledArray α fill)
      = (ofList list).truncate newSize := by
  ext place
  · simp only [ofList_size, truncate_size, List.length_append, List.length_replicate]
    omega
  · rw [ofList_entry, getD_fillUp, truncate_entry, ofList_entry]
    split
    · rfl
    · exact List.getD_eq_default _ _ (by omega)

theorem ofList_take {list : List α} {newSize : Nat} (shrinks : newSize ≤ list.length)
    : (ofList (list.take newSize) : FilledArray α fill) = (ofList list).truncate newSize := by
  ext place
  · simp only [ofList_size, truncate_size, List.length_take]
    omega
  · simp only [ofList_entry, truncate_entry, List.getD_eq_getElem?_getD]
    split
    · rename_i inside
      rw [List.getElem?_take_of_lt inside]
    · rw [List.getElem?_eq_none (by simp only [List.length_take]; omega), Option.getD_none]

/-- Overwriting a window of a list that was filled up far enough is a write. -/
theorem ofList_patch {list : List α} {pos : Nat} {part : List α}
    : (ofList ((list ++ List.replicate (pos + part.length - list.length) fill).patch pos part)
        : FilledArray α fill)
      = (ofList list).write pos part := by
  have far : pos + part.length
      ≤ (list ++ List.replicate (pos + part.length - list.length) fill).length := by
    rw [List.length_append, List.length_replicate]
    omega
  ext place
  · simp only [ofList_size, write_size, List.length_patch far, List.length_append,
      List.length_replicate]
    omega
  · rw [ofList_entry, List.getD_eq_getElem?_getD, List.getElem?_patch (by omega), write_entry]
    split
    · rw [List.getD_eq_getElem?_getD]
    · rw [← List.getD_eq_getElem?_getD, getD_fillUp, ofList_entry]

/-- The window of a list up to its end is what a read of the array gives. -/
theorem ofList_read (list : List α) (pos count : Nat)
    : (ofList list : FilledArray α fill).read pos count
      = list.window pos (min list.length (pos + count) - pos) := by
  apply List.ext_getElem
  · simp only [read, ofList_size, List.length_map, List.length_range', List.window,
      List.length_take, List.length_drop]
    omega
  · intro place inside inside'
    simp only [read, ofList_size, List.length_map, List.length_range'] at inside
    simp only [read, List.window, List.getElem_map, List.getElem_range', ofList_entry,
      List.getElem_take, List.getElem_drop, Nat.one_mul]
    exact List.getD_eq_getElem _ _ (by omega)

theorem length_read (array : FilledArray α fill) (pos count : Nat)
    : (array.read pos count).length = min array.size (pos + count) - pos := by
  simp [read]

end FilledArray
