import Mathlib.Data.List.Basic
import Mathlib.Algebra.Ring.Nat
import Mathlib.Order.Lattice

/-! Numbers as bytes of fixed count, the least significant byte first, and byte lists read as
such numbers one after the other.
-/

namespace LittleEndian

/-- The lowest `n` bytes of a number. -/
def toBytes : Nat → Nat → List UInt8
  | 0, _ => []
  | n + 1, value => UInt8.ofNat value :: toBytes n (value / 256)

def ofBytes : List UInt8 → Nat
  | [] => 0
  | byte :: rest => byte.toNat + 256 * ofBytes rest

/-- Reads numbers of `width` bytes, at most `count`, as long as there are bytes for one. -/
def read (width : Nat) : Nat → List UInt8 → List Nat
  | 0, _ => []
  | count + 1, bytes =>
      if bytes.length < width then []
      else ofBytes (bytes.take width) :: read width count (bytes.drop width)

@[simp]
theorem length_toBytes (n value : Nat) : (toBytes n value).length = n := by
  induction n generalizing value with
  | zero => rfl
  | succ n ih => simp [toBytes, ih]

/-- A number that fits is read back, by induction on the bytes. -/
theorem ofBytes_toBytes {n value : Nat} (fits : value < 256 ^ n)
    : ofBytes (toBytes n value) = value := by
  induction n generalizing value with
  | zero =>
      have zero : value = 0 := by simpa using fits
      exact zero.symm
  | succ n ih =>
      have rest : value / 256 < 256 ^ n := by
        rw [Nat.pow_succ] at fits
        exact Nat.div_lt_of_lt_mul (by rwa [Nat.mul_comm])
      have first : (UInt8.ofNat value).toNat = value % 256 := UInt8.toNat_ofNat'
      rw [toBytes, ofBytes, ih rest, first, Nat.mod_add_div]

/-- Numbers that were written one after the other are read back, by induction on them. -/
theorem read_flatMap {width count : Nat} {values : List Nat} (rest : List UInt8)
    (fit : ∀ value ∈ values, value < 256 ^ width) (enough : values.length ≤ count)
    : read width count (values.flatMap (toBytes width) ++ rest)
      = values ++ read width (count - values.length) rest := by
  induction values generalizing count with
  | nil => simp
  | cons value values ih =>
      obtain _ | count := count
      · simp at enough
      · have length : (toBytes width value).length = width := length_toBytes width value
        have more := ih (fun value' member => fit value' (List.mem_cons_of_mem _ member))
          (Nat.le_of_succ_le_succ enough)
        rw [List.flatMap_cons, List.append_assoc, read, if_neg (by simp),
          List.take_left' length, List.drop_left' length,
          ofBytes_toBytes (fit value (List.mem_cons_self ..)), more]
        simp

end LittleEndian
