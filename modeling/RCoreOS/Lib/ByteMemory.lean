import RCoreOS.Lib.Extent
import RCoreOS.Lib.Window

/-! Memories of bytes: what is read from one range after a write to another one. -/

abbrev ByteMemory : Type :=
  Nat → UInt8

namespace ByteMemory

/-- The bytes of the range. -/
def read (m : ByteMemory) (e : Extent) : List UInt8 :=
  (List.range e.size).map fun i => m (e.start + i)

/-- The bytes are written from the address on. -/
def write (m : ByteMemory) (start : Nat) (bytes : List UInt8) : ByteMemory :=
  fun address => if start ≤ address then bytes[address - start]?.getD (m address) else m address

variable {m m' : ByteMemory} {e : Extent} {start address : Nat} {bytes : List UInt8}

@[simp]
theorem length_read (m : ByteMemory) (e : Extent) : (m.read e).length = e.size := by
  simp [read]

theorem read_congr (same : ∀ address ∈ e, m address = m' address) : m.read e = m'.read e := by
  refine List.map_congr_left fun i member => same _ ⟨Nat.le_add_right .., ?_⟩
  exact Nat.add_lt_add_left (List.mem_range.mp member) _

theorem write_outside (outside : address ∉ (⟨start, bytes.length⟩ : Extent))
    : m.write start bytes address = m address := by
  by_cases behind : start ≤ address
  · have beyond : bytes.length ≤ address - start := by
      rw [Extent.mem_iff] at outside
      simp only [Extent.stop] at outside
      omega
    rw [write, if_pos behind, List.getElem?_eq_none beyond, Option.getD_none]
  · rw [write, if_neg behind]

theorem read_write_apart (apart : Extent.Apart e ⟨start, bytes.length⟩)
    : (m.write start bytes).read e = m.read e :=
  read_congr fun _ member => write_outside (apart.not_mem member)

/-- What is written to a part of a range overwrites this part of its bytes. -/
theorem read_write_inside {pos : Nat} (inside : pos + bytes.length ≤ e.size)
    : (m.write (e.start + pos) bytes).read e = (m.read e).patch pos bytes := by
  refine List.ext_getElem? fun i => ?_
  have lengthRead : (m.read e).length = e.size := length_read m e
  rw [List.patch, List.append_assoc]
  by_cases below : i < e.size
  · have written : ((m.write (e.start + pos) bytes).read e)[i]?
        = some (m.write (e.start + pos) bytes (e.start + i)) := by
      simp [read, below]
    have readHere : (m.read e)[i]? = some (m (e.start + i)) := by
      simp [read, below]
    rw [written, write]
    rcases Nat.lt_or_ge i pos with before | behind
    · rw [if_neg (by omega), List.getElem?_append_left (by simp; omega),
        List.getElem?_take_of_lt before, readHere]
    · rw [if_pos (by omega), List.getElem?_append_right (by simp; omega)]
      have taken : ((m.read e).take pos).length = pos := by
        rw [List.length_take]
        omega
      rw [taken, show e.start + i - (e.start + pos) = i - pos by omega]
      rcases Nat.lt_or_ge (i - pos) bytes.length with within | beyond
      · rw [List.getElem?_append_left within, List.getElem?_eq_getElem within, Option.getD_some]
      · rw [List.getElem?_eq_none beyond, Option.getD_none,
          List.getElem?_append_right beyond, List.getElem?_drop,
          show pos + bytes.length + (i - pos - bytes.length) = i by omega, readHere]
  · rw [List.getElem?_eq_none (by simp; omega), List.getElem?_eq_none]
    simp only [List.length_append, List.length_take, List.length_drop, lengthRead]
    omega

theorem read_write_self : (m.write start bytes).read ⟨start, bytes.length⟩ = bytes := by
  have fits : 0 + bytes.length ≤ (⟨start, bytes.length⟩ : Extent).size :=
    Nat.le_of_eq (Nat.zero_add _)
  have whole := read_write_inside (m := m) fits
  rw [Nat.add_zero] at whole
  rw [whole, List.patch, List.take_zero, List.nil_append, Nat.zero_add, List.drop_of_length_le,
    List.append_nil]
  exact (length_read ..).le

end ByteMemory
