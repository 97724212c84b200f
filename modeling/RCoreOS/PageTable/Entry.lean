import RCoreOS.PageTable.Address
import Mathlib.Data.Bool.Basic

/-! Page table entries: the generic interface of the `page_table_entry` crate, the laws its
users rely on, and the RISC-V entries that satisfy them.
-/

namespace RCoreOS.PageTable

/-- Generic page table entry flags. -/
structure MappingFlags where
  read : Bool := false
  write : Bool := false
  execute : Bool := false
  user : Bool := false
  device : Bool := false
  uncached : Bool := false
deriving DecidableEq, Repr

namespace MappingFlags

def isEmpty (f : MappingFlags) : Bool :=
  !(f.read || f.write || f.execute || f.user || f.device || f.uncached)

/-- Every flag of `g` is set in `f`. -/
def contains (f g : MappingFlags) : Bool :=
  (!g.read || f.read)
    && (!g.write || f.write)
    && (!g.execute || f.execute)
    && (!g.user || f.user)
    && (!g.device || f.device)
    && (!g.uncached || f.uncached)

/-- The READ/WRITE/EXECUTE/USER part, the only flags a RISC-V entry stores. -/
def access (f : MappingFlags) : MappingFlags :=
  { f with device := false, uncached := false }

/-- Readable or executable: the flags that make a RISC-V entry a leaf at any level. -/
def isLeaf (f : MappingFlags) : Bool :=
  f.read || f.execute

theorem isLeaf_of_read {f : MappingFlags} (read : f.read = true) : f.isLeaf = true := by
  simp [isLeaf, read]

end MappingFlags

/-- A generic page table entry. `zeroed` is the entry that zero-filled memory holds. -/
class GenericPTE (PTE : Type) where
  newPage : Nat → MappingFlags → Bool → PTE
  newFaultPage : MappingFlags → Bool → PTE
  newTable : Nat → PTE
  paddr : PTE → Nat
  flags : PTE → MappingFlags
  setPaddr : PTE → Nat → PTE
  setFlags : PTE → MappingFlags → Bool → PTE
  isUnused : PTE → Bool
  isPresent : PTE → Bool
  isHuge : PTE → Bool
  clear : PTE → PTE
  zeroed : PTE

/-- The physical addresses an entry stores exactly: 4K-aligned and below 2^56. -/
def FrameAddr (p : Nat) : Prop :=
  p % 4096 = 0 ∧ p < 2 ^ 56

instance (p : Nat) : Decidable (FrameAddr p) :=
  inferInstanceAs (Decidable (_ ∧ _))

open GenericPTE in
/-- What the page table code relies on: constructors and observers agree, and pages with the
flags of a leaf are never mistaken for tables.
-/
class LawfulPTE (PTE : Type) [GenericPTE PTE] : Prop where
  unused_zeroed : isUnused (zeroed : PTE) = true
  unused_clear (e : PTE) : isUnused (clear e) = true
  absent_of_unused {e : PTE} : isUnused e = true → isPresent e = false
  small_of_unused {e : PTE} : isUnused e = true → isHuge e = false
  paddr_of_unused {e : PTE} : isUnused e = true → paddr e = 0
  table_used (p : Nat) : isUnused (newTable p : PTE) = false
  table_present (p : Nat) : isPresent (newTable p : PTE) = true
  table_small (p : Nat) : isHuge (newTable p : PTE) = false
  table_paddr {p : Nat} : FrameAddr p → paddr (newTable p : PTE) = p
  page_used (p : Nat) (f : MappingFlags) (h : Bool) : isUnused (newPage p f h : PTE) = false
  page_present (p : Nat) {f : MappingFlags} (h : Bool)
    : f.isLeaf = true → isPresent (newPage p f h : PTE) = true
  page_huge (p : Nat) {f : MappingFlags}
    : f.isLeaf = true → isHuge (newPage p f true : PTE) = true
  page_paddr {p : Nat} (f : MappingFlags) (h : Bool)
    : FrameAddr p → paddr (newPage p f h : PTE) = p
  page_flags (p : Nat) (f : MappingFlags) (h : Bool) : flags (newPage p f h : PTE) = f.access
  fault_used (f : MappingFlags) (h : Bool) : isUnused (newFaultPage f h : PTE) = false
  fault_absent (f : MappingFlags) (h : Bool) : isPresent (newFaultPage f h : PTE) = false
  fault_paddr (f : MappingFlags) (h : Bool) : paddr (newFaultPage f h : PTE) = 0
  fault_flags (f : MappingFlags) (h : Bool) : flags (newFaultPage f h : PTE) = {}
  setPaddr_huge (e : PTE) (p : Nat) : isHuge (setPaddr e p) = isHuge e
  setFlags_huge (e : PTE) {f : MappingFlags}
    : f.isLeaf = true → isHuge (setFlags e f true) = true
  setFlags_page {p : Nat} (f g : MappingFlags) (h : Bool)
    : FrameAddr p → setFlags (newPage p f h : PTE) g h = newPage p g h

-----------------------------------------------------------------------------------------
-- RISC-V entries
-----------------------------------------------------------------------------------------

namespace PTEFlags

def V : BitVec 64 := 1
def R : BitVec 64 := 2
def W : BitVec 64 := 4
def X : BitVec 64 := 8
def U : BitVec 64 := 16
def G : BitVec 64 := 32
def A : BitVec 64 := 64
def D : BitVec 64 := 128

/-- The bits of all defined flags are kept. -/
def fromBitsTruncate (bits : BitVec 64) : BitVec 64 :=
  bits &&& (V ||| R ||| W ||| X ||| U ||| G ||| A ||| D)

def contains (f g : BitVec 64) : Bool :=
  f &&& g == g

def intersects (f g : BitVec 64) : Bool :=
  f &&& g != 0

/-- `From<MappingFlags> for PTEFlags`. -/
def ofMappingFlags (f : MappingFlags) : BitVec 64 :=
  if f.isEmpty then 0
  else
    V
      ||| (if f.read then R else 0)
      ||| (if f.write then W else 0)
      ||| (if f.execute then X else 0)
      ||| (if f.user then U else 0)

/-- `From<PTEFlags> for MappingFlags`. -/
def toMappingFlags (f : BitVec 64) : MappingFlags where
  read := contains f R
  write := contains f W
  execute := contains f X
  user := contains f U

end PTEFlags

/-- Sv39 and Sv48 page table entry for RV64 systems. -/
structure Rv64PTE where
  bits : BitVec 64
deriving DecidableEq, Repr

namespace Rv64PTE

open PTEFlags

/-- Bits 10..54. -/
def PHYS_ADDR_MASK : BitVec 64 := (1 <<< 54) - (1 <<< 10)

/-- The stored form of a physical address. -/
def frameBits (p : Nat) : BitVec 64 :=
  BitVec.ofNat 64 (p >>> 2) &&& PHYS_ADDR_MASK

def pageFlags (f : MappingFlags) : BitVec 64 :=
  ofMappingFlags f ||| A ||| D

/-- The release build: a debug build asserts in `newPage` and `setFlags` that R or X is set. -/
instance : GenericPTE Rv64PTE where
  newPage p f _ := ⟨pageFlags f ||| frameBits p⟩
  newFaultPage _ _ := ⟨A ||| D⟩
  newTable p := ⟨V ||| frameBits p⟩
  paddr e := ((e.bits &&& PHYS_ADDR_MASK) <<< 2).toNat
  flags e := toMappingFlags (fromBitsTruncate e.bits)
  setPaddr e p := ⟨(e.bits &&& ~~~PHYS_ADDR_MASK) ||| frameBits p⟩
  setFlags e f _ := ⟨(e.bits &&& PHYS_ADDR_MASK) ||| pageFlags f⟩
  isUnused e := e.bits == 0
  isPresent e := contains (fromBitsTruncate e.bits) V
  isHuge e := intersects (fromBitsTruncate e.bits) (R ||| X)
  clear _ := ⟨0⟩
  zeroed := ⟨0⟩

/-- A stored address and the flag bits do not overlap, by the two disjoint masks. -/
theorem truncate_or_frame (f : BitVec 64) (p : Nat)
    : fromBitsTruncate (f ||| frameBits p) = fromBitsTruncate f := by
  have apart : PHYS_ADDR_MASK &&& (V ||| R ||| W ||| X ||| U ||| G ||| A ||| D) = 0 := by
    decide
  simp only [fromBitsTruncate, frameBits, BitVec.and_or_distrib_right, BitVec.and_assoc, apart]
  simp

theorem mask_or_frame {f : BitVec 64} (low : f &&& PHYS_ADDR_MASK = 0) (p : Nat)
    : (f ||| frameBits p) &&& PHYS_ADDR_MASK = frameBits p := by
  simp [frameBits, BitVec.and_or_distrib_right, BitVec.and_assoc, low]

theorem mask_getLsbD (i : Nat)
    : PHYS_ADDR_MASK.getLsbD i = (decide (10 ≤ i) && decide (i < 54)) := by
  by_cases small : i < 64
  · have table : ∀ j : Fin 64,
        PHYS_ADDR_MASK.getLsbD j = (decide (10 ≤ j.val) && decide (j.val < 54)) := by
      decide
    exact table ⟨i, small⟩
  · rw [BitVec.getLsbD_of_ge _ _ (by omega)]
    simp only [Bool.false_eq, Bool.and_eq_false_imp, decide_eq_true_eq, decide_eq_false_iff_not]
    omega

/-- A frame address survives being stored, bit by bit: its low 12 and top 8 bits are zero. -/
theorem frameBits_toNat {p : Nat} (frame : FrameAddr p)
    : (frameBits p <<< 2).toNat = p := by
  obtain ⟨aligned, bound⟩ := frame
  apply Nat.eq_of_testBit_eq
  intro i
  rw [BitVec.testBit_toNat, BitVec.getLsbD_shiftLeft, frameBits, BitVec.getLsbD_and,
    mask_getLsbD, BitVec.getLsbD_ofNat, Nat.testBit_shiftRight]
  have lowBit : i < 12 → p.testBit i = false := by
    intro low
    obtain ⟨q, rfl⟩ : ∃ q, p = 2 ^ 12 * q := ⟨p / 4096, by omega⟩
    rw [Nat.testBit_two_pow_mul]
    simp [low]
  have highBit : 56 ≤ i → p.testBit i = false := fun high =>
    Nat.testBit_lt_two_pow (Nat.lt_of_lt_of_le bound (Nat.pow_le_pow_right (by decide) high))
  by_cases tiny : i < 2
  · simp [tiny, lowBit (by omega)]
  · rw [show 2 + (i - 2) = i by omega]
    by_cases stored : 12 ≤ i ∧ i < 56
    · have inner : 10 ≤ i - 2 ∧ i - 2 < 54 ∧ i < 64 ∧ i - 2 < 64 := by omega
      simp [tiny, inner]
    · have zero : p.testBit i = false := by
        by_cases low : i < 12
        · exact lowBit low
        · exact highBit (by omega)
      simp [zero]

theorem pageFlags_mask (f : MappingFlags) : pageFlags f &&& PHYS_ADDR_MASK = 0 := by
  obtain ⟨r, w, x, u, d, c⟩ := f
  cases r <;> cases w <;> cases x <;> cases u <;> cases d <;> cases c <;> rfl

theorem or_ne_zero {a b m : BitVec 64} (nonzero : a &&& m ≠ 0) : a ||| b ≠ 0 := by
  intro zero
  have left : a = 0 := (BitVec.or_eq_zero_iff.mp zero).1
  simp [left] at nonzero

/-- The entry of a page is present if it has flags at all. -/
theorem newPage_present (p : Nat) (f : MappingFlags) (h : Bool)
    : GenericPTE.isPresent (GenericPTE.newPage p f h : Rv64PTE) = !f.isEmpty := by
  simp only [GenericPTE.isPresent, GenericPTE.newPage, truncate_or_frame]
  obtain ⟨r, w, x, u, d, c⟩ := f
  cases r <;> cases w <;> cases x <;> cases u <;> cases d <;> cases c <;> rfl

instance : LawfulPTE Rv64PTE where
  unused_zeroed := rfl
  unused_clear _ := rfl
  absent_of_unused := by
    rintro ⟨bits⟩ unused
    obtain rfl : bits = 0 := by simpa [GenericPTE.isUnused] using unused
    rfl
  small_of_unused := by
    rintro ⟨bits⟩ unused
    obtain rfl : bits = 0 := by simpa [GenericPTE.isUnused] using unused
    rfl
  paddr_of_unused := by
    rintro ⟨bits⟩ unused
    obtain rfl : bits = 0 := by simpa [GenericPTE.isUnused] using unused
    rfl
  table_used p := by
    simpa [GenericPTE.isUnused, GenericPTE.newTable]
      using or_ne_zero (a := V) (b := frameBits p) (m := V) (by decide)
  table_present p := by
    simp only [GenericPTE.isPresent, GenericPTE.newTable, truncate_or_frame]
    rfl
  table_small p := by
    simp only [GenericPTE.isHuge, GenericPTE.newTable, truncate_or_frame]
    rfl
  table_paddr frame := by
    simp only [GenericPTE.paddr, GenericPTE.newTable]
    rw [mask_or_frame (by decide), frameBits_toNat frame]
  page_used p f _ := by
    simpa [GenericPTE.isUnused, GenericPTE.newPage, pageFlags, BitVec.or_assoc]
      using or_ne_zero (a := ofMappingFlags f ||| (A ||| D)) (b := frameBits p) (m := A) (by
        simp [BitVec.and_or_distrib_right, A, D])
  page_present p f h leaf := by
    rw [newPage_present]
    simp only [MappingFlags.isLeaf, Bool.or_eq_true] at leaf
    rcases leaf with read | execute
    · simp [MappingFlags.isEmpty, read]
    · simp [MappingFlags.isEmpty, execute]
  page_huge p f leaf := by
    simp only [GenericPTE.isHuge, GenericPTE.newPage, truncate_or_frame]
    obtain ⟨r, w, x, u, d, c⟩ := f
    cases r <;> cases w <;> cases x <;> cases u <;> cases d <;> cases c <;>
      simp_all [MappingFlags.isLeaf] <;> rfl
  page_paddr f _ frame := by
    simp only [GenericPTE.paddr, GenericPTE.newPage]
    rw [mask_or_frame (pageFlags_mask f), frameBits_toNat frame]
  page_flags p f _ := by
    simp only [GenericPTE.flags, GenericPTE.newPage, truncate_or_frame]
    obtain ⟨r, w, x, u, d, c⟩ := f
    cases r <;> cases w <;> cases x <;> cases u <;> cases d <;> cases c <;> rfl
  fault_used _ _ := by
    change (A ||| D == (0 : BitVec 64)) = false
    decide
  fault_absent _ _ := by
    change contains (fromBitsTruncate (A ||| D)) V = false
    decide
  fault_paddr _ _ := by
    change (((A ||| D) &&& PHYS_ADDR_MASK) <<< 2).toNat = 0
    decide
  fault_flags _ _ := by
    change toMappingFlags (fromBitsTruncate (A ||| D)) = {}
    decide
  setPaddr_huge e p := by
    have kept (b : BitVec 64)
        : fromBitsTruncate (b &&& ~~~PHYS_ADDR_MASK) = fromBitsTruncate b := by
      simp only [fromBitsTruncate, BitVec.and_assoc]
      congr 1
    simp only [GenericPTE.isHuge, GenericPTE.setPaddr, truncate_or_frame, kept]
  setFlags_huge e f leaf := by
    have dropped : fromBitsTruncate ((e.bits &&& PHYS_ADDR_MASK) ||| pageFlags f)
        = fromBitsTruncate (pageFlags f) := by
      have apart : PHYS_ADDR_MASK &&& (V ||| R ||| W ||| X ||| U ||| G ||| A ||| D) = 0 := by
        decide
      simp only [fromBitsTruncate, BitVec.and_or_distrib_right, BitVec.and_assoc, apart]
      simp
    simp only [GenericPTE.isHuge, GenericPTE.setFlags, dropped]
    obtain ⟨r, w, x, u, d, c⟩ := f
    cases r <;> cases w <;> cases x <;> cases u <;> cases d <;> cases c <;>
      simp_all [MappingFlags.isLeaf] <;> rfl
  setFlags_page f g _ frame := by
    simp only [GenericPTE.setFlags, GenericPTE.newPage]
    rw [mask_or_frame (pageFlags_mask f), BitVec.or_comm]

end Rv64PTE

end RCoreOS.PageTable
