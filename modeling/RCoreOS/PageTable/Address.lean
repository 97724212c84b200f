import Mathlib.Tactic.Common
import Mathlib.Data.Nat.Bitwise

/-! Addresses, alignment and page sizes of the `memory_addr` and `page_table` crates.
Addresses are 64-bit machine words held as naturals; additions that can pass the end of the
address space wrap explicitly.
-/

namespace RCoreOS.PageTable

/-- The size of a 4K page (4096 bytes). -/
def PAGE_SIZE_4K : Nat := 0x1000

/-- One past the largest `usize`. -/
abbrev USIZE_RANGE : Nat := 2 ^ 64

def alignOffset (addr align : Nat) : Nat :=
  addr &&& (align - 1)

/-- `addr & !(align - 1)`: the bits of the offset are cleared. -/
def alignDown (addr align : Nat) : Nat :=
  addr - alignOffset addr align

def isAligned (addr align : Nat) : Bool :=
  alignOffset addr align == 0

/-- `usize` addition of the address types. -/
def wrapAdd (addr offset : Nat) : Nat :=
  (addr + offset) % USIZE_RANGE

/-- The page sizes supported by the hardware page table. -/
inductive PageSize where
  | size4K
  | size2M
  | size1G
deriving DecidableEq, Repr

namespace PageSize

def toUsize : PageSize → Nat
  | size4K => 0x1000
  | size2M => 0x200000
  | size1G => 0x40000000

/-- Whether this page size is considered huge (larger than 4K). -/
def isHuge : PageSize → Bool
  | size1G | size2M => true
  | size4K => false

/-- The height of the table whose entries map pages of this size. -/
def height : PageSize → Nat
  | size4K => 0
  | size2M => 1
  | size1G => 2

theorem toUsize_pos (size : PageSize) : 0 < size.toUsize := by
  cases size <;> decide

end PageSize

-----------------------------------------------------------------------------------------
-- Alignment is arithmetic
-----------------------------------------------------------------------------------------

/-- The offset under a power of two is the remainder. -/
theorem alignOffset_two_pow (addr bits : Nat) : alignOffset addr (2 ^ bits) = addr % 2 ^ bits :=
  Nat.and_two_pow_sub_one_eq_mod addr bits

@[simp]
theorem alignOffset_page (addr : Nat) (size : PageSize)
    : alignOffset addr size.toUsize = addr % size.toUsize := by
  cases size
  · exact alignOffset_two_pow addr 12
  · exact alignOffset_two_pow addr 21
  · exact alignOffset_two_pow addr 30

@[simp]
theorem alignDown_page (addr : Nat) (size : PageSize)
    : alignDown addr size.toUsize = addr - addr % size.toUsize := by
  simp [alignDown]

@[simp]
theorem isAligned_page (addr : Nat) (size : PageSize)
    : isAligned addr size.toUsize = true ↔ addr % size.toUsize = 0 := by
  simp [isAligned]

@[simp]
theorem isAligned_4k (addr : Nat)
    : isAligned addr PAGE_SIZE_4K = true ↔ addr % 4096 = 0 :=
  isAligned_page addr .size4K

/-- Aligning an aligned address down changes nothing. -/
theorem alignDown_of_aligned {addr : Nat} {size : PageSize} (aligned : addr % size.toUsize = 0)
    : alignDown addr size.toUsize = addr := by
  simp [aligned]

/-- Every address of an aligned page is aligned down to its start. -/
theorem alignDown_page_of_mem {start addr : Nat} {size : PageSize}
    (aligned : start % size.toUsize = 0) (lower : start ≤ addr)
    (upper : addr < start + size.toUsize)
    : alignDown addr size.toUsize = start := by
  rw [alignDown_page]
  cases size <;> simp only [PageSize.toUsize] at * <;> omega

theorem wrapAdd_of_lt {addr offset : Nat} (fits : addr + offset < USIZE_RANGE)
    : wrapAdd addr offset = addr + offset :=
  Nat.mod_eq_of_lt fits

end RCoreOS.PageTable
