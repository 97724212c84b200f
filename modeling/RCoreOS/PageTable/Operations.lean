import RCoreOS.PageTable.Entry

/-! The page table of the `page_table` crate for three-level (Sv39) tables. Table frames live
in physical memory and are named by their address; every operation threads the memory and
the frame allocator it uses, also when it returns an error.
-/

namespace RCoreOS.PageTable

/-- The error type for page table operation failures. -/
inductive PagingError where
  | noMemory
  | notAligned
  | notMapped
  | alreadyMapped
  | mappedToHugePage
deriving DecidableEq, Repr

abbrev PagingResult := Except PagingError

/-- How a call ends without returning a value: an error value or a panic. -/
inductive Stop (ε : Type) where
  | err (e : ε)
  | panic
deriving DecidableEq, Repr

/-- The low-level OS-dependent frame allocator; `σ` is its state. -/
class PagingIf (σ : Type) where
  allocFrame : σ → Option Nat × σ
  deallocFrame : σ → Nat → σ

/-- A reference to one page table entry. -/
structure Slot where
  table : Nat
  index : Nat
deriving DecidableEq, Repr

/-- The page table object: its root and the side list of all its table frames. -/
structure PageTable64 where
  rootPaddr : Nat
  intrmTables : List Nat
deriving Repr

/-- Table frames by physical address, and the allocator they come from. -/
structure PhysMemory (PTE σ : Type) where
  frames : Nat → Nat → PTE
  allocator : σ

/-- A page table together with the memory it lives in. -/
structure Paging (PTE σ : Type) extends PageTable64, PhysMemory PTE σ

def ENTRY_COUNT : Nat := 512

def p3Index (vaddr : Nat) : Nat := (vaddr >>> (12 + 18)) &&& (ENTRY_COUNT - 1)

def p2Index (vaddr : Nat) : Nat := (vaddr >>> (12 + 9)) &&& (ENTRY_COUNT - 1)

def p1Index (vaddr : Nat) : Nat := (vaddr >>> 12) &&& (ENTRY_COUNT - 1)

open GenericPTE

variable {PTE σ : Type} [GenericPTE PTE] [PagingIf σ]

/-- Allocates a zero-filled table frame. -/
def PhysMemory.allocTable (m : PhysMemory PTE σ) : PagingResult Nat × PhysMemory PTE σ :=
  match PagingIf.allocFrame m.allocator with
  | (some paddr, allocator) =>
      (.ok paddr, {
        frames := fun f => if f = paddr then fun _ => zeroed else m.frames f
        allocator
      })
  | (none, allocator) => (.error .noMemory, { m with allocator })

/-- Creates a new page table with an empty root. -/
def PageTable64.tryNew (m : PhysMemory PTE σ) : PagingResult PageTable64 × PhysMemory PTE σ :=
  match m.allocTable with
  | (.ok rootPaddr, m) => (.ok { rootPaddr, intrmTables := [rootPaddr] }, m)
  | (.error e, m) => (.error e, m)

namespace Paging

def entry (s : Paging PTE σ) (slot : Slot) : PTE :=
  s.frames slot.table slot.index

def setEntry (s : Paging PTE σ) (slot : Slot) (e : PTE) : Paging PTE σ :=
  { s with
    frames := fun f i => if f = slot.table ∧ i = slot.index then e else s.frames f i }

def nextTableMut (e : PTE) : PagingResult Nat :=
  if !isPresent e then .error .notMapped
  else if isHuge e then .error .mappedToHugePage
  else .ok (paddr e)

def nextTableMutOrCreate (s : Paging PTE σ) (slot : Slot) : PagingResult Nat × Paging PTE σ :=
  if isUnused (s.entry slot) then
    match s.allocTable with
    | (.ok paddr, m) =>
        let grown : Paging PTE σ :=
          { rootPaddr := s.rootPaddr, intrmTables := s.intrmTables ++ [paddr], toPhysMemory := m }
        (.ok paddr, grown.setEntry slot (newTable paddr))
    | (.error e, m) => (.error e, { s with toPhysMemory := m })
  else (nextTableMut (s.entry slot), s)

/-- The entry that maps `vaddr` and the size of the page it maps. -/
def getEntryMut (s : Paging PTE σ) (vaddr : Nat) : PagingResult (Slot × PageSize) :=
  let p3e : Slot := ⟨s.rootPaddr, p3Index vaddr⟩
  if isHuge (s.entry p3e) then .ok (p3e, .size1G)
  else
    match nextTableMut (s.entry p3e) with
    | .error e => .error e
    | .ok p2 =>
        let p2e : Slot := ⟨p2, p2Index vaddr⟩
        if isHuge (s.entry p2e) then .ok (p2e, .size2M)
        else
          match nextTableMut (s.entry p2e) with
          | .error e => .error e
          | .ok p1 => .ok (⟨p1, p1Index vaddr⟩, .size4K)

def getEntryMutOrCreate (s : Paging PTE σ) (vaddr : Nat) (pageSize : PageSize)
    : PagingResult Slot × Paging PTE σ :=
  let p3e : Slot := ⟨s.rootPaddr, p3Index vaddr⟩
  if pageSize = .size1G then (.ok p3e, s)
  else
    match s.nextTableMutOrCreate p3e with
    | (.error e, s) => (.error e, s)
    | (.ok p2, s) =>
        let p2e : Slot := ⟨p2, p2Index vaddr⟩
        if pageSize = .size2M then (.ok p2e, s)
        else
          match s.nextTableMutOrCreate p2e with
          | (.error e, s) => (.error e, s)
          | (.ok p1, s) => (.ok ⟨p1, p1Index vaddr⟩, s)

-----------------------------------------------------------------------------------------
-- Operations on one page
-----------------------------------------------------------------------------------------

def map (s : Paging PTE σ) (vaddr target : Nat) (pageSize : PageSize) (flags : MappingFlags)
    : PagingResult Unit × Paging PTE σ :=
  match s.getEntryMutOrCreate vaddr pageSize with
  | (.error e, s) => (.error e, s)
  | (.ok slot, s) =>
      if !isUnused (s.entry slot) then (.error .alreadyMapped, s)
      else
        (.ok (), s.setEntry slot
          (newPage (alignDown target pageSize.toUsize) flags pageSize.isHuge))

/-- Replaces an entry that is in use; an unused entry is the error case here. -/
def mapOverwrite (s : Paging PTE σ) (vaddr target : Nat) (pageSize : PageSize)
    (flags : MappingFlags) : PagingResult Unit × Paging PTE σ :=
  match s.getEntryMutOrCreate vaddr pageSize with
  | (.error e, s) => (.error e, s)
  | (.ok slot, s) =>
      if isUnused (s.entry slot) then (.error .alreadyMapped, s)
      else
        (.ok (), s.setEntry slot
          (newPage (alignDown target pageSize.toUsize) flags pageSize.isHuge))

def unmap (s : Paging PTE σ) (vaddr : Nat) : PagingResult (Nat × PageSize) × Paging PTE σ :=
  match s.getEntryMut vaddr with
  | .error e => (.error e, s)
  | .ok (slot, size) =>
      if isUnused (s.entry slot) then (.error .notMapped, s)
      else (.ok (paddr (s.entry slot), size), s.setEntry slot (clear (s.entry slot)))

def mapFault (s : Paging PTE σ) (vaddr : Nat) (pageSize : PageSize) (flags : MappingFlags)
    : PagingResult Unit × Paging PTE σ :=
  match s.getEntryMutOrCreate vaddr pageSize with
  | (.error e, s) => (.error e, s)
  | (.ok slot, s) =>
      if !isUnused (s.entry slot) then (.error .alreadyMapped, s)
      else (.ok (), s.setEntry slot (newFaultPage flags pageSize.isHuge))

def query (s : Paging PTE σ) (vaddr : Nat) : PagingResult (Nat × MappingFlags × PageSize) :=
  match s.getEntryMut vaddr with
  | .error e => .error e
  | .ok (slot, size) =>
      if isUnused (s.entry slot) then .error .notMapped
      else
        .ok (paddr (s.entry slot) + alignOffset vaddr size.toUsize, flags (s.entry slot), size)

/-- The entry after the two optional writes of `update`. -/
def updated (e : PTE) (size : PageSize) (target : Option Nat) (newFlags : Option MappingFlags)
    : PTE :=
  let e := match target with
    | some paddr => setPaddr e paddr
    | none => e
  match newFlags with
  | some flags => setFlags e flags size.isHuge
  | none => e

def update (s : Paging PTE σ) (vaddr : Nat) (target : Option Nat)
    (newFlags : Option MappingFlags) : PagingResult PageSize × Paging PTE σ :=
  match s.getEntryMut vaddr with
  | .error e => (.error e, s)
  | .ok (slot, size) =>
      if paddr (s.entry slot) = 0 then (.ok size, s)
      else (.ok size, s.setEntry slot (updated (s.entry slot) size target newFlags))

-----------------------------------------------------------------------------------------
-- Operations on regions
-----------------------------------------------------------------------------------------

/-- The page size of the next mapping of `mapRegion`. -/
def regionPageSize (vaddr paddr size : Nat) (allowHuge : Bool) : PageSize :=
  if allowHuge then
    if isAligned vaddr PageSize.size1G.toUsize
        && isAligned paddr PageSize.size1G.toUsize
        && decide (size ≥ PageSize.size1G.toUsize) then .size1G
    else if isAligned vaddr PageSize.size2M.toUsize
        && isAligned paddr PageSize.size2M.toUsize
        && decide (size ≥ PageSize.size2M.toUsize) then .size2M
    else .size4K
  else .size4K

def mapRegionLoop (s : Paging PTE σ) (vaddr paddr size : Nat) (flags : MappingFlags)
    (allowHuge : Bool) : PagingResult Unit × Paging PTE σ :=
  if size = 0 then (.ok (), s)
  else
    let pageSize := regionPageSize vaddr paddr size allowHuge
    match s.map vaddr paddr pageSize flags with
    | (.error e, s) => (.error e, s)
    | (.ok (), s) =>
        s.mapRegionLoop (wrapAdd vaddr pageSize.toUsize) (wrapAdd paddr pageSize.toUsize)
          (size - pageSize.toUsize) flags allowHuge
termination_by size
decreasing_by
  have := (regionPageSize vaddr paddr size allowHuge).toUsize_pos
  omega

def mapRegion (s : Paging PTE σ) (vaddr paddr size : Nat) (flags : MappingFlags)
    (allowHuge : Bool) : PagingResult Unit × Paging PTE σ :=
  if !isAligned vaddr PAGE_SIZE_4K
      || !isAligned paddr PAGE_SIZE_4K
      || !isAligned size PAGE_SIZE_4K then (.error .notAligned, s)
  else s.mapRegionLoop vaddr paddr size flags allowHuge

def mapFaultRegionLoop (s : Paging PTE σ) (vaddr size : Nat) (flags : MappingFlags)
    : PagingResult Unit × Paging PTE σ :=
  if size = 0 then (.ok (), s)
  else
    match s.mapFault vaddr .size4K flags with
    | (.error e, s) => (.error e, s)
    | (.ok (), s) =>
        s.mapFaultRegionLoop (wrapAdd vaddr PageSize.size4K.toUsize)
          (size - PageSize.size4K.toUsize) flags
termination_by size
decreasing_by
  have := PageSize.size4K.toUsize_pos
  omega

def mapFaultRegion (s : Paging PTE σ) (vaddr size : Nat) (flags : MappingFlags)
    : PagingResult Unit × Paging PTE σ :=
  if !isAligned vaddr PAGE_SIZE_4K || !isAligned size PAGE_SIZE_4K then (.error .notAligned, s)
  else s.mapFaultRegionLoop vaddr size flags

/-- The page size is read back from the table; the two assertions compare it with the region. -/
def unmapRegion (s : Paging PTE σ) (vaddr size : Nat)
    : Except (Stop PagingError) Unit × Paging PTE σ :=
  if size = 0 then (.ok (), s)
  else
    match s.unmap vaddr with
    | (.error e, s) => (.error (.err e), s)
    | (.ok (_, pageSize), s) =>
        if !isAligned vaddr pageSize.toUsize then (.error .panic, s)
        else if !decide (pageSize.toUsize ≤ size) then (.error .panic, s)
        else s.unmapRegion (wrapAdd vaddr pageSize.toUsize) (size - pageSize.toUsize)
termination_by size
decreasing_by
  have := pageSize.toUsize_pos
  omega

/-- The first argument bounds the number of turns; `none` is a loop that does not end. -/
def updateRegionLoop : Nat → Paging PTE σ → Nat → Nat → MappingFlags
    → Option (PagingResult Unit × Paging PTE σ)
  | 0, _, _, _, _ => none
  | turns + 1, s, vaddr, stop, flags =>
      if vaddr < stop then
        match s.update vaddr none (some flags) with
        | (.error e, s) => some (.error e, s)
        | (.ok pageSize, s) =>
            updateRegionLoop turns s (wrapAdd vaddr pageSize.toUsize) stop flags
      else some (.ok (), s)

/-- A loop that ends visits every address at most once, so the bound is never the reason to
stop it.
-/
def updateRegion (s : Paging PTE σ) (vaddr size : Nat) (flags : MappingFlags)
    : Option (PagingResult Unit × Paging PTE σ) :=
  updateRegionLoop USIZE_RANGE s vaddr (wrapAdd vaddr size) flags

/-- `Drop`: every table frame of the side list is released. -/
def drop (s : Paging PTE σ) : σ :=
  s.intrmTables.foldl PagingIf.deallocFrame s.allocator

end Paging

end RCoreOS.PageTable
