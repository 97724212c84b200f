import RCoreOS.Axmem.MapArea
import RCoreOS.Lib.BTreeMap

/-! The memory set of a process: a page table and the areas that it owns, by start address. -/

namespace RCoreOS.Axmem

open PageTable

def USER_MEMORY_START : Nat := 0x1000

/-- Contiguous pages that several memory sets may attach. -/
structure SharedMem where
  startVaddr : Nat
  numPages : Nat
deriving DecidableEq, Repr

def SharedMem.size (mem : SharedMem) : Nat :=
  mem.numPages * PAGE_SIZE_4K

def SharedMem.paddr (mem : SharedMem) : Nat :=
  virtToPhys mem.startVaddr

/-- Page table and areas of a process, with the machine they live in. -/
structure MemorySet (PTE σ : Type) extends Machine PTE σ where
  ownedMem : BTreeMap Nat MapArea
  privateMem : BTreeMap Int SharedMem
  attachedMem : List (Nat × MappingFlags × SharedMem)

namespace MemorySet

variable {PTE σ : Type} [GenericPTE PTE] [GlobalAllocator σ]

/-- Creates a new empty memory set in the given memory. -/
def newEmpty (memory : PhysMemory PTE σ) (bytes : Nat → UInt8)
    : Except Crash (MemorySet PTE σ) :=
  match PageTable64.tryNew memory with
  | (.ok table, memory) => .ok {
      toPageTable64 := table
      toPhysMemory := memory
      bytes
      ownedMem := .empty
      privateMem := .empty
      attachedMem := [] }
  | (.error _, _) => .error .outOfMemory

/-- A new memory set has no areas. -/
theorem newEmpty_areas {memory : PhysMemory PTE σ} {bytes : Nat → UInt8} {s : MemorySet PTE σ}
    (run : newEmpty memory bytes = .ok s)
    : s.ownedMem = .empty := by
  unfold newEmpty at run
  split at run <;> cases run
  rfl

def withMachine (s : MemorySet PTE σ) (m : Machine PTE σ) : MemorySet PTE σ :=
  { s with toMachine := m }

/-- `assert!(self.owned_mem.insert(area.vaddr.into(), area).is_none())`. -/
def insertArea (s : MemorySet PTE σ) (area : MapArea) : Except Crash (MemorySet PTE σ) := do
  let (old, ownedMem) := s.ownedMem.insert area.vaddr area
  assert old.isNone
  return { s with ownedMem }

/-- Adds a region, with its data or lazily loaded. -/
def newRegion (s : MemorySet PTE σ) (vaddr size : Nat) (flags : MappingFlags)
    (data : Option (List UInt8)) (backend : Option MemBackend)
    : Except Crash (MemorySet PTE σ) := do
  let numPages := (size + PAGE_SIZE_4K - 1) / PAGE_SIZE_4K
  match data with
  | some data =>
      match ← MapArea.newAlloc vaddr numPages flags (some data) backend s.toMachine with
      | (.ok area, m) => (s.withMachine m).insertArea area
      | (.error _, _) => .error .outOfMemory
  | none =>
      let (area, m) ← MapArea.newLazy vaddr numPages flags backend s.toMachine
      (s.withMachine m).insertArea area

/-- The areas that overlap a range, in order, and the map of the others. -/
def takeOverlapped (s : MemorySet PTE σ) (start stop : Nat)
    : List MapArea × BTreeMap Nat MapArea :=
  s.ownedMem.entries.foldl
    (fun (overlapped, prev) (idx, area) =>
      if area.overlapWith start stop then (overlapped ++ [area], prev)
      else (overlapped, (prev.insert idx area).2))
    ([], .empty)

/-- One overlapped area of `splitForArea`: what lies in the range is removed. -/
def splitArea (fs : Vfs) (start stop : Nat) (s : MemorySet PTE σ) (area : MapArea)
    : Except Crash (MemorySet PTE σ) :=
  if area.containedIn start stop then do
    let (_, m) ← area.dealloc s.toMachine
    return s.withMachine m
  else if area.strictContain start stop then do
    let (area, newArea, m) ← area.removeMid fs start stop s.toMachine
    let s ← (s.withMachine m).insertArea newArea
    s.insertArea area
  else if start ≤ area.vaddr ∧ area.vaddr < stop then do
    let (area, m) ← area.shrinkLeft fs stop s.toMachine
    (s.withMachine m).insertArea area
  else do
    let (area, m) ← area.shrinkRight start s.toMachine
    (s.withMachine m).insertArea area

/-- Makes [start, start + size) unmapped and deallocated. -/
def splitForArea (fs : Vfs) (s : MemorySet PTE σ) (start size : Nat)
    : Except Crash (MemorySet PTE σ) := do
  let stop := wrapAdd start size
  assert (isAligned stop PAGE_SIZE_4K)
  let (overlapped, ownedMem) := s.takeOverlapped start stop
  overlapped.foldlM (splitArea fs start stop) { s with ownedMem }

/-- The first gap before one of the segments that is large enough. -/
def firstGap (size : Nat) : Nat → List (Nat × Nat) → Option Nat
  | _, [] => none
  | lastEnd, (start, stop) :: rest =>
      if wrapAdd lastEnd size ≤ start then some lastEnd else firstGap size stop rest

/-- The order of `sort` on pairs. -/
def segmentLe (a b : Nat × Nat) : Bool :=
  a.1 < b.1 || a.1 == b.1 && a.2 ≤ b.2

/-- Start and end of all segments, in order. -/
def segments (s : MemorySet PTE σ) : List (Nat × Nat) :=
  (s.ownedMem.entries.map (fun entry : Nat × MapArea => (entry.1, entry.1 + entry.2.size))
    ++ s.attachedMem.map (fun entry : Nat × MappingFlags × SharedMem =>
      (entry.1, entry.1 + entry.2.2.size))).mergeSort segmentLe

def findFreeArea (s : MemorySet PTE σ) (hint size : Nat) : Option Nat :=
  firstGap size (max hint USER_MEMORY_START) s.segments

/-- `(size + PAGE_SIZE_4K - 1) / PAGE_SIZE_4K * PAGE_SIZE_4K`. -/
def alignUpSize (size : Nat) : Nat :=
  (size + PAGE_SIZE_4K - 1) / PAGE_SIZE_4K * PAGE_SIZE_4K

/-- Returns the start of the new area, or -1. -/
def mmap (fs : Vfs) (s : MemorySet PTE σ) (start size : Nat) (flags : MappingFlags)
    (fixed : Bool) (backend : Option MemBackend) : Except Crash (Int × MemorySet PTE σ) := do
  let size := alignUpSize size
  if fixed then
    let s ← s.splitForArea fs start size
    let s ← s.newRegion start size flags none backend
    return (asI64 start, s)
  else
    match s.findFreeArea start size with
    | some start =>
        let s ← s.newRegion start size flags none backend
        return (asI64 start, s)
    | none => return (-1, s)

def munmap (fs : Vfs) (s : MemorySet PTE σ) (start size : Nat) : Except Crash (MemorySet PTE σ) :=
  s.splitForArea fs start (alignUpSize size)

/-- One page of an area in `msync`. -/
def syncPage (writeAt : WriteAt) (start stop : Nat) (m : Machine PTE σ)
    (state : MapArea × Vfs) (pageIndex : Nat) : Except Crash (MapArea × Vfs) :=
  let pageVaddr := wrapAdd state.1.vaddr (pageIndex * PAGE_SIZE_4K)
  if start ≤ pageVaddr ∧ pageVaddr < stop then
    state.1.syncPageWithBackend writeAt state.2 pageIndex m
  else .ok state

/-- One area of `msync`, which is changed in place. -/
def syncArea (writeAt : WriteAt) (start stop : Nat) (state : MemorySet PTE σ × Vfs)
    (entry : Nat × MapArea) : Except Crash (MemorySet PTE σ × Vfs) :=
  let (s, fs) := state
  let (key, area) := entry
  if area.backend.isSome && area.overlapWith start stop then do
    let (area, fs) ← (List.range area.pages.length).foldlM
      (syncPage writeAt start stop s.toMachine) (area, fs)
    return ({ s with ownedMem := (s.ownedMem.insert key area).2 }, fs)
  else .ok state

/-- Writes the loaded pages of the range back to their files. -/
def msync (writeAt : WriteAt) (fs : Vfs) (s : MemorySet PTE σ) (start size : Nat)
    : Except Crash (MemorySet PTE σ × Vfs) :=
  let stop := wrapAdd start size
  s.ownedMem.entries.foldlM (syncArea writeAt start stop) (s, fs)

/-- One overlapped area of `mprotect`: what lies in the range gets the flags. -/
def protectArea (fs : Vfs) (start stop : Nat) (flags : MappingFlags) (s : MemorySet PTE σ)
    (area : MapArea) : Except Crash (MemorySet PTE σ) :=
  if area.containedIn start stop then do
    let (area, m) ← area.updateFlags flags s.toMachine
    (s.withMachine m).insertArea area
  else if area.strictContain start stop then do
    let (area, mid, right) ← area.split3 fs start stop
    let (mid, m) ← mid.updateFlags flags s.toMachine
    let s ← (s.withMachine m).insertArea mid
    let s ← s.insertArea right
    s.insertArea area
  else if start ≤ area.vaddr ∧ area.vaddr < stop then do
    let (area, right) ← area.split fs stop
    let (area, m) ← area.updateFlags flags s.toMachine
    let s ← (s.withMachine m).insertArea right
    s.insertArea area
  else do
    let (area, right) ← area.split fs start
    let (right, m) ← right.updateFlags flags s.toMachine
    let s ← (s.withMachine m).insertArea right
    s.insertArea area

def mprotect (fs : Vfs) (s : MemorySet PTE σ) (start size : Nat) (flags : MappingFlags)
    : Except Crash (MemorySet PTE σ) := do
  let stop := wrapAdd start size
  assert (isAligned stop PAGE_SIZE_4K)
  let (overlapped, ownedMem) := s.takeOverlapped start stop
  overlapped.foldlM (protectArea fs start stop flags) { s with ownedMem }

/-- The first area that contains an address, with its key. -/
def findArea (s : MemorySet PTE σ) (addr : Nat) : Option (Nat × MapArea) :=
  s.ownedMem.entries.find? (fun (_, area) => area.vaddr ≤ addr && addr < area.endVa)

/-- The page fault handler of an area that was found, which is changed in place. -/
def faultArea (fs : Vfs) (s : MemorySet PTE σ) (key : Nat) (area : MapArea) (addr : Nat)
    (flags : MappingFlags) : Except Crash (AxResult Unit × MemorySet PTE σ) := do
  let (handled, area, m) ← area.handlePageFault fs addr flags s.toMachine
  let s := { s.withMachine m with ownedMem := (s.ownedMem.insert key area).2 }
  return (if handled then .ok () else .error .badAddress, s)

def handlePageFault (fs : Vfs) (s : MemorySet PTE σ) (addr : Nat) (flags : MappingFlags)
    : Except Crash (AxResult Unit × MemorySet PTE σ) :=
  match s.findArea addr with
  | some (key, area) => s.faultArea fs key area addr flags
  | none => .ok (.error .badAddress, s)

def unmapUserAreas (s : MemorySet PTE σ) : Except Crash (MemorySet PTE σ) := do
  let m ← s.ownedMem.values.foldlM
    (fun m area => do
      let (_, m) ← area.dealloc m
      return m)
    s.toMachine
  return { s.withMachine m with ownedMem := .empty }

/-- Whether the entry of an address is present. -/
def checkPageTableEntryValidity (s : Paging PTE σ) (addr : Nat) : PagingResult Unit :=
  match s.getEntryMut addr with
  | .error _ => .error .noMemory
  | .ok (slot, _) => if !GenericPTE.isPresent (s.entry slot) then .error .notMapped else .ok ()

/-- Loads the page of an address in an area, if it is not loaded yet. -/
def manualAllocForLazy (fs : Vfs) (s : MemorySet PTE σ) (addr : Nat)
    : Except Crash (AxResult Unit × MemorySet PTE σ) :=
  match s.findArea addr with
  | some (key, area) =>
      match checkPageTableEntryValidity s.toPaging addr with
      | .error .noMemory => .ok (.error .invalidInput, s)
      | .error .notMapped =>
          match s.getEntryMut addr with
          | .error _ => .error .panic
          | .ok (slot, _) => s.faultArea fs key area addr (GenericPTE.flags (s.entry slot))
      | _ => .ok (.ok (), s)
  | none => .ok (.error .invalidInput, s)

/-- Copies the page at a virtual address to the one at another address. An access that an entry
does not allow is a page fault in the kernel, which panics.
-/
def copyPage (s : MemorySet PTE σ) (vaddr pageStart : Nat) : Except Crash (MemorySet PTE σ) :=
  match s.toMachine.access vaddr { read := true }, s.toMachine.access pageStart { write := true } with
  | some source, some target =>
      .ok (s.withMachine (s.toMachine.writeBytes target
        (s.toMachine.readBytes source PAGE_SIZE_4K)))
  | _, _ => .error .panic

/-- One page of `mremap`: it is copied if the page at its new address is loaded or can be. -/
def remapPage (fs : Vfs) (addr pageStart : Nat) (s : MemorySet PTE σ)
    : Except Crash (MemorySet PTE σ) := do
  let (loaded, s) ← s.manualAllocForLazy fs pageStart
  match loaded with
  | .ok () => s.copyPage addr pageStart
  | .error _ => return s

/-- The loop of `mremap` over the pages of the old range; `false` is its early return. -/
def remapPages (fs : Vfs) (start oldPageStart : Nat)
    : List Nat → MemorySet PTE σ → Except Crash (Bool × MemorySet PTE σ)
  | [], s => .ok (true, s)
  | addr :: rest, s =>
      match checkPageTableEntryValidity s.toPaging addr with
      | .ok () => do
          let s ← remapPage fs addr (wrapSub (wrapAdd start addr) oldPageStart) s
          remapPages fs start oldPageStart rest s
      | .error .notMapped => remapPages fs start oldPageStart rest s
      | .error _ => .ok (false, s)

/-- `(start..=stop).step_by(PAGE_SIZE_4K)`. -/
def pagesThrough (start stop : Nat) : List Nat :=
  if start ≤ stop then
    (List.range ((stop - start) / PAGE_SIZE_4K + 1)).map (fun i => start + i * PAGE_SIZE_4K)
  else []

/-- The pages that are left of a range, up to the first that cannot be loaded. -/
def allocPagesForLazy (fs : Vfs) : List Nat → MemorySet PTE σ
    → Except Crash (AxResult Unit × MemorySet PTE σ)
  | [], s => .ok (.ok (), s)
  | addr :: rest, s => do
      let (result, s) ← s.manualAllocForLazy fs addr
      match result with
      | .ok () => allocPagesForLazy fs rest s
      | .error e => return (.error e, s)

/-- Loads the pages of a range, both ends included. -/
def manualAllocRangeForLazy (fs : Vfs) (s : MemorySet PTE σ) (start stop : Nat)
    : Except Crash (AxResult Unit × MemorySet PTE σ) :=
  if start > stop then .ok (.error .invalidInput, s)
  else
    allocPagesForLazy fs (pagesThrough (alignDown start PAGE_SIZE_4K) (alignDown stop PAGE_SIZE_4K))
      s

/-- Changes the size of a mapping, potentially moving it at the same time. Returns the new start,
or -1.
-/
def mremap (fs : Vfs) (s : MemorySet PTE σ) (oldStart oldSize newSize : Nat)
    : Except Crash (Int × MemorySet PTE σ) :=
  match s.findFreeArea oldStart newSize with
  | none => .ok (-1, s)
  | some start => do
      let oldPageStart := alignDown oldStart PAGE_SIZE_4K
      let oldPageEnd := alignDown (wrapSub (wrapAdd oldStart oldSize) 1) PAGE_SIZE_4K
      let s ← s.newRegion start newSize { user := true, read := true, write := true } none none
      assert (isAligned (wrapAdd start newSize) PAGE_SIZE_4K)
      let (completed, s) ← remapPages fs start oldPageStart (pagesThrough oldPageStart oldPageEnd) s
      if completed then
        let s ← s.munmap fs oldStart oldSize
        return (asI64 start, s)
      else return (-1, s)

end MemorySet

end RCoreOS.Axmem
