import RCoreOS.Axmem.Backend

/-! A continuous virtual area in user memory: a slot for each of its pages, loaded or not. The
operations change the slots and the page table side by side.
-/

namespace RCoreOS.Axmem

open PageTable

structure MapArea where
  pages : List (Option PhysPage)
  vaddr : Nat
  flags : MappingFlags
  backend : Option MemBackend
deriving DecidableEq, Repr

/-- `Vec::drain`: the elements of the range and those that are left. -/
def drain {α : Type} (xs : List α) (start stop : Nat) : Except Crash (List α × List α) :=
  if start ≤ stop ∧ stop ≤ xs.length then
    .ok ((xs.take stop).drop start, xs.take start ++ xs.drop stop)
  else .error .panic

def assert (holds : Bool) : Except Crash Unit :=
  if holds then .ok () else .error .panic

namespace Machine

variable {PTE σ : Type} [GenericPTE PTE] [GlobalAllocator σ]

/-- The byte at a virtual address; `none` is a page fault. -/
def load (m : Machine PTE σ) (vaddr : Nat) : Option UInt8 :=
  match m.toPaging.getEntryMut vaddr with
  | .ok (slot, size) =>
      if GenericPTE.isPresent (m.entry slot) then
        some (m.bytes (GenericPTE.paddr (m.entry slot) + alignOffset vaddr size.toUsize))
      else none
  | .error _ => none

/-- The physical address that the kernel accesses at a virtual address; `none` is a page fault. -/
def access (m : Machine PTE σ) (vaddr : Nat) (flags : MappingFlags) : Option Nat :=
  match m.toPaging.getEntryMut vaddr with
  | .ok (slot, size) =>
      let e := m.entry slot
      if GenericPTE.isPresent e && (GenericPTE.flags e).contains flags then
        some (GenericPTE.paddr e + alignOffset vaddr size.toUsize)
      else none
  | .error _ => none

/-- The same memory under another page table. -/
def withTable (m : Machine PTE σ) (table : PageTable64) : Machine PTE σ :=
  { m with toPageTable64 := table }

end Machine

namespace MapArea

variable {PTE σ : Type} [GenericPTE PTE] [GlobalAllocator σ]

def size (area : MapArea) : Nat :=
  area.pages.length * PAGE_SIZE_4K

def endVa (area : MapArea) : Nat :=
  wrapAdd area.vaddr area.size

/-- Whether all the pages have been allocated. -/
def allocated (area : MapArea) : Bool :=
  area.pages.all Option.isSome

def overlapWith (area : MapArea) (start stop : Nat) : Bool :=
  area.vaddr ≤ start && start < area.endVa || start ≤ area.vaddr && area.vaddr < stop

def containedIn (area : MapArea) (start stop : Nat) : Bool :=
  start ≤ area.vaddr && area.endVa ≤ stop

def strictContain (area : MapArea) (start stop : Nat) : Bool :=
  area.vaddr < start && stop < area.endVa

/-- Creates a lazily loaded area and maps it with fault entries. -/
def newLazy (start numPages : Nat) (flags : MappingFlags) (backend : Option MemBackend)
    (m : Machine PTE σ) : Except Crash (MapArea × Machine PTE σ) := do
  let m ← m.mapFaultRegion start (numPages * PAGE_SIZE_4K) flags
  return ({ pages := List.replicate numPages none, vaddr := start, flags, backend }, m)

/-- Allocates an area and maps it. -/
def newAlloc (start numPages : Nat) (flags : MappingFlags) (data : Option (List UInt8))
    (backend : Option MemBackend) (m : Machine PTE σ)
    : Except Crash (AxResult MapArea × Machine PTE σ) := do
  match ← PhysPage.allocContiguous numPages PAGE_SIZE_4K data m with
  | (.error e, m) => return (.error e, m)
  | (.ok pages, m) =>
      let some (some first) := pages[0]? | .error .panic
      let m ← m.mapRegion start first.paddr (numPages * PAGE_SIZE_4K) flags false
      return (.ok { pages, vaddr := start, flags, backend }, m)

/-- Unmaps the area and returns all its pages. -/
def dealloc (area : MapArea) (m : Machine PTE σ) : Except Crash (MapArea × Machine PTE σ) := do
  let m ← m.unmapRegion area.vaddr area.size
  return ({ area with pages := [] }, dropPages area.pages m)

/-- Fills a new page from the backend, or with zero. -/
def fillPage (fs : Vfs) (backend : Option MemBackend) (pageIndex : Nat) (page : PhysPage)
    (m : Machine PTE σ) : Except Crash (Option MemBackend × Machine PTE σ) :=
  match backend with
  | none => .ok (none, page.fill 0 m)
  | some backend => do
      let (data, backend) ←
        backend.readFromSeek fs (.current (asI64 (pageIndex * PAGE_SIZE_4K))) PAGE_SIZE_4K
      match data with
      | some data => return (some backend, m.writeBytes page.paddr data)
      | none => return (some backend, page.fill 0 m)

/-- Returns whether the fault was handled. -/
def handlePageFault (fs : Vfs) (area : MapArea) (addr : Nat) (flags : MappingFlags)
    (m : Machine PTE σ) : Except Crash (Bool × MapArea × Machine PTE σ) := do
  assert (area.vaddr ≤ addr && addr < area.endVa)
  if !area.flags.contains flags then return (false, area, m)
  let pageIndex := wrapSub addr area.vaddr / PAGE_SIZE_4K
  match area.pages[pageIndex]? with
  | none => return (false, area, m)
  | some (some _) => return (false, area, m)
  | some none =>
      match PhysPage.alloc m with
      | (.error _, _) => .error .outOfMemory
      | (.ok page, m) =>
          let (backend, m) ← fillPage fs area.backend pageIndex page m
          let m ← m.mapOverwrite (alignDown addr PAGE_SIZE_4K) page.paddr area.flags
          return (true, { area with backend, pages := area.pages.set pageIndex (some page) }, m)

/-- Writes a page back to the file, if it is loaded and the file can be written. -/
def syncPageWithBackend (writeAt : WriteAt) (fs : Vfs) (area : MapArea) (pageIndex : Nat)
    (m : Machine PTE σ) : Except Crash (MapArea × Vfs) :=
  match area.pages[pageIndex]? with
  | none => .error .panic
  | some none => .ok (area, fs)
  | some (some page) =>
      match area.backend with
      | none => .ok (area, fs)
      | some backend =>
          if backend.file.writable then do
            let (len, backend, fs) ← backend.writeToSeek writeAt fs
              (.start (pageIndex * PAGE_SIZE_4K)) (m.readBytes page.paddr PAGE_SIZE_4K)
            let some _ := len | .error .panic
            return ({ area with backend := some backend }, fs)
          else .ok (area, fs)

/-- The cursor of a backend, moved on. -/
def seekBackend (fs : Vfs) (backend : Option MemBackend) (delta : Nat)
    : Except Crash (Option MemBackend) :=
  match backend with
  | none => .ok none
  | some backend => do
      let backend ← backend.seek fs (.current (asI64 delta))
      return some backend

/-- Deallocates some pages from the start of the area. -/
def shrinkLeft (fs : Vfs) (area : MapArea) (newStart : Nat) (m : Machine PTE σ)
    : Except Crash (MapArea × Machine PTE σ) := do
  assert (isAligned newStart PAGE_SIZE_4K)
  let deleteSize := wrapSub newStart area.vaddr
  let deletePages := deleteSize / PAGE_SIZE_4K
  let backend ← seekBackend fs area.backend deleteSize
  let (deleted, pages) ← drain area.pages 0 deletePages
  let m := dropPages deleted m
  let m ← m.unmapRegion area.vaddr deleteSize
  return ({ area with pages, vaddr := newStart, backend }, m)

/-- Deallocates some pages from the end of the area. -/
def shrinkRight (area : MapArea) (newEnd : Nat) (m : Machine PTE σ)
    : Except Crash (MapArea × Machine PTE σ) := do
  assert (isAligned newEnd PAGE_SIZE_4K)
  let deleteSize := wrapSub area.endVa newEnd
  let deletePages := deleteSize / PAGE_SIZE_4K
  let (deleted, pages) ←
    drain area.pages (wrapSub area.pages.length deletePages) area.pages.length
  let m := dropPages deleted m
  let m ← m.unmapRegion newEnd deleteSize
  return ({ area with pages }, m)

/-- Splits the area into two. -/
def split (fs : Vfs) (area : MapArea) (addr : Nat) : Except Crash (MapArea × MapArea) := do
  assert (isAligned addr PAGE_SIZE_4K)
  let rightPageCount := wrapSub area.endVa addr / PAGE_SIZE_4K
  let (rightPages, pages) ←
    drain area.pages (wrapSub area.pages.length rightPageCount) area.pages.length
  let backend ← seekBackend fs area.backend (wrapSub addr area.vaddr)
  return ({ area with pages }, { pages := rightPages, vaddr := addr, flags := area.flags, backend })

/-- Splits the area into three. -/
def split3 (fs : Vfs) (area : MapArea) (start stop : Nat)
    : Except Crash (MapArea × MapArea × MapArea) := do
  assert (isAligned start PAGE_SIZE_4K)
  assert (isAligned stop PAGE_SIZE_4K)
  assert (start < stop)
  assert (area.vaddr < start)
  assert (stop < area.endVa)
  let (rightPages, pages) ← drain area.pages
    (wrapSub area.pages.length (wrapSub area.endVa stop / PAGE_SIZE_4K)) area.pages.length
  -- the area has lost its right part, and its end has moved
  let shorter := { area with pages }
  let (midPages, pages) ← drain shorter.pages
    (wrapSub shorter.pages.length (wrapSub shorter.endVa start / PAGE_SIZE_4K))
    shorter.pages.length
  let midBackend ← seekBackend fs area.backend (wrapSub start area.vaddr)
  let rightBackend ← seekBackend fs area.backend (wrapSub stop area.vaddr)
  return ({ area with pages },
    { pages := midPages, vaddr := start, flags := area.flags, backend := midBackend },
    { pages := rightPages, vaddr := stop, flags := area.flags, backend := rightBackend })

/-- Removes the middle of the area and returns the area behind it. -/
def removeMid (fs : Vfs) (area : MapArea) (leftEnd rightStart : Nat) (m : Machine PTE σ)
    : Except Crash (MapArea × MapArea × Machine PTE σ) := do
  assert (isAligned leftEnd PAGE_SIZE_4K)
  assert (isAligned rightStart PAGE_SIZE_4K)
  assert (leftEnd ≤ rightStart)
  let deleteSize := wrapSub rightStart leftEnd
  let deleteStart := wrapSub leftEnd area.vaddr / PAGE_SIZE_4K
  let deleteStop := wrapSub rightStart area.vaddr / PAGE_SIZE_4K
  let (rightPages, pages) ← drain area.pages deleteStop area.pages.length
  let backend ← seekBackend fs area.backend (wrapSub rightStart area.vaddr)
  let (deleted, pages) ← drain pages deleteStart deleteStop
  let m := dropPages deleted m
  let m ← m.unmapRegion leftEnd deleteSize
  return ({ area with pages },
    { pages := rightPages, vaddr := rightStart, flags := area.flags, backend }, m)

/-- Updates the flags of the area and of its entries. -/
def updateFlags (area : MapArea) (flags : MappingFlags) (m : Machine PTE σ)
    : Except Crash (MapArea × Machine PTE σ) := do
  let area := { area with flags }
  let m ← m.updateRegion area.vaddr area.size flags
  return (area, m)

/-- The bytes of the area, read through its virtual addresses under the page table `active`. -/
def asSlice (area : MapArea) (active : PageTable64) (m : Machine PTE σ)
    : Except Crash (List UInt8) :=
  match (List.range area.size).mapM (fun i => (m.withTable active).load (wrapAdd area.vaddr i)) with
  | some bytes => .ok bytes
  | none => .error .panic

/-- The copy of one slot when an area that is not fully loaded is cloned. -/
def cloneSlot (vaddr : Nat) (flags : MappingFlags) (slot : Option PhysPage)
    (m : Machine PTE σ) : Except Crash (Option PhysPage × Machine PTE σ) :=
  match slot with
  | some page =>
      match PhysPage.alloc m with
      | (.error _, _) => .error .outOfMemory
      | (.ok newPage, m) => do
          let m := m.writeBytes newPage.paddr (m.readBytes page.paddr PAGE_SIZE_4K)
          let m ← m.map vaddr newPage.paddr flags
          return (some newPage, m)
  | none => do
      let m ← m.mapFault vaddr flags
      return (none, m)

/-- The slots from index `idx` on, copied one after the other. -/
def cloneSlots (area : MapArea) (idx : Nat) (slots : List (Option PhysPage))
    (m : Machine PTE σ) : Except Crash (List (Option PhysPage) × Machine PTE σ) :=
  match slots with
  | [] => .ok ([], m)
  | slot :: rest => do
      let (copy, m) ← cloneSlot (wrapAdd area.vaddr (idx * PAGE_SIZE_4K)) area.flags slot m
      let (copies, m) ← cloneSlots area (idx + 1) rest m
      return (copy :: copies, m)

/-- Clones the area into the page table of the machine. -/
def cloneAlloc (area : MapArea) (active : PageTable64) (m : Machine PTE σ)
    : Except Crash (AxResult MapArea × Machine PTE σ) :=
  if area.allocated then do
    let data ← area.asSlice active m
    newAlloc area.vaddr area.pages.length area.flags (some data) area.backend m
  else do
    let (pages, m) ← cloneSlots area 0 area.pages m
    return (.ok { area with pages }, m)

end MapArea

end RCoreOS.Axmem
