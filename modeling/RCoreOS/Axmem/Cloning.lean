import RCoreOS.Axmem.KernelRegions

/-! Cloning a memory set. The clone gets a new page table in the same memory, with the kernel
regions, a copy of every area and the attached segments.
-/

namespace RCoreOS.Axmem

open PageTable

namespace MemorySet

variable {PTE σ : Type} [GenericPTE PTE] [GlobalAllocator σ]

/-- Attaches a shared segment and maps it. -/
def attachSharedMem (s : MemorySet PTE σ) (mem : SharedMem) (addr : Nat) (flags : MappingFlags)
    : Except Crash (MemorySet PTE σ) := do
  let m ← s.mapRegion addr mem.paddr mem.size flags false
  return { s.withMachine m with attachedMem := s.attachedMem ++ [(addr, flags, mem)] }

/-- `Drop` of a new page table and of the areas that were cloned into it so far. -/
def dropClone (ownedMem : BTreeMap Nat MapArea) (m : Machine PTE σ) : Machine PTE σ :=
  let m := dropPages (ownedMem.values.flatMap MapArea.pages) m
  m.withAllocator m.toPaging.drop

/-- Clones the areas that are left, in the order of their keys. -/
def cloneAreas (active : PageTable64) (ownedMem : BTreeMap Nat MapArea)
    : List (Nat × MapArea) → Machine PTE σ
    → Except Crash (AxResult (BTreeMap Nat MapArea) × Machine PTE σ)
  | [], m => .ok (.ok ownedMem, m)
  | (vaddr, area) :: rest, m => do
      match ← area.cloneAlloc active m with
      | (.ok newArea, m) => cloneAreas active (ownedMem.insert vaddr newArea).2 rest m
      | (.error err, m) => return (.error err, dropClone ownedMem m)

/-- Clones the memory set while the page table `active` is in use: the clone, unless there is an
error, and the machine with the page table of the set that is cloned, afterwards.
-/
def cloneOrErr (p : Platform) (active : PageTable64) (s : MemorySet PTE σ)
    : Except Crash (AxResult (MemorySet PTE σ) × Machine PTE σ) :=
  match PageTable64.tryNew s.toPhysMemory with
  | (.error _, _) => .error .outOfMemory
  | (.ok table, memory) => do
      let m ← Machine.mapMemRegions p
        { toPageTable64 := table, toPhysMemory := memory, bytes := s.bytes }
      match ← cloneAreas active .empty s.ownedMem.entries m with
      | (.error err, m) => return (.error err, m.withTable s.toPageTable64)
      | (.ok ownedMem, m) =>
          let newMemory : MemorySet PTE σ :=
            { toMachine := m, ownedMem, privateMem := s.privateMem, attachedMem := [] }
          let newMemory ← s.attachedMem.foldlM
            (fun newMemory (addr, flags, mem) => newMemory.attachSharedMem mem addr flags)
            newMemory
          return (.ok newMemory, newMemory.toMachine.withTable s.toPageTable64)

end MemorySet

end RCoreOS.Axmem
