import RCoreOS.Axmem.MemorySet
import RCoreOS.PageTable.Extension

/-! The regions of physical memory that every page table of a process maps for the kernel, on the
RISC-V platform. All of them can be read, so their huge pages are pages at every level.
-/

namespace RCoreOS.Axmem

open PageTable

/-- The flags of a physical memory region. -/
structure MemRegionFlags where
  read : Bool := false
  write : Bool := false
  execute : Bool := false
  device : Bool := false
  uncached : Bool := false
  reserved : Bool := false
  free : Bool := false
deriving DecidableEq, Repr

/-- A physical memory region. -/
structure MemRegion where
  paddr : Nat
  size : Nat
  flags : MemRegionFlags
  name : String
deriving DecidableEq, Repr

/-- What the linker and the configuration determine: the symbols of the kernel image, the end of
physical memory, the MMIO regions, and whether the kernel is built as a monolithic one.
-/
structure Platform where
  stext : Nat
  etext : Nat
  srodata : Nat
  erodata : Nat
  sdata : Nat
  edata : Nat
  bootStack : Nat
  bootStackTop : Nat
  sbss : Nat
  ebss : Nat
  ekernel : Nat
  physMemoryEnd : Nat
  mmioRegions : List (Nat × Nat)
  monolithic : Bool
deriving Repr

/-- `align_up_4k`. -/
def alignUp4k (addr : Nat) : Nat :=
  alignDown (wrapAdd addr (PAGE_SIZE_4K - 1)) PAGE_SIZE_4K

/-- The memory regions of the kernel image (code and data sections). -/
def kernelImageRegions (p : Platform) : List MemRegion := [
  { paddr := virtToPhys p.stext
    size := wrapSub p.etext p.stext
    flags := { reserved := true, read := true, execute := true }
    name := ".text" },
  { paddr := virtToPhys p.srodata
    size := wrapSub p.erodata p.srodata
    flags := { reserved := true, read := true }
    name := ".rodata" },
  { paddr := virtToPhys p.sdata
    size := wrapSub p.edata p.sdata
    flags := { reserved := true, read := true, write := true }
    name := ".data .tdata .tbss .percpu" },
  { paddr := virtToPhys p.bootStack
    size := wrapSub p.bootStackTop p.bootStack
    flags := { reserved := true, read := true, write := true }
    name := "boot stack" },
  { paddr := virtToPhys p.sbss
    size := wrapSub p.ebss p.sbss
    flags := { reserved := true, read := true, write := true }
    name := ".bss" }]

/-- The default MMIO memory regions. -/
def defaultMmioRegions (p : Platform) : List MemRegion :=
  p.mmioRegions.map fun reg => {
    paddr := reg.1
    size := reg.2
    flags := { reserved := true, device := true, read := true, write := true }
    name := "mmio" }

/-- The default free memory regions (kernel image end to physical memory end). -/
def defaultFreeRegions (p : Platform) : List MemRegion :=
  let start := alignUp4k (virtToPhys p.ekernel)
  let stop := alignDown p.physMemoryEnd PAGE_SIZE_4K
  [{ paddr := start
     size := wrapSub stop start
     flags := { free := true, read := true, write := true }
     name := "free memory" }]

/-- The extended free memory regions. -/
def extendFreeRegions : List MemRegion :=
  let start := alignUp4k (virtToPhys 0xffff_ffc0_8030_0000)
  let stop := alignDown 0x8800_0000 PAGE_SIZE_4K
  [{ paddr := start
     size := wrapSub stop start
     flags := { free := true, read := true, write := true }
     name := "extend free memory" }]

/-- Platform-specific memory regions. -/
def platformRegions (p : Platform) : List MemRegion :=
  if p.monolithic then defaultFreeRegions p ++ defaultMmioRegions p ++ extendFreeRegions
  else defaultFreeRegions p ++ defaultMmioRegions p

/-- All physical memory regions. -/
def memoryRegions (p : Platform) : List MemRegion :=
  kernelImageRegions p ++ platformRegions p

/-- `From<MemRegionFlags> for MappingFlags`. -/
def MemRegionFlags.toMappingFlags (f : MemRegionFlags) : MappingFlags where
  read := f.read
  write := f.write
  execute := f.execute
  device := f.device
  uncached := f.uncached

/-- Every region can be read. -/
theorem memoryRegions_read {p : Platform} {r : MemRegion} (member : r ∈ memoryRegions p)
    : r.flags.read = true := by
  have mmio : ∀ r ∈ defaultMmioRegions p, r.flags.read = true := by
    intro r member
    obtain ⟨reg, -, rfl⟩ := List.mem_map.mp member
    rfl
  have free : ∀ r ∈ defaultFreeRegions p, r.flags.read = true :=
    List.forall_mem_singleton.mpr rfl
  have extended : ∀ r ∈ extendFreeRegions, r.flags.read = true :=
    List.forall_mem_singleton.mpr rfl
  have image : ∀ r ∈ kernelImageRegions p, r.flags.read = true := by
    simp [kernelImageRegions]
  unfold memoryRegions platformRegions at member
  rcases List.mem_append.mp member with isImage | isPlatform
  · exact image r isImage
  · split at isPlatform
    · rcases List.mem_append.mp isPlatform with isDefault | isExtended
      · exact (List.mem_append.mp isDefault).elim (free r) (mmio r)
      · exact extended r isExtended
    · exact (List.mem_append.mp isPlatform).elim (free r) (mmio r)

namespace Machine

variable {PTE σ : Type} [GenericPTE PTE] [GlobalAllocator σ]

/-- Maps a region of physical memory at its linear addresses. -/
def mapMemRegion (m : Machine PTE σ) (r : MemRegion) : Except Crash (Machine PTE σ) :=
  m.mapRegion (physToVirt r.paddr) r.paddr r.size r.flags.toMappingFlags true

/-- Maps all memory regions for the kernel. -/
def mapMemRegions (p : Platform) (m : Machine PTE σ) : Except Crash (Machine PTE σ) :=
  (memoryRegions p).foldlM mapMemRegion m

end Machine

end RCoreOS.Axmem
