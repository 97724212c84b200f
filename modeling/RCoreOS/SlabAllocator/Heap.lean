import RCoreOS.SlabAllocator.FreeBlockList
import RCoreOS.Lib.Transition
import Mathlib.Algebra.Ring.Nat

/-! The slab heap: seven slabs of fixed block sizes, which grow from a buddy heap that also
serves the large requests. `none` as the outcome of an operation is a panic or an endless loop.
-/

namespace RCoreOS.SlabAllocator

def SET_SIZE : Nat := 64

def MIN_HEAP_SIZE : Nat := 0x8000

structure Layout where
  size : Nat
  align : Nat
deriving DecidableEq, Repr

/-- The operations of `buddy_system_allocator::Heap<32>`. It keeps its own lists in the memory
that it has not handed out.
-/
structure Buddy (B : Type) where
  new : B
  init : B → Memory → Nat → Nat → B × Memory
  addToHeap : B → Memory → Nat → Nat → B × Memory
  alloc : B → Memory → Layout → Option (Nat × B × Memory)
  dealloc : B → Memory → Nat → Layout → B × Memory
  statsTotalBytes : B → Nat
  statsAllocActual : B → Nat

/-- The sizes of the slabs. -/
inductive SlabSize where
  | bytes64
  | bytes128
  | bytes256
  | bytes512
  | bytes1024
  | bytes2048
  | bytes4096
deriving DecidableEq, Repr

def SlabSize.blkSize : SlabSize → Nat
  | bytes64 => 64
  | bytes128 => 128
  | bytes256 => 256
  | bytes512 => 512
  | bytes1024 => 1024
  | bytes2048 => 2048
  | bytes4096 => 4096

theorem SlabSize.blkSize_ge (c : SlabSize) : 64 ≤ c.blkSize := by
  cases c <;> decide

inductive HeapAllocator where
  | slab (c : SlabSize)
  | buddyAllocator
deriving DecidableEq, Repr

/-- Finds the allocator for a layout. -/
def layoutToAllocator (layout : Layout) : HeapAllocator :=
  if layout.size > 4096 then .buddyAllocator
  else if layout.size ≤ 64 ∧ layout.align ≤ 64 then .slab .bytes64
  else if layout.size ≤ 128 ∧ layout.align ≤ 128 then .slab .bytes128
  else if layout.size ≤ 256 ∧ layout.align ≤ 256 then .slab .bytes256
  else if layout.size ≤ 512 ∧ layout.align ≤ 512 then .slab .bytes512
  else if layout.size ≤ 1024 ∧ layout.align ≤ 1024 then .slab .bytes1024
  else if layout.size ≤ 2048 ∧ layout.align ≤ 2048 then .slab .bytes2048
  else .slab .bytes4096

/-- A block of the slab that serves a layout is large enough. -/
theorem layoutToAllocator_size {layout : Layout} {c : SlabSize}
    (serves : layoutToAllocator layout = .slab c)
    : layout.size ≤ c.blkSize := by
  unfold layoutToAllocator at serves
  split at serves
  · cases serves
  rename_i small
  -- every test bounds the size, and the last slab takes what is left
  repeat
    split at serves
    · rename_i fits
      cases serves
      exact fits.1
  cases serves
  exact Nat.le_of_not_lt small

structure Slab where
  freeBlockList : FreeBlockList
  totalBlocks : Nat
deriving DecidableEq, Repr

namespace Slab

def usedBlocks (slab : Slab) : Nat :=
  slab.totalBlocks - slab.freeBlockList.len

/-- Adds the blocks of a region to the free list. -/
def grow (c : SlabSize) (slab : Slab) (memory : Memory) (startAddr slabSize : Nat)
    : Option (Slab × Memory) :=
  let numOfBlocks := slabSize / c.blkSize
  let blockList := FreeBlockList.new memory startAddr c.blkSize numOfBlocks
  (FreeBlockList.drain (numOfBlocks + 1) blockList.1 slab.freeBlockList blockList.2).map
    fun drained =>
      ({ freeBlockList := drained.1, totalBlocks := slab.totalBlocks + numOfBlocks }, drained.2)

/-- The layout of the region that a slab grows by. -/
def growth (c : SlabSize) : Layout where
  size := SET_SIZE * c.blkSize
  align := 4096

variable {B : Type} (buddy : Buddy B)

/-- Pops a free block, after growing an empty slab from the buddy heap; `some none` is
`Err(AllocError)`.
-/
def allocate (c : SlabSize) (slab : Slab) (b : B) (memory : Memory)
    : Option (Option Nat × Slab × B × Memory) :=
  match slab.freeBlockList.pop memory with
  | (some block, list, memory) => some (some block, { slab with freeBlockList := list }, b, memory)
  | (none, _, _) =>
      match buddy.alloc b memory (growth c) with
      | none => some (none, slab, b, memory)
      | some (ptr, b, memory) =>
          match slab.grow c memory ptr (SET_SIZE * c.blkSize) with
          | none => none
          | some (slab, memory) =>
              match slab.freeBlockList.pop memory with
              | (some block, list, memory) =>
                  some (some block, { slab with freeBlockList := list }, b, memory)
              | (none, _, _) => none

def deallocate (slab : Slab) (memory : Memory) (ptr : Nat) : Slab × Memory :=
  ({ slab with freeBlockList := (slab.freeBlockList.push memory ptr).1 },
    (slab.freeBlockList.push memory ptr).2)

end Slab

/-- The heap and the memory that its free lists are threaded through. -/
structure Heap (B : Type) where
  slab : SlabSize → Slab
  buddyAllocator : B
  memory : Memory

namespace Heap

variable {B : Type} (buddy : Buddy B)

/-- Slabs without blocks, and a buddy heap over the given region. -/
def new (memory : Memory) (heapStartAddr heapSize : Nat) : Option (Heap B) :=
  if heapStartAddr % 4096 = 0 ∧ heapSize ≥ MIN_HEAP_SIZE ∧ heapSize % MIN_HEAP_SIZE = 0 then
    let started := buddy.init buddy.new memory heapStartAddr heapSize
    some {
      slab := fun _ => ⟨.newEmpty, 0⟩
      buddyAllocator := started.1
      memory := started.2 }
  else none

def addMemory (h : Heap B) (heapStartAddr heapSize : Nat) : Option (Heap B) :=
  if heapStartAddr % 4096 = 0 ∧ heapSize % 4096 = 0 then
    let added := buddy.addToHeap h.buddyAllocator h.memory heapStartAddr
      (heapStartAddr + heapSize)
    some { h with buddyAllocator := added.1, memory := added.2 }
  else none

/-- `some (none, _)` is `Err(AllocError)`. -/
def allocate (h : Heap B) (layout : Layout) : Option (Option Nat × Heap B) :=
  match layoutToAllocator layout with
  | .slab c =>
      (Slab.allocate buddy c (h.slab c) h.buddyAllocator h.memory).map
        fun (ptr, slab, b, memory) =>
          (ptr, { slab := Function.update h.slab c slab, buddyAllocator := b, memory })
  | .buddyAllocator =>
      match buddy.alloc h.buddyAllocator h.memory layout with
      | none => some (none, h)
      | some (ptr, b, memory) => some (some ptr, { h with buddyAllocator := b, memory })

def deallocate (h : Heap B) (ptr : Nat) (layout : Layout) : Option (Heap B) :=
  match layoutToAllocator layout with
  | .slab c =>
      let freed := (h.slab c).deallocate h.memory ptr
      some { h with slab := Function.update h.slab c freed.1, memory := freed.2 }
  | .buddyAllocator =>
      -- `NonNull::new(ptr).unwrap()`
      if ptr = 0 then none
      else
        let freed := buddy.dealloc h.buddyAllocator h.memory ptr layout
        some { h with buddyAllocator := freed.1, memory := freed.2 }

def totalBytes (h : Heap B) : Nat :=
  (h.slab .bytes64).totalBlocks * 64
    + (h.slab .bytes128).totalBlocks * 128
    + (h.slab .bytes256).totalBlocks * 256
    + (h.slab .bytes512).totalBlocks * 512
    + (h.slab .bytes1024).totalBlocks * 1024
    + (h.slab .bytes2048).totalBlocks * 2048
    + (h.slab .bytes4096).totalBlocks * 4096
    + buddy.statsTotalBytes h.buddyAllocator

def usedBytes (h : Heap B) : Nat :=
  (h.slab .bytes64).usedBlocks * 64
    + (h.slab .bytes128).usedBlocks * 128
    + (h.slab .bytes256).usedBlocks * 256
    + (h.slab .bytes512).usedBlocks * 512
    + (h.slab .bytes1024).usedBlocks * 1024
    + (h.slab .bytes2048).usedBlocks * 2048
    + (h.slab .bytes4096).usedBlocks * 4096
    + buddy.statsAllocActual h.buddyAllocator

end Heap

-----------------------------------------------------------------------------------------
-- What is assumed of the buddy heap
-----------------------------------------------------------------------------------------

/-- A block that has been handed out, with the layout it was requested with. -/
structure Block where
  ptr : Nat
  layout : Layout
deriving DecidableEq, Repr

def Block.extent (block : Block) : Extent where
  start := block.ptr
  size := block.layout.size

/-- A buddy heap that is correct: `Holds b regions blocks` says that `b` has been given the
regions and has handed out the blocks. Blocks lie in the regions and do not overlap, what is in
a block is not written, and the statistics count the regions and the blocks, these with the
size that they take up.
-/
structure Buddy.Correct {B : Type} (buddy : Buddy B) where
  Holds : B → List Extent → List Block → Prop
  actual : Layout → Nat
  actual_ge (layout : Layout) : layout.size ≤ actual layout
  holds_init (memory : Memory) {start size : Nat}
    : start % 4096 = 0 → size % 4096 = 0
      → Holds (buddy.init buddy.new memory start size).1 [⟨start, size⟩] []
  holds_addToHeap {b : B} {regions : List Extent} {blocks : List Block} (memory : Memory)
    {start size : Nat}
    : start % 4096 = 0 → size % 4096 = 0 → Holds b regions blocks
      → (∀ region ∈ regions, Extent.Apart ⟨start, size⟩ region)
      → Holds (buddy.addToHeap b memory start (start + size)).1 (⟨start, size⟩ :: regions) blocks
        ∧ ∀ word, (∃ block ∈ blocks, Extent.Within ⟨word, 8⟩ block.extent)
          → (buddy.addToHeap b memory start (start + size)).2 word = memory word
  holds_alloc {b b' : B} {regions : List Extent} {blocks : List Block} {memory memory' : Memory}
    {layout : Layout} {ptr : Nat}
    : Holds b regions blocks → buddy.alloc b memory layout = some (ptr, b', memory')
      → Holds b' regions (⟨ptr, layout⟩ :: blocks) ∧ ptr ≠ 0
        ∧ Extent.Covered regions ⟨ptr, layout.size⟩
        ∧ (∀ block ∈ blocks, Extent.Apart ⟨ptr, layout.size⟩ block.extent)
        ∧ ∀ word, (∃ block ∈ blocks, Extent.Within ⟨word, 8⟩ block.extent)
          → memory' word = memory word
  holds_dealloc {b : B} {regions : List Extent} {blocks rest : List Block} (memory : Memory)
    {block : Block}
    : Holds b regions blocks → blocks.Perm (block :: rest)
      → Holds (buddy.dealloc b memory block.ptr block.layout).1 regions rest
        ∧ ∀ word, (∃ other ∈ rest, Extent.Within ⟨word, 8⟩ other.extent)
          → (buddy.dealloc b memory block.ptr block.layout).2 word = memory word
  stats_total {b : B} {regions : List Extent} {blocks : List Block}
    : Holds b regions blocks → buddy.statsTotalBytes b = (regions.map Extent.size).sum
  stats_actual {b : B} {regions : List Extent} {blocks : List Block}
    : Holds b regions blocks
      → buddy.statsAllocActual b = (blocks.map fun block => actual block.layout).sum
  stats_le {b : B} {regions : List Extent} {blocks : List Block}
    : Holds b regions blocks → buddy.statsAllocActual b ≤ buddy.statsTotalBytes b

-----------------------------------------------------------------------------------------
-- Runs of a heap and its users
-----------------------------------------------------------------------------------------

/-- The heap, the blocks that its users hold, and the regions that it has been given. -/
structure World (B : Type) where
  heap : Heap B
  live : List Block
  regions : List Extent

namespace World

variable {B : Type} (buddy : Buddy B)

def Started (w : World B) : Prop :=
  w.live = [] ∧ ∃ memory start size, w.regions = [⟨start, size⟩]
    ∧ Heap.new buddy memory start size = some w.heap

/-- A call of the heap, or users writing to the blocks that they hold. Allocations may be
restricted by a condition.
-/
inductive Step (allowed : World B → Layout → Prop) (w : World B) : World B → Prop
  | allocate (layout : Layout) (ptr : Nat) (heap : Heap B)
    : allowed w layout → w.heap.allocate buddy layout = some (some ptr, heap)
      → Step allowed w { w with heap, live := ⟨ptr, layout⟩ :: w.live }
  | refused (layout : Layout) (heap : Heap B)
    : w.heap.allocate buddy layout = some (none, heap) → Step allowed w { w with heap }
  | deallocate (block : Block) (live : List Block) (heap : Heap B)
    : w.live.Perm (block :: live)
      → w.heap.deallocate buddy block.ptr block.layout = some heap
      → Step allowed w { w with heap, live }
  | addMemory (start size : Nat) (heap : Heap B)
    : (∀ region ∈ w.regions, Extent.Apart ⟨start, size⟩ region)
      → w.heap.addMemory buddy start size = some heap
      → Step allowed w { w with heap, regions := ⟨start, size⟩ :: w.regions }
  | write (memory : Memory)
    : (∀ word, (∀ block ∈ w.live, Extent.Apart ⟨word, 8⟩ block.extent)
        → memory word = w.heap.memory word)
      → Step allowed w { w with heap := { w.heap with memory } }

/-- The states that runs with any allocations reach. -/
abbrev Reachable (w : World B) : Prop :=
  Transition.Reachable (Started buddy) (Step buddy fun _ _ => True) w

end World

end RCoreOS.SlabAllocator
