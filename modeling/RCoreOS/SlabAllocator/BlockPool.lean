import RCoreOS.SlabAllocator.Ownership
import Mathlib.Algebra.BigOperators.Group.List.Basic

/-! A heap for large blocks that satisfies what is assumed of the buddy heap: it hands out the
first range that is large enough, and keeps its records outside of the memory.
-/

namespace RCoreOS.SlabAllocator

structure BlockPool where
  regions : List Extent
  blocks : List Block
deriving DecidableEq

namespace BlockPool

/-- The bytes that a block takes up: a power of two. -/
def actual (layout : Layout) : Nat :=
  max (if layout.size ≤ 1 then 1 else 2 ^ ((layout.size - 1).log2 + 1)) (max layout.align 8)

def totalBytes (pool : BlockPool) : Nat :=
  (pool.regions.map Extent.size).sum

def allocActual (pool : BlockPool) : Nat :=
  (pool.blocks.map fun block => actual block.layout).sum

/-- A place for a block: in a region, apart from all blocks, and within the total. -/
def Fits (pool : BlockPool) (layout : Layout) (ptr : Nat) : Prop :=
  ptr ≠ 0 ∧ ptr % layout.align = 0
    ∧ (∃ region ∈ pool.regions, region.start ≤ ptr ∧ ptr + layout.size ≤ region.stop)
    ∧ (∀ block ∈ pool.blocks, Extent.Apart ⟨ptr, layout.size⟩ block.extent)
    ∧ actual layout + pool.allocActual ≤ pool.totalBytes

instance (pool : BlockPool) (layout : Layout) (ptr : Nat) : Decidable (pool.Fits layout ptr) :=
  inferInstanceAs (Decidable (_ ∧ _ ∧ _ ∧ _ ∧ _))

/-- Starts of regions and ends of blocks. -/
def candidates (pool : BlockPool) : List Nat :=
  pool.regions.map Extent.start ++ pool.blocks.map fun block => block.extent.stop

def add (pool : BlockPool) (start size : Nat) : BlockPool :=
  { pool with regions := ⟨start, size⟩ :: pool.regions }

def buddy : Buddy BlockPool where
  new := ⟨[], []⟩
  init pool memory start size := (pool.add start size, memory)
  addToHeap pool memory start stop := (pool.add start (stop - start), memory)
  alloc pool memory layout :=
    (pool.candidates.find? fun ptr => pool.Fits layout ptr).map fun ptr =>
      (ptr, { pool with blocks := ⟨ptr, layout⟩ :: pool.blocks }, memory)
  dealloc pool memory ptr layout :=
    ({ pool with blocks := pool.blocks.erase ⟨ptr, layout⟩ }, memory)
  statsTotalBytes := totalBytes
  statsAllocActual := allocActual

/-- The records are the regions and the blocks, and the blocks take up no more than there is. -/
structure Holds (pool : BlockPool) (regions : List Extent) (blocks : List Block) : Prop where
  regions : pool.regions = regions
  blocks : pool.blocks.Perm blocks
  bounded : pool.allocActual ≤ pool.totalBytes

def correct : buddy.Correct where
  Holds := Holds
  actual := actual
  actual_ge layout := by
    refine Nat.le_trans ?_ (Nat.le_max_left ..)
    split
    · assumption
    · have below := Nat.lt_log2_self (n := layout.size - 1)
      omega
  holds_init memory _ _ _ _ := ⟨rfl, .refl _, Nat.zero_le _⟩
  holds_addToHeap := by
    intro pool regions blocks memory start size _ _ holds _
    have added : start + size - start = size := Nat.add_sub_cancel_left ..
    refine ⟨⟨?_, holds.blocks, ?_⟩, fun word _ => rfl⟩
    · simp only [buddy, add, added, holds.regions]
    · exact Nat.le_trans holds.bounded (Nat.le_add_left ..)
  holds_alloc := by
    intro pool pool' regions blocks memory memory' layout ptr holds allocated
    obtain ⟨ptr', found, made⟩ := Option.map_eq_some_iff.mp allocated
    cases made
    have fits := List.find?_some found
    rw [decide_eq_true_eq] at fits
    obtain ⟨nonnull, -, ⟨region, known, low, high⟩, aparts, bounded⟩ := fits
    refine ⟨⟨holds.regions, holds.blocks.cons _, bounded⟩, nonnull, ?_, ?_, fun word _ => rfl⟩
    · intro address member
      exact ⟨region, holds.regions ▸ known, Nat.le_trans low member.1,
        Nat.lt_of_lt_of_le member.2 high⟩
    · exact fun block member => aparts block (holds.blocks.mem_iff.mpr member)
  holds_dealloc := by
    intro pool regions blocks rest memory block holds perm
    have member : block ∈ pool.blocks :=
      (holds.blocks.trans perm).mem_iff.mpr (List.mem_cons_self ..)
    have erased := List.perm_cons_erase member
    refine ⟨⟨holds.regions, ?_, Nat.le_trans ?_ holds.bounded⟩, fun word _ => rfl⟩
    · exact (erased.symm.trans (holds.blocks.trans perm)).cons_inv
    · unfold allocActual
      rw [(erased.map fun block => actual block.layout).sum_eq, List.map_cons, List.sum_cons]
      exact Nat.le_add_left ..
  stats_total := by
    intro pool regions blocks holds
    exact congrArg (fun regions => (regions.map Extent.size).sum) holds.regions
  stats_actual := by
    intro pool regions blocks holds
    exact (holds.blocks.map fun block => actual block.layout).sum_eq
  stats_le holds := holds.bounded

end BlockPool

/-- A heap of 32 KiB at `0x80000000`. -/
def smallHeap : World BlockPool where
  heap := ⟨fun _ => ⟨.newEmpty, 0⟩, ⟨[⟨0x80000000, 0x8000⟩], []⟩, fun _ => none⟩
  live := []
  regions := [⟨0x80000000, 0x8000⟩]

theorem smallHeap_started : smallHeap.Started BlockPool.buddy :=
  ⟨rfl, fun _ => none, 0x80000000, 0x8000, rfl, rfl⟩

/-- The first small block is the last tile of the region that its slab grows by. -/
theorem heap_blocks_disjoint_smallHeap
    : ∃ heap, smallHeap.heap.allocate BlockPool.buddy ⟨48, 8⟩ = some (some 0x80000fc0, heap)
      ∧ ∃ free, (heap.slab .bytes64).freeBlockList.Threads heap.memory free ∧ free.Nodup
        ∧ ∀ a ∈ free, Extent.Apart ⟨a, 64⟩ ⟨0x80000fc0, 48⟩ := by
  have pointer : (smallHeap.heap.allocate BlockPool.buddy ⟨48, 8⟩).map Prod.fst
      = some (some 0x80000fc0) := by
    decide +kernel
  obtain ⟨⟨ptr, heap⟩, run, isPtr⟩ := Option.map_eq_some_iff.mp pointer
  cases isPtr
  refine ⟨heap, run, ?_⟩
  have sound := heap_blocks_disjoint BlockPool.correct
    (.next (.start smallHeap_started) (.allocate ⟨48, 8⟩ 0x80000fc0 heap trivial run))
  obtain ⟨free, threads, nodup, apart, -⟩ := sound.2.2.1 .bytes64
  exact ⟨free, threads, nodup, fun a member => apart a member _ (List.mem_cons_self ..)⟩

end RCoreOS.SlabAllocator
