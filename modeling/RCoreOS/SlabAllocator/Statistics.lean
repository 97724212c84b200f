import RCoreOS.SlabAllocator.BlockPool
import Mathlib.Algebra.Order.BigOperators.Group.List
import Mathlib.Algebra.Order.Group.Nat

/-! The statistics of the heap. A region that a slab grows by stays in the total and in the
used bytes of the buddy heap, and is counted again in those of the slab.
-/

namespace RCoreOS.SlabAllocator

variable {B : Type} {buddy : Buddy B} {correct : buddy.Correct} {w : World B}
  {free chunks : List Piece} {handed : List Block}

/-- A sum over the seven slabs. -/
def sumSlabs (f : SlabSize → Nat) : Nat :=
  f .bytes64 + f .bytes128 + f .bytes256 + f .bytes512 + f .bytes1024 + f .bytes2048
    + f .bytes4096

theorem sumSlabs_add (f g : SlabSize → Nat)
    : sumSlabs (fun c => f c + g c) = sumSlabs f + sumSlabs g := by
  simp only [sumSlabs]
  omega

/-- A sum with one summand. -/
theorem sumSlabs_single (d : SlabSize) (n : Nat)
    : sumSlabs (fun c => if c = d then n else 0) = n := by
  cases d <;> simp [sumSlabs]

theorem sumSlabs_le {f g : SlabSize → Nat} (le : ∀ c, f c ≤ g c) : sumSlabs f ≤ sumSlabs g := by
  have each := fun c => le c
  simp only [sumSlabs]
  have := each .bytes64
  have := each .bytes128
  have := each .bytes256
  have := each .bytes512
  have := each .bytes1024
  have := each .bytes2048
  have := each .bytes4096
  omega

theorem sumSlabs_eq_zero {f : SlabSize → Nat} : sumSlabs f = 0 ↔ ∀ c, f c = 0 := by
  constructor
  · intro zero c
    simp only [sumSlabs] at zero
    cases c <;> omega
  · intro zero
    simp [sumSlabs, zero]

/-- Counting the bytes of blocks by their slabs, by induction on the blocks. -/
theorem sumSlabs_countOf (pieces : List Piece) (size : SlabSize → Nat)
    : sumSlabs (fun c => countOf pieces c * size c)
      = (pieces.map fun piece => size piece.1).sum := by
  induction pieces with
  | nil => simp [sumSlabs, countOf]
  | cons piece rest ih =>
      have split (c : SlabSize) : countOf (piece :: rest) c * size c
          = (if c = piece.1 then size piece.1 else 0) + countOf rest c * size c := by
        rw [countOf_cons, Nat.add_mul]
        by_cases same : c = piece.1
        · simp [same]
        · simp [same]
      simp only [split]
      rw [sumSlabs_add, sumSlabs_single, ih, List.map_cons, List.sum_cons]

theorem totalBytes_eq (h : Heap B)
    : h.totalBytes buddy = sumSlabs (fun c => (h.slab c).totalBlocks * c.blkSize)
      + buddy.statsTotalBytes h.buddyAllocator :=
  rfl

theorem usedBytes_eq (h : Heap B)
    : h.usedBytes buddy = sumSlabs (fun c => (h.slab c).usedBlocks * c.blkSize)
      + buddy.statsAllocActual h.buddyAllocator :=
  rfl

/-- The bytes of the regions that the heap has been given. -/
def regionBytes (w : World B) : Nat :=
  (w.regions.map Extent.size).sum

/-- The bytes of the regions that slabs have grown by. -/
def grownBytes (chunks : List Piece) : Nat :=
  (chunks.map fun grown => SET_SIZE * grown.1.blkSize).sum

/-- What a block adds to the used bytes while a user holds it. -/
def charge (correct : buddy.Correct) (block : Block) : Nat :=
  match layoutToAllocator block.layout with
  | .slab c => c.blkSize
  | .buddyAllocator => correct.actual block.layout

/-- Charges by the allocators that serve the blocks, by induction on the blocks. -/
theorem charge_sum (correct : buddy.Correct) (live : List Block)
    : ((held live).map fun piece => piece.1.blkSize).sum
        + ((live.filter Block.isLarge).map fun block => correct.actual block.layout).sum
      = (live.map (charge correct)).sum := by
  induction live with
  | nil => rfl
  | cons block rest ih =>
      rw [List.map_cons, List.sum_cons, ← ih]
      cases serves : layoutToAllocator block.layout with
      | slab c =>
          have isHeld : held (block :: rest) = (c, block.ptr) :: held rest :=
            List.filterMap_cons_some (piece?_slab serves)
          rw [isHeld, List.filter_cons_of_neg (by simp [Block.isLarge, serves]), List.map_cons,
            List.sum_cons, charge, serves, Nat.add_assoc]
      | buddyAllocator =>
          have notHeld : held (block :: rest) = held rest :=
            List.filterMap_cons_none (piece?_large serves)
          rw [notHeld, List.filter_cons_of_pos (by simp [Block.isLarge, serves]), List.map_cons,
            List.sum_cons, charge, serves]
          exact Nat.add_left_comm ..

namespace Owns

/-- Regions of the slabs are counted twice in the total. -/
theorem totalBytes (owns : Owns correct w free chunks handed)
    : w.heap.totalBytes buddy = regionBytes w + grownBytes chunks := by
  have slabs : sumSlabs (fun c => (w.heap.slab c).totalBlocks * c.blkSize) = grownBytes chunks := by
    have counted (c : SlabSize) : (w.heap.slab c).totalBlocks * c.blkSize
        = countOf chunks c * (SET_SIZE * c.blkSize) := by
      rw [owns.grown c, Nat.mul_comm SET_SIZE, Nat.mul_assoc]
    simp only [counted]
    exact sumSlabs_countOf chunks fun c => SET_SIZE * c.blkSize
  rw [totalBytes_eq, slabs, correct.stats_total owns.holds, regionBytes, Nat.add_comm]

/-- The used bytes are the charges of the users' blocks and what the buddy heap charges for the
regions of the slabs.
-/
theorem usedBytes (owns : Owns correct w free chunks handed)
    : w.heap.usedBytes buddy = (w.live.map (charge correct)).sum
      + (chunks.map fun grown => correct.actual (Slab.growth grown.1)).sum := by
  have used (c : SlabSize) : (w.heap.slab c).usedBlocks = countOf (held w.live) c := by
    rw [Slab.usedBlocks, owns.total c, (owns.threads c).len, countOf_append, countOf_free,
      Nat.add_sub_cancel_left]
  simp only [usedBytes_eq, used]
  have split : buddy.statsAllocActual w.heap.buddyAllocator
      = (chunks.map fun grown => correct.actual (Slab.growth grown.1)).sum
        + ((w.live.filter Block.isLarge).map fun block => correct.actual block.layout).sum := by
    rw [correct.stats_actual owns.holds, (owns.perm.map _).sum_eq, outstanding, List.map_append,
      List.sum_append, List.map_map]
    rfl
  rw [sumSlabs_countOf (held w.live) SlabSize.blkSize, split, ← charge_sum]
  omega

/-- No more is used than there is. -/
theorem usedBytes_le (owns : Owns correct w free chunks handed)
    : w.heap.usedBytes buddy ≤ w.heap.totalBytes buddy := by
  rw [usedBytes_eq, totalBytes_eq]
  refine Nat.add_le_add (sumSlabs_le fun c => ?_) (correct.stats_le owns.holds)
  exact Nat.mul_le_mul_right c.blkSize (Nat.sub_le ..)

/-- Slabs grow by blocks of the buddy heap, so that nothing is counted more than twice. -/
theorem totalBytes_le (owns : Owns correct w free chunks handed)
    : w.heap.totalBytes buddy ≤ 2 * regionBytes w := by
  have grown : grownBytes chunks
      ≤ (chunks.map fun grown => correct.actual (Slab.growth grown.1)).sum :=
    List.sum_le_sum fun grown _ => correct.actual_ge (Slab.growth grown.1)
  have charged : (chunks.map fun grown => correct.actual (Slab.growth grown.1)).sum
      ≤ buddy.statsAllocActual w.heap.buddyAllocator := by
    rw [correct.stats_actual owns.holds, (owns.perm.map _).sum_eq, outstanding, List.map_append,
      List.sum_append, List.map_map]
    exact Nat.le_add_right ..
  have total := correct.stats_total owns.holds
  have least := correct.stats_le owns.holds
  rw [owns.totalBytes, regionBytes]
  omega

end Owns

-----------------------------------------------------------------------------------------
-- Runs without growing slabs
-----------------------------------------------------------------------------------------

/-- A request over the size of the largest slab makes no slab grow. -/
theorem not_grows_large {B : Type} {buddy : Buddy B} (w : World B) {layout : Layout}
    (large : 4096 < layout.size)
    : ¬ Grows buddy w layout := by
  rintro ⟨c, served, -⟩
  simp only [layoutToAllocator] at served
  split at served
  · cases served
  · omega

/-- Some owners account for the memory, with these regions of the slabs. -/
def Grown (correct : buddy.Correct) (chunks : List Piece) (w : World B) : Prop :=
  ∃ free handed, Owns correct w free chunks handed

/-- A step in which no slab grows keeps the regions of the slabs. -/
theorem Grown.step {w' : World B} (grown : Grown correct chunks w)
    (stepped : World.Step buddy (fun w layout => ¬ Grows buddy w layout) w w')
    : Grown correct chunks w' := by
  obtain ⟨free, handed, owns⟩ := grown
  obtain ⟨free', chunks', handed', owns', taken | ⟨rfl, -⟩⟩ := owns.step stepped
  · obtain ⟨layout, ptr, quiet, -, ⟨grows, -⟩ | ⟨-, rfl⟩, -⟩ := taken
    · exact absurd grows quiet
    · exact ⟨free', handed', owns'⟩
  · exact ⟨free', handed', owns'⟩

/-- Runs in which no slab grows, by induction on the run. -/
theorem Grown.run {w' : World B} (grown : Grown correct chunks w)
    (run : Relation.ReflTransGen
      (World.Step buddy fun w layout => ¬ Grows buddy w layout) w w')
    : Grown correct chunks w' := by
  induction run with
  | refl => exact grown
  | tail _ stepped ih => exact ih.step stepped

/-- An allocation and the release of its block, as the statistics see them. -/
theorem Owns.allocate_statistics (owns : Owns correct w free chunks handed) {layout : Layout}
    {ptr : Nat} {heap : Heap B} (run : w.heap.allocate buddy layout = some (some ptr, heap))
    : (heap.totalBytes buddy = w.heap.totalBytes buddy ↔ ¬ Grows buddy w layout)
      ∧ ∀ heap', heap.deallocate buddy ptr layout = some heap'
        → (heap'.usedBytes buddy = w.heap.usedBytes buddy ↔ ¬ Grows buddy w layout) := by
  rcases owns.allocate layout with
    failed | ⟨ptr', heap', free', chunks', handed', run', owns', grownTo⟩
  · rw [failed] at run
    cases run
  cases run.symm.trans run'
  have total := owns'.totalBytes
  have region : regionBytes { w with heap, live := ⟨ptr, layout⟩ :: w.live } = regionBytes w := rfl
  rw [region] at total
  have positive (c : SlabSize) : 0 < SET_SIZE * c.blkSize :=
    Nat.mul_pos (by decide) (Nat.lt_of_lt_of_le (by decide) c.blkSize_ge)
  refine ⟨?_, fun heap' released => ?_⟩
  · rw [total, owns.totalBytes]
    rcases grownTo with ⟨grows, c, p, rfl⟩ | ⟨quiet, rfl⟩
    · have more := positive c
      simp only [grownBytes, List.map_cons, List.sum_cons, grows, not_true, iff_false]
      omega
    · exact ⟨fun _ => quiet, fun _ => rfl⟩
  · have front : (Block.mk ptr layout :: w.live).Perm (⟨ptr, layout⟩ :: w.live) := .refl _
    obtain ⟨heap'', free'', handed'', released', owns'', -⟩ := owns'.deallocate front
    cases released.symm.trans released'
    rw [owns''.usedBytes, owns.usedBytes]
    rcases grownTo with ⟨grows, c, p, rfl⟩ | ⟨quiet, rfl⟩
    · have more := Nat.lt_of_lt_of_le (positive c) (correct.actual_ge (Slab.growth c))
      simp only [List.map_cons, List.sum_cons, grows, not_true, iff_false]
      omega
    · exact ⟨fun _ => quiet, fun _ => rfl⟩

/-- No more is used than there is. The total is that of the given regions exactly when no slab
has ever grown; in runs in which no slab grows it changes with the regions only, and the used
bytes depend on the blocks of the users only. An allocation leaves the total, and with its
release the used bytes, as they were exactly when no slab grows.
-/
theorem heap_statistics (correct : buddy.Correct) (reachable : World.Reachable buddy w)
    : w.heap.usedBytes buddy ≤ w.heap.totalBytes buddy
      ∧ (w.heap.totalBytes buddy = regionBytes w ↔ ∀ c, (w.heap.slab c).totalBlocks = 0)
      ∧ (∀ w', Relation.ReflTransGen
          (World.Step buddy fun w layout => ¬ Grows buddy w layout) w w'
        → w'.heap.totalBytes buddy + regionBytes w = w.heap.totalBytes buddy + regionBytes w'
          ∧ (w'.live.Perm w.live → w'.heap.usedBytes buddy = w.heap.usedBytes buddy))
      ∧ ∀ layout ptr heap, w.heap.allocate buddy layout = some (some ptr, heap)
        → (heap.totalBytes buddy = w.heap.totalBytes buddy ↔ ¬ Grows buddy w layout)
          ∧ ∀ heap', heap.deallocate buddy ptr layout = some heap'
            → (heap'.usedBytes buddy = w.heap.usedBytes buddy ↔ ¬ Grows buddy w layout) := by
  obtain ⟨free, chunks, handed, owns⟩ := owned_reachable correct reachable
  refine ⟨owns.usedBytes_le, ?_, fun w' run => ?_, fun layout ptr heap run =>
    owns.allocate_statistics run⟩
  · have exact : (∀ c, (w.heap.slab c).totalBlocks = 0)
        ↔ sumSlabs (fun c => (w.heap.slab c).totalBlocks * c.blkSize) = 0 := by
      rw [sumSlabs_eq_zero]
      refine forall_congr' fun c => ?_
      have := c.blkSize_ge
      rw [Nat.mul_eq_zero]
      omega
    rw [exact, totalBytes_eq, correct.stats_total owns.holds, regionBytes]
    omega
  · obtain ⟨free', handed', owns'⟩ := Grown.run ⟨free, handed, owns⟩ run
    refine ⟨?_, fun perm => ?_⟩
    · rw [owns.totalBytes, owns'.totalBytes]
      omega
    · rw [owns.usedBytes, owns'.usedBytes, (perm.map _).sum_eq]

/-- A block over 4096 bytes leaves the total as it is, and its release the used bytes. -/
theorem heap_statistics_smallHeap
    : ∃ heap heap', smallHeap.heap.allocate BlockPool.buddy ⟨5000, 8⟩ = some (some 0x80000000, heap)
      ∧ heap.deallocate BlockPool.buddy 0x80000000 ⟨5000, 8⟩ = some heap'
      ∧ heap.usedBytes BlockPool.buddy = 0x2000
      ∧ heap.totalBytes BlockPool.buddy = 0x8000 ∧ heap'.usedBytes BlockPool.buddy = 0 := by
  have sound := heap_statistics BlockPool.correct (.start smallHeap_started)
  have start : smallHeap.heap.totalBytes BlockPool.buddy = 0x8000 :=
    sound.2.1.mpr fun c => rfl
  have taken : (smallHeap.heap.allocate BlockPool.buddy ⟨5000, 8⟩).map
      (fun outcome => (outcome.1, outcome.2.usedBytes BlockPool.buddy))
      = some (some 0x80000000, 0x2000) := by decide +kernel
  obtain ⟨⟨ptr, heap⟩, run, fields⟩ := Option.map_eq_some_iff.mp taken
  obtain ⟨rfl, used⟩ := Prod.mk.inj fields
  have released : ((smallHeap.heap.allocate BlockPool.buddy ⟨5000, 8⟩).bind fun outcome =>
      outcome.2.deallocate BlockPool.buddy 0x80000000 ⟨5000, 8⟩).isSome := by decide +kernel
  rw [run] at released
  obtain ⟨heap', released⟩ := Option.isSome_iff_exists.mp released
  have quiet : ¬ Grows BlockPool.buddy smallHeap ⟨5000, 8⟩ := not_grows_large _ (by decide)
  obtain ⟨total, usedAgain⟩ := sound.2.2.2 _ _ _ run
  exact ⟨heap, heap', run, released, used, (total.mpr quiet).trans start,
    (usedAgain heap' released).mpr quiet⟩

/-- A first small block makes its slab grow: the total rises by the region, and the region
stays in the used bytes after the block has been released.
-/
theorem growing_slab_counted_twice
    : smallHeap.Started BlockPool.buddy
      ∧ (smallHeap.heap.allocate BlockPool.buddy ⟨48, 8⟩).map
        (fun outcome => (outcome.1, outcome.2.totalBytes BlockPool.buddy))
        = some (some 0x80000fc0, 0x8000 + 0x1000)
      ∧ smallHeap.heap.usedBytes BlockPool.buddy = 0
      ∧ ((smallHeap.heap.allocate BlockPool.buddy ⟨48, 8⟩).bind fun outcome =>
          outcome.2.deallocate BlockPool.buddy 0x80000fc0 ⟨48, 8⟩).map
        (fun heap => heap.usedBytes BlockPool.buddy) = some 0x1000 := by
  refine ⟨smallHeap_started, ?_, ?_, ?_⟩ <;> decide +kernel

end RCoreOS.SlabAllocator
