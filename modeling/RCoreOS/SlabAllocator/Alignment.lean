import RCoreOS.SlabAllocator.BlockPool

/-! Where the blocks of the slabs lie. A slab grows by regions that are aligned to their own size,
so its blocks are multiples of the block size, in whatever order they come back. This is the
alignment of every layout that asks for no more than the largest block has.
-/

namespace RCoreOS.SlabAllocator

open FreeBlockList (tileStarts)

variable {B : Type} {buddy : Buddy B} {correct : buddy.Correct} {w : World B}
  {free chunks : List Piece} {handed : List Block} {c : SlabSize} {layout : Layout}

/-- The buddy heap aligns a block to its alignment and to its size rounded up to a power of
two.
-/
def Buddy.Correct.Aligned (correct : buddy.Correct) : Prop :=
  ∀ {b b' : B} {regions : List Extent} {blocks : List Block} {memory memory' : Memory}
    {layout : Layout} {ptr : Nat},
    correct.Holds b regions blocks → buddy.alloc b memory layout = some (ptr, b', memory')
      → layout.align.isPowerOfTwo → max layout.size.nextPowerOfTwo layout.align ∣ ptr

/-- The exponents of powers of two are in their order. -/
theorem dvd_of_le_isPowerOfTwo {m n : Nat} (pow : m.isPowerOfTwo) (pow' : n.isPowerOfTwo)
    (le : m ≤ n)
    : m ∣ n := by
  obtain ⟨k, rfl⟩ := pow
  obtain ⟨e, rfl⟩ := pow'
  exact Nat.pow_dvd_pow 2 ((Nat.pow_le_pow_iff_right (Nat.lt_succ_self 1)).mp le)

theorem SlabSize.blkSize_isPowerOfTwo (c : SlabSize) : c.blkSize.isPowerOfTwo := by
  cases c
  · exact ⟨6, rfl⟩
  · exact ⟨7, rfl⟩
  · exact ⟨8, rfl⟩
  · exact ⟨9, rfl⟩
  · exact ⟨10, rfl⟩
  · exact ⟨11, rfl⟩
  · exact ⟨12, rfl⟩

/-- The region that a slab grows by is aligned to its size. -/
theorem growth_alignment (c : SlabSize)
    : max (Slab.growth c).size.nextPowerOfTwo (Slab.growth c).align = SET_SIZE * c.blkSize := by
  cases c <;> decide +kernel

/-- A block of the slab that serves a layout is as large as the alignment, if any block is. -/
theorem layoutToAllocator_align (serves : layoutToAllocator layout = .slab c)
    (small : layout.align ≤ 4096)
    : layout.align ≤ c.blkSize := by
  unfold layoutToAllocator at serves
  split at serves
  · cases serves
  -- every test bounds the alignment, and the last slab takes what is left
  repeat
    split at serves
    · rename_i fits
      cases serves
      exact fits.2
  cases serves
  exact small

/-- Slabs serve small layouts. -/
theorem layoutToAllocator_size_le (serves : layoutToAllocator layout = .slab c)
    : layout.size ≤ 4096 := by
  apply Nat.le_of_not_lt
  intro large
  rw [layoutToAllocator, if_pos large] at serves
  cases serves

/-- A small layout with a large alignment is left to the slab with the largest blocks. -/
theorem layoutToAllocator_large_align (small : layout.size ≤ 4096)
    (large : 4096 < layout.align)
    : layoutToAllocator layout = .slab .bytes4096 := by
  have not (n : Nat) (le : n ≤ 4096) : ¬ (layout.size ≤ n ∧ layout.align ≤ n) := by
    intro fits
    exact absurd (Nat.le_trans fits.2 le) (Nat.not_le_of_lt large)
  rw [layoutToAllocator, if_neg (Nat.not_lt_of_le small), if_neg (not _ (by decide)),
    if_neg (not _ (by decide)), if_neg (not _ (by decide)), if_neg (not _ (by decide)),
    if_neg (not _ (by decide)), if_neg (not _ (by decide))]

-----------------------------------------------------------------------------------------
-- Blocks lie at multiples of their size
-----------------------------------------------------------------------------------------

def Sized (pieces : List Piece) : Prop :=
  ∀ piece ∈ pieces, piece.1.blkSize ∣ piece.2

theorem Sized.perm {pieces pieces' : List Piece} (sized : Sized pieces)
    (perm : pieces'.Perm pieces)
    : Sized pieces' :=
  fun piece member => sized piece (perm.mem_iff.mp member)

theorem Sized.append {pieces pieces' : List Piece} (sized : Sized pieces)
    (sized' : Sized pieces')
    : Sized (pieces ++ pieces') := by
  intro piece member
  rcases List.mem_append.mp member with first | second
  · exact sized piece first
  · exact sized' piece second

/-- The tiles of an aligned region. -/
theorem sized_tiles {p : Nat} (count : Nat) (aligned : c.blkSize ∣ p)
    : Sized ((tileStarts p c.blkSize count).reverse.map (c, ·)) := by
  intro piece member
  obtain ⟨a, tile, rfl⟩ := List.mem_map.mp member
  obtain ⟨i, -, rfl⟩ := List.mem_map.mp (List.mem_reverse.mp tile)
  exact Nat.dvd_add aligned (Nat.dvd_mul_right ..)

/-- The region that a slab grows by lies at a multiple of its size. -/
theorem growth_dvd (aligned : correct.Aligned) (owns : Owns correct w free chunks handed) {p : Nat}
    {b : B} {memory : Memory}
    (allocated : buddy.alloc w.heap.buddyAllocator w.heap.memory (Slab.growth c)
      = some (p, b, memory))
    : SET_SIZE * c.blkSize ∣ p :=
  growth_alignment c ▸ aligned owns.holds allocated ⟨12, rfl⟩

/-- An allocation moves a block from the free ones to the ones held, by where it is taken
from.
-/
theorem Takes.sized {ptr : Nat} {free' : List Piece} (takes : Takes buddy w layout free ptr free')
    (aligned : correct.Aligned) (owns : Owns correct w free chunks handed)
    (sized : Sized (free ++ held w.live))
    : Sized (free' ++ held (⟨ptr, layout⟩ :: w.live)) := by
  cases takes with
  | free c a rest left serves first perm =>
      have occupies : (Block.mk ptr layout).piece? = some (c, ptr) := piece?_slab serves
      rw [held, List.filterMap_cons_some occupies]
      exact sized.perm (List.perm_middle.trans (perm.symm.append_right _))
  | grown c p b memory left serves empty allocated perm =>
      have occupies : (Block.mk (p + c.blkSize * (SET_SIZE - 1)) layout).piece?
          = some (c, p + c.blkSize * (SET_SIZE - 1)) :=
        piece?_slab serves
      rw [held, List.filterMap_cons_some occupies]
      have start : c.blkSize ∣ p :=
        Nat.dvd_trans (Nat.dvd_mul_left ..) (growth_dvd aligned owns allocated)
      have all := (sized_tiles SET_SIZE start).append sized
      rw [← List.append_assoc] at all
      exact all.perm (List.perm_middle.trans (perm.symm.append_right _))
  | large p b memory serves allocated =>
      rw [held, List.filterMap_cons_none (piece?_large serves)]
      exact sized

-----------------------------------------------------------------------------------------
-- The alignment of an allocation
-----------------------------------------------------------------------------------------

/-- The next block is aligned as the layout asks: the layout is large enough for the buddy heap,
or its alignment is not larger than the largest block, or the first free block happens to lie
there, or there is no block.
-/
def WellPlaced (buddy : Buddy B) (w : World B) (layout : Layout) : Prop :=
  4096 < layout.size ∨ layout.align ≤ 4096
    ∨ match (w.heap.slab .bytes4096).freeBlockList.head with
      | some a => layout.align ∣ a
      | none =>
          buddy.alloc w.heap.buddyAllocator w.heap.memory (Slab.growth .bytes4096) = none

/-- The buddy heap aligns what it serves itself. -/
theorem large_aligned {b b' : B} {regions : List Extent} {blocks : List Block}
    {memory memory' : Memory} {ptr : Nat} (aligned : correct.Aligned)
    (holds : correct.Holds b regions blocks)
    (allocated : buddy.alloc b memory layout = some (ptr, b', memory'))
    (pow : layout.align.isPowerOfTwo)
    : layout.align ∣ ptr := by
  have both := aligned holds allocated pow
  rcases Nat.le_total layout.size.nextPowerOfTwo layout.align with le | ge
  · rwa [Nat.max_eq_right le] at both
  · rw [Nat.max_eq_left ge] at both
    have order := dvd_of_le_isPowerOfTwo pow (Nat.isPowerOfTwo_nextPowerOfTwo _) ge
    exact Nat.dvd_trans order both

/-- Blocks of slabs have every alignment up to their size. -/
theorem Sized.aligned {pieces : List Piece} {ptr : Nat} (sized : Sized pieces)
    (member : (c, ptr) ∈ pieces) (serves : layoutToAllocator layout = .slab c)
    (pow : layout.align.isPowerOfTwo) (small : layout.align ≤ 4096)
    : layout.align ∣ ptr := by
  have order := dvd_of_le_isPowerOfTwo pow c.blkSize_isPowerOfTwo
    (layoutToAllocator_align serves small)
  exact Nat.dvd_trans order (sized (c, ptr) member)

/-- The last tile of a region of the slab with the largest blocks has no larger alignment. -/
theorem last_tile_misaligned {p : Nat} (region : SET_SIZE * SlabSize.bytes4096.blkSize ∣ p)
    (pow : layout.align.isPowerOfTwo) (large : 4096 < layout.align)
    : ¬ layout.align ∣ p + SlabSize.bytes4096.blkSize * (SET_SIZE - 1) := by
  intro aligned
  have next : 8192 ∣ layout.align := by
    obtain ⟨k, isPow⟩ := pow
    rw [isPow] at large ⊢
    have exponent : 12 < k := (Nat.pow_lt_pow_iff_right (a := 2) (by decide)).mp large
    exact Nat.pow_dvd_pow 2 exponent
  have region' : 8192 ∣ p := Nat.dvd_trans (by decide) region
  have rest := (Nat.dvd_add_right region').mp (Nat.dvd_trans next aligned)
  exact absurd rest (by decide)

/-- An allocation is aligned exactly if the next block is, by where it is taken from. -/
theorem Takes.aligned_iff {ptr : Nat} {free' : List Piece}
    (takes : Takes buddy w layout free ptr free') (aligned : correct.Aligned)
    (owns : Owns correct w free chunks handed) (sized : Sized (free ++ held w.live))
    (pow : layout.align.isPowerOfTwo)
    : layout.align ∣ ptr ↔ WellPlaced buddy w layout := by
  have sized' := takes.sized aligned owns sized
  cases takes with
  | free c a rest left serves first perm =>
      rcases Nat.lt_or_ge 4096 layout.align with large | small
      · have fits : layout.size ≤ 4096 := layoutToAllocator_size_le serves
        cases serves.symm.trans (layoutToAllocator_large_align fits large)
        have head := (owns.threads .bytes4096).chain.head_eq
        rw [first] at head
        simp only [WellPlaced, Nat.not_lt_of_le fits, Nat.not_le_of_lt large, head, false_or,
          List.head?_cons]
      · have member : (c, ptr) ∈ free ++ held w.live :=
          List.mem_append_left _ (perm.mem_iff.mpr (List.mem_cons_self ..))
        exact iff_of_true (sized.aligned member serves pow small) (.inr (.inl small))
  | grown c p b memory left serves empty allocated perm =>
      rcases Nat.lt_or_ge 4096 layout.align with large | small
      · have fits : layout.size ≤ 4096 := layoutToAllocator_size_le serves
        cases serves.symm.trans (layoutToAllocator_large_align fits large)
        have head := (owns.threads .bytes4096).chain.head_eq
        rw [empty] at head
        refine iff_of_false (last_tile_misaligned (growth_dvd aligned owns allocated) pow large) ?_
        simp only [WellPlaced, Nat.not_lt_of_le fits, Nat.not_le_of_lt large, head, false_or,
          List.head?_nil, allocated, reduceCtorEq, not_false_eq_true]
      · have member : (c, p + c.blkSize * (SET_SIZE - 1))
            ∈ free' ++ held (⟨p + c.blkSize * (SET_SIZE - 1), layout⟩ :: w.live) :=
          List.mem_append_right _ (List.mem_filterMap.mpr
            ⟨_, List.mem_cons_self .., piece?_slab serves⟩)
        exact iff_of_true (sized'.aligned member serves pow small) (.inr (.inl small))
  | large p b memory serves allocated =>
      refine iff_of_true (large_aligned aligned owns.holds allocated pow) (.inl ?_)
      apply Nat.lt_of_not_le
      intro small
      rw [layoutToAllocator, if_neg (Nat.not_lt_of_le small)] at serves
      repeat
        split at serves
        · cases serves
      cases serves

-----------------------------------------------------------------------------------------
-- Runs
-----------------------------------------------------------------------------------------

/-- Some owners account for the memory, and their blocks lie at multiples of their size. -/
def Arranged (correct : buddy.Correct) (w : World B) : Prop :=
  ∃ free chunks handed, Owns correct w free chunks handed ∧ Sized (free ++ held w.live)

/-- Every step keeps the blocks where they are or adds aligned ones. -/
theorem Arranged.step {allowed : World B → Layout → Prop} {w' : World B}
    (aligned : correct.Aligned) (arranged : Arranged correct w)
    (stepped : World.Step buddy allowed w w')
    : Arranged correct w' := by
  obtain ⟨free, chunks, handed, owns, sized⟩ := arranged
  obtain ⟨free', chunks', handed', owns', taken | ⟨-, moved⟩⟩ := owns.step stepped
  · obtain ⟨layout, ptr, -, live, -, takes⟩ := taken
    refine ⟨free', chunks', handed', owns', ?_⟩
    rw [live]
    exact takes.sized aligned owns sized
  · exact ⟨free', chunks', handed', owns', sized.perm moved⟩

theorem arranged_started (started : World.Started buddy w) : Arranged correct w := by
  refine ⟨[], [], [], owns_started correct started, ?_⟩
  obtain ⟨noBlocks, -⟩ := started
  rw [noBlocks]
  exact fun piece member => absurd member (List.not_mem_nil)

/-- An allocation that is refused leaves no block to be misplaced. -/
theorem Owns.wellPlaced_of_refused (owns : Owns correct w free chunks handed)
    (refused : w.heap.allocate buddy layout = some (none, w.heap))
    : WellPlaced buddy w layout := by
  rcases Nat.lt_or_ge 4096 layout.size with large | fits
  · exact .inl large
  rcases Nat.lt_or_ge 4096 layout.align with large | small
  · have serves := layoutToAllocator_large_align fits large
    have head := (owns.threads .bytes4096).chain.head_eq
    rcases first : freeOf free .bytes4096 with _ | ⟨a, rest⟩
    · rw [first] at head
      rcases owns.allocate_grow serves first with
        ⟨-, none⟩ | ⟨a, p, heap, free', handed', -, run, -⟩
      · exact .inr (.inr (by simpa only [head, List.head?_nil] using none))
      · rw [refused] at run
        cases run
    · obtain ⟨heap, left, run, -⟩ := owns.allocate_free serves first
      rw [refused] at run
      cases run
  · exact .inr (.inl small)

/-- An allocation of an arranged heap. -/
theorem Arranged.allocate_iff (aligned : correct.Aligned) (arranged : Arranged correct w)
    (pow : layout.align.isPowerOfTwo)
    : (∀ ptr heap, w.heap.allocate buddy layout = some (some ptr, heap) → layout.align ∣ ptr)
      ↔ WellPlaced buddy w layout := by
  obtain ⟨free, chunks, handed, owns, sized⟩ := arranged
  rcases owns.allocate layout with
    refused | ⟨ptr, heap, free', chunks', handed', run, -, -, takes⟩
  · refine iff_of_true (fun ptr heap run => ?_) (owns.wellPlaced_of_refused refused)
    rw [refused] at run
    cases run
  · rw [← takes.aligned_iff aligned owns sized pow]
    refine ⟨fun all => all ptr heap run, fun here ptr' heap' run' => ?_⟩
    cases run.symm.trans run'
    exact here

/-- The blocks that users hold have the alignment that they asked for. -/
def AllAligned (correct : buddy.Correct) (w : World B) : Prop :=
  Arranged correct w ∧ ∀ block ∈ w.live, block.layout.align ∣ block.ptr

/-- A step that allocates only where the next block is well placed. -/
theorem AllAligned.step {w' : World B} (aligned : correct.Aligned)
    (all : AllAligned correct w)
    (stepped : World.Step buddy
      (fun w layout => layout.align.isPowerOfTwo ∧ WellPlaced buddy w layout) w w')
    : AllAligned correct w' := by
  obtain ⟨arranged, blocks⟩ := all
  refine ⟨arranged.step aligned stepped, ?_⟩
  cases stepped with
  | allocate layout ptr heap allowed run =>
      intro block member
      rcases List.mem_cons.mp member with rfl | older
      · exact (arranged.allocate_iff aligned allowed.1).mpr allowed.2 ptr heap run
      · exact blocks block older
  | refused layout heap run => exact blocks
  | deallocate block live heap perm run =>
      intro other member
      exact blocks other (perm.mem_iff.mpr (List.mem_cons_of_mem _ member))
  | addMemory start size heap fresh run => exact blocks
  | write memory outside => exact blocks

/-- After every history of calls an allocation has the alignment that it asks for exactly if the
next block is well placed, and where all allocations are, all blocks of users are aligned.
-/
theorem allocate_aligned_iff (correct : buddy.Correct) (aligned : correct.Aligned)
    : (∀ w layout, World.Reachable buddy w → layout.align.isPowerOfTwo
        → ((∀ ptr heap, w.heap.allocate buddy layout = some (some ptr, heap) → layout.align ∣ ptr)
          ↔ WellPlaced buddy w layout))
      ∧ ∀ w, Transition.Reachable (World.Started buddy)
          (World.Step buddy fun w layout => layout.align.isPowerOfTwo ∧ WellPlaced buddy w layout) w
        → ∀ block ∈ w.live, block.layout.align ∣ block.ptr := by
  refine ⟨fun w layout reachable pow => ?_, fun w reachable => ?_⟩
  · have arranged : Arranged correct w :=
      reachable.invariant (Arranged correct) (fun _ started => arranged_started started)
        fun _ _ arranged stepped => arranged.step aligned stepped
    exact arranged.allocate_iff aligned pow
  · refine (reachable.invariant (AllAligned correct) (fun first started => ?_)
      fun _ _ all stepped => all.step aligned stepped).2
    refine ⟨arranged_started started, ?_⟩
    rw [started.1]
    exact fun block member => absurd member (List.not_mem_nil)

-----------------------------------------------------------------------------------------
-- An alignment of two pages
-----------------------------------------------------------------------------------------

/-- A buddy heap that refuses a block where it lacks the alignment. -/
def Buddy.strict (buddy : Buddy B) : Buddy B :=
  { buddy with
    alloc := fun b memory layout =>
      (buddy.alloc b memory layout).filter
        fun (ptr, _) => max layout.size.nextPowerOfTwo layout.align ∣ ptr }

namespace Buddy.Correct

def strict (correct : buddy.Correct) : buddy.strict.Correct where
  Holds := correct.Holds
  actual := correct.actual
  actual_ge := correct.actual_ge
  holds_init := correct.holds_init
  holds_addToHeap := correct.holds_addToHeap
  holds_alloc holds allocated :=
    correct.holds_alloc holds (Option.filter_eq_some_iff.mp allocated).1
  holds_dealloc := correct.holds_dealloc
  stats_total := correct.stats_total
  stats_actual := correct.stats_actual
  stats_le := correct.stats_le

theorem strict_aligned (correct : buddy.Correct) : correct.strict.Aligned := by
  intro b b' regions blocks memory memory' layout ptr holds allocated pow
  exact of_decide_eq_true (Option.filter_eq_some_iff.mp allocated).2

end Buddy.Correct

/-- A heap of 512 KiB at `0x80000000`. -/
def wideHeap : World BlockPool where
  heap := ⟨fun _ => ⟨.newEmpty, 0⟩, ⟨[⟨0x80000000, 0x80000⟩], []⟩, fun _ => none⟩
  live := []
  regions := [⟨0x80000000, 0x80000⟩]

theorem wideHeap_started : wideHeap.Started BlockPool.buddy.strict :=
  ⟨rfl, fun _ => none, 0x80000000, 0x80000, rfl, rfl⟩

/-- Witness: a cache line is aligned. -/
theorem allocate_aligned_iff_wideHeap
    : ∃ ptr heap, wideHeap.heap.allocate BlockPool.buddy.strict ⟨48, 64⟩ = some (some ptr, heap)
      ∧ 64 ∣ ptr := by
  have served : (wideHeap.heap.allocate BlockPool.buddy.strict ⟨48, 64⟩).map
      (fun result => result.1.isSome) = some true := by
    decide +kernel
  obtain ⟨⟨answer, heap⟩, run, isSome⟩ := Option.map_eq_some_iff.mp served
  obtain ⟨ptr, rfl⟩ := Option.isSome_iff_exists.mp isSome
  refine ⟨ptr, heap, run, ?_⟩
  exact ((allocate_aligned_iff BlockPool.correct.strict BlockPool.correct.strict_aligned).1 wideHeap
    ⟨48, 64⟩ (.start wideHeap_started) ⟨6, rfl⟩).mpr (.inr (.inl (by decide))) ptr heap run

/-- The first block with an alignment of two pages lies one page behind such a place. -/
theorem allocate_misaligned
    : BlockPool.correct.strict.Aligned
      ∧ World.Reachable BlockPool.buddy.strict wideHeap
      ∧ ∃ heap, wideHeap.heap.allocate BlockPool.buddy.strict ⟨64, 8192⟩
          = some (some 0x8003f000, heap)
        ∧ ¬ 8192 ∣ 0x8003f000 := by
  refine ⟨BlockPool.correct.strict_aligned, .start wideHeap_started, ?_⟩
  have pointer : (wideHeap.heap.allocate BlockPool.buddy.strict ⟨64, 8192⟩).map Prod.fst
      = some (some 0x8003f000) := by
    decide +kernel
  obtain ⟨⟨ptr, heap⟩, run, isPtr⟩ := Option.map_eq_some_iff.mp pointer
  cases isPtr
  exact ⟨heap, run, by decide⟩

end RCoreOS.SlabAllocator
