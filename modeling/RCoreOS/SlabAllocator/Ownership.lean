import RCoreOS.SlabAllocator.Blocks

/-! Every call of the heap, and every write of a user to its own blocks, keeps the owners of
the memory apart.
-/

namespace RCoreOS.SlabAllocator

open FreeBlockList (tileStarts reverse_tileStarts_succ)

variable {B : Type} {buddy : Buddy B} {correct : buddy.Correct} {w : World B}
  {free chunks : List Piece} {handed : List Block} {c : SlabSize} {block : Block}

/-- The free blocks of a region that a slab grows by are its tiles. -/
theorem map_extent_tileStarts (c : SlabSize) (start count : Nat)
    : (tileStarts start c.blkSize count).map (fun a => Piece.extent (c, a))
      = Extent.tiles start c.blkSize count := by
  simp [tileStarts, Extent.tiles, Piece.extent, Function.comp_def]

theorem tile_within {a p : Nat} (tile : a ∈ tileStarts p c.blkSize SET_SIZE)
    : (Piece.extent (c, a)).Within (chunk (c, p)).extent := by
  have member : Piece.extent (c, a) ∈ Extent.tiles p c.blkSize SET_SIZE := by
    rw [← map_extent_tileStarts]
    exact List.mem_map_of_mem tile
  have within := Extent.tiles_within _ member
  rwa [Nat.mul_comm] at within

namespace Owns

/-- Blocks of slabs are apart from what the buddy heap hands out next. -/
theorem apart_new (owns : Owns correct w free chunks handed) {piece : Piece} {new : Extent}
    (member : piece ∈ free ++ held w.live)
    (aparts : ∀ block ∈ handed, new.Apart block.extent)
    : new.Apart piece.extent := by
  obtain ⟨grown, known, within⟩ := owns.inside piece member
  have listed : chunk grown ∈ handed :=
    owns.perm.mem_iff.mpr (List.mem_append_left _ (List.mem_map_of_mem known))
  exact (aparts _ listed).mono (.refl _) within

/-- A slab grows by a region of the buddy heap: its tiles become free blocks. -/
theorem extend (owns : Owns correct w free chunks handed) {p : Nat} {b : B} {memory : Memory}
    (allocated : buddy.alloc w.heap.buddyAllocator w.heap.memory (Slab.growth c)
      = some (p, b, memory))
    : ∃ slab memory', (w.heap.slab c).grow c memory p (SET_SIZE * c.blkSize) = some (slab, memory')
      ∧ Owns correct
        { w with
          heap := {
            slab := Function.update w.heap.slab c slab
            buddyAllocator := b
            memory := memory' } }
        ((tileStarts p c.blkSize SET_SIZE).reverse.map (c, ·) ++ free) ((c, p) :: chunks)
        (chunk (c, p) :: handed) := by
  obtain ⟨holds, nonnull, covered, aparts, kept⟩ := correct.holds_alloc owns.holds allocated
  have positive (d : SlabSize) : 0 < d.blkSize := Nat.lt_of_lt_of_le (by decide) d.blkSize_ge
  have framed (piece : Piece) (member : piece ∈ free) : memory piece.2 = w.heap.memory piece.2 :=
    kept _ (owns.word_within member)
  -- tiles are apart from all older blocks, as they lie in the new region
  have tileApart (x : Nat) (tile : x ∈ tileStarts p c.blkSize SET_SIZE) (piece : Piece)
      (member : piece ∈ free ++ held w.live) : (Piece.extent (c, x)).Apart piece.extent :=
    (owns.apart_new member aparts).mono (tile_within tile) (.refl _)
  have tileNe (x : Nat) (tile : x ∈ tileStarts p c.blkSize SET_SIZE) (piece : Piece)
      (member : piece ∈ free) : x ≠ piece.2 :=
    (tileApart x tile piece (List.mem_append_left _ member)).start_ne (positive c)
      (positive piece.1)
  have fresh : (tileStarts p c.blkSize SET_SIZE ++ freeOf free c).Nodup := by
    refine List.nodup_append.mpr ⟨FreeBlockList.tileStarts_nodup p SET_SIZE (positive c),
      owns.freeOf_nodup c, fun x tile y member => ?_⟩
    exact tileNe x tile (c, y) (mem_freeOf.mp member)
  obtain ⟨slab, memory', run, total, threads, kept'⟩ :=
    Slab.grow_ok p SET_SIZE ((owns.threads_frame framed c)) fresh
  refine ⟨slab, memory', run, fun d => ?_, fun d => ?_, fun d => ?_, ?_, ?_, holds,
    owns.perm.cons _, ?_, ?_⟩
  · rw [freeOf_append]
    by_cases here : d = c
    · subst here
      simp only [Function.update_self, if_true]
      exact threads
    · simp only [Function.update_of_ne here, if_neg here, List.nil_append]
      refine (owns.threads_frame framed d).frame fun x member => kept' x fun tile => ?_
      exact tileNe x tile (d, x) (mem_freeOf.mp member) rfl
  · rw [List.append_assoc, countOf_append, countOf_map, ← owns.total d]
    by_cases here : d = c
    · subst here
      simp only [Function.update_self, if_true, total]
      simp [tileStarts, Nat.add_comm]
    · simp only [Function.update_of_ne here, if_neg here, Nat.zero_add]
  · rw [countOf_cons, Nat.mul_add, ← owns.grown d]
    by_cases here : d = c
    · subst here
      simp only [Function.update_self, if_true, total]
      rw [Nat.mul_one, Nat.add_comm]
    · simp only [Function.update_of_ne here, if_neg here, Nat.mul_zero, Nat.zero_add]
  · rw [List.append_assoc, List.map_append]
    refine List.pairwise_append.mpr ⟨?_, owns.apart, fun e tile e' older => ?_⟩
    · refine (Extent.apart_perm ((List.reverse_perm _).map (c, ·) |>.map Piece.extent)).mpr ?_
      rw [List.map_map]
      exact map_extent_tileStarts c p SET_SIZE ▸ Extent.tiles_apart
    · obtain ⟨piece, member, rfl⟩ := List.mem_map.mp tile
      obtain ⟨x, isTile, rfl⟩ := List.mem_map.mp member
      obtain ⟨piece', known, rfl⟩ := List.mem_map.mp older
      exact tileApart x (List.mem_reverse.mp isTile) piece' known
  · intro piece member
    rw [List.append_assoc] at member
    rcases List.mem_append.mp member with tile | older
    · obtain ⟨x, isTile, rfl⟩ := List.mem_map.mp tile
      exact ⟨(c, p), List.mem_cons_self .., tile_within (List.mem_reverse.mp isTile)⟩
    · obtain ⟨grown, known, within⟩ := owns.inside piece older
      exact ⟨grown, List.mem_cons_of_mem _ known, within⟩
  · refine List.pairwise_cons.mpr ⟨fun e member => ?_, owns.outstanding_apart⟩
    obtain ⟨other, known, rfl⟩ := List.mem_map.mp member
    exact aparts other (owns.perm.mem_iff.mpr known)
  · intro other member
    rcases List.mem_cons.mp member with rfl | older
    · exact ⟨covered, nonnull⟩
    · exact owns.covered other older

/-- The buddy heap serves a large request. -/
theorem takeLarge (owns : Owns correct w free chunks handed) {layout : Layout} {p : Nat} {b : B}
    {memory : Memory} (large : layoutToAllocator layout = .buddyAllocator)
    (allocated : buddy.alloc w.heap.buddyAllocator w.heap.memory layout = some (p, b, memory))
    : Owns correct
      { w with heap := { w.heap with buddyAllocator := b, memory }, live := ⟨p, layout⟩ :: w.live }
      free chunks (⟨p, layout⟩ :: handed) := by
  obtain ⟨holds, nonnull, covered, aparts, kept⟩ := correct.holds_alloc owns.holds allocated
  have isLarge : Block.isLarge ⟨p, layout⟩ = true := by simp [Block.isLarge, large]
  have heldSame : held (⟨p, layout⟩ :: w.live) = held w.live :=
    List.filterMap_cons_none (piece?_large large)
  have moved : (outstanding chunks (⟨p, layout⟩ :: w.live)).Perm
      (⟨p, layout⟩ :: outstanding chunks w.live) := by
    rw [outstanding, List.filter_cons_of_pos isLarge]
    exact List.perm_middle
  have apart := owns.apart
  have inside := owns.inside
  have total := owns.total
  rw [← heldSame] at apart inside total
  refine ⟨owns.threads_frame fun piece member => kept _ (owns.word_within member), total,
    owns.grown, apart, inside, holds, (owns.perm.cons _).trans moved.symm, ?_,
    fun other member => ?_⟩
  · refine (Extent.apart_perm (moved.map Block.extent)).mpr
      (List.pairwise_cons.mpr ⟨fun e member => ?_, owns.outstanding_apart⟩)
    obtain ⟨other, known, rfl⟩ := List.mem_map.mp member
    exact aparts other (owns.perm.mem_iff.mpr known)
  · rcases List.mem_cons.mp (moved.mem_iff.mp member) with rfl | older
    · exact ⟨covered, nonnull⟩
    · exact owns.covered other older

/-- The buddy heap gets a large block back. -/
theorem giveLarge (owns : Owns correct w free chunks handed) {live : List Block}
    (perm : w.live.Perm (block :: live))
    (large : layoutToAllocator block.layout = .buddyAllocator)
    : ∃ rest, Owns correct
      { w with
        heap := { w.heap with
          buddyAllocator :=
            (buddy.dealloc w.heap.buddyAllocator w.heap.memory block.ptr block.layout).1
          memory :=
            (buddy.dealloc w.heap.buddyAllocator w.heap.memory block.ptr block.layout).2 }
        live } free chunks rest := by
  have isLarge : block.isLarge = true := by simp [Block.isLarge, large]
  have heldPerm : (held w.live).Perm (held live) := by
    have mapped := perm.filterMap Block.piece?
    rwa [List.filterMap_cons_none (piece?_large large)] at mapped
  have moved : (outstanding chunks w.live).Perm (block :: outstanding chunks live) := by
    have filtered := perm.filter Block.isLarge
    rw [List.filter_cons_of_pos isLarge] at filtered
    exact (filtered.append_left _).trans List.perm_middle
  obtain ⟨holds, kept⟩ :=
    correct.holds_dealloc w.heap.memory owns.holds (owns.perm.trans moved)
  have pieces := heldPerm.append_left free
  refine ⟨_, ⟨owns.threads_frame fun piece member => kept _ ?_, fun d => ?_, owns.grown,
    (Extent.apart_perm (pieces.map Piece.extent)).mp owns.apart,
    fun piece member => owns.inside piece (pieces.mem_iff.mpr member), holds, .refl _,
    (List.pairwise_cons.mp ((Extent.apart_perm (moved.map Block.extent)).mp
      owns.outstanding_apart)).2,
    fun other member => owns.covered other (moved.mem_iff.mpr (List.mem_cons_of_mem _ member))⟩⟩
  · obtain ⟨grown, known, within⟩ := owns.inside piece (List.mem_append_left _ member)
    refine ⟨chunk grown, List.mem_append_left _ (List.mem_map_of_mem known),
      Extent.Within.trans ?_ within⟩
    exact .of_le (Nat.le_trans (by decide) piece.1.blkSize_ge)
  · rw [owns.total d, countOf_perm pieces]

/-- The buddy heap is given a fresh region. -/
theorem addMemory (owns : Owns correct w free chunks handed) {start size : Nat}
    (alignedStart : start % 4096 = 0) (alignedSize : size % 4096 = 0)
    (fresh : ∀ region ∈ w.regions, Extent.Apart ⟨start, size⟩ region)
    : Owns correct
      { w with
        heap := { w.heap with
          buddyAllocator :=
            (buddy.addToHeap w.heap.buddyAllocator w.heap.memory start (start + size)).1
          memory :=
            (buddy.addToHeap w.heap.buddyAllocator w.heap.memory start (start + size)).2 }
        regions := ⟨start, size⟩ :: w.regions } free chunks handed := by
  obtain ⟨holds, kept⟩ :=
    correct.holds_addToHeap w.heap.memory alignedStart alignedSize owns.holds fresh
  exact { owns with
    threads := owns.threads_frame fun piece member => kept _ (owns.word_within member)
    holds
    covered := fun other member =>
      ⟨(owns.covered other member).1.cons _, (owns.covered other member).2⟩ }

/-- Users write to their own blocks, which no free block overlaps. -/
theorem write (owns : Owns correct w free chunks handed) {memory : Memory}
    (outside : ∀ word, (∀ block ∈ w.live, Extent.Apart ⟨word, 8⟩ block.extent)
      → memory word = w.heap.memory word)
    : Owns correct { w with heap := { w.heap with memory } } free chunks handed := by
  refine { owns with threads := owns.threads_frame fun piece member => outside _ ?_ }
  intro user known
  refine (owns.free_apart member known).mono ?_ (.refl _)
  exact .of_le (Nat.le_trans (by decide) piece.1.blkSize_ge)

end Owns

-----------------------------------------------------------------------------------------
-- Calls of the heap
-----------------------------------------------------------------------------------------

/-- A request that makes its slab grow: the slab has no free block, and the buddy heap has a
region for it.
-/
def Grows (buddy : Buddy B) (w : World B) (layout : Layout) : Prop :=
  ∃ c, layoutToAllocator layout = .slab c ∧ (w.heap.slab c).freeBlockList.head = none
    ∧ (buddy.alloc w.heap.buddyAllocator w.heap.memory (Slab.growth c)).isSome

/-- Where an allocation takes its block from: the free blocks of a slab, the tiles of a region
that a slab grows by, or the buddy heap.
-/
inductive Takes (buddy : Buddy B) (w : World B) (layout : Layout) (free : List Piece)
    : Nat → List Piece → Prop
  | free (c : SlabSize) (a : Nat) (rest : List Nat) (left : List Piece)
    : layoutToAllocator layout = .slab c → freeOf free c = a :: rest
      → free.Perm ((c, a) :: left) → Takes buddy w layout free a left
  | grown (c : SlabSize) (p : Nat) (b : B) (memory : Memory) (left : List Piece)
    : layoutToAllocator layout = .slab c → freeOf free c = []
      → buddy.alloc w.heap.buddyAllocator w.heap.memory (Slab.growth c) = some (p, b, memory)
      → ((tileStarts p c.blkSize SET_SIZE).reverse.map (c, ·) ++ free).Perm
        ((c, p + c.blkSize * (SET_SIZE - 1)) :: left)
      → Takes buddy w layout free (p + c.blkSize * (SET_SIZE - 1)) left
  | large (p : Nat) (b : B) (memory : Memory)
    : layoutToAllocator layout = .buddyAllocator
      → buddy.alloc w.heap.buddyAllocator w.heap.memory layout = some (p, b, memory)
      → Takes buddy w layout free p free

/-- What an allocation does to the regions of the slabs. -/
def GrownTo (buddy : Buddy B) (w : World B) (layout : Layout) (chunks chunks' : List Piece) :
    Prop :=
  (Grows buddy w layout ∧ ∃ c p, chunks' = (c, p) :: chunks)
    ∨ (¬ Grows buddy w layout ∧ chunks' = chunks)

namespace Owns

/-- An allocation from a free list. -/
theorem allocate_free (owns : Owns correct w free chunks handed) {layout : Layout} {a : Nat}
    {rest : List Nat} (serves : layoutToAllocator layout = .slab c)
    (first : freeOf free c = a :: rest)
    : ∃ heap left, w.heap.allocate buddy layout = some (some a, heap)
      ∧ Takes buddy w layout free a left
      ∧ Owns correct { w with heap, live := ⟨a, layout⟩ :: w.live } left chunks handed := by
  have threads := owns.threads c
  rw [first] at threads
  have occupies : (Block.mk a layout).piece? = some (c, a) := piece?_slab serves
  obtain ⟨left, perm, owns'⟩ := owns.take first occupies
  refine ⟨_, left, ?_, .free c a rest left serves first perm, owns'⟩
  simp only [Heap.allocate, serves, Slab.allocate, FreeBlockList.pop_cons threads,
    Option.map_some]

/-- An allocation from a slab without free blocks, which grows first if it can. -/
theorem allocate_grow (owns : Owns correct w free chunks handed) {layout : Layout}
    (serves : layoutToAllocator layout = .slab c) (empty : freeOf free c = [])
    : (w.heap.allocate buddy layout = some (none, w.heap)
        ∧ buddy.alloc w.heap.buddyAllocator w.heap.memory (Slab.growth c) = none)
      ∨ ∃ a p heap free' handed',
        (buddy.alloc w.heap.buddyAllocator w.heap.memory (Slab.growth c)).isSome
        ∧ w.heap.allocate buddy layout = some (some a, heap)
        ∧ Takes buddy w layout free a free'
        ∧ Owns correct { w with heap, live := ⟨a, layout⟩ :: w.live } free' ((c, p) :: chunks)
          handed' := by
  have threads := owns.threads c
  rw [empty] at threads
  rcases allocated : buddy.alloc w.heap.buddyAllocator w.heap.memory (Slab.growth c)
    with _ | ⟨p, b, memory⟩
  · left
    refine ⟨?_, rfl⟩
    simp only [Heap.allocate, serves, Slab.allocate, FreeBlockList.pop_nil threads, allocated,
      Option.map_some, Function.update_eq_self]
  · right
    obtain ⟨slab, memory', run, owns'⟩ := owns.extend allocated
    -- the list of the grown slab starts with its last tile
    have listed : ∃ rest, freeOf ((tileStarts p c.blkSize SET_SIZE).reverse.map (c, ·) ++ free) c
        = (p + c.blkSize * (SET_SIZE - 1)) :: rest := by
      rw [freeOf_append, if_pos rfl, empty, List.append_nil]
      exact ⟨_, reverse_tileStarts_succ p c.blkSize (SET_SIZE - 1)⟩
    obtain ⟨rest, first⟩ := listed
    have occupies : (Block.mk (p + c.blkSize * (SET_SIZE - 1)) layout).piece?
        = some (c, p + c.blkSize * (SET_SIZE - 1)) :=
      piece?_slab serves
    obtain ⟨left, perm, owns''⟩ := owns'.take first occupies
    have threads' := owns'.threads c
    rw [first] at threads'
    simp only [Function.update_self] at threads'
    simp only [Function.update_self, Function.update_idem] at owns''
    refine ⟨_, p, _, left, _, rfl, ?_, .grown c p b memory left serves empty allocated perm,
      owns''⟩
    simp only [Heap.allocate, serves, Slab.allocate, FreeBlockList.pop_nil threads, allocated,
      run, FreeBlockList.pop_cons threads', Option.map_some]

/-- Every allocation returns: with an error and an unchanged heap, or with a block that keeps
the owners apart.
-/
theorem allocate (owns : Owns correct w free chunks handed) (layout : Layout)
    : w.heap.allocate buddy layout = some (none, w.heap)
      ∨ ∃ ptr heap free' chunks' handed', w.heap.allocate buddy layout = some (some ptr, heap)
        ∧ Owns correct { w with heap, live := ⟨ptr, layout⟩ :: w.live } free' chunks' handed'
        ∧ GrownTo buddy w layout chunks chunks' ∧ Takes buddy w layout free ptr free' := by
  cases serves : layoutToAllocator layout with
  | slab c =>
      have head := (owns.threads c).chain.head_eq
      rcases first : freeOf free c with _ | ⟨a, rest⟩
      · rw [first] at head
        rcases owns.allocate_grow serves first with
          ⟨run, -⟩ | ⟨a, p, heap, free', handed', able, run, takes, owns'⟩
        · exact .inl run
        · exact .inr ⟨a, heap, free', _, handed', run, owns',
            .inl ⟨⟨c, serves, head, able⟩, c, p, rfl⟩, takes⟩
      · rw [first] at head
        obtain ⟨heap, left, run, takes, owns'⟩ := owns.allocate_free serves first
        refine .inr ⟨a, heap, left, chunks, handed, run, owns', .inr ⟨?_, rfl⟩, takes⟩
        rintro ⟨d, serves', empty, -⟩
        rw [serves] at serves'
        cases serves'
        rw [head] at empty
        cases empty
  | buddyAllocator =>
      rcases allocated : buddy.alloc w.heap.buddyAllocator w.heap.memory layout
        with _ | ⟨p, b, memory⟩
      · left
        simp only [Heap.allocate, serves, allocated]
      · right
        refine ⟨p, _, free, chunks, _, ?_, owns.takeLarge serves allocated, .inr ⟨?_, rfl⟩,
          .large p b memory serves allocated⟩
        · simp only [Heap.allocate, serves, allocated]
        · rintro ⟨c, serves', -⟩
          rw [serves] at serves'
          cases serves'

/-- The release of a block that a user holds returns, and keeps the owners apart, and the
blocks and the regions of the slabs as they are.
-/
theorem deallocate (owns : Owns correct w free chunks handed) {live : List Block}
    (perm : w.live.Perm (block :: live))
    : ∃ heap free' handed', w.heap.deallocate buddy block.ptr block.layout = some heap
      ∧ Owns correct { w with heap, live } free' chunks handed'
      ∧ (free' ++ held live).Perm (free ++ held w.live) := by
  have mapped := perm.filterMap Block.piece?
  cases serves : layoutToAllocator block.layout with
  | slab c =>
      refine ⟨_, _, handed, ?_, owns.give perm (piece?_slab serves), ?_⟩
      · simp only [Heap.deallocate, serves]
      · rw [List.filterMap_cons_some (piece?_slab serves)] at mapped
        exact List.perm_middle.symm.trans (mapped.symm.append_left free)
  | buddyAllocator =>
      obtain ⟨rest, owns'⟩ := owns.giveLarge perm serves
      have user : block ∈ w.live := perm.mem_iff.mpr (List.mem_cons_self ..)
      have nonnull := (owns.covered block
        (outstanding_of_mem user (by simp [Block.isLarge, serves]))).2
      refine ⟨_, free, rest, ?_, owns', ?_⟩
      · simp only [Heap.deallocate, serves, if_neg nonnull]
      · rw [List.filterMap_cons_none (piece?_large serves)] at mapped
        exact mapped.symm.append_left free

end Owns

-----------------------------------------------------------------------------------------
-- Runs
-----------------------------------------------------------------------------------------

/-- A new heap owns its region through the buddy heap. -/
theorem owns_started (correct : buddy.Correct) (started : World.Started buddy w)
    : Owns correct w [] [] [] := by
  obtain ⟨noBlocks, memory, start, size, regions, run⟩ := started
  unfold Heap.new at run
  split at run
  · rename_i valid
    have holds := correct.holds_init memory valid.1
      (show size % 4096 = 0 by have := valid.2.2; unfold MIN_HEAP_SIZE at this; omega)
    obtain ⟨heap, live, givenRegions⟩ := w
    cases run
    subst noBlocks regions
    exact {
      threads := fun c => ⟨rfl, rfl⟩
      total := fun c => rfl
      grown := fun c => rfl
      apart := .nil
      inside := by simp [held]
      holds
      perm := .refl _
      outstanding_apart := .nil
      covered := by simp [outstanding] }
  · cases run

/-- What a step does to the owners: an allocation takes a block and may grow a slab, and every other
step keeps the blocks and the regions of the slabs; by the lemma of its operation.
-/
theorem Owns.step {allowed : World B → Layout → Prop} {w' : World B}
    (owns : Owns correct w free chunks handed) (stepped : World.Step buddy allowed w w')
    : ∃ free' chunks' handed', Owns correct w' free' chunks' handed'
        ∧ ((∃ layout ptr, allowed w layout ∧ w'.live = ⟨ptr, layout⟩ :: w.live
              ∧ GrownTo buddy w layout chunks chunks' ∧ Takes buddy w layout free ptr free')
          ∨ chunks' = chunks ∧ (free' ++ held w'.live).Perm (free ++ held w.live)) := by
  cases stepped with
  | allocate layout ptr heap able run =>
      rcases owns.allocate layout with
        failed | ⟨ptr', heap', free', chunks', handed', run', owns', grownTo, takes⟩
      · rw [failed] at run
        cases run
      · cases run.symm.trans run'
        exact ⟨free', chunks', handed', owns', .inl ⟨layout, ptr, able, rfl, grownTo, takes⟩⟩
  | refused layout heap run =>
      rcases owns.allocate layout with failed | ⟨ptr', heap', free', chunks', handed', run', -⟩
      · cases run.symm.trans failed
        exact ⟨free, chunks, handed, owns, .inr ⟨rfl, .refl _⟩⟩
      · rw [run'] at run
        cases run
  | deallocate block live heap perm run =>
      obtain ⟨heap', free', handed', run', owns', moved⟩ := owns.deallocate perm
      cases run.symm.trans run'
      exact ⟨free', chunks, handed', owns', .inr ⟨rfl, moved⟩⟩
  | addMemory start size heap fresh run =>
      unfold Heap.addMemory at run
      split at run
      · rename_i aligned
        cases run
        have owns' := owns.addMemory aligned.1 aligned.2 fresh
        exact ⟨free, chunks, handed, owns', .inr ⟨rfl, .refl _⟩⟩
      · cases run
  | write memory outside =>
      exact ⟨free, chunks, handed, owns.write outside, .inr ⟨rfl, .refl _⟩⟩

/-- Some owners account for the memory. -/
def Owned (correct : buddy.Correct) (w : World B) : Prop :=
  ∃ free chunks handed, Owns correct w free chunks handed

/-- Every step keeps the owners apart. -/
theorem Owned.step {allowed : World B → Layout → Prop} {w' : World B} (owned : Owned correct w)
    (stepped : World.Step buddy allowed w w')
    : Owned correct w' := by
  obtain ⟨free, chunks, handed, owns⟩ := owned
  obtain ⟨free', chunks', handed', owns', -⟩ := owns.step stepped
  exact ⟨free', chunks', handed', owns'⟩

theorem owned_reachable (correct : buddy.Correct) (reachable : World.Reachable buddy w)
    : Owned correct w :=
  reachable.invariant (Owned correct) (fun _ started => ⟨[], [], [], owns_started correct started⟩)
    fun _ _ owned stepped => owned.step stepped

/-- In every state that calls with any layouts reach, the blocks of users lie in the memory
of the heap and do not overlap, the free list of every slab is sound, and the next call
returns.
-/
theorem heap_blocks_disjoint (correct : buddy.Correct) (reachable : World.Reachable buddy w)
    : (w.live.map Block.extent).Pairwise Extent.Apart
      ∧ (∀ block ∈ w.live, Extent.Covered w.regions block.extent)
      ∧ (∀ c, ∃ free, (w.heap.slab c).freeBlockList.Threads w.heap.memory free ∧ free.Nodup
        ∧ (∀ a ∈ free, ∀ block ∈ w.live, (Piece.extent (c, a)).Apart block.extent)
        ∧ (w.heap.slab c).freeBlockList.len ≤ (w.heap.slab c).totalBlocks)
      ∧ (∀ layout, ∃ ptr heap, w.heap.allocate buddy layout = some (ptr, heap))
      ∧ ∀ block ∈ w.live, ∃ heap,
        w.heap.deallocate buddy block.ptr block.layout = some heap := by
  obtain ⟨free, chunks, handed, owns⟩ := owned_reachable correct reachable
  refine ⟨owns.live_apart, fun block user => owns.live_covered user, fun c => ?_,
    fun layout => ?_, fun block user => ?_⟩
  · refine ⟨freeOf free c, owns.threads c, owns.freeOf_nodup c, fun a member block user => ?_, ?_⟩
    · exact owns.free_apart (mem_freeOf.mp member) user
    · rw [(owns.threads c).len, owns.total c, countOf_append, countOf_free]
      exact Nat.le_add_right ..
  · rcases owns.allocate layout with failed | ⟨ptr, heap, free', chunks', handed', run, -⟩
    · exact ⟨_, _, failed⟩
    · exact ⟨_, _, run⟩
  · obtain ⟨heap, free', handed', run, -⟩ := owns.deallocate (List.perm_cons_erase user)
    exact ⟨heap, run⟩

end RCoreOS.SlabAllocator
