import RCoreOS.SlabAllocator.Heap

/-! Every address of the heap has one owner: a free block of one slab, a block of a user, or
the buddy heap. Slabs own the regions that they have grown by, cut into tiles.
-/

namespace RCoreOS.SlabAllocator

/-- A block of a slab, free or held by a user. -/
abbrev Piece := SlabSize × Nat

def Piece.extent (piece : Piece) : Extent where
  start := piece.2
  size := piece.1.blkSize

/-- The region that a slab has grown by. -/
def chunk (grown : Piece) : Block where
  ptr := grown.2
  layout := Slab.growth grown.1

/-- The free blocks of one slab, in their order. -/
def freeOf (free : List Piece) (c : SlabSize) : List Nat :=
  (free.filter (·.1 = c)).map Prod.snd

/-- How many blocks of a list belong to one slab. -/
def countOf (pieces : List Piece) (c : SlabSize) : Nat :=
  (pieces.filter (·.1 = c)).length

/-- The block of a slab that a user's block occupies. -/
def Block.piece? (block : Block) : Option Piece :=
  match layoutToAllocator block.layout with
  | .slab c => some (c, block.ptr)
  | .buddyAllocator => none

def Block.isLarge (block : Block) : Bool :=
  layoutToAllocator block.layout = .buddyAllocator

variable {free pieces : List Piece} {c other : SlabSize} {a : Nat} {block : Block}

theorem piece?_slab (serves : layoutToAllocator block.layout = .slab c)
    : block.piece? = some (c, block.ptr) := by
  rw [Block.piece?, serves]

theorem piece?_large (serves : layoutToAllocator block.layout = .buddyAllocator)
    : block.piece? = none := by
  rw [Block.piece?, serves]

/-- A user's block lies in the slab's block that it occupies. -/
theorem Block.within_piece {piece : Piece} (occupies : block.piece? = some piece)
    : block.extent.Within piece.extent := by
  unfold Block.piece? at occupies
  split at occupies
  · rename_i c serves
    cases occupies
    exact .of_le (layoutToAllocator_size serves)
  · cases occupies

/-- A block with a place in a slab is not large. -/
theorem Block.isLarge_of_piece {block : Block} {piece : Piece}
    (occupies : block.piece? = some piece)
    : block.isLarge = false := by
  cases serves : layoutToAllocator block.layout with
  | slab c => simp [Block.isLarge, serves]
  | buddyAllocator =>
      rw [piece?_large serves] at occupies
      cases occupies

/-- A user's block is large or occupies a block of a slab. -/
theorem Block.cases (block : Block)
    : block.isLarge = true ∨ ∃ piece, block.piece? = some piece := by
  cases serves : layoutToAllocator block.layout with
  | slab c => exact .inr ⟨_, piece?_slab serves⟩
  | buddyAllocator => exact .inl (by simp [Block.isLarge, serves])

-----------------------------------------------------------------------------------------
-- Free lists by slab
-----------------------------------------------------------------------------------------

theorem mem_freeOf : a ∈ freeOf free c ↔ (c, a) ∈ free := by
  simp [freeOf]

@[simp]
theorem freeOf_cons_self (free : List Piece) (c : SlabSize) (a : Nat)
    : freeOf ((c, a) :: free) c = a :: freeOf free c := by
  simp [freeOf]

@[simp]
theorem freeOf_cons_other (differs : other ≠ c) (free : List Piece) (a : Nat)
    : freeOf ((c, a) :: free) other = freeOf free other := by
  simp [freeOf, differs.symm]

/-- New blocks of one slab in front of the others. -/
theorem freeOf_append (added : List Nat) (free : List Piece) (c other : SlabSize)
    : freeOf (added.map (c, ·) ++ free) other
      = (if other = c then added else []) ++ freeOf free other := by
  split
  · rename_i same
    subst same
    simp [freeOf, List.filter_map, Function.comp_def]
  · rename_i differs
    simp [freeOf, Ne.symm differs]

/-- The first free block of a slab can be taken out, by induction on the free blocks. -/
theorem freeOf_take {rest : List Nat} (first : freeOf free c = a :: rest)
    : ∃ left, free.Perm ((c, a) :: left) ∧ freeOf left c = rest
      ∧ ∀ other, other ≠ c → freeOf left other = freeOf free other := by
  induction free with
  | nil => cases first
  | cons piece tail ih =>
      obtain ⟨d, x⟩ := piece
      by_cases same : d = c
      · subst same
        rw [freeOf_cons_self] at first
        cases first
        exact ⟨tail, .refl _, rfl, fun other differs => (freeOf_cons_other differs ..).symm⟩
      · rw [freeOf_cons_other (Ne.symm same)] at first
        obtain ⟨left, perm, isRest, kept⟩ := ih first
        refine ⟨(d, x) :: left, (perm.cons _).trans (.swap ..), ?_, fun other differs => ?_⟩
        · rw [freeOf_cons_other (Ne.symm same), isRest]
        · by_cases here : other = d
          · subst here
            rw [freeOf_cons_self, freeOf_cons_self, kept other differs]
          · rw [freeOf_cons_other here, freeOf_cons_other here, kept other differs]

theorem countOf_perm {pieces' : List Piece} (perm : pieces.Perm pieces') (c : SlabSize)
    : countOf pieces c = countOf pieces' c :=
  (perm.filter _).length_eq

theorem countOf_append (pieces pieces' : List Piece) (c : SlabSize)
    : countOf (pieces ++ pieces') c = countOf pieces c + countOf pieces' c := by
  simp [countOf]

theorem countOf_free (free : List Piece) (c : SlabSize)
    : countOf free c = (freeOf free c).length := by
  simp [countOf, freeOf]

theorem countOf_cons (piece : Piece) (pieces : List Piece) (c : SlabSize)
    : countOf (piece :: pieces) c = (if c = piece.1 then 1 else 0) + countOf pieces c := by
  by_cases same : c = piece.1
  · simp [countOf, same, Nat.add_comm]
  · simp [countOf, same, Ne.symm same]

theorem countOf_map (added : List Nat) (c other : SlabSize)
    : countOf (added.map (c, ·)) other = if other = c then added.length else 0 := by
  have alone := freeOf_append added [] c other
  rw [List.append_nil] at alone
  rw [countOf, ← List.length_map Prod.snd, ← freeOf, alone]
  split <;> simp [freeOf]

-----------------------------------------------------------------------------------------
-- The owners of the memory of a heap
-----------------------------------------------------------------------------------------

variable {B : Type} {buddy : Buddy B}

/-- The blocks of slabs that users hold. -/
def held (live : List Block) : List Piece :=
  live.filterMap Block.piece?

/-- The blocks that the buddy heap has handed out: to the slabs and to the users. -/
def outstanding (chunks : List Piece) (live : List Block) : List Block :=
  chunks.map chunk ++ live.filter Block.isLarge

/-- The free blocks and the regions of the slabs, next to the blocks of the users, account for
all memory that is not the buddy heap's own.
-/
structure Owns (correct : buddy.Correct) (w : World B) (free chunks : List Piece)
    (handed : List Block) : Prop where
  threads : ∀ c, (w.heap.slab c).freeBlockList.Threads w.heap.memory (freeOf free c)
  total : ∀ c, (w.heap.slab c).totalBlocks = countOf (free ++ held w.live) c
  grown : ∀ c, (w.heap.slab c).totalBlocks = SET_SIZE * countOf chunks c
  apart : ((free ++ held w.live).map Piece.extent).Pairwise Extent.Apart
  inside : ∀ piece ∈ free ++ held w.live,
    ∃ grown ∈ chunks, piece.extent.Within (chunk grown).extent
  holds : correct.Holds w.heap.buddyAllocator w.regions handed
  perm : handed.Perm (outstanding chunks w.live)
  outstanding_apart : ((outstanding chunks w.live).map Block.extent).Pairwise Extent.Apart
  covered : ∀ block ∈ outstanding chunks w.live,
    Extent.Covered w.regions block.extent ∧ block.ptr ≠ 0

namespace Owns

variable {correct : buddy.Correct} {w : World B} {chunks : List Piece} {handed : List Block}

theorem held_of_mem {piece : Piece} (member : block ∈ w.live)
    (occupies : block.piece? = some piece)
    : piece ∈ held w.live :=
  List.mem_filterMap.mpr ⟨block, member, occupies⟩

theorem outstanding_of_mem (member : block ∈ w.live) (large : block.isLarge = true)
    : block ∈ outstanding chunks w.live :=
  List.mem_append_right _ (List.mem_filter.mpr ⟨member, large⟩)

/-- Blocks of slabs and large blocks do not overlap. -/
theorem piece_apart_large (owns : Owns correct w free chunks handed) {piece : Piece}
    (member : piece ∈ free ++ held w.live) (user : block ∈ w.live)
    (large : block.isLarge = true)
    : piece.extent.Apart block.extent := by
  obtain ⟨grown, known, within⟩ := owns.inside piece member
  have apart := owns.outstanding_apart
  unfold outstanding at apart
  rw [List.map_append] at apart
  have cross := (List.pairwise_append.mp apart).2.2 (chunk grown).extent
    (List.mem_map_of_mem (List.mem_map_of_mem known)) block.extent
    (List.mem_map_of_mem (List.mem_filter.mpr ⟨user, large⟩))
  exact cross.mono within (.refl _)

/-- Free blocks and blocks of users do not overlap. -/
theorem free_apart (owns : Owns correct w free chunks handed) {piece : Piece}
    (member : piece ∈ free) (user : block ∈ w.live)
    : piece.extent.Apart block.extent := by
  rcases block.cases with large | ⟨occupied, occupies⟩
  · exact owns.piece_apart_large (List.mem_append_left _ member) user large
  · have apart := owns.apart
    rw [List.map_append] at apart
    have cross := (List.pairwise_append.mp apart).2.2 piece.extent (List.mem_map_of_mem member)
      occupied.extent (List.mem_map_of_mem (held_of_mem user occupies))
    exact cross.mono (.refl _) (Block.within_piece occupies)

/-- Blocks of users do not overlap, by the allocators that serve them. -/
theorem live_apart (owns : Owns correct w free chunks handed)
    : (w.live.map Block.extent).Pairwise Extent.Apart := by
  have slabs : (held w.live).Pairwise fun p q => Extent.Apart p.extent q.extent := by
    have apart := owns.apart
    rw [List.map_append] at apart
    exact List.pairwise_map.mp (List.pairwise_append.mp apart).2.1
  have large : (w.live.filter Block.isLarge).Pairwise
      fun b b' => Extent.Apart b.extent b'.extent := by
    have apart := owns.outstanding_apart
    unfold outstanding at apart
    rw [List.map_append] at apart
    exact List.pairwise_map.mp (List.pairwise_append.mp apart).2.1
  refine List.pairwise_map.mpr (List.Pairwise.imp_of_mem ?_
    ((List.pairwise_filterMap.mp slabs).and (List.pairwise_filter.mp large)))
  rintro b b' user user' ⟨bySlabs, byBuddy⟩
  rcases b.cases with isLarge | ⟨piece, occupies⟩ <;>
    rcases b'.cases with isLarge' | ⟨piece', occupies'⟩
  · exact byBuddy isLarge isLarge'
  · exact ((owns.piece_apart_large (List.mem_append_right _ (held_of_mem user' occupies')) user
      isLarge).mono (Block.within_piece occupies') (.refl _)).symm
  · exact (owns.piece_apart_large (List.mem_append_right _ (held_of_mem user occupies)) user'
      isLarge').mono (Block.within_piece occupies) (.refl _)
  · exact (bySlabs piece occupies piece' occupies').mono (Block.within_piece occupies)
      (Block.within_piece occupies')

/-- Blocks of users lie in the regions of the heap. -/
theorem live_covered (owns : Owns correct w free chunks handed) (user : block ∈ w.live)
    : Extent.Covered w.regions block.extent := by
  rcases block.cases with large | ⟨piece, occupies⟩
  · exact (owns.covered block (outstanding_of_mem user large)).1
  · obtain ⟨grown, known, within⟩ :=
      owns.inside piece (List.mem_append_right _ (held_of_mem user occupies))
    exact ((owns.covered _ (List.mem_append_left _ (List.mem_map_of_mem known))).1.mono
      within).mono (Block.within_piece occupies)

/-- Blocks of one slab that are free start at different addresses. -/
theorem freeOf_nodup (owns : Owns correct w free chunks handed) (c : SlabSize)
    : (freeOf free c).Nodup := by
  have apart := owns.apart
  rw [List.map_append] at apart
  refine List.pairwise_map.mpr (List.Pairwise.imp_of_mem ?_
    (List.Pairwise.filter _ (List.pairwise_map.mp (List.pairwise_append.mp apart).1)))
  intro piece piece' _ _ differ
  have large (q : Piece) : 0 < q.extent.size := Nat.lt_of_lt_of_le (by decide) q.1.blkSize_ge
  exact differ.start_ne (large piece) (large piece')

/-- The link word of a free block lies in a region of the slabs. -/
theorem word_within (owns : Owns correct w free chunks handed) {piece : Piece}
    (member : piece ∈ free)
    : ∃ block ∈ handed, Extent.Within ⟨piece.2, 8⟩ block.extent := by
  obtain ⟨grown, known, within⟩ := owns.inside piece (List.mem_append_left _ member)
  refine ⟨chunk grown, owns.perm.mem_iff.mpr
    (List.mem_append_left _ (List.mem_map_of_mem known)), Extent.Within.trans ?_ within⟩
  exact .of_le (Nat.le_trans (by decide) piece.1.blkSize_ge)

/-- Free lists survive changes of the memory elsewhere. -/
theorem threads_frame (owns : Owns correct w free chunks handed) {memory : Memory}
    (same : ∀ piece ∈ free, memory piece.2 = w.heap.memory piece.2) (c : SlabSize)
    : (w.heap.slab c).freeBlockList.Threads memory (freeOf free c) :=
  (owns.threads c).frame fun a member => same (c, a) (mem_freeOf.mp member)

/-- A piece that is apart from others has a different address. -/
theorem address_ne {piece : Piece} {rest : List Piece}
    (apart : ((piece :: rest).map Piece.extent).Pairwise Extent.Apart) {q : Piece}
    (member : q ∈ rest)
    : q.2 ≠ piece.2 := by
  have large (q : Piece) : 0 < q.extent.size := Nat.lt_of_lt_of_le (by decide) q.1.blkSize_ge
  have differ := (List.pairwise_cons.mp apart).1 q.extent (List.mem_map_of_mem member)
  exact (differ.start_ne (large piece) (large q)).symm

-----------------------------------------------------------------------------------------
-- What each operation does to the owners
-----------------------------------------------------------------------------------------

/-- A user gets the first free block of a slab. -/
theorem take (owns : Owns correct w free chunks handed) {rest : List Nat}
    (first : freeOf free c = a :: rest) (occupies : block.piece? = some (c, a))
    : ∃ left, free.Perm ((c, a) :: left) ∧ Owns correct
        { w with
          heap := { w.heap with
            slab := Function.update w.heap.slab c { w.heap.slab c with
              freeBlockList := ⟨(w.heap.slab c).freeBlockList.len - 1, w.heap.memory a⟩ }
            memory := Function.update w.heap.memory a none }
          live := block :: w.live } left chunks handed := by
  obtain ⟨left, perm, isRest, kept⟩ := freeOf_take first
  have notLarge := Block.isLarge_of_piece occupies
  have heldCons : held (block :: w.live) = (c, a) :: held w.live :=
    List.filterMap_cons_some occupies
  have same : outstanding chunks (block :: w.live) = outstanding chunks w.live := by
    rw [outstanding, List.filter_cons_of_neg (by simp [notLarge]), outstanding]
  have moved : (left ++ held (block :: w.live)).Perm (free ++ held w.live) := by
    rw [heldCons]
    exact List.perm_middle.trans (perm.symm.append_right _)
  have threadsC := owns.threads c
  rw [first] at threadsC
  have nodup := owns.freeOf_nodup c
  rw [first] at nodup
  have outside (q : Piece) (member : q ∈ left) : q.2 ≠ a := by
    have apart := (Extent.apart_perm (moved.symm.map Piece.extent)).mp owns.apart
    rw [heldCons] at apart
    have front := (Extent.apart_perm (List.perm_middle.map Piece.extent)).mp apart
    exact address_ne front (List.mem_append_left _ member)
  refine ⟨left, perm, ⟨fun d => ?_, fun d => ?_, fun d => ?_, ?_, ?_, owns.holds, ?_, ?_, ?_⟩⟩
  · by_cases here : d = c
    · subst here
      simp only [Function.update_self]
      rw [isRest]
      exact threadsC.pop (List.nodup_cons.mp nodup).1
    · simp only [Function.update_of_ne here]
      rw [kept d here]
      refine (owns.threads d).frame fun x member => Function.update_of_ne ?_ ..
      rw [← kept d here] at member
      exact outside (d, x) (mem_freeOf.mp member)
  · rw [countOf_perm moved, ← owns.total d]
    by_cases here : d = c
    · subst here
      simp only [Function.update_self]
    · simp only [Function.update_of_ne here]
  · rw [← owns.grown d]
    by_cases here : d = c
    · subst here
      simp only [Function.update_self]
    · simp only [Function.update_of_ne here]
  · exact (Extent.apart_perm (moved.symm.map Piece.extent)).mp owns.apart
  · exact fun piece member => owns.inside piece (moved.mem_iff.mp member)
  · exact same ▸ owns.perm
  · exact same ▸ owns.outstanding_apart
  · exact same ▸ owns.covered

/-- A user gives a block back to the slab that it belongs to. -/
theorem give (owns : Owns correct w free chunks handed) {live : List Block}
    (perm : w.live.Perm (block :: live)) (occupies : block.piece? = some (c, block.ptr))
    : Owns correct
        { w with
          heap := { w.heap with
            slab := Function.update w.heap.slab c
              ((w.heap.slab c).deallocate w.heap.memory block.ptr).1
            memory := ((w.heap.slab c).deallocate w.heap.memory block.ptr).2 }
          live } ((c, block.ptr) :: free) chunks handed := by
  have notLarge := Block.isLarge_of_piece occupies
  have heldPerm : (held w.live).Perm ((c, block.ptr) :: held live) := by
    have mapped := perm.filterMap Block.piece?
    rwa [List.filterMap_cons_some occupies] at mapped
  have same : (outstanding chunks w.live).Perm (outstanding chunks live) := by
    have filtered := perm.filter Block.isLarge
    rw [List.filter_cons_of_neg (by simp [notLarge])] at filtered
    exact filtered.append_left _
  have moved : (((c, block.ptr) :: free) ++ held live).Perm (free ++ held w.live) :=
    (List.perm_middle.symm).trans (heldPerm.symm.append_left free)
  have apart := (Extent.apart_perm (moved.symm.map Piece.extent)).mp owns.apart
  have outside (q : Piece) (member : q ∈ free) : q.2 ≠ block.ptr :=
    address_ne apart (List.mem_append_left _ member)
  refine ⟨fun d => ?_, fun d => ?_, fun d => ?_, apart, ?_, owns.holds,
    owns.perm.trans same, ?_, ?_⟩
  · by_cases here : d = c
    · subst here
      simp only [Function.update_self, freeOf_cons_self]
      exact (owns.threads d).push fun member => outside _ (mem_freeOf.mp member) rfl
    · simp only [Function.update_of_ne here, freeOf_cons_other here]
      refine (owns.threads d).frame fun x member => Function.update_of_ne ?_ ..
      exact outside (d, x) (mem_freeOf.mp member)
  · rw [countOf_perm moved, ← owns.total d]
    by_cases here : d = c
    · subst here
      simp only [Function.update_self, Slab.deallocate]
    · simp only [Function.update_of_ne here]
  · rw [← owns.grown d]
    by_cases here : d = c
    · subst here
      simp only [Function.update_self, Slab.deallocate]
    · simp only [Function.update_of_ne here]
  · exact fun piece member => owns.inside piece (moved.mem_iff.mp member)
  · exact (Extent.apart_perm (same.map Block.extent)).mp owns.outstanding_apart
  · exact fun other member => owns.covered other (same.mem_iff.mpr member)

end Owns

/-- Growing a slab by a region that holds none of its free blocks. -/
theorem Slab.grow_ok {slab : Slab} {memory : Memory} {blocks : List Nat} (start count : Nat)
    (threads : slab.freeBlockList.Threads memory blocks)
    (fresh : (FreeBlockList.tileStarts start c.blkSize count ++ blocks).Nodup)
    : ∃ slab' memory', slab.grow c memory start (count * c.blkSize) = some (slab', memory')
      ∧ slab'.totalBlocks = slab.totalBlocks + count
      ∧ slab'.freeBlockList.Threads memory'
        ((FreeBlockList.tileStarts start c.blkSize count).reverse ++ blocks)
      ∧ ∀ word, word ∉ FreeBlockList.tileStarts start c.blkSize count
        → memory' word = memory word := by
  have positive : 0 < c.blkSize := Nat.lt_of_lt_of_le (by decide) c.blkSize_ge
  have number : count * c.blkSize / c.blkSize = count := Nat.mul_div_cancel count positive
  obtain ⟨created, kept⟩ := FreeBlockList.threads_new memory start count positive
  have disjoint := List.disjoint_of_nodup_append fresh
  have still := threads.frame fun block member => kept block fun tile => disjoint tile member
  have length : (FreeBlockList.tileStarts start c.blkSize count).length < count + 1 := by
    simp [FreeBlockList.tileStarts]
  obtain ⟨list, memory', run, drained, kept'⟩ := created.drain still fresh length
  refine ⟨⟨list, slab.totalBlocks + count⟩, memory', ?_, rfl, drained, fun word outside => ?_⟩
  · rw [Slab.grow, number, run]
    rfl
  · rw [kept' word outside, kept word outside]

end RCoreOS.SlabAllocator
