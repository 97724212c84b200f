import RCoreOS.Axalloc.Isolation
import RCoreOS.SlabAllocator.Statistics

/-! The global allocator with the slab feature: the slab heap is a correct byte allocator, and none
of its assertions fails when it is expanded with pages.
-/

namespace RCoreOS.Axalloc

open Allocator
open SlabAllocator (Buddy Heap Layout Memory Owned Owns)

structure SlabByteAllocator (D : Type) where
  inner : Option (Heap D)

namespace SlabByteAllocator

variable {D : Type} (buddy : Buddy D)

def new : SlabByteAllocator D where
  inner := none

/-- The heap finds its memory as it is; `none` is a panic, here and below. -/
def init (memory : Memory) (_a : SlabByteAllocator D) (start size : Nat)
    : Option (SlabByteAllocator D) :=
  (Heap.new buddy memory start size).map fun heap => ⟨some heap⟩

def addMemory (a : SlabByteAllocator D) (start size : Nat) : Option (SlabByteAllocator D) := do
  let heap ← a.inner
  let heap ← heap.addMemory buddy start size
  return ⟨some heap⟩

def alloc (a : SlabByteAllocator D) (layout : Layout)
    : Option (Except AllocError Nat × SlabByteAllocator D) := do
  let heap ← a.inner
  let (addr, heap) ← heap.allocate buddy layout
  return (addr.elim (.error .noMemory) .ok, ⟨some heap⟩)

def dealloc (a : SlabByteAllocator D) (pos : Nat) (layout : Layout)
    : Option (SlabByteAllocator D) := do
  let heap ← a.inner
  let heap ← heap.deallocate buddy pos layout
  return ⟨some heap⟩

def totalBytes (a : SlabByteAllocator D) : Option Nat :=
  a.inner.map fun heap => heap.totalBytes buddy

/-- The operations that the global allocator uses. Panics end here as errors, or leave the allocator
as it is; `slab_isolated` shows that there are none.
-/
def bytes (memory : Memory) : ByteAllocator (SlabByteAllocator D) where
  new := new
  init := init buddy memory
  addMemory a start size := ((a.addMemory buddy start size).map .ok).getD (.error .invalidParam)
  alloc a layout :=
    match a.alloc buddy layout with
    | some (.ok ptr, a) => .ok (ptr, a)
    | some (.error e, _) => .error e
    | none => .error .noMemory
  dealloc a ptr layout := (a.dealloc buddy ptr layout).getD a
  totalBytes a := (a.totalBytes buddy).getD 0

/-- The heap owns the regions and has handed out the blocks. -/
def Holds {buddy : Buddy D} (correct : buddy.Correct) (a : SlabByteAllocator D)
    (regions : List Extent) (live : List SlabAllocator.Block)
    : Prop :=
  ∃ heap, a.inner = some heap ∧ Owned correct ⟨heap, live, regions⟩

variable {buddy} {correct : buddy.Correct} {memory : Memory} {a a' : SlabByteAllocator D}
  {regions : List Extent} {live : List SlabAllocator.Block}

/-- Users write to their own blocks and outside of the regions, where no free block lies. -/
theorem owned_write {heap : Heap D} (owned : Owned correct ⟨heap, live, regions⟩)
    (outside : ∀ word, Extent.Covered regions ⟨word, 8⟩
      → (∀ block ∈ live, Extent.Apart ⟨word, 8⟩ block.extent) → memory word = heap.memory word)
    : Owned correct ⟨{ heap with memory }, live, regions⟩ := by
  obtain ⟨free, chunks, handed, owns⟩ := owned
  refine ⟨free, chunks, handed, { owns with threads := owns.threads_frame fun piece member => ?_ }⟩
  refine outside _ ?_ fun block user => ?_
  · obtain ⟨block, listed, within⟩ := owns.word_within member
    exact (owns.covered block (owns.perm.mem_iff.mp listed)).1.mono within
  · refine (owns.free_apart member user).mono ?_ (.refl _)
    exact .of_le (Nat.le_trans (by decide) piece.1.blkSize_ge)

/-- A heap takes all regions of whole pages. -/
theorem Holds.addMemory (holds : Holds correct a regions live) {start size : Nat}
    (alignedStart : PAGE_SIZE ∣ start) (alignedSize : PAGE_SIZE ∣ size)
    : ∃ a', a.addMemory buddy start size = some a' := by
  obtain ⟨heap, inner, -⟩ := holds
  have aligned : start % 4096 = 0 ∧ size % 4096 = 0 :=
    ⟨Nat.mod_eq_zero_of_dvd alignedStart, Nat.mod_eq_zero_of_dvd alignedSize⟩
  simp [SlabByteAllocator.addMemory, inner, Heap.addMemory, aligned]

/-- An allocation returns, and changes nothing if it fails. -/
theorem Holds.alloc (holds : Holds correct a regions live) (layout : Layout)
    : a.alloc buddy layout = some (.error .noMemory, a)
      ∨ ∃ ptr a', a.alloc buddy layout = some (.ok ptr, a')
        ∧ Holds correct a' regions (⟨ptr, layout⟩ :: live) := by
  obtain ⟨heap, inner, free, chunks, handed, owns⟩ := holds
  rcases owns.allocate layout with
    failed | ⟨ptr, heap', free', chunks', handed', done, owns', -⟩
  · left
    have same : (⟨some heap⟩ : SlabByteAllocator D) = a := by rw [← inner]
    have failed : heap.allocate buddy layout = some (none, heap) := failed
    simp [SlabByteAllocator.alloc, inner, failed, same]
  · right
    have done : heap.allocate buddy layout = some (some ptr, heap') := done
    refine ⟨ptr, ⟨some heap'⟩, ?_, heap', rfl, free', chunks', handed', owns'⟩
    simp [SlabByteAllocator.alloc, inner, done]

theorem Holds.dealloc (holds : Holds correct a regions live) {block : SlabAllocator.Block}
    {rest : List SlabAllocator.Block} (perm : live.Perm (block :: rest))
    : ∃ a', a.dealloc buddy block.ptr block.layout = some a' ∧ Holds correct a' regions rest := by
  obtain ⟨heap, inner, free, chunks, handed, owns⟩ := holds
  obtain ⟨heap', free', handed', done, owns', -⟩ := owns.deallocate perm
  have done : heap.deallocate buddy block.ptr block.layout = some heap' := done
  refine ⟨⟨some heap'⟩, ?_, heap', rfl, free', chunks, handed', owns'⟩
  simp [SlabByteAllocator.dealloc, inner, done]

/-- The slab heap is a correct byte allocator. -/
def bytesCorrect (correct : buddy.Correct) (memory : Memory) : (bytes buddy memory).Correct where
  Holds := Holds correct
  load a := a.inner.elim (fun _ => none) Heap.memory
  store a memory := ⟨a.inner.map fun heap => { heap with memory }⟩
  holds_init := by
    intro a start size started
    obtain ⟨heap, made, rfl⟩ := Option.map_eq_some_iff.mp started
    have began : SlabAllocator.World.Started buddy ⟨heap, [], [⟨start, size⟩]⟩ :=
      ⟨rfl, memory, start, size, rfl, made⟩
    exact ⟨heap, rfl, [], [], [], SlabAllocator.owns_started correct began⟩
  holds_add := by
    intro a a' regions live start size holds fresh added
    obtain ⟨heap, inner, owned⟩ := holds
    cases done : heap.addMemory buddy start size with
    | none => simp [bytes, SlabByteAllocator.addMemory, inner, done] at added
    | some heap' =>
        simp only [bytes, SlabByteAllocator.addMemory, inner, done, Option.bind_eq_bind,
          Option.bind_some] at added
        cases added
        have stepped : SlabAllocator.World.Step buddy (fun _ _ => True) ⟨heap, live, regions⟩ _ :=
          .addMemory start size heap' fresh done
        exact ⟨heap', rfl, owned.step stepped⟩
  holds_alloc := by
    intro a a' regions live layout ptr holds allocated
    rcases holds.alloc layout with failed | ⟨ptr', a'', done, holds'⟩
    · simp [bytes, failed] at allocated
    · simp only [bytes, done] at allocated
      cases allocated
      exact holds'
  holds_dealloc := by
    intro a regions live rest block holds perm
    obtain ⟨a', done, holds'⟩ := holds.dealloc perm
    simp only [bytes, done, Option.getD_some]
    exact holds'
  holds_store := by
    intro a regions live memory holds outside
    obtain ⟨heap, inner, owned⟩ := holds
    refine ⟨{ heap with memory }, by simp [inner], owned_write owned fun word covered apart => ?_⟩
    simpa [inner] using outside word covered apart
  apart := by
    rintro a regions live ⟨heap, -, free, chunks, handed, owns⟩
    exact owns.live_apart
  covered := by
    rintro a regions live ⟨heap, -, free, chunks, handed, owns⟩ block user
    exact owns.live_covered user

/-- What the heap reports is at most twice what it was given. -/
theorem Holds.totalBytes_le (holds : Holds correct a regions live)
    : (bytes buddy memory).totalBytes a ≤ 2 * (regions.map Extent.size).sum := by
  obtain ⟨heap, inner, free, chunks, handed, owns⟩ := holds
  have same : (bytes buddy memory).totalBytes a = heap.totalBytes buddy := by
    simp [bytes, SlabByteAllocator.totalBytes, inner]
  rw [same]
  exact owns.totalBytes_le

/-- In every state of every history of the two-level allocator with a correct buddy heap, also
between the turns of `alloc`, all memory that it has handed out is apart, and no later call panics:
neither an allocation with its expansions, if it asks for less than half of the address space and
all memory is in the linear mapping, nor the release of a block of bytes or of pages.
-/
theorem slab_isolated {Bits : Type} {ba : BitAlloc Bits} (lawful : ba.Lawful)
    (correct : buddy.Correct) {w : Owners Bits (SlabByteAllocator D)}
    (reachable : w.Reachable ba (bytes buddy memory) (bytesCorrect correct memory))
    : w.Isolated
      ∧ (∀ layout, ∃ result, w.allocator.balloc.alloc buddy layout = some result)
      ∧ (∀ layout fuel run, w.allocator.alloc ba (bytes buddy memory) layout fuel = some run
        → run.taken = run.added)
      ∧ (∀ mapping layout, w.Mapped mapping → layout.size < 2 ^ 63
        → ∃ run result, (∀ fuel, Pages.freePages ba w.allocator.palloc < fuel
            → w.allocator.alloc ba (bytes buddy memory) layout fuel = some run)
          ∧ run.result = some result)
      ∧ (∀ block ∈ w.live, ∃ a,
        w.allocator.balloc.dealloc buddy block.ptr block.layout = some a)
      ∧ ∀ block ∈ w.pages, ∃ palloc,
        w.allocator.palloc.deallocPages ba PAGE_SIZE block.pos block.numPages = some palloc := by
  have sound := Owners.sound_reachable lawful reachable
  have holds : Holds correct w.allocator.balloc w.regions w.live := sound.holds
  refine ⟨sound.isolated, fun layout => ?_, fun layout fuel run done => ?_,
    fun mapping layout mapped fits => ?_, fun block user => ?_, fun block user => ?_⟩
  · rcases holds.alloc layout with failed | ⟨ptr, a, done, -⟩
    · exact ⟨_, failed⟩
    · exact ⟨_, done⟩
  · refine sound.taken_eq_added lawful ?_ done
    intro a regions live start size holds alignedStart alignedSize
    obtain ⟨a', added⟩ := Holds.addMemory holds alignedStart alignedSize
    exact ⟨a', by simp [bytes, added]⟩
  · obtain ⟨run, finished⟩ := GlobalAllocator.alloc_ends lawful layout sound.safe
    have done := finished _ (Nat.lt_succ_self _)
    obtain ⟨result, returned⟩ := sound.returns lawful
      (fun a regions live holds => Holds.totalBytes_le holds) mapped fits done
    exact ⟨run, result, finished, returned⟩
  · obtain ⟨a, done, -⟩ := holds.dealloc (List.perm_cons_erase user)
    exact ⟨a, done⟩
  · obtain ⟨palloc, released, -⟩ := sound.deallocPages lawful (List.perm_cons_erase user)
    exact ⟨palloc, released⟩

/-- The accounts of a slab heap that keeps track of its memory. -/
def accounting (correct : buddy.Correct) (memory : Memory)
    : (Tracked.byteAllocator (bytesCorrect correct memory)).Accounting :=
  Tracked.accounting (bytesCorrect correct memory) fun _ _ _ holds => Holds.totalBytes_le holds

/-- In every history of an allocator with such a heap, no allocation computes a size or an address
that is too large for a word.
-/
theorem slab_bounded {Bits : Type} {ba : BitAlloc Bits} (lawful : ba.Lawful)
    (correct : buddy.Correct) {mapping : LinearMapping}
    {w : World Bits (Option (Tracked (bytesCorrect correct memory)))}
    (reachable : w.Reachable ba (Tracked.byteAllocator (bytesCorrect correct memory)) mapping)
    {layout : Layout} (fits : layout.size < 2 ^ 63)
    : w.allocator.Bounded ba (Tracked.byteAllocator (bytesCorrect correct memory)) layout := by
  have sound : w.Sound ba _ mapping (accounting correct memory) :=
    World.sound_reachable lawful reachable
  exact sound.bounded lawful fits

/-- Sixteen pages, of which the heap has eight. -/
def freshOwners : Owners (List Nat) (SlabByteAllocator SlabAllocator.BlockPool) where
  allocator :=
    { balloc := ⟨some ⟨fun _ => ⟨.newEmpty, 0⟩, ⟨[⟨0xffffffc080000000, 0x8000⟩], []⟩,
        fun _ => none⟩⟩
      palloc := ⟨0xffffffc080000000, 16, 8, [8, 9, 10, 11, 12, 13, 14, 15]⟩ }
  live := []
  heap := [⟨0xffffffc080000000, 8⟩]
  pages := []
  regions := [⟨0xffffffc080000000, 0x8000⟩]

/-- One user has a large block, and another one has two pages. -/
def twoOwners : Owners (List Nat) (SlabByteAllocator SlabAllocator.BlockPool) where
  allocator :=
    { balloc := ⟨some ⟨fun _ => ⟨.newEmpty, 0⟩,
        ⟨[⟨0xffffffc080000000, 0x8000⟩], [⟨0xffffffc080000000, ⟨0x2000, 8⟩⟩]⟩, fun _ => none⟩⟩
      palloc := ⟨0xffffffc080000000, 16, 10, [10, 11, 12, 13, 14, 15]⟩ }
  live := [⟨0xffffffc080000000, ⟨0x2000, 8⟩⟩]
  heap := [⟨0xffffffc080000000, 8⟩]
  pages := [⟨0xffffffc080008000, 2⟩]
  regions := [⟨0xffffffc080000000, 0x8000⟩]

theorem slab_isolated_twoOwners
    : twoOwners.Isolated
      ∧ (∀ layout, ∃ result,
        twoOwners.allocator.balloc.alloc SlabAllocator.BlockPool.buddy layout = some result)
      ∧ (∀ layout fuel run,
        twoOwners.allocator.alloc firstFit
          (bytes SlabAllocator.BlockPool.buddy fun _ => none) layout fuel = some run
        → run.taken = run.added)
      ∧ (∃ run result,
        (∀ fuel, 6 < fuel → twoOwners.allocator.alloc firstFit
          (bytes SlabAllocator.BlockPool.buddy fun _ => none) ⟨0x8000, 8⟩ fuel = some run)
        ∧ run.result = some result)
      ∧ (∀ block ∈ twoOwners.live, ∃ a,
        twoOwners.allocator.balloc.dealloc SlabAllocator.BlockPool.buddy block.ptr block.layout
          = some a)
      ∧ ∀ block ∈ twoOwners.pages, ∃ palloc,
        twoOwners.allocator.palloc.deallocPages firstFit PAGE_SIZE block.pos block.numPages
          = some palloc := by
  have started : Owners.Started firstFit (bytes SlabAllocator.BlockPool.buddy fun _ => none)
      freshOwners :=
    ⟨0xffffffc080000000, 0x10000, 0xffffffc080000000, rfl, rfl, rfl, rfl, rfl⟩
  -- the large block, and then the pages
  have reachable : twoOwners.Reachable firstFit (bytes SlabAllocator.BlockPool.buddy fun _ => none)
      (bytesCorrect SlabAllocator.BlockPool.correct fun _ => none) :=
    .next (.next (.start started) (.alloc ⟨0x2000, 8⟩ 1
      ⟨some (.ok 0xffffffc080000000), [], [],
        ⟨twoOwners.allocator.balloc, freshOwners.allocator.palloc⟩⟩ rfl))
      (.allocPages 2 0x1000 0xffffffc080008000 twoOwners.allocator.palloc rfl)
  obtain ⟨isolated, allocates, takes, returns, releases, releasesPages⟩ :=
    slab_isolated firstFit_lawful SlabAllocator.BlockPool.correct reachable
  exact ⟨isolated, allocates, takes, returns sv39 ⟨0x8000, 8⟩ ⟨by decide, by decide⟩ (by decide),
    releases, releasesPages⟩

end SlabByteAllocator

end RCoreOS.Axalloc
