import RCoreOS.Axalloc.Expansion

/-! The memory that the global allocator hands out: blocks of bytes and blocks of pages never
overlap, although the byte allocator lives in pages itself and keeps its records in memory that
its users write to.
-/

namespace RCoreOS.Axalloc

open Allocator
open SlabAllocator (Layout Memory)

/-- A byte allocator that is correct: `Holds b regions live` says that `b` has been given the
regions and has handed out the blocks. Blocks lie in the regions and do not overlap, and users may
write to their blocks and to everything outside of the regions.
-/
structure ByteAllocator.Correct {B : Type} (bytes : ByteAllocator B) where
  Holds : B → List Extent → List SlabAllocator.Block → Prop
  load : B → Memory
  store : B → Memory → B
  holds_init {b : B} {start size : Nat}
    : bytes.init bytes.new start size = some b → Holds b [⟨start, size⟩] []
  holds_add {b b' : B} {regions : List Extent} {live : List SlabAllocator.Block}
    {start size : Nat}
    : Holds b regions live → (∀ region ∈ regions, Extent.Apart ⟨start, size⟩ region)
      → bytes.addMemory b start size = .ok b' → Holds b' (⟨start, size⟩ :: regions) live
  holds_alloc {b b' : B} {regions : List Extent} {live : List SlabAllocator.Block}
    {layout : Layout} {ptr : Nat}
    : Holds b regions live → bytes.alloc b layout = .ok (ptr, b')
      → Holds b' regions (⟨ptr, layout⟩ :: live)
  holds_dealloc {b : B} {regions : List Extent} {live rest : List SlabAllocator.Block}
    {block : SlabAllocator.Block}
    : Holds b regions live → live.Perm (block :: rest)
      → Holds (bytes.dealloc b block.ptr block.layout) regions rest
  holds_store {b : B} {regions : List Extent} {live : List SlabAllocator.Block}
    {memory : Memory}
    : Holds b regions live
      → (∀ word, Extent.Covered regions ⟨word, 8⟩
        → (∀ block ∈ live, Extent.Apart ⟨word, 8⟩ block.extent) → memory word = load b word)
      → Holds (store b memory) regions live
  apart {b : B} {regions : List Extent} {live : List SlabAllocator.Block}
    : Holds b regions live → (live.map SlabAllocator.Block.extent).Pairwise Extent.Apart
  covered {b : B} {regions : List Extent} {live : List SlabAllocator.Block}
    : Holds b regions live → ∀ block ∈ live, Extent.Covered regions block.extent

/-- The allocator with the blocks of bytes that its users hold, the blocks of pages that the byte
allocator has and those that users hold, and all regions that the byte allocator was given.
-/
structure Owners (Bits B : Type) where
  allocator : GlobalAllocator Bits B
  live : List SlabAllocator.Block
  heap : List Block
  pages : List Block
  regions : List Extent

/-- The page allocator starts at a page. -/
theorem init_base_aligned {Bits : Type} {ba : BitAlloc Bits} {a a' : BitmapPageAllocator Bits}
    {pageSize start size : Nat} (run : a.init ba pageSize start size = some a')
    : pageSize ∣ a'.base := by
  unfold BitmapPageAllocator.init at run
  dsimp only at run
  split at run
  · cases run
    exact dvd_alignUp start pageSize
  · cases run

namespace Owners

variable {Bits B : Type} (ba : BitAlloc Bits) (bytes : ByteAllocator B)

/-- The page allocator with all of its live blocks. -/
def allPages (w : Owners Bits B) : Pages Bits where
  allocator := w.allocator.palloc
  live := w.heap ++ w.pages

/-- The region of the page allocator. -/
def region (w : Owners Bits B) : Extent where
  start := w.allocator.palloc.base
  size := PAGE_SIZE * w.allocator.palloc.totalPages

/-- The owners after a call of `alloc`. A block of pages that the byte allocator refused stays
with the users, one of which has lost it.
-/
def after (w : Owners Bits B) (layout : Layout) (run : Run Bits B) : Owners Bits B where
  allocator := run.state
  live :=
    match run.result with
    | some (.ok ptr) => ⟨ptr, layout⟩ :: w.live
    | _ => w.live
  heap := run.added.reverse ++ w.heap
  pages := run.taken.drop run.added.length ++ w.pages
  regions := (run.added.map (Block.extent PAGE_SIZE)).reverse ++ w.regions

def Started (w : Owners Bits B) : Prop :=
  ∃ start size heapPtr,
    (GlobalAllocator.new ba bytes).init ba bytes start size = some (heapPtr, w.allocator)
    ∧ w.live = [] ∧ w.heap = [⟨heapPtr, MIN_HEAP_SIZE / PAGE_SIZE⟩] ∧ w.pages = []
    ∧ w.regions = [⟨heapPtr, MIN_HEAP_SIZE⟩]

/-- A call of the allocator, a turn of `alloc` after which it tries again, or users writing to what
they hold. Blocks are released as they were handed out, and added regions are used by no one else.
-/
inductive Step (correct : bytes.Correct) (w : Owners Bits B) : Owners Bits B → Prop
  | alloc (layout : Layout) (fuel : Nat) (run : Run Bits B)
    : w.allocator.alloc ba bytes layout fuel = some run → Step correct w (w.after layout run)
  | expand (layout : Layout) (block : Block) (g : GlobalAllocator Bits B)
    : w.allocator.turn ba bytes layout = .expanded block g
      → Step correct w { w with
          allocator := g
          heap := block :: w.heap
          regions := block.extent PAGE_SIZE :: w.regions }
  | dealloc (block : SlabAllocator.Block) (live : List SlabAllocator.Block)
    : w.live.Perm (block :: live)
      → Step correct w { w with
          allocator.balloc := bytes.dealloc w.allocator.balloc block.ptr block.layout
          live }
  | addMemory (region : Extent) (balloc : B)
    : region.Apart w.region → (∀ other ∈ w.regions, region.Apart other)
      → bytes.addMemory w.allocator.balloc region.start region.size = .ok balloc
      → Step correct w { w with
          allocator.balloc := balloc
          regions := region :: w.regions }
  | allocPages (numPages alignPow2 pos : Nat) (palloc : BitmapPageAllocator Bits)
    : w.allocator.palloc.allocPages ba PAGE_SIZE numPages alignPow2 = .ok (pos, palloc)
      → Step correct w { w with
          allocator.palloc := palloc
          pages := ⟨pos, numPages⟩ :: w.pages }
  | deallocPages (block : Block) (pages : List Block) (palloc : BitmapPageAllocator Bits)
    : w.pages.Perm (block :: pages)
      → w.allocator.palloc.deallocPages ba PAGE_SIZE block.pos block.numPages = some palloc
      → Step correct w { w with
          allocator.palloc := palloc
          pages }
  | write (memory : Memory)
    : (∀ word, (∀ block ∈ w.live, Extent.Apart ⟨word, 8⟩ block.extent)
        → (∀ block ∈ w.pages, Extent.Apart ⟨word, 8⟩ (block.extent PAGE_SIZE))
        → memory word = correct.load w.allocator.balloc word)
      → Step correct w { w with
          allocator.balloc := correct.store w.allocator.balloc memory }

abbrev Reachable (correct : bytes.Correct) (w : Owners Bits B) : Prop :=
  Transition.Reachable (Started ba bytes) (Step ba bytes correct) w

/-- All memory of both allocators is in the linear mapping. -/
def Mapped (mapping : LinearMapping) (w : Owners Bits B) : Prop :=
  w.region.Within mapping.range ∧ ∀ region ∈ w.regions, region.Within mapping.range

/-- The accounts of both allocators: the regions of the byte allocator do not overlap, and are
blocks of pages of its own or lie outside of the region of the page allocator.
-/
structure Sound (correct : bytes.Correct) (w : Owners Bits B) : Prop where
  base : PAGE_SIZE ∣ w.allocator.palloc.base
  safe : w.allPages.Safe ba PAGE_SIZE
  holds : correct.Holds w.allocator.balloc w.regions w.live
  origin : ∀ region ∈ w.regions,
    (∃ block ∈ w.heap, region = block.extent PAGE_SIZE) ∨ region.Apart w.region
  apart : w.regions.Pairwise Extent.Apart

variable {ba bytes} {correct : bytes.Correct} {w : Owners Bits B}

-----------------------------------------------------------------------------------------
-- Who has a page
-----------------------------------------------------------------------------------------

/-- Pages of users are not in the regions of the byte allocator. -/
theorem Sound.pages_apart (sound : w.Sound ba bytes correct) {block : Block}
    (user : block ∈ w.pages) {region : Extent} (given : region ∈ w.regions)
    : region.Apart (block.extent PAGE_SIZE) := by
  rcases sound.origin region given with ⟨own, listed, rfl⟩ | outside
  · have apart := sound.safe.apart
    rw [allPages, List.map_append] at apart
    exact (List.pairwise_append.mp apart).2.2 _ (List.mem_map_of_mem listed) _
      (List.mem_map_of_mem user)
  · exact outside.mono (.refl _) (sound.safe.inside (List.mem_append_right _ user))

/-- Blocks of bytes and pages of users have no address in common. -/
theorem Sound.not_mem_pages (sound : w.Sound ba bytes correct) {block : SlabAllocator.Block}
    (user : block ∈ w.live) {pages : Block} (other : pages ∈ w.pages) {address : Nat}
    (member : address ∈ block.extent)
    : address ∉ pages.extent PAGE_SIZE := by
  obtain ⟨region, given, inside⟩ := correct.covered sound.holds block user address member
  exact (sound.pages_apart other given).not_mem inside

-----------------------------------------------------------------------------------------
-- Calls
-----------------------------------------------------------------------------------------

theorem Sound.withBytes (sound : w.Sound ba bytes correct) {balloc : B}
    {live : List SlabAllocator.Block} (holds : correct.Holds balloc w.regions live)
    : Sound ba bytes correct { w with allocator.balloc := balloc, live } where
  base := sound.base
  safe := sound.safe
  holds := holds
  origin := sound.origin
  apart := sound.apart

/-- Pages for a user. -/
theorem Sound.withPages (sound : w.Sound ba bytes correct) (lawful : ba.Lawful)
    {numPages alignPow2 pos : Nat} {palloc : BitmapPageAllocator Bits}
    (granted : w.allocator.palloc.allocPages ba PAGE_SIZE numPages alignPow2 = .ok (pos, palloc))
    : Sound ba bytes correct { w with
        allocator.palloc := palloc
        pages := ⟨pos, numPages⟩ :: w.pages } := by
  have safe := (sound.safe.alloc lawful granted).1.perm List.perm_middle.symm
  obtain ⟨-, idx, inner, -, rfl, -⟩ := Pages.allocPages_ok lawful granted
  exact ⟨sound.base, safe, sound.holds, sound.origin, sound.apart⟩

/-- Pages that the byte allocator takes, which are apart from all that it was given before. -/
theorem Sound.expanded (sound : w.Sound ba bytes correct) (lawful : ba.Lawful) {block : Block}
    {alignPow2 : Nat} {balloc : B} {palloc : BitmapPageAllocator Bits}
    (granted : w.allocator.palloc.allocPages ba PAGE_SIZE block.numPages alignPow2
      = .ok (block.pos, palloc))
    (added : bytes.addMemory w.allocator.balloc block.pos (PAGE_SIZE * block.numPages)
      = .ok balloc)
    : Sound ba bytes correct { w with
        allocator := ⟨balloc, palloc⟩
        heap := block :: w.heap
        regions := block.extent PAGE_SIZE :: w.regions } := by
  have safe := (sound.safe.alloc lawful granted).1
  obtain ⟨-, idx, inner, -, rfl, -⟩ := Pages.allocPages_ok lawful granted
  have fresh : ∀ region ∈ w.regions, (block.extent PAGE_SIZE).Apart region := by
    intro region given
    rcases sound.origin region given with ⟨own, listed, rfl⟩ | outside
    · exact (List.pairwise_cons.mp safe.apart).1 _
        (List.mem_map_of_mem (List.mem_append_left _ listed))
    · exact (outside.mono (.refl _) (safe.inside (List.mem_cons_self ..))).symm
  refine ⟨sound.base, safe, correct.holds_add sound.holds fresh added, fun region member => ?_,
    List.pairwise_cons.mpr ⟨fresh, sound.apart⟩⟩
  rcases List.mem_cons.mp member with rfl | older
  · exact .inl ⟨block, List.mem_cons_self .., rfl⟩
  · exact (sound.origin region older).imp_left
      fun ⟨own, listed, same⟩ => ⟨own, List.mem_cons_of_mem _ listed, same⟩

/-- A call of `alloc` keeps the accounts however it ends, by induction on the turns. -/
theorem Sound.alloc (sound : w.Sound ba bytes correct) (lawful : ba.Lawful) {layout : Layout}
    {fuel : Nat} {run : Run Bits B}
    (done : w.allocator.alloc ba bytes layout fuel = some run)
    : (w.after layout run).Sound ba bytes correct := by
  induction fuel generalizing w run with
  | zero => cases done
  | succ fuel ih =>
      rcases GlobalAllocator.alloc_cases done with
        ⟨ptr, balloc, allocated, rfl⟩ | ⟨rfl, -⟩ | ⟨e, rfl⟩
          | ⟨block, palloc, granted, ⟨e, -, rfl⟩ | ⟨balloc, rest, added, finished, rfl⟩⟩
      · exact sound.withBytes (correct.holds_alloc sound.holds allocated)
      · exact sound
      · exact sound
      · exact sound.withPages lawful granted
      · have onward := ih (sound.expanded lawful granted added) finished
        simpa [after] using onward

/-- What a turn computes fits into words if all memory is in the linear mapping, and the byte
allocator counts none of it more than twice.
-/
theorem Sound.bounded (sound : w.Sound ba bytes correct) (lawful : ba.Lawful)
    (reports : ∀ b regions live, correct.Holds b regions live
      → bytes.totalBytes b ≤ 2 * (regions.map Extent.size).sum)
    {mapping : LinearMapping} (mapped : w.Mapped mapping) {layout : Layout}
    (fits : layout.size < 2 ^ 63)
    : w.allocator.Bounded ba bytes layout := by
  have total := reports _ _ _ sound.holds
  have given := Extent.sum_size_le sound.apart mapped.2
  rw [Extent.stop, Nat.add_sub_cancel_left] at given
  have quarter := mapping.quarter
  refine ⟨by omega, fun block palloc granted => ?_⟩
  have after := sound.withPages lawful granted
  obtain ⟨-, idx, inner, -, rfl, -⟩ := Pages.allocPages_ok lawful granted
  obtain ⟨used, stops⟩ := mapping.words after.safe mapped.1
  exact ⟨stops _ (List.mem_append_right _ (List.mem_cons_self ..)), used⟩

/-- Then a call returns, by induction on the turns. -/
theorem Sound.returns (sound : w.Sound ba bytes correct) (lawful : ba.Lawful)
    (reports : ∀ b regions live, correct.Holds b regions live
      → bytes.totalBytes b ≤ 2 * (regions.map Extent.size).sum)
    {mapping : LinearMapping} (mapped : w.Mapped mapping) {layout : Layout}
    (fits : layout.size < 2 ^ 63) {fuel : Nat} {run : Run Bits B}
    (done : w.allocator.alloc ba bytes layout fuel = some run)
    : ∃ result, run.result = some result := by
  induction fuel generalizing w run with
  | zero => cases done
  | succ fuel ih =>
      rcases GlobalAllocator.alloc_cases done with
        ⟨ptr, balloc, -, rfl⟩ | ⟨-, unbounded⟩ | ⟨e, rfl⟩
          | ⟨block, palloc, granted, ⟨e, -, rfl⟩ | ⟨balloc, rest, added, finished, rfl⟩⟩
      · exact ⟨.ok ptr, rfl⟩
      · exact absurd (sound.bounded lawful reports mapped fits) unbounded
      · exact ⟨.error e, rfl⟩
      · exact ⟨.error e, rfl⟩
      · have onward := sound.expanded lawful granted added
        obtain ⟨-, idx, inner, -, rfl, -⟩ := Pages.allocPages_ok lawful granted
        have own : (block.extent PAGE_SIZE).Within w.region :=
          onward.safe.inside (List.mem_append_left _ (List.mem_cons_self ..))
        obtain ⟨result, returned⟩ := ih onward
          ⟨mapped.1, List.forall_mem_cons.mpr ⟨own.trans mapped.1, mapped.2⟩⟩ finished
        exact ⟨result, returned⟩

/-- A byte allocator that takes all regions of whole pages gets all pages that a call takes, by
induction on the turns.
-/
theorem Sound.taken_eq_added (sound : w.Sound ba bytes correct) (lawful : ba.Lawful)
    (takes : ∀ b regions live start size, correct.Holds b regions live → PAGE_SIZE ∣ start
      → PAGE_SIZE ∣ size → ∃ b', bytes.addMemory b start size = .ok b')
    {layout : Layout} {fuel : Nat} {run : Run Bits B}
    (done : w.allocator.alloc ba bytes layout fuel = some run)
    : run.taken = run.added := by
  induction fuel generalizing w run with
  | zero => cases done
  | succ fuel ih =>
      rcases GlobalAllocator.alloc_cases done with
        ⟨ptr, balloc, -, rfl⟩ | ⟨rfl, -⟩ | ⟨e, rfl⟩
          | ⟨block, palloc, granted, ⟨e, refused, rfl⟩ | ⟨balloc, rest, added, finished, rfl⟩⟩
      · rfl
      · rfl
      · rfl
      · obtain ⟨-, idx, inner, pos, -, -⟩ := Pages.allocPages_ok lawful granted
        have aligned : PAGE_SIZE ∣ block.pos :=
          pos ▸ (Nat.dvd_mul_right PAGE_SIZE idx).add sound.base
        obtain ⟨b', taken⟩ :=
          takes _ _ _ _ _ sound.holds aligned (Nat.dvd_mul_right PAGE_SIZE block.numPages)
        cases refused.symm.trans taken
      · exact congrArg (block :: ·) (ih (sound.expanded lawful granted added) finished)

/-- A user can release its pages. -/
theorem Sound.deallocPages (sound : w.Sound ba bytes correct) (lawful : ba.Lawful) {block : Block}
    {pages : List Block} (perm : w.pages.Perm (block :: pages))
    : ∃ palloc, w.allocator.palloc.deallocPages ba PAGE_SIZE block.pos block.numPages = some palloc
      ∧ Sound ba bytes correct { w with allocator.palloc := palloc, pages } := by
  have live : w.allPages.live.Perm (block :: (w.heap ++ pages)) :=
    (perm.append_left w.heap).trans List.perm_middle
  obtain ⟨palloc, released, safe, -⟩ := sound.safe.dealloc lawful live
  refine ⟨palloc, released, ?_⟩
  have same := released
  unfold BitmapPageAllocator.deallocPages at same
  split at same
  · cases same
    exact ⟨sound.base, safe, sound.holds, sound.origin, sound.apart⟩
  · cases same

/-- Users write to their blocks and pages, none of which the byte allocator uses. -/
theorem Sound.write (sound : w.Sound ba bytes correct) {memory : Memory}
    (outside : ∀ word, (∀ block ∈ w.live, Extent.Apart ⟨word, 8⟩ block.extent)
      → (∀ block ∈ w.pages, Extent.Apart ⟨word, 8⟩ (block.extent PAGE_SIZE))
      → memory word = correct.load w.allocator.balloc word)
    : Sound ba bytes correct { w with
        allocator.balloc := correct.store w.allocator.balloc memory } := by
  refine sound.withBytes (correct.holds_store sound.holds fun word inRegions ownBlocks => ?_)
  refine outside word ownBlocks fun block user => ?_
  have positive := (sound.safe.shaped block (List.mem_append_right _ user)).1
  refine Extent.Apart.of_disjoint (Nat.zero_lt_succ 7) (Nat.mul_pos (by decide) positive) ?_
  intro address member
  obtain ⟨region, given, inside⟩ := inRegions address member
  exact (sound.pages_apart user given).not_mem inside

/-- After `init`, the byte allocator has the first pages. -/
theorem sound_started (lawful : ba.Lawful) (started : Started ba bytes w)
    : w.Sound ba bytes correct := by
  obtain ⟨start, size, heapPtr, run, live, heap, others, regions⟩ := started
  unfold GlobalAllocator.init at run
  split at run
  · cases run
  · obtain ⟨fresh, began, run⟩ := Option.bind_eq_some_iff.mp run
    split at run
    · cases run
    · rename_i large ptr palloc granted
      obtain ⟨balloc, given, made⟩ := Option.bind_eq_some_iff.mp run
      have pages : Pages.Started ba PAGE_SIZE ⟨fresh, []⟩ := ⟨rfl, start, size, began⟩
      have safe := ((Pages.safe_started lawful pages).1.alloc lawful granted).1
      have base : PAGE_SIZE ∣ fresh.base := init_base_aligned began
      obtain ⟨-, idx, inner, -, rfl, -⟩ := Pages.allocPages_ok lawful granted
      obtain ⟨allocator, live', heap', pages', regions'⟩ := w
      cases live
      cases heap
      cases others
      cases regions
      cases made
      exact ⟨base, safe, correct.holds_init given, by simp [Block.extent, MIN_HEAP_SIZE, PAGE_SIZE],
        List.pairwise_singleton ..⟩

theorem sound_reachable (lawful : ba.Lawful) (reachable : Reachable ba bytes correct w)
    : w.Sound ba bytes correct := by
  refine reachable.invariant (Sound ba bytes correct) ?_ ?_
  · exact fun w started => sound_started lawful started
  · intro w w' sound stepped
    cases stepped with
    | alloc layout fuel run done => exact sound.alloc lawful done
    | expand layout block g expanded =>
        rcases GlobalAllocator.turn_cases ba bytes w.allocator layout with
          ⟨ptr, balloc, -, turned⟩ | ⟨turned, -⟩ | ⟨e, turned⟩
            | ⟨block', palloc, granted, ⟨e, -, turned⟩ | ⟨balloc, added, turned⟩⟩
        all_goals cases expanded.symm.trans turned
        exact sound.expanded lawful granted added
    | dealloc block live perm => exact sound.withBytes (correct.holds_dealloc sound.holds perm)
    | addMemory region balloc outside others added =>
        exact ⟨sound.base, sound.safe, correct.holds_add sound.holds others added,
          List.forall_mem_cons.mpr ⟨.inr outside, sound.origin⟩,
          List.pairwise_cons.mpr ⟨others, sound.apart⟩⟩
    | allocPages numPages alignPow2 pos palloc granted => exact sound.withPages lawful granted
    | deallocPages block pages palloc perm released =>
        obtain ⟨palloc', released', sound'⟩ := sound.deallocPages lawful perm
        cases released.symm.trans released'
        exact sound'
    | write memory outside => exact sound.write outside

/-- Blocks of bytes, blocks of pages, and both kinds together do not overlap. Pages lie in the
region of the page allocator, and bytes in pages that no user holds or in added regions.
-/
structure Isolated (w : Owners Bits B) : Prop where
  bytes : (w.live.map SlabAllocator.Block.extent).Pairwise Extent.Apart
  pages : (w.pages.map (Block.extent PAGE_SIZE)).Pairwise Extent.Apart
  both : ∀ block ∈ w.live, ∀ pages ∈ w.pages, ∀ address ∈ block.extent,
    address ∉ pages.extent PAGE_SIZE
  inside : ∀ pages ∈ w.pages, (pages.extent PAGE_SIZE).Within w.region
  covered : ∀ block ∈ w.live, Extent.Covered w.regions block.extent

theorem Sound.isolated (sound : w.Sound ba bytes correct) : w.Isolated where
  bytes := correct.apart sound.holds
  pages := by
    have apart := sound.safe.apart
    rw [allPages, List.map_append] at apart
    exact (List.pairwise_append.mp apart).2.1
  both _ user _ other _ member := sound.not_mem_pages user other member
  inside _ user := sound.safe.inside (List.mem_append_right _ user)
  covered := correct.covered sound.holds

end Owners

-----------------------------------------------------------------------------------------
-- A byte allocator that keeps track of its memory
-----------------------------------------------------------------------------------------

/-- A byte allocator with the regions that it was given and the blocks that it has handed out. -/
structure Tracked {B : Type} {bytes : ByteAllocator B} (correct : bytes.Correct) where
  inner : B
  regions : List Extent
  live : List SlabAllocator.Block
  holds : correct.Holds inner regions live

namespace Tracked

variable {B : Type} {bytes : ByteAllocator B} (correct : bytes.Correct)

/-- The byte allocator, which is not there before `init`, refuses regions that overlap with those
it has, and ignores the release of what it has not handed out.
-/
def byteAllocator : ByteAllocator (Option (Tracked correct)) where
  new := none
  init _ start size :=
    match made : bytes.init bytes.new start size with
    | none => none
    | some inner => some (some ⟨inner, [⟨start, size⟩], [], correct.holds_init made⟩)
  addMemory
    | none, _, _ => .error .invalidParam
    | some tracked, start, size =>
        if fresh : ∀ region ∈ tracked.regions, Extent.Apart ⟨start, size⟩ region then
          match added : bytes.addMemory tracked.inner start size with
          | .error e => .error e
          | .ok inner => .ok (some ⟨inner, ⟨start, size⟩ :: tracked.regions, tracked.live,
              correct.holds_add tracked.holds fresh added⟩)
        else .error .invalidParam
  alloc
    | none, _ => .error .noMemory
    | some tracked, layout =>
        match allocated : bytes.alloc tracked.inner layout with
        | .error e => .error e
        | .ok (ptr, inner) => .ok (ptr, some ⟨inner, tracked.regions,
            ⟨ptr, layout⟩ :: tracked.live, correct.holds_alloc tracked.holds allocated⟩)
  dealloc
    | none, _, _ => none
    | some tracked, ptr, layout =>
        if user : ⟨ptr, layout⟩ ∈ tracked.live then
          some ⟨bytes.dealloc tracked.inner ptr layout, tracked.regions,
            tracked.live.erase ⟨ptr, layout⟩,
            correct.holds_dealloc tracked.holds (List.perm_cons_erase user)⟩
        else some tracked
  totalBytes
    | none => 0
    | some tracked => bytes.totalBytes tracked.inner

/-- The bytes of the regions that it was given. -/
def managed : Option (Tracked correct) → Nat
  | none => 0
  | some tracked => (tracked.regions.map Extent.size).sum

/-- A correct byte allocator that counts none of its regions more than twice has the accounts that
the expansion loop needs.
-/
def accounting (reports : ∀ b regions live, correct.Holds b regions live
      → bytes.totalBytes b ≤ 2 * (regions.map Extent.size).sum)
    : (byteAllocator correct).Accounting where
  managed := managed correct
  managed_init := by
    intro t t' start size done
    simp only [byteAllocator] at done
    split at done
    · cases done
    · cases done
      simp [managed]
  managed_add := by
    rintro (_ | tracked) t' start size added
    · cases added
    simp only [byteAllocator] at added
    split at added
    · split at added
      · cases added
      · cases added
        rw [managed, managed, List.map_cons, List.sum_cons, Nat.add_comm]
    · cases added
  managed_alloc := by
    rintro (_ | tracked) t' layout ptr allocated
    · cases allocated
    simp only [byteAllocator] at allocated
    split at allocated
    · cases allocated
    · cases allocated
      rfl
  managed_dealloc := by
    rintro (_ | tracked) ptr layout
    · rfl
    simp only [byteAllocator]
    split
    · rfl
    · rfl
  total_le
    | none => Nat.zero_le _
    | some tracked => reports _ _ _ tracked.holds

end Tracked

end RCoreOS.Axalloc
