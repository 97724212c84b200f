import RCoreOS.Axmem.Cutting
import RCoreOS.Axmem.PageOwnership

/-! What the operations of an area do to the agreement. They cut areas, give up the pieces that
lie in a range, change flags and load pages; bytes change only in pages that are loaded. How
they may fail is a parameter: besides memory, only files can make them fail.
-/

namespace RCoreOS.Axmem

open PageTable GenericPTE Outcome
open PageTable.Paging (Keeps SameTables OrNoMemory)

section Sound

variable {PTE σ : Type} [GenericPTE PTE] [LawfulPTE PTE] [GlobalAllocator σ]
variable [LawfulGlobalAllocator σ]
variable {m m' : Machine PTE σ} {area : MapArea} {areas rest : List MapArea} {addr stop : Nat}
variable {fs : Vfs} {allowed : Crash → Prop}

/-- Areas and page table agree, and every page frame has one owner. -/
structure Sound (m : Machine PTE σ) (areas : List MapArea) : Prop where
  laid : Laid m.toPaging areas
  framed : Framed m.toPaging (areas.flatMap MapArea.frames)

omit [LawfulPTE PTE] in
theorem Sound.perm (sound : Sound m areas) {areas' : List MapArea} (perm : areas.Perm areas')
    : Sound m areas' :=
  ⟨sound.laid.perm perm, sound.framed.perm (perm.flatMap_right _)⟩

omit [LawfulPTE PTE] in
theorem Sound.shaped (sound : Sound m (area :: rest)) : area.Shaped :=
  sound.laid.shaped area (List.mem_cons_self ..)

omit [LawfulPTE PTE] in
/-- Cutting an area in two, wherever the file of the second part is read. -/
theorem Sound.cut (sound : Sound m (area :: rest)) (cuts : area.Cuts addr)
    (backend : Option MemBackend)
    : Sound m (area.left addr :: area.right addr backend :: rest) := by
  obtain ⟨k, positive, inside, rfl⟩ := cuts.page sound.shaped.placed
  have index : (area.vaddr + 4096 * k - area.vaddr) / 4096 = k := by omega
  have length : (area.pages.take k).length = k := List.length_take_of_le inside.le
  have parts : area = { area with pages := area.pages.take k ++ area.pages.drop k } := by
    rw [List.take_append_drop]
  unfold MapArea.left MapArea.right
  rw [index]
  constructor
  · have laid := sound.laid
    rw [parts] at laid
    have both := laid.cut backend (List.ne_nil_of_length_pos (by omega))
      (List.ne_nil_of_length_pos (by rw [List.length_drop]; omega))
    rw [length] at both
    exact both
  · have framed := sound.framed
    rw [List.flatMap_cons, MapArea.frames, ← List.take_append_drop k area.pages,
      List.reduceOption_append, List.map_append, List.append_assoc] at framed
    exact framed

omit [LawfulPTE PTE] in
/-- Cutting an area in two as the code does. -/
theorem Sound.cutBehind (sound : Sound m (area :: rest)) (cuts : area.Cuts addr)
    : Sound m (area.left addr :: area.behind addr :: rest) :=
  sound.cut cuts (area.behind addr).backend

omit [LawfulPTE PTE] [GlobalAllocator σ] [LawfulGlobalAllocator σ] in
theorem Machine.unmapRegion_ok {vaddr size : Nat} {s' : Paging PTE σ}
    (run : m.toPaging.unmapRegion vaddr size = (.ok (), s'))
    : m.unmapRegion vaddr size = .ok { m with toPaging := s' } := by
  simp [Machine.unmapRegion, run]

omit [LawfulPTE PTE] [GlobalAllocator σ] [LawfulGlobalAllocator σ] in
theorem Machine.updateRegion_ok {vaddr size : Nat} {flags : MappingFlags} {s' : Paging PTE σ}
    (run : m.toPaging.updateRegion vaddr size flags = some (.ok (), s'))
    : m.updateRegion vaddr size flags = .ok { m with toPaging := s' } := by
  simp [Machine.updateRegion, Machine.unwrap, run]

/-- Dropping the pages of an area makes its frames ownerless, and nothing else changes. -/
theorem Sound.drop (sound : Sound m (area :: rest))
    : Laid (dropPages area.pages m).toPaging (area :: rest)
      ∧ Framed (dropPages area.pages m).toPaging (rest.flatMap MapArea.frames) := by
  obtain ⟨same, framed⟩ := Framed.dropPages sound.laid.tables sound.shaped.linear sound.framed
  exact ⟨sound.laid.elsewhere same, framed⟩

/-- Giving up an area: its region is unmapped first. -/
theorem Sound.unmap_then_drop (sound : Sound m (area :: rest))
    : ∃ m',
        m.unmapRegion area.vaddr area.size = .ok m'
        ∧ Sound (dropPages area.pages m') rest := by
  obtain ⟨s', run, keeps, laid⟩ := sound.laid.unmapRegion
  refine ⟨_, Machine.unmapRegion_ok run, ?_⟩
  obtain ⟨same, framed⟩ := Framed.dropPages (m := { m with toPaging := s' }) laid.tables
    sound.shaped.linear (sound.framed.keeps keeps)
  exact ⟨laid.elsewhere same, framed⟩

/-- Giving up an area: its pages are dropped first. -/
theorem Sound.drop_then_unmap (sound : Sound m (area :: rest))
    : ∃ m',
        (dropPages area.pages m).unmapRegion area.vaddr area.size = .ok m'
        ∧ Sound m' rest := by
  obtain ⟨laid, framed⟩ := sound.drop
  obtain ⟨s', run, keeps, laid'⟩ := laid.unmapRegion
  exact ⟨_, Machine.unmapRegion_ok run, laid', framed.keeps keeps⟩

-----------------------------------------------------------------------------------------
-- Operations
-----------------------------------------------------------------------------------------

theorem Sound.dealloc (sound : Sound m (area :: rest))
    : Ends allowed (fun r => Sound r.2 rest) (area.dealloc m) := by
  obtain ⟨m', run, sound'⟩ := sound.unmap_then_drop
  rw [MapArea.dealloc, run]
  exact sound'

/-- The part before an address is given up. -/
theorem Sound.shrinkLeft (sound : Sound m (area :: rest)) (cuts : area.Cuts addr)
    (seek : Ends allowed (· = (area.behind addr).backend)
      (MapArea.seekBackend fs area.backend (addr - area.vaddr)))
    : Ends allowed
        (fun r => r.1 = area.behind addr ∧ Sound r.2 (area.behind addr :: rest))
        (area.shrinkLeft fs addr m) := by
  have placed := sound.shaped.placed
  obtain ⟨m', run, sound'⟩ := (sound.cutBehind cuts).drop_then_unmap
  rw [cuts.size_left placed] at run
  simp only [MapArea.left] at run
  simp only [MapArea.shrinkLeft, assert, isAligned_4k, cuts.aligned, if_true, ok_bind,
    cuts.distance placed, MapArea.div_page, MapArea.drain_ok (Nat.zero_le _) cuts.inside]
  refine seek.bind ?_
  rintro _ rfl
  simp only [List.take_zero, List.drop_zero, List.nil_append, run, ok_bind, pure_eq_ok]
  exact ⟨rfl, sound'⟩

/-- The part from an address on is given up. -/
theorem Sound.shrinkRight (sound : Sound m (area :: rest)) (cuts : area.Cuts addr)
    : Ends allowed
        (fun r => r.1 = area.left addr ∧ Sound r.2 (area.left addr :: rest))
        (area.shrinkRight addr m) := by
  have placed := sound.shaped.placed
  obtain ⟨m', run, sound'⟩ := ((sound.cut cuts none).perm (.swap ..)).drop_then_unmap
  rw [cuts.size_right placed] at run
  simp only [MapArea.right] at run
  have drained := cuts.drain placed
  rw [cuts.distance_end placed] at drained
  simp only [MapArea.shrinkRight, assert, isAligned_4k, cuts.aligned, if_true, ok_bind,
    cuts.distance_end placed, drained, run, pure_eq_ok]
  exact ⟨rfl, sound'⟩

/-- The part between two addresses is given up. -/
theorem Sound.removeMid (sound : Sound m (area :: rest)) (cuts : area.Cuts addr)
    (cuts' : area.Cuts stop) (before : addr < stop)
    (seek : Ends allowed (· = (area.behind stop).backend)
      (MapArea.seekBackend fs area.backend (stop - area.vaddr)))
    : Ends allowed
        (fun r =>
          r.1 = (area.left stop).left addr
          ∧ r.2.1 = area.behind stop
          ∧ Sound r.2.2 ((area.left stop).left addr :: area.behind stop :: rest))
        (area.removeMid fs addr stop m) := by
  have placed := sound.shaped.placed
  have cutsLeft := cuts.left cuts' placed before
  have pieces : Sound m ((area.left stop).right addr none :: (area.left stop).left addr
      :: area.behind stop :: rest) :=
    ((sound.cutBehind cuts').cut cutsLeft none).perm (.swap ..)
  obtain ⟨m', run, sound'⟩ := pieces.drop_then_unmap
  rw [cutsLeft.size_right (cuts'.placed_left placed), cuts'.stop_left placed] at run
  have deleted : wrapSub stop addr = stop - addr := by
    have := cuts'.below placed
    exact wrapSub_of_le before.le (by unfold USIZE_RANGE; omega)
  have drained := MapArea.drain_tail cutsLeft.inside
  simp only [MapArea.left, MapArea.right] at run drained ⊢
  rw [List.length_take_of_le cuts'.inside] at drained
  simp only [MapArea.removeMid, assert, isAligned_4k, cuts.aligned, cuts'.aligned, before.le,
    decide_true, if_true, ok_bind, cuts.distance placed, cuts'.distance placed,
    MapArea.drain_tail cuts'.inside, MapArea.div_page]
  refine seek.bind ?_
  rintro _ rfl
  simp only [drained, ok_bind, deleted, run, pure_eq_ok]
  exact ⟨rfl, rfl, sound'⟩

theorem Sound.updateFlags (sound : Sound m (area :: rest)) (flags : MappingFlags)
    : Ends allowed
        (fun r => r.1 = { area with flags } ∧ Sound r.2 ({ area with flags } :: rest))
        (area.updateFlags flags m) := by
  obtain ⟨s', run, keeps, laid⟩ := sound.laid.updateRegion flags
  have sameSize : MapArea.size { area with flags } = area.size := rfl
  rw [MapArea.updateFlags, sameSize, Machine.updateRegion_ok run]
  exact ⟨rfl, laid, sound.framed.keeps keeps⟩

omit [LawfulPTE PTE] [GlobalAllocator σ] [LawfulGlobalAllocator σ] [GenericPTE PTE] in
/-- A page table call that at worst runs out of memory does not panic. -/
theorem Machine.unwrap_ends {result : PagingResult Unit} {s' : Paging PTE σ} {effect : Prop}
    (memory : allowed .outOfMemory) (outcome : OrNoMemory result effect)
    : Ends allowed (fun m' => m' = { m with toPaging := s' } ∧ effect)
        (m.unwrap (result, s')) := by
  rcases outcome with rfl | ⟨rfl, holds⟩
  · exact memory
  · exact ⟨rfl, holds⟩

/-- An area of which no page is loaded. -/
def MapArea.unloaded (start numPages : Nat) (flags : MappingFlags) (backend : Option MemBackend)
    : MapArea :=
  { pages := List.replicate numPages none, vaddr := start, flags, backend }

/-- The pages of a range of whole pages. -/
theorem numPages_of_aligned {size : Nat} (aligned : size % 4096 = 0)
    : (size + PAGE_SIZE_4K - 1) / PAGE_SIZE_4K = size / 4096 := by
  unfold PAGE_SIZE_4K
  omega

theorem MapArea.unloaded_stop {start size : Nat} {flags : MappingFlags}
    {backend : Option MemBackend} (aligned : size % 4096 = 0)
    : (unloaded start (size / 4096) flags backend).stop = start + size := by
  simp only [unloaded, stop, List.length_replicate]
  omega

/-- A new area in a free region, unless memory runs out. -/
theorem Sound.newLazy {start numPages : Nat} {flags : MappingFlags} {backend : Option MemBackend}
    (memory : allowed .outOfMemory) (sound : Sound m areas)
    (shaped : (MapArea.unloaded start numPages flags backend).Shaped)
    (clear : ∀ other ∈ areas,
      other.Away start (MapArea.unloaded start numPages flags backend).stop)
    : Ends allowed
        (fun r =>
          r.1 = MapArea.unloaded start numPages flags backend
          ∧ Sound r.2 (MapArea.unloaded start numPages flags backend :: areas))
        (MapArea.newLazy start numPages flags backend m) := by
  rcases run : m.toPaging.mapFaultRegion start (numPages * PAGE_SIZE_4K) flags with ⟨result, s'⟩
  have sameSize
      : (MapArea.unloaded start numPages flags backend).size = numPages * PAGE_SIZE_4K := by
    simp [MapArea.unloaded, MapArea.size]
  have outcome := sound.laid.mapFaultRegion
    (fun slot member => List.eq_of_mem_replicate member) shaped clear (sameSize.symm ▸ run)
  rw [MapArea.newLazy, Machine.mapFaultRegion, run]
  refine (Machine.unwrap_ends memory outcome).bind ?_
  rintro _ ⟨rfl, keeps, laid⟩
  refine ⟨rfl, laid, ?_⟩
  have noFrames : (MapArea.unloaded start numPages flags backend).frames = [] := by
    simp [MapArea.unloaded, MapArea.frames, List.reduceOption]
  rw [List.flatMap_cons, noFrames]
  exact sound.framed.keeps keeps

/-- An area of consecutive pages. -/
def MapArea.contiguous (start first numPages : Nat) (flags : MappingFlags)
    (backend : Option MemBackend)
    : MapArea :=
  { pages := contiguousPages first numPages, vaddr := start, flags, backend }

theorem MapArea.contiguous_stop {start first numPages : Nat} {flags : MappingFlags}
    {backend : Option MemBackend}
    : (contiguous start first numPages flags backend).stop = start + 4096 * numPages := by
  simp [contiguous, stop, contiguousPages]

/-- What a new area of consecutive pages brings: its page frames have the data, with zeros behind
it, and the frames of the other areas keep their bytes.
-/
structure Brings (m m' : Machine PTE σ) (areas : List MapArea) (first numPages : Nat)
    (data : List UInt8) : Prop where
  inside : ∀ i, i < numPages * 4096 → m'.bytes (virtToPhys first + i) = (data[i]?).getD 0
  outside
    : ∀ f ∈ areas.flatMap MapArea.frames, ∀ i, i < 4096 → m'.bytes (f + i) = m.bytes (f + i)

omit [LawfulPTE PTE] in
theorem Sound.frame_aligned (sound : Sound m areas) {f : Nat}
    (member : f ∈ areas.flatMap MapArea.frames)
    : f % 4096 = 0 := by
  obtain ⟨area, inMap, owned⟩ := List.mem_flatMap.mp member
  obtain ⟨page, isPage, rfl⟩ := List.mem_map.mp owned
  exact (PhysPage.frameAddr
    ((sound.laid.shaped area inMap).linear page (List.reduceOption_mem_iff.mp isPage))).1.1

/-- A new area of consecutive pages in a free region, unless memory runs out. -/
theorem Sound.newAlloc {start numPages : Nat} {flags : MappingFlags} {data : List UInt8}
    {backend : Option MemBackend} (memory : allowed .outOfMemory) (sound : Sound m areas)
    (aligned : start % 4096 = 0) (nonempty : 0 < numPages)
    (below : start + 4096 * numPages ≤ 2 ^ 38)
    (fits : data.length ≤ numPages * 4096)
    (clear : ∀ other ∈ areas, other.Away start (start + 4096 * numPages))
    : Ends allowed
        (fun r =>
          (∃ e, r.1 = .error e)
          ∨ ∃ first, r.1 = .ok (MapArea.contiguous start first numPages flags backend)
            ∧ Sound r.2 (MapArea.contiguous start first numPages flags backend :: areas)
            ∧ Brings m r.2 areas first numPages data)
        (MapArea.newAlloc start numPages flags (some data) backend m) := by
  refine (allocContiguous_ok sound.laid.tables fits).bind ?_
  rintro ⟨result, m₁⟩ (⟨e, rfl⟩ | ⟨first, rfl, allocates⟩)
  · exact .inl ⟨e, rfl⟩
  have loaded (i : Nat) (slot : Option PhysPage)
      (found : (contiguousPages first numPages)[i]? = some slot)
      : slot = some ⟨first + i * 4096⟩ :=
    (contiguousPages_slot found).2
  have slots : (contiguousPages first numPages).length = numPages := by
    simp [contiguousPages]
  have head : (contiguousPages first numPages)[0]? = some (some ⟨first⟩) := by
    have here : (contiguousPages first numPages)[0]? = _ := contiguousPages_at nonempty
    rwa [Nat.zero_mul, Nat.add_zero] at here
  have sameSize : (MapArea.contiguous start first numPages flags backend).size
      = numPages * PAGE_SIZE_4K := by
    simp [MapArea.contiguous, MapArea.size, slots]
  have shaped : (MapArea.contiguous start first numPages flags backend).Shaped := by
    refine ⟨aligned, ?_, MapArea.contiguous_stop.trans_le below, fun page member => ?_⟩
    · exact List.ne_nil_of_length_pos (slots.symm ▸ nonempty)
    · obtain ⟨i, found⟩ := List.mem_iff_getElem?.mp member
      obtain ⟨inside, same⟩ := contiguousPages_slot found
      obtain rfl := Option.some.inj same
      exact allocates.linear i inside
  dsimp only
  rw [head]
  dsimp only [PhysPage.paddr]
  rcases run : m₁.toPaging.mapRegion start (virtToPhys first) (numPages * PAGE_SIZE_4K) flags false
    with ⟨result, s'⟩
  have outcome := (sound.laid.elsewhere allocates.tables).mapRegion loaded shaped
    (MapArea.contiguous_stop ▸ clear) (sameSize.symm ▸ run)
  rw [Machine.mapRegion, run]
  refine (Machine.unwrap_ends memory outcome).bind ?_
  rintro _ ⟨rfl, keeps, laid⟩
  have framed := allocates.framed _ sound.framed
  refine .inr ⟨first, rfl, ⟨laid, ?_⟩, allocates.inside, fun f member i inside => ?_⟩
  · exact framed.keeps keeps
  · have base : virtToPhys first % 4096 = 0 := by
      have linear := allocates.linear 0 nonempty
      rw [Nat.zero_mul, Nat.add_zero] at linear
      exact linear.frame.1.1
    have frame := sound.frame_aligned member
    refine allocates.outside (f + i) ?_
    by_contra within
    have disjoint := (List.nodup_append.mp framed.nodup).2.2
    refine disjoint f ?_ f member rfl
    rw [contiguousPages_frames allocates.linear]
    refine List.mem_map.mpr ⟨(f - virtToPhys first) / 4096, List.mem_range.mpr ?_, ?_⟩
    · omega
    · omega

/-- The area with a page in one of its slots. -/
def MapArea.withPage (area : MapArea) (i : Nat) (page : PhysPage) : MapArea :=
  { area with pages := area.pages.set i (some page) }

/-- Loading an empty slot adds its page to the frames. -/
theorem MapArea.frames_withPage {i : Nat} (page : PhysPage) (empty : area.pages[i]? = some none)
    : (page.paddr :: area.frames).Perm (area.withPage i page).frames := by
  obtain ⟨inside, absent⟩ := List.getElem?_eq_some_iff.mp empty
  have parts : area.pages.reduceOption
      = (area.pages.take i).reduceOption ++ (area.pages.drop (i + 1)).reduceOption := by
    rw [← List.reduceOption_cons_of_none (area.pages.drop (i + 1)), ← absent,
      ← List.drop_eq_getElem_cons inside, ← List.reduceOption_append, List.take_append_drop]
  unfold frames withPage
  rw [parts, List.set_eq_take_append_cons_drop, if_pos inside, List.reduceOption_append,
    List.reduceOption_cons_of_some, List.map_append, List.map_append]
  exact List.perm_middle.symm

omit [GenericPTE PTE] [LawfulPTE PTE] [LawfulGlobalAllocator σ] in
theorem alloc_bytes {page : PhysPage} (run : PhysPage.alloc m = (.ok page, m'))
    : m'.bytes = m.bytes := by
  unfold PhysPage.alloc at run
  split at run <;> cases run
  rfl

/-- What a page fault does that loads the page of a slot from its position in the file. -/
structure Loads (fs : Vfs) (m m' : Machine PTE σ) (area : MapArea) (rest : List MapArea) (i : Nat)
    (page : PhysPage) : Prop where
  empty : area.pages[i]? = some none
  sound : Sound m' (area.withPage i page :: rest)
  fresh : page.paddr ∉ (area :: rest).flatMap MapArea.frames
  bytes
    : m'.bytes = (m.fillFrame fs (area.backend.map (·.forward (i * PAGE_SIZE_4K))) page.paddr).bytes

omit [LawfulPTE PTE] [GlobalAllocator σ] [LawfulGlobalAllocator σ] [GenericPTE PTE] in
theorem Machine.fillFrame_toPaging (fs : Vfs) (position : Option MemBackend) (paddr : Nat)
    : (m.fillFrame fs position paddr).toPaging = m.toPaging :=
  rfl

omit [LawfulPTE PTE] [GlobalAllocator σ] [LawfulGlobalAllocator σ] [GenericPTE PTE] in
theorem Machine.fillFrame_bytes (fs : Vfs) (position : Option MemBackend) (paddr : Nat)
    (same : m'.bytes = m.bytes)
    : (m'.fillFrame fs position paddr).bytes = (m.fillFrame fs position paddr).bytes := by
  simp only [Machine.fillFrame, same]

/-- The start of the page of an address, by its index in the area. -/
theorem MapArea.Placed.alignDown (placed : area.Placed) (lower : area.vaddr ≤ addr)
    : PageTable.alignDown addr PAGE_SIZE_4K
      = area.vaddr + 4096 * ((addr - area.vaddr) / 4096) := by
  have aligned := placed.aligned
  have down : PageTable.alignDown addr PAGE_SIZE_4K = addr - addr % 4096 :=
    alignDown_page addr .size4K
  rw [down]
  omega

/-- A new page is mapped at its slot. -/
theorem Sound.load {i : Nat} {page : PhysPage} (memory : allowed .outOfMemory)
    (laid : Laid m.toPaging (area :: rest))
    (framed : Framed m.toPaging (page.paddr :: (area :: rest).flatMap MapArea.frames))
    (linear : Linear page.startVaddr) (empty : area.pages[i]? = some none)
    : Ends allowed (fun m' => Sound m' (area.withPage i page :: rest) ∧ m'.bytes = m.bytes)
        (m.mapOverwrite (area.vaddr + 4096 * i) page.paddr area.flags) := by
  rcases run : m.toPaging.mapOverwrite (area.vaddr + 4096 * i) page.paddr .size4K area.flags
    with ⟨result, s'⟩
  have outcome := laid.mapOverwrite area.backend empty linear run
  rw [Machine.mapOverwrite, run]
  refine (Machine.unwrap_ends memory outcome).imp ?_
  rintro _ ⟨rfl, keeps, laid'⟩
  exact ⟨⟨laid', (framed.keeps keeps).perm
    ((MapArea.frames_withPage page empty).append_right _)⟩, rfl⟩

/-- A page fault in an area loads a page, or it is refused and nothing changes: where the flags
do not allow it or a page is loaded already.
-/
theorem Sound.handlePageFault (memory : allowed .outOfMemory) (sound : Sound m (area :: rest))
    (lower : area.vaddr ≤ addr) (upper : addr < area.stop) (flags : MappingFlags)
    (fill : ∀ i page (m : Machine PTE σ), area.pages[i]? = some none
      → Ends allowed
        (· = (area.backend, m.fillFrame fs
          (area.backend.map (·.forward (i * PAGE_SIZE_4K))) page.paddr))
        (MapArea.fillPage fs area.backend i page m))
    : Ends allowed
        (fun r =>
          r = (false, area, m)
            ∧ (area.flags.contains flags = true
              → ∃ page, area.pages[(addr - area.vaddr) / 4096]? = some (some page))
          ∨ ∃ page,
            (r.1, r.2.1) = (true, area.withPage ((addr - area.vaddr) / 4096) page)
            ∧ Loads fs m r.2.2 area rest ((addr - area.vaddr) / 4096) page)
        (area.handlePageFault fs addr flags m) := by
  have shaped := sound.shaped
  have below := upper.trans_le shaped.below
  have word : addr < USIZE_RANGE := below.trans_le (by decide)
  have distance : wrapSub addr area.vaddr = addr - area.vaddr := wrapSub_of_le lower word
  rw [MapArea.handlePageFault, shaped.placed.endVa, distance, MapArea.div_page]
  simp only [assert, lower, upper, decide_true, Bool.and_self, if_true, ok_bind]
  split
  · rename_i refused
    exact .inl ⟨rfl, fun contained => by simp [contained] at refused⟩
  simp only [pure_eq_ok]
  obtain ⟨i, slot, found, lower', upper'⟩ := area.slot_of_mem lower upper
  obtain rfl : i = (addr - area.vaddr) / 4096 := by omega
  split
  · rename_i none
    cases none.symm.trans found
  · rename_i page loaded
    exact .inl ⟨rfl, fun _ => ⟨page, loaded⟩⟩
  rename_i empty
  split
  · exact memory
  rename_i page m₁ alloc
  obtain ⟨linear, same, framed⟩ := alloc_ok sound.laid.tables alloc
  have owned := framed _ sound.framed
  refine (fill _ page m₁ empty).bind ?_
  rintro _ rfl
  have filledBytes := Machine.fillFrame_bytes fs
    (area.backend.map (·.forward ((addr - area.vaddr) / 4096 * PAGE_SIZE_4K))) page.paddr
    (alloc_bytes alloc)
  have filledTables := m₁.fillFrame_toPaging fs
    (area.backend.map (·.forward ((addr - area.vaddr) / 4096 * PAGE_SIZE_4K))) page.paddr
  dsimp only
  -- only its page table and its bytes matter from here on
  generalize m₁.fillFrame fs _ page.paddr = filled at filledBytes filledTables ⊢
  rw [shaped.placed.alignDown lower]
  refine (Sound.load memory (filledTables ▸ sound.laid.elsewhere same) (filledTables ▸ owned) linear
    empty).bind ?_
  rintro m₂ ⟨sound', bytes⟩
  exact .inr ⟨page, rfl, empty, sound', (List.nodup_cons.mp owned.nodup).1,
    bytes.trans filledBytes⟩

end Sound

end RCoreOS.Axmem
