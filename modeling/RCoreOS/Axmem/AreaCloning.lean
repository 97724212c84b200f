import RCoreOS.Axmem.Cloning
import RCoreOS.Axmem.Growth
import RCoreOS.Lib.Pointwise

/-! Clones of areas. An area that is fully loaded is copied as a whole through its addresses, any
other page by page; either way the copy has the same slots with the same bytes in new frames, and
the page table of the clone shows it.
-/

namespace RCoreOS.Axmem

open PageTable GenericPTE Outcome
open List (Forall₂)

/-- The copy of a slot: the page of a loaded slot has the same bytes. -/
def SlotCopy (bytes : Nat → UInt8) : Option PhysPage → Option PhysPage → Prop
  | some page, some copy => ∀ i, i < 4096 → bytes (copy.paddr + i) = bytes (page.paddr + i)
  | none, none => True
  | _, _ => False

/-- The frames of the loaded slots. -/
def slotFrames (slots : List (Option PhysPage)) : List Nat :=
  slots.reduceOption.map PhysPage.paddr

theorem mem_slotFrames {slots : List (Option PhysPage)} {page : PhysPage}
    (member : some page ∈ slots)
    : page.paddr ∈ slotFrames slots :=
  List.mem_map_of_mem (List.reduceOption_mem_iff.mpr member)

theorem slotFrames_cons (slot : Option PhysPage) (slots : List (Option PhysPage))
    : slotFrames (slot :: slots) = slotFrames [slot] ++ slotFrames slots := by
  rw [slotFrames, slotFrames, slotFrames, ← List.map_append, ← List.reduceOption_append,
    List.singleton_append]

section Slots

variable {PTE σ : Type} [GenericPTE PTE] [GlobalAllocator σ] [LawfulGlobalAllocator σ]
variable {m m' : Machine PTE σ} {slot copy : Option PhysPage}
variable {slots copies : List (Option PhysPage)}
variable {area : MapArea} {vaddr idx : Nat} {flags : MappingFlags}

omit [GenericPTE PTE] in
/-- Slots that are copies stay copies as long as their frames keep their bytes. -/
theorem SlotCopy.kept (isCopy : SlotCopy m.bytes slot copy) (bytes : SameBytes m m')
    (used : ∀ page, slot = some page → page.paddr ∈ m.toPaging.used)
    (used' : ∀ page, copy = some page → page.paddr ∈ m.toPaging.used)
    : SlotCopy m'.bytes slot copy := by
  cases slot with
  | none => cases copy <;> exact isCopy
  | some page =>
      cases copy with
      | none => exact isCopy
      | some copied =>
          intro i inside
          rw [bytes _ (used' copied rfl) i inside, bytes _ (used page rfl) i inside]
          exact isCopy i inside

omit [GenericPTE PTE] in
/-- So do lists of them, by induction on the slots. -/
theorem slotCopies_kept (areCopies : Forall₂ (SlotCopy m.bytes) slots copies)
    (bytes : SameBytes m m') (used : ∀ f ∈ slotFrames slots, f ∈ m.toPaging.used)
    (used' : ∀ f ∈ slotFrames copies, f ∈ m.toPaging.used)
    : Forall₂ (SlotCopy m'.bytes) slots copies := by
  induction areCopies with
  | nil => exact .nil
  | @cons slot copy slots copies first _ ih =>
      rw [slotFrames_cons, List.forall_mem_append] at used used'
      refine .cons (first.kept bytes ?_ ?_) (ih used.2 used'.2)
      · rintro page rfl
        exact used.1 _ (mem_slotFrames (List.mem_singleton_self _))
      · rintro page rfl
        exact used'.1 _ (mem_slotFrames (List.mem_singleton_self _))

omit [GenericPTE PTE] [GlobalAllocator σ] [LawfulGlobalAllocator σ] in
theorem Machine.writeBytes_toPaging (m : Machine PTE σ) (paddr : Nat) (data : List UInt8)
    : (m.writeBytes paddr data).toPaging = m.toPaging :=
  rfl

omit [GenericPTE PTE] in
/-- What is written to a frame that was not in use leaves the frames in use alone. -/
theorem sameBytes_of_outside {p : Nat} {bytes : Nat → UInt8} (frame : FrameAddr p)
    (unused : p ∉ m.toPaging.used)
    (outside : ∀ a, a < p ∨ p + 4096 ≤ a → bytes a = m.bytes a)
    : ∀ f ∈ m.toPaging.used, ∀ i, i < 4096 → bytes (f + i) = m.bytes (f + i) :=
  fun _ used _ inside => outside _
    (frame_apart (frameAddr_of_used used) frame (fun same => unused (same ▸ used)) inside)

/-- A slot is shown while the machine grows. -/
theorem Grows.slotShown (grows : Grows m m') {va : Nat} (shown : SlotShown flags slot (m.view va))
    : SlotShown flags slot (m'.view va) := by
  cases slot with
  | some page => exact grows.pages shown
  | none => exact shown.imp fun f fault => grows.pages fault

/-- An area is shown while the machine grows. -/
theorem Grows.shown (grows : Grows m m') (shown : Shown m.toPaging area)
    : Shown m'.toPaging area :=
  fun i slot found va lower upper => grows.slotShown (shown i slot found va lower upper)

omit [GlobalAllocator σ] [LawfulGlobalAllocator σ] in
/-- An area of one slot is shown when the slot is. -/
theorem shown_singleton
    (shown : ∀ va, area.vaddr ≤ va → va < area.vaddr + 4096
      → SlotShown area.flags slot (m.view va))
    : Shown m.toPaging { area with pages := [slot] } := by
  intro i found isSlot va lower upper
  cases i with
  | zero =>
      cases isSlot
      exact shown va lower upper
  | succ i => cases isSlot

variable [LawfulPTE PTE]

/-- A page is allocated and written with the bytes of another. -/
theorem alloc_copy {page newPage : PhysPage} {m₁ : Machine PTE σ}
    (tables : m.toPaging.WellFormed True)
    (used : page.paddr ∈ m.toPaging.used) (alloc : PhysPage.alloc m = (.ok newPage, m₁))
    : Grows m (m₁.writeBytes newPage.paddr (m₁.readBytes page.paddr PAGE_SIZE_4K))
      ∧ Taken m (m₁.writeBytes newPage.paddr (m₁.readBytes page.paddr PAGE_SIZE_4K)) [newPage.paddr]
      ∧ SlotCopy (m₁.writeBytes newPage.paddr (m₁.readBytes page.paddr PAGE_SIZE_4K)).bytes
          (some page) (some newPage) := by
  obtain ⟨linear, same, framed⟩ := alloc_ok tables alloc
  have entries : m₁.frames = m.frames := by
    unfold PhysPage.alloc at alloc
    split at alloc <;> cases alloc
    rfl
  have bytes := alloc_bytes alloc
  generalize written : m₁.writeBytes newPage.paddr (m₁.readBytes page.paddr PAGE_SIZE_4K) = m₂
  have paging : m₂.toPaging = m₁.toPaging := written ▸ m₁.writeBytes_toPaging ..
  have framed' (frames : List Nat) (before : Framed m.toPaging frames)
      : Framed m₂.toPaging ([newPage.paddr] ++ frames) :=
    paging ▸ framed frames before
  obtain ⟨taken, grown⟩ := taken_of_framed (paging ▸ same) framed'
  have unused := taken.unused _ (List.mem_singleton_self _)
  have copied (a : Nat) : m₂.bytes a
      = if newPage.paddr ≤ a ∧ a < newPage.paddr + 4096
          then m.bytes (page.paddr + (a - newPage.paddr)) else m.bytes a := by
    rw [← written, copied_bytes, bytes]
  have kept : SameBytes m m₂ := by
    refine sameBytes_of_outside (PhysPage.frameAddr linear).1 unused fun a away => ?_
    rw [copied, if_neg (by omega)]
  refine ⟨grows_of_sameTables tables (paging ▸ same) grown (paging ▸ entries) kept, taken, ?_⟩
  intro i inside
  rw [kept _ used i inside, copied, if_pos (by omega), Nat.add_sub_cancel_left]

-----------------------------------------------------------------------------------------
-- Page by page
-----------------------------------------------------------------------------------------

/-- A slot is cloned into the block of an address. -/
theorem cloneSlot_copies (tables : m.toPaging.WellFormed True)
    (used : ∀ f ∈ slotFrames [slot], f ∈ m.toPaging.used)
    (run : MapArea.cloneSlot vaddr flags slot m = .ok (copy, m'))
    : Grows m m'
      ∧ Taken m m' (slotFrames [copy])
      ∧ SlotCopy m'.bytes slot copy
      ∧ ∀ va, block .size4K va = block .size4K vaddr → SlotShown flags copy (m'.view va) := by
  unfold MapArea.cloneSlot at run
  cases slot with
  | some page =>
      dsimp only at run
      split at run
      · cases run
      rename_i newPage m₁ alloc
      obtain ⟨m₃, mapped, run⟩ := bind_eq_ok.mp run
      cases run
      have inUse := used _ (mem_slotFrames (List.mem_singleton_self _))
      obtain ⟨grows, taken, isCopy⟩ := alloc_copy tables inUse alloc
      generalize m₁.writeBytes newPage.paddr _ = m₂ at mapped grows taken isCopy
      have frame := (PhysPage.frameAddr (alloc_ok tables alloc).1).1
      obtain ⟨grows', bytes, shown⟩ := Machine.map_grows grows.tables frame.1 mapped
      exact ⟨grows.trans grows', taken.later grows', bytes ▸ isCopy, shown⟩
  | none =>
      obtain ⟨m₁, mapped, run⟩ := bind_eq_ok.mp run
      cases run
      obtain ⟨grows, shown⟩ := Machine.mapFault_grows tables mapped
      exact ⟨grows, .nil, trivial, fun va same => ⟨flags, shown va same⟩⟩

/-- The slots of an area that are left are cloned, by induction on them. -/
theorem cloneSlots_copies (aligned : area.vaddr % 4096 = 0) (tables : m.toPaging.WellFormed True)
    (used : ∀ f ∈ slotFrames slots, f ∈ m.toPaging.used)
    (run : area.cloneSlots idx slots m = .ok (copies, m'))
    : Grows m m'
      ∧ Taken m m' (slotFrames copies)
      ∧ Forall₂ (SlotCopy m'.bytes) slots copies
      ∧ Shown m'.toPaging { area with pages := copies, vaddr := area.vaddr + 4096 * idx } := by
  induction slots generalizing idx m copies with
  | nil =>
      cases run
      exact ⟨.refl tables, .nil, .nil, nofun⟩
  | cons slot slots ih =>
      rw [slotFrames_cons, List.forall_mem_append] at used
      obtain ⟨⟨copy, m₁⟩, first, run⟩ := bind_eq_ok.mp run
      obtain ⟨⟨rest, m₂⟩, others, run⟩ := bind_eq_ok.mp run
      cases run
      obtain ⟨grows, taken, isCopy, shown⟩ := cloneSlot_copies tables used.1 first
      obtain ⟨grows', taken', areCopies, shown'⟩ := ih grows.tables
        (fun f member => grows.used f (used.2 f member)) others
      refine ⟨grows.trans grows', ?_, .cons ?_ areCopies, ?_⟩
      · rw [slotFrames_cons]
        exact taken.append grows taken' grows'
      · refine isCopy.kept grows'.bytes ?_ ?_
        · rintro page rfl
          exact grows.used _ (used.1 _ (mem_slotFrames (List.mem_singleton_self _)))
        · rintro page rfl
          exact taken.framed.owned _ (mem_slotFrames (List.mem_singleton_self _))
      · have behind : area.vaddr + 4096 * (idx + 1) = area.vaddr + 4096 * idx + 4096 * 1 := by
          omega
        rw [behind] at shown'
        let moved : MapArea := { area with vaddr := area.vaddr + 4096 * idx }
        have single : Shown m'.toPaging { moved with pages := [copy] } := by
          refine shown_singleton fun va lower upper => grows'.slotShown (shown va ?_)
          simp only [moved, block, vpn, wrapAdd, USIZE_RANGE, PAGE_SIZE_4K, PageSize.height] at *
          omega
        have joined : Shown m'.toPaging { moved with pages := [copy] ++ rest } :=
          shown_append.mpr ⟨single, shown'⟩
        exact joined

-----------------------------------------------------------------------------------------
-- As a whole
-----------------------------------------------------------------------------------------

omit [GlobalAllocator σ] [LawfulGlobalAllocator σ] in
/-- What a page in view reads as: its byte, if its flags make it present. -/
theorem Machine.load_of_page {va paddr : Nat} (frame : FrameAddr paddr)
    (shown : m.view va = .page (newPage paddr flags false) .size4K)
    : m.load va
      = if isPresent (newPage paddr flags false : PTE) then some (m.bytes (paddr + va % 4096))
        else none := by
  obtain ⟨found, run, entry, -⟩ := Paging.getEntryMut_of_page shown
  rw [Machine.load, run]
  dsimp only
  rw [entry, LawfulPTE.page_paddr _ _ frame, alignOffset_page va .size4K]
  rfl

omit [GlobalAllocator σ] [LawfulGlobalAllocator σ] in
/-- What a slot that is shown reads as: its byte, if its flags make it present. -/
theorem Machine.load_of_slot {va : Nat} (frame : ∀ page, slot = some page → FrameAddr page.paddr)
    (shown : SlotShown flags slot (m.view va))
    : m.load va
      = slot.bind fun page =>
          if isPresent (newPage page.paddr flags false : PTE)
            then some (m.bytes (page.paddr + va % 4096))
            else none := by
  cases slot with
  | some page => exact load_of_page (frame page rfl) shown
  | none =>
      obtain ⟨f, fault⟩ := shown
      obtain ⟨found, run, entry, -⟩ := Paging.getEntryMut_of_page fault
      rw [load, run]
      dsimp only
      rw [entry, LawfulPTE.fault_absent, if_neg Bool.false_ne_true, Option.bind_none]

/-- The bytes of an area that is read through its addresses are those of its pages. -/
theorem asSlice_bytes {active : PageTable64} {data : List UInt8} (aligned : area.vaddr % 4096 = 0)
    (below : area.stop ≤ USIZE_RANGE) (shown : Shown (m.withTable active).toPaging area)
    (used : ∀ f ∈ slotFrames area.pages, f ∈ m.toPaging.used)
    (run : area.asSlice active m = .ok data)
    : data.length = area.size
      ∧ ∀ (i : Nat) (page : PhysPage), area.pages[i]? = some (some page) → ∀ o, o < 4096
        → data[4096 * i + o]? = some (m.bytes (page.paddr + o)) := by
  unfold MapArea.asSlice at run
  split at run
  · rename_i bytes loads
    cases run
    obtain ⟨length, each⟩ := mapM_range_eq_some loads
    refine ⟨length, fun i page found o inside => ?_⟩
    have behind : area.vaddr + 4096 * i ≤ area.vaddr + (4096 * i + o) := by omega
    obtain ⟨lower, upper⟩ := area.mem_of_slot found behind (by omega)
    have index : 4096 * i + o < area.size := by
      rw [area.stop_eq] at upper
      omega
    have word : wrapAdd area.vaddr (4096 * i + o) = area.vaddr + (4096 * i + o) :=
      wrapAdd_of_lt (by omega)
    have offset : (area.vaddr + (4096 * i + o)) % 4096 = o := by omega
    have here := each _ index
    have frame : FrameAddr page.paddr :=
      frameAddr_of_used (used _ (mem_slotFrames (List.mem_of_getElem? found)))
    rw [word, Machine.load_of_page frame
      (shown i _ found _ (by omega) (by omega)), offset] at here
    split at here
    · exact here.symm
    · have present := List.getElem?_eq_getElem (l := data) (length.symm ▸ index)
      rw [present] at here
      cases here
  · cases run

omit [GenericPTE PTE] [LawfulGlobalAllocator σ] [LawfulPTE PTE] in
theorem allocContiguous_entries {numPages align : Nat} {data : Option (List UInt8)}
    : Returns (fun r => r.2.frames = m.frames)
        (PhysPage.allocContiguous numPages align data m) := by
  unfold PhysPage.allocContiguous
  split
  · exact rfl
  · split
    · exact rfl
    · dsimp only
      split
      · trivial
      · exact rfl

/-- Consecutive pages are taken from frames that nobody used. -/
theorem AllocatesContiguous.grows {first numPages : Nat} {data : List UInt8}
    (allocates : AllocatesContiguous m m' first numPages data)
    (tables : m.toPaging.WellFormed True) (entries : m'.frames = m.frames)
    : Grows m m' ∧ Taken m m' (slotFrames (contiguousPages first numPages)) := by
  obtain ⟨taken, grown⟩ := taken_of_framed allocates.tables allocates.framed
  refine ⟨grows_of_sameTables tables allocates.tables grown entries ?_, taken⟩
  intro f used i inside
  refine allocates.outside (f + i) ?_
  by_contra within
  have linear := allocates.linear 0 (by omega)
  rw [Nat.zero_mul, Nat.add_zero] at linear
  have base : virtToPhys first % 4096 = 0 := linear.frame.1.1
  have aligned : f % 4096 = 0 := (frameAddr_of_used used).1
  refine taken.unused f ?_ used
  rw [contiguousPages_frames allocates.linear]
  refine List.mem_map.mpr ⟨(f - virtToPhys first) / 4096, List.mem_range.mpr ?_, ?_⟩
  · omega
  · omega

/-- Consecutive pages with the given data are allocated and mapped. -/
theorem newAlloc_copies {start numPages : Nat} {data : List UInt8} {backend : Option MemBackend}
    {new : MapArea} (tables : m.toPaging.WellFormed True) (fits : data.length = numPages * 4096)
    (run : MapArea.newAlloc start numPages flags (some data) backend m = .ok (.ok new, m'))
    : ∃ first,
        new = MapArea.contiguous start first numPages flags backend
        ∧ Grows m m'
        ∧ Taken m m' new.frames
        ∧ Shown m'.toPaging new
        ∧ ∀ i, i < numPages → PhysPage.paddr ⟨first + i * 4096⟩ = virtToPhys first + i * 4096
          ∧ ∀ o, o < 4096
            → some (m'.bytes (virtToPhys first + i * 4096 + o)) = data[4096 * i + o]? := by
  obtain ⟨⟨result, m₁⟩, allocated, run⟩ := bind_eq_ok.mp run
  have effect := (allocContiguous_ok tables fits.le : Returns _ _).of_ok allocated
  obtain ⟨e, rfl⟩ | ⟨first, rfl, allocates⟩ := effect
  · cases run
  dsimp only at run
  split at run
  · rename_i page head
    obtain ⟨inside, same⟩ := contiguousPages_slot head
    obtain rfl : page = ⟨first⟩ := by simpa using same
    obtain ⟨m₂, mapped, run⟩ := bind_eq_ok.mp run
    cases run
    have linear : Linear first := by simpa using allocates.linear 0 inside
    have frames (i : Nat) (isPage : i < numPages)
        : PhysPage.paddr ⟨first + i * 4096⟩ = virtToPhys first + i * 4096 :=
      paddr_behind linear (allocates.linear i isPage)
    obtain ⟨grows, taken⟩ := allocates.grows tables (allocContiguous_entries.of_ok allocated)
    obtain ⟨grows', bytes⟩ := Machine.mapRegion_grows grows.tables (.inl rfl) mapped
    refine ⟨first, rfl, grows.trans grows', taken.later grows', ?_, fun i isPage =>
      ⟨frames i isPage, fun o within => ?_⟩⟩
    · intro i slot found va lower upper
      obtain ⟨isPage, rfl⟩ := contiguousPages_slot found
      have last := allocates.linear (numPages - 1) (by omega)
      have word : virtToPhys first + numPages * 4096 ≤ USIZE_RANGE := by
        rw [virtToPhys_of_linear linear]
        obtain ⟨aligned, above, bound⟩ := last
        unfold PHYS_VIRT_OFFSET USIZE_RANGE at *
        omega
      have shown := Machine.mapRegion_pages grows.tables word mapped (by omega) lower upper
      rw [SlotShown, frames i isPage, Nat.mul_comm i]
      exact shown
    · have index : i * 4096 + o < numPages * 4096 := by omega
      rw [bytes, Nat.add_assoc, allocates.inside _ index, Nat.mul_comm i,
        List.getElem?_eq_getElem (by omega), Option.getD_some]
  · cases run

-----------------------------------------------------------------------------------------
-- Whole areas
-----------------------------------------------------------------------------------------

/-- The copy of an area: slot by slot, with the address and the flags of the area, as the page
table shows it.
-/
structure AreaCopy (m : Machine PTE σ) (area copy : MapArea) : Prop where
  vaddr : copy.vaddr = area.vaddr
  flags : copy.flags = area.flags
  slots : Forall₂ (SlotCopy m.bytes) area.pages copy.pages
  shown : Shown m.toPaging copy

omit [LawfulPTE PTE] in
theorem AreaCopy.kept {new : MapArea} (isCopy : AreaCopy m area new) (grows : Grows m m')
    (used : ∀ f ∈ area.frames, f ∈ m.toPaging.used) (used' : ∀ f ∈ new.frames, f ∈ m.toPaging.used)
    : AreaCopy m' area new :=
  ⟨isCopy.vaddr, isCopy.flags, slotCopies_kept isCopy.slots grows.bytes used used',
    grows.shown isCopy.shown⟩

omit [GlobalAllocator σ] [LawfulGlobalAllocator σ] [LawfulPTE PTE] in
/-- The copy has the same slots loaded. -/
theorem AreaCopy.loaded {new : MapArea} (isCopy : AreaCopy m area new)
    : new.pages.map Option.isSome = area.pages.map Option.isSome := by
  have same : Forall₂ (fun slot copy : Option PhysPage => slot.isSome = copy.isSome) area.pages
      new.pages :=
    isCopy.slots.imp fun slot copy copied => by cases slot <;> cases copy <;> trivial
  rw [eq_comm, ← List.forall₂_eq_eq_eq, List.forall₂_map_left_iff, List.forall₂_map_right_iff]
  exact same

/-- The copy reads like the area. -/
theorem AreaCopy.load [PresentByFlags PTE] {new : MapArea} {va : Nat} (isCopy : AreaCopy m area new)
    (used : ∀ f ∈ area.frames, f ∈ m.toPaging.used) (used' : ∀ f ∈ new.frames, f ∈ m.toPaging.used)
    (shown : Shown m'.toPaging area) (bytes : m'.bytes = m.bytes) (lower : area.vaddr ≤ va)
    (upper : va < area.stop)
    : m.load va = m'.load va := by
  obtain ⟨i, slot, found, lower', upper'⟩ := area.slot_of_mem lower upper
  obtain ⟨inside, rfl⟩ := List.getElem?_eq_some_iff.mp found
  have inside' : i < new.pages.length := isCopy.slots.length_eq ▸ inside
  have copied := isCopy.slots.get inside inside'
  have copyShown := isCopy.shown i _ (List.getElem?_eq_getElem inside') va
    (isCopy.vaddr ▸ lower') (isCopy.vaddr ▸ upper')
  have areaShown := shown i _ found va lower' upper'
  rw [isCopy.flags] at copyShown
  have frame {pages : List (Option PhysPage)} (member : ∀ f ∈ slotFrames pages, f ∈ m.toPaging.used)
      {slot : Option PhysPage} (isSlot : slot ∈ pages) (page : PhysPage)
      (isPage : slot = some page) : FrameAddr page.paddr :=
    frameAddr_of_used (member _ (mem_slotFrames (isPage ▸ isSlot)))
  rw [Machine.load_of_slot (frame used' (List.getElem_mem inside')) copyShown,
    Machine.load_of_slot (frame used (List.getElem_mem inside)) areaShown]
  rw [List.get_eq_getElem, List.get_eq_getElem] at copied
  revert copied
  cases area.pages[i] with
  | none => cases new.pages[i] <;> simp [SlotCopy]
  | some page =>
      cases new.pages[i] with
      | none => simp [SlotCopy]
      | some copy =>
          intro copied
          simp only [Option.bind_some, bytes, copied _ (Nat.mod_lt va (by decide)),
            PresentByFlags.page_present_eq copy.paddr page.paddr]

/-- The slots of a fully loaded area and those of consecutive pages with its bytes. -/
theorem contiguousCopies {first : Nat} {data : List UInt8} {pages : List (Option PhysPage)}
    {bytes bytes' : Nat → UInt8} (loaded : pages.all Option.isSome = true)
    (read : ∀ (i : Nat) (page : PhysPage), pages[i]? = some (some page) → ∀ o, o < 4096
      → data[4096 * i + o]? = some (bytes (page.paddr + o)))
    (same : ∀ page, some page ∈ pages → ∀ o, o < 4096
      → bytes' (page.paddr + o) = bytes (page.paddr + o))
    (written : ∀ i, i < pages.length
      → PhysPage.paddr ⟨first + i * 4096⟩ = virtToPhys first + i * 4096
        ∧ ∀ o, o < 4096
          → some (bytes' (virtToPhys first + i * 4096 + o)) = data[4096 * i + o]?)
    : Forall₂ (SlotCopy bytes') pages (contiguousPages first pages.length) := by
  refine List.forall₂_iff_get.mpr ⟨by simp [contiguousPages], fun i inside inside' => ?_⟩
  obtain ⟨page, here⟩ := Option.isSome_iff_exists.mp
    (List.all_eq_true.mp loaded _ (List.getElem_mem inside))
  have found : pages[i]? = some (some page) := by
    rw [List.getElem?_eq_getElem inside, here]
  have copied : (contiguousPages first pages.length)[i]? = some (some ⟨first + i * 4096⟩) :=
    contiguousPages_at inside
  rw [List.getElem?_eq_getElem inside', Option.some.injEq] at copied
  rw [List.get_eq_getElem, List.get_eq_getElem, here, copied]
  intro o within
  obtain ⟨frame, each⟩ := written i inside
  rw [frame, same page (List.mem_of_getElem? found) o within]
  exact Option.some.inj ((each o within).trans (read i page found o within))

/-- An area is cloned into the page table of the machine while its own page table is in use. -/
theorem cloneAlloc_copies {active : PageTable64} {new : MapArea}
    (tables : m.toPaging.WellFormed True) (aligned : area.vaddr % 4096 = 0)
    (below : area.stop ≤ USIZE_RANGE) (shown : Shown (m.withTable active).toPaging area)
    (used : ∀ f ∈ area.frames, f ∈ m.toPaging.used)
    (run : area.cloneAlloc active m = .ok (.ok new, m'))
    : Grows m m' ∧ Taken m m' new.frames ∧ AreaCopy m' area new := by
  unfold MapArea.cloneAlloc at run
  split at run
  · rename_i loaded
    obtain ⟨data, slice, run⟩ := bind_eq_ok.mp run
    obtain ⟨length, read⟩ := asSlice_bytes aligned below shown used slice
    obtain ⟨first, rfl, grows, taken, shown', written⟩ := newAlloc_copies tables length run
    refine ⟨grows, taken, rfl, rfl, ?_, shown'⟩
    exact contiguousCopies loaded read
      (fun page member o within => grows.bytes _ (used _ (mem_slotFrames member)) o within) written
  · obtain ⟨⟨pages, m₁⟩, cloned, run⟩ := bind_eq_ok.mp run
    cases run
    obtain ⟨grows, taken, areCopies, shown'⟩ := cloneSlots_copies aligned tables used cloned
    exact ⟨grows, taken, rfl, rfl, areCopies, shown'⟩

end Slots

end RCoreOS.Axmem
