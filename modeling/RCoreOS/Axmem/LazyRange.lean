import RCoreOS.Axmem.Contents
import RCoreOS.Axmem.Representation

/-! Loading all pages of a range. The walk stops at the first page that no area has, or that is
loaded with flags that hide it; every other page is loaded when the walk has passed it.
-/

namespace RCoreOS.Axmem

open PageTable GenericPTE Outcome
open PageTable.Paging (SameTables)

variable {PTE σ : Type} [GenericPTE PTE] [LawfulPTE PTE] [GlobalAllocator σ]
variable [LawfulGlobalAllocator σ] {fs : Vfs}

-----------------------------------------------------------------------------------------
-- One page
-----------------------------------------------------------------------------------------

namespace MapArea

variable {area : MapArea} {va : Nat} {m : Machine PTE σ} {flags : MappingFlags}
variable {allowed : Crash → Prop}

omit [LawfulPTE PTE] [LawfulGlobalAllocator σ] in
/-- A fault at a page that is loaded is refused. -/
theorem handlePageFault_loaded {page : PhysPage} (placed : area.Placed) (lower : area.vaddr ≤ va)
    (upper : va < area.stop) (loaded : (area.mapping va).slot = some page)
    : area.handlePageFault fs va flags m = .ok (false, area, m) := by
  have below := placed.below
  have distance : wrapSub va area.vaddr = va - area.vaddr :=
    wrapSub_of_le lower (by unfold USIZE_RANGE; omega)
  have found := mapping_slot lower upper
  rw [loaded] at found
  rw [handlePageFault, placed.endVa, distance, div_page]
  simp only [assert, lower, upper, decide_true, Bool.and_self, if_true, ok_bind, found]
  split <;> rfl

/-- What loading the page of an address does to the page table. -/
structure TableLoads (m m' : Machine PTE σ) (area : MapArea) (va : Nat) (page : PhysPage)
    : Prop where
  linear : Linear page.startVaddr
  tables : m'.toPaging.WellFormed True
  here
    : ∀ va', va' / 4096 = va / 4096
      → m'.toPaging.view va' = .page (newPage page.paddr area.flags false) .size4K
  elsewhere
    : ∀ va', va' < 2 ^ 38 → va' / 4096 ≠ va / 4096 → m'.toPaging.view va' = m.toPaging.view va'

/-- A fault that the flags allow, at a page that is not loaded, loads it. -/
theorem handlePageFault_loads (memory : allowed .outOfMemory) (shaped : area.Shaped)
    (tables : m.toPaging.WellFormed True) (shown : Shown m.toPaging area) (opened : fs.Open)
    (bounded : MemBackend.Bounded area.vaddr area.backend) (lower : area.vaddr ≤ va)
    (upper : va < area.stop) (empty : (area.mapping va).slot = none)
    (contained : area.flags.contains flags = true)
    : Ends allowed
        (fun r => ∃ page,
          (r.1, r.2.1) = (true, area.withPage ((va - area.vaddr) / 4096) page)
          ∧ TableLoads m r.2.2 area va page)
        (area.handlePageFault fs va flags m) := by
  have below := upper.trans_le shaped.below
  have distance : wrapSub va area.vaddr = va - area.vaddr :=
    wrapSub_of_le lower (below.trans_le (by decide))
  have found := mapping_slot lower upper
  rw [empty] at found
  have start : alignDown va PAGE_SIZE_4K = va - va % 4096 := alignDown_page va .size4K
  have aligned : (va - va % 4096) % 4096 = 0 := by omega
  have inPage : area.vaddr + 4096 * ((va - area.vaddr) / 4096) = va - va % 4096 := by
    have := shaped.aligned
    omega
  rw [handlePageFault, shaped.placed.endVa, distance, div_page]
  simp only [assert, lower, upper, decide_true, Bool.and_self, if_true, ok_bind, contained,
    Bool.not_true, if_false, Bool.false_eq_true, found]
  split
  · exact memory
  rename_i page m₁ alloc
  obtain ⟨linear, same, -⟩ := alloc_ok tables alloc
  have fits : ∀ b ∈ area.backend,
      b.file.offset + (va - area.vaddr) / 4096 * PAGE_SIZE_4K < 2 ^ 64 := by
    intro b member
    have bound := bounded b member
    unfold PAGE_SIZE_4K
    omega
  have word : (va - area.vaddr) / 4096 * PAGE_SIZE_4K < 2 ^ 63 := by
    unfold PAGE_SIZE_4K
    omega
  obtain ⟨⟨backend, m₂⟩, fill⟩ := fillPage_opened (m := m₁) page opened word fits
  have filled := (fillPage_returns page word).of_ok fill
  rw [Prod.mk.injEq] at filled
  obtain ⟨rfl, rfl⟩ := filled
  rw [fill, ok_bind, start]
  rcases run : m₁.toPaging.mapOverwrite (va - va % 4096) page.paddr .size4K area.flags
    with ⟨result, s'⟩
  have tables₁ := same.wellFormed tables
  obtain ⟨f, fault⟩ := shown _ none found (va - va % 4096) inPage.le (by omega)
  rw [← same.view tables] at fault
  have half : InHalf (va - va % 4096) 4096 := by
    refine .inl (Nat.le_trans ?_ shaped.below)
    have := shaped.aligned
    unfold stop at upper ⊢
    omega
  have outcome := Paging.mapOverwrite_rewrites tables₁ aligned
    (PhysPage.frameAddr linear).1.1 half fault run
  rw [Machine.mapOverwrite, Machine.fillFrame_toPaging, run]
  refine (Machine.unwrap_ends memory outcome).bind ?_
  rintro _ ⟨rfl, rewrites⟩
  refine ⟨page, rfl, linear, rewrites.keeps.wellFormed, fun va' here => ?_, fun va' low other => ?_⟩
  · exact rewrites.inside va' (by omega) (by omega)
  · exact (rewrites.outside va' (.inl low) (by omega)).trans (same.view tables va')

end MapArea

namespace MemorySet

variable {s s' s'' : MemorySet PTE σ} {area : MapArea} {key va : Nat} {flags : MappingFlags}
variable {allowed : Crash → Prop}

/-- A page is loaded after, in the mapping that it had before. -/
def Fetched (s s' : MemorySet PTE σ) (va : Nat) : Prop :=
  ∃ mapping mapping' page,
    s.Maps va mapping ∧ s'.Maps va mapping' ∧ mapping'.slot = some page
      ∧ mapping'.flags = mapping.flags

/-- The pages of the addresses are loaded, and nothing has changed at the other pages. -/
structure Walked (s s' : MemorySet PTE σ) (pages : List Nat) : Prop where
  fetched : ∀ va ∈ pages, Fetched s s' va
  elsewhere
    : ∀ va mapping, (∀ page ∈ pages, va / 4096 ≠ page / 4096)
      → (s'.Maps va mapping ↔ s.Maps va mapping)

/-- The page cannot be loaded: no area has it, or it is loaded and its flags hide it. -/
def Barred (s : MemorySet PTE σ) (va : Nat) : Prop :=
  ∀ mapping, s.Maps va mapping
    → ∃ page, mapping.slot = some page
      ∧ isPresent (newPage page.paddr mapping.flags false : PTE) = false

omit [LawfulPTE PTE] in
/-- The area with the page that was loaded is shown. -/
theorem Furnished.withPage (furnished : Furnished s) (found : s.findArea va = some (key, area))
    {page : PhysPage} (loads : MapArea.TableLoads s.toMachine s'.toMachine area va page)
    (updated
      : s'.ownedMem
        = (s.ownedMem.insert key (area.withPage ((va - area.vaddr) / 4096) page)).2)
    : Furnished s' := by
  obtain ⟨-, -, -, lower, upper⟩ := furnished.tidy.findArea found
  obtain ⟨-, rest, before, replaced⟩ := furnished.tidy.replaceFound found
  obtain ⟨after, keyed⟩ := replaced (area.withPage ((va - area.vaddr) / 4096) page) rfl
  have inMap : area ∈ s.ownedMem.values := before.mem_iff.mpr (List.mem_cons_self ..)
  have shaped := furnished.shaped area inMap
  have aligned := shaped.aligned
  have tidy' := furnished.tidy.update found (area.withPage ((va - area.vaddr) / 4096) page) rfl
    List.length_set updated
  rw [← updated] at after
  refine ⟨tidy', loads.tables, fun a member => ?_, fun a member => ?_⟩
  · rcases List.mem_cons.mp (after.mem_iff.mp member) with rfl | isRest
    · refine ⟨aligned, ?_, ?_, fun other isPage => ?_⟩
      · simpa [MapArea.withPage] using shaped.nonempty
      · simpa [MapArea.withPage, MapArea.stop] using shaped.below
      · rcases List.mem_or_eq_of_mem_set isPage with old | new
        · exact shaped.linear other old
        · cases new
          exact loads.linear
    · exact furnished.shaped a (before.mem_iff.mpr (List.mem_cons_of_mem _ isRest))
  · rcases List.mem_cons.mp (after.mem_iff.mp member) with rfl | isRest
    · intro i slot isSlot va' lower' upper'
      change area.vaddr + 4096 * i ≤ va' at lower'
      change va' < area.vaddr + 4096 * (i + 1) at upper'
      change (area.pages.set ((va - area.vaddr) / 4096) (some page))[i]? = some slot at isSlot
      rw [List.getElem?_set] at isSlot
      split at isSlot
      · rename_i here
        subst here
        split at isSlot
        · cases isSlot
          exact loads.here va' (by omega)
        · cases isSlot
      · rename_i elsewhere
        obtain ⟨-, below⟩ := area.mem_of_slot isSlot lower' upper'
        rw [loads.elsewhere va' (below.trans_le shaped.below) (by omega)]
        exact furnished.shown area inMap i slot isSlot va' lower' upper'
    · have inMap' := before.mem_iff.mpr (List.mem_cons_of_mem area isRest)
      refine (furnished.shown a inMap').of_view_eq fun va' lower' upper' => ?_
      refine loads.elsewhere va' (upper'.trans_le (furnished.shaped a inMap').below) fun same => ?_
      have apart := (List.pairwise_cons.mp
        ((before.pairwise_iff MapArea.Apart.symm).mp furnished.tidy.apart)).1 a isRest
      unfold MapArea.Apart MapArea.Away at apart
      unfold MapArea.stop at *
      omega

omit [GenericPTE PTE] [LawfulPTE PTE] [GlobalAllocator σ] [LawfulGlobalAllocator σ] in
/-- Changing an area in place keeps the files in reach. -/
theorem Bounded.withPage (bounded : s.Bounded) (tidy : Tidy s [])
    (found : s.findArea va = some (key, area)) {i : Nat} {page : PhysPage}
    (updated : s'.ownedMem = (s.ownedMem.insert key (area.withPage i page)).2)
    : s'.Bounded := by
  obtain ⟨-, rest, before, replaced⟩ := tidy.replaceFound found
  obtain ⟨after, -⟩ := replaced (area.withPage i page) rfl
  intro a member
  rw [updated] at member
  rcases List.mem_cons.mp (after.mem_iff.mp member) with rfl | isRest
  · exact bounded area (before.mem_iff.mpr (List.mem_cons_self ..))
  · exact bounded a (before.mem_iff.mpr (List.mem_cons_of_mem _ isRest))

/-- The page of an empty slot is loaded, or memory runs out. -/
theorem Furnished.faultArea (memory : allowed .outOfMemory) (furnished : Furnished s)
    (opened : fs.Open) (bounded : s.Bounded) (found : s.findArea va = some (key, area))
    (empty : (area.mapping va).slot = none)
    (contained : area.flags.contains flags = true)
    : Ends allowed (fun r => r.1 = .ok () ∧ Furnished r.2 ∧ r.2.Bounded ∧ Walked s r.2 [va])
        (s.faultArea fs key area va flags) := by
  obtain ⟨-, -, -, lower, upper⟩ := furnished.tidy.findArea found
  obtain ⟨-, rest, before, replaced⟩ := furnished.tidy.replaceFound found
  have inMap : area ∈ s.ownedMem.values := before.mem_iff.mpr (List.mem_cons_self ..)
  have shaped := furnished.shaped area inMap
  have aligned := shaped.aligned
  have inside := (List.getElem?_eq_some_iff.mp (MapArea.mapping_slot lower upper)).1
  refine (MapArea.handlePageFault_loads memory shaped furnished.tables
    (furnished.shown area inMap) opened (bounded area inMap) lower upper empty contained).bind ?_
  rintro ⟨handled, area', m⟩ ⟨page, ⟨⟩, loads⟩
  obtain ⟨after, -⟩ := replaced (area.withPage ((va - area.vaddr) / 4096) page) rfl
  refine ⟨rfl, furnished.withPage found loads rfl,
    bounded.withPage furnished.tidy found rfl, ?_, ?_⟩
  · intro va' member
    obtain rfl := List.mem_singleton.mp member
    refine ⟨area.mapping va', { area.mapping va' with slot := some page }, page,
      furnished.tidy.findArea_maps found, ?_, rfl, rfl⟩
    refine ⟨area.withPage _ page, after.mem_iff.mpr (List.mem_cons_self ..), lower, ?_, ?_⟩
    · simpa [MapArea.withPage, MapArea.stop] using upper
    · rw [MapArea.withPage_mapping inside, if_pos rfl]
  · intro va' mapping apart
    have other : va' / 4096 ≠ (area.vaddr + 4096 * ((va - area.vaddr) / 4096)) / 4096 := by
      have := apart va (List.mem_singleton_self va)
      omega
    have filled
        : Has MapArea.mapping (area.withPage ((va - area.vaddr) / 4096) page :: rest) va' mapping
          ↔ Has MapArea.mapping (area :: rest) va' mapping :=
      has_withPage aligned inside other
    exact ⟨fun maps => (filled.mp (Has.perm maps after)).perm before.symm,
      fun maps => (filled.mpr (Has.perm maps before)).perm after.symm⟩

/-- A page that is barred is refused, and every other is loaded afterwards. -/
theorem Furnished.manualAllocForLazy (memory : allowed .outOfMemory) (furnished : Furnished s)
    (opened : fs.Open) (bounded : s.Bounded) (va : Nat)
    : s.Barred va ∧ (∃ e, s.manualAllocForLazy fs va = .ok (.error e, s))
      ∨ ¬ s.Barred va
        ∧ Ends allowed (fun r => r.1 = .ok () ∧ Furnished r.2 ∧ r.2.Bounded ∧ Walked s r.2 [va])
            (s.manualAllocForLazy fs va) := by
  unfold MemorySet.manualAllocForLazy
  cases found : s.findArea va with
  | none =>
      refine .inl ⟨fun mapping maps => ?_, _, rfl⟩
      exact absurd maps (furnished.tidy.findArea_none found)
  | some entry =>
      obtain ⟨key, area⟩ := entry
      have maps := furnished.tidy.findArea_maps found
      have only {mapping : Mapping} (other : s.Maps va mapping) : mapping = area.mapping va :=
        furnished.tidy.maps_unique other maps
      obtain ⟨slot, entry, shows⟩ := furnished.getEntry maps
      have valid := furnished.valid_iff maps
      rcases furnished.validity maps with present | absent
      · obtain ⟨page, loaded, visible⟩ := valid.mp present
        have check : checkPageTableEntryValidity s.toPaging va = .ok () := present
        rw [check]
        refine .inr ⟨fun barred => ?_, rfl, furnished, bounded, ?_⟩
        · obtain ⟨other, same, hidden⟩ := barred _ maps
          rw [loaded, Option.some.injEq] at same
          rw [← same, visible] at hidden
          cases hidden
        · refine ⟨fun va' member => ?_, fun _ _ _ => Iff.rfl⟩
          obtain rfl := List.mem_singleton.mp member
          exact ⟨_, _, page, maps, maps, loaded, rfl⟩
      · rw [absent, entry]
        dsimp only
        cases filled : (area.mapping va).slot with
        | none =>
            rw [filled] at shows
            obtain ⟨f, fault⟩ := shows
            rw [fault, LawfulPTE.fault_flags]
            refine .inr ⟨fun barred => ?_,
              furnished.faultArea memory opened bounded found filled (by rfl)⟩
            obtain ⟨page, loaded, -⟩ := barred _ maps
            rw [filled] at loaded
            cases loaded
        | some page =>
            have hidden : isPresent (newPage page.paddr (area.mapping va).flags false : PTE)
                = false := by
              rw [← Bool.not_eq_true]
              intro visible
              have check : checkPageTableEntryValidity s.toPaging va = .ok () :=
                valid.mpr ⟨page, filled, visible⟩
              rw [absent] at check
              cases check
            obtain ⟨-, -, -, lower, upper⟩ := furnished.tidy.findArea found
            obtain ⟨same, rest, before, -⟩ := furnished.tidy.replaceFound found
            have placed : area.Placed :=
              furnished.tidy.placed area (before.mem_iff.mpr (List.mem_cons_self ..))
            refine .inl ⟨fun mapping other => ?_, .badAddress, ?_⟩
            · rw [only other]
              exact ⟨page, filled, hidden⟩
            · rw [MemorySet.faultArea, MapArea.handlePageFault_loaded placed lower upper filled,
                ok_bind]
              dsimp only [withMachine]
              rw [same]
              rfl

-----------------------------------------------------------------------------------------
-- A range of pages
-----------------------------------------------------------------------------------------

omit [LawfulPTE PTE] [GlobalAllocator σ] [LawfulGlobalAllocator σ] in
theorem Barred.congr {va : Nat} (same : ∀ mapping, s'.Maps va mapping ↔ s.Maps va mapping)
    : s'.Barred va ↔ s.Barred va := by
  simp only [Barred, same]

omit [GenericPTE PTE] [LawfulPTE PTE] [GlobalAllocator σ] [LawfulGlobalAllocator σ] in
/-- A page first, and then others. -/
theorem Walked.cons {page : Nat} {pages : List Nat} (first : Walked s s' [page])
    (rest : Walked s' s'' pages) (apart : ∀ other ∈ pages, page / 4096 ≠ other / 4096)
    : Walked s s'' (page :: pages) where
  fetched va member := by
    have same {va : Nat} (away : ∀ other ∈ pages, va / 4096 ≠ other / 4096) (mapping : Mapping)
        : s''.Maps va mapping ↔ s'.Maps va mapping :=
      rest.elsewhere va mapping away
    rcases List.mem_cons.mp member with rfl | later
    · obtain ⟨mapping, mapping', loaded, maps, maps', slot, flags⟩ :=
        first.fetched va (List.mem_singleton_self va)
      exact ⟨mapping, mapping', loaded, maps, (same apart mapping').mpr maps', slot, flags⟩
    · obtain ⟨mapping, mapping', loaded, maps, maps', slot, flags⟩ := rest.fetched va later
      have away : ∀ other ∈ [page], va / 4096 ≠ other / 4096 := by
        intro other isPage
        rw [List.mem_singleton.mp isPage]
        exact (apart va later).symm
      have before := (first.elsewhere va mapping away).mp maps
      exact ⟨mapping, mapping', loaded, before, maps', slot, flags⟩
  elsewhere va mapping away := by
    obtain ⟨here, later⟩ := List.forall_mem_cons.mp away
    exact (rest.elsewhere va mapping later).trans
      (first.elsewhere va mapping (List.forall_mem_singleton.mpr here))

/-- The walk stops at a page that is barred, or it loads all pages; by induction on the pages. -/
theorem Furnished.allocPagesForLazy (memory : allowed .outOfMemory) (furnished : Furnished s)
    (opened : fs.Open) (bounded : s.Bounded) {pages : List Nat}
    (distinct : pages.Pairwise fun a b => a / 4096 ≠ b / 4096)
    : Ends allowed
        (fun r =>
          (∃ e, r.1 = .error e) ∧ (∃ page ∈ pages, s.Barred page)
          ∨ r.1 = .ok () ∧ (∀ page ∈ pages, ¬ s.Barred page) ∧ Furnished r.2
            ∧ Walked s r.2 pages)
        (MemorySet.allocPagesForLazy fs pages s) := by
  induction pages generalizing s with
  | nil =>
      exact .inr ⟨rfl, List.forall_mem_nil _, furnished, List.forall_mem_nil _,
        fun _ _ _ => Iff.rfl⟩
  | cons page pages ih =>
      obtain ⟨apart, distinct⟩ := List.pairwise_cons.mp distinct
      rw [MemorySet.allocPagesForLazy]
      rcases furnished.manualAllocForLazy memory opened bounded page with
        ⟨barred, e, run⟩ | ⟨free, loads⟩
      · rw [run]
        exact .inl ⟨⟨e, rfl⟩, page, List.mem_cons_self .., barred⟩
      · refine loads.bind ?_
        rintro ⟨_, s₁⟩ ⟨rfl, furnished₁, bounded₁, walked₁⟩
        have unchanged {other : Nat} (later : other ∈ pages)
            : s₁.Barred other ↔ s.Barred other := by
          refine Barred.congr fun mapping => walked₁.elsewhere other mapping ?_
          exact List.forall_mem_singleton.mpr (apart other later).symm
        refine (ih furnished₁ bounded₁ distinct).imp ?_
        rintro r (⟨failed, other, later, barred⟩ | ⟨ok, others, furnished₂, walked₂⟩)
        · exact .inl ⟨failed, other, List.mem_cons_of_mem page later, (unchanged later).mp barred⟩
        · refine .inr ⟨ok, List.forall_mem_cons.mpr ⟨free, fun other later => ?_⟩, furnished₂,
            walked₁.cons walked₂ apart⟩
          rw [← unchanged later]
          exact others other later

omit [LawfulPTE PTE] [GlobalAllocator σ] [LawfulGlobalAllocator σ] in
/-- All addresses of a page are barred, or none of them. -/
theorem Tidy.barred_page (tidy : Tidy s []) {va' : Nat} (page : va' / 4096 = va / 4096)
    : s.Barred va' ↔ s.Barred va :=
  ⟨fun barred mapping maps => barred mapping (tidy.maps_page maps page),
    fun barred mapping maps => barred mapping (tidy.maps_page maps page.symm)⟩

omit [GenericPTE PTE] [LawfulPTE PTE] [GlobalAllocator σ] [LawfulGlobalAllocator σ] in
/-- A page that is fetched is fetched at all its addresses. -/
theorem Fetched.page (fetched : Fetched s s' va) (tidy : Tidy s []) (tidy' : Tidy s' [])
    {va' : Nat} (page : va' / 4096 = va / 4096)
    : Fetched s s' va' := by
  obtain ⟨mapping, mapping', loaded, maps, maps', slot, flags⟩ := fetched
  exact ⟨mapping, mapping', loaded, tidy.maps_page maps page, tidy'.maps_page maps' page, slot,
    flags⟩

/-- The pages of a range, by their numbers. -/
theorem pagesThrough_distinct (start stop : Nat)
    : (pagesThrough start stop).Pairwise fun a b => a / 4096 ≠ b / 4096 := by
  unfold pagesThrough PAGE_SIZE_4K
  split
  · refine List.pairwise_map.mpr (List.pairwise_lt_range.imp fun {i j} less => ?_)
    omega
  · exact .nil

theorem mem_pagesThrough {start stop page : Nat} (order : start ≤ stop)
    : page ∈ pagesThrough (alignDown start PAGE_SIZE_4K) (alignDown stop PAGE_SIZE_4K)
      ↔ page % 4096 = 0 ∧ start / 4096 ≤ page / 4096 ∧ page / 4096 ≤ stop / 4096 := by
  have down (va : Nat) : alignDown va PAGE_SIZE_4K = va - va % 4096 := alignDown_page va .size4K
  rw [down, down, pagesThrough, if_pos (by omega)]
  simp only [List.mem_map, List.mem_range, PAGE_SIZE_4K]
  constructor
  · rintro ⟨i, inside, rfl⟩
    omega
  · rintro ⟨aligned, lower, upper⟩
    exact ⟨page / 4096 - start / 4096, by omega, by omega⟩

/-- A range with a barred address is refused, and of every other all pages are loaded. -/
theorem Furnished.manualAllocRangeForLazy (memory : allowed .outOfMemory) (furnished : Furnished s)
    (opened : fs.Open) (bounded : s.Bounded) {start stop : Nat} (order : start ≤ stop)
    : Ends allowed
        (fun r =>
          (∃ e, r.1 = .error e) ∧ (∃ va, start ≤ va ∧ va ≤ stop ∧ s.Barred va)
          ∨ r.1 = .ok ()
            ∧ (∀ va, start ≤ va → va ≤ stop → ¬ s.Barred va ∧ Fetched s r.2 va)
            ∧ Furnished r.2)
        (s.manualAllocRangeForLazy fs start stop) := by
  rw [MemorySet.manualAllocRangeForLazy, if_neg (Nat.not_lt.mpr order)]
  refine (furnished.allocPagesForLazy memory opened bounded (pagesThrough_distinct ..)).imp ?_
  rintro r (⟨failed, page, member, barred⟩ | ⟨ok, free, furnished', walked⟩)
  · obtain ⟨aligned, lower, upper⟩ := (mem_pagesThrough order).mp member
    refine .inl ⟨failed, max start page, by omega, by omega, ?_⟩
    exact (furnished.tidy.barred_page (by omega)).mpr barred
  · refine .inr ⟨ok, fun va lower upper => ?_, furnished'⟩
    have member : va - va % 4096 ∈ pagesThrough (alignDown start PAGE_SIZE_4K)
        (alignDown stop PAGE_SIZE_4K) :=
      (mem_pagesThrough order).mpr (by omega)
    have page : va / 4096 = (va - va % 4096) / 4096 := by omega
    rw [furnished.tidy.barred_page page]
    exact ⟨free _ member, (walked.fetched _ member).page furnished.tidy furnished'.tidy page⟩

end MemorySet

end RCoreOS.Axmem
