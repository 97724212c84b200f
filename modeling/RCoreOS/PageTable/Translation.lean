import RCoreOS.PageTable.FreeList
import RCoreOS.PageTable.Requests

/-! What a mapped region translates to, and that unmapping it restores every translation.
Both need pages that the walk recognises: a huge page without READ and EXECUTE reads as a
link to another table.
-/

namespace RCoreOS.PageTable.Paging

open GenericPTE

/-- Four free frames, the first of them at the start of a 2M page. -/
def fourFrames : FreeList where
  free := [0x200000, 0x201000, 0x202000, 0x203000]
  nodup := by decide
  frames := by decide

/-- An empty page table over zeroed memory; the first frame is its root. -/
def empty : Paging Rv64PTE FreeList where
  rootPaddr := 0x200000
  intrmTables := [0x200000]
  frames := fun f => if f = 0x200000 then fun _ => zeroed else fun _ => zeroed
  allocator := (PagingIf.allocFrame fourFrames).2

theorem empty_reachable (allowed : Paging Rv64PTE FreeList → Request → Prop)
    : Reachable allowed (LawfulPagingIf.inUse fourFrames) empty :=
  .new (m := { frames := fun _ _ => zeroed, allocator := fourFrames }) rfl

variable {σ : Type} [PagingIf σ] [LawfulPagingIf σ]
variable {others : Set Nat} {s s' : Paging Rv64PTE σ} {vaddr paddr size : Nat}
variable {f : MappingFlags} {allowHuge : Bool}

/-- A region that was mapped is tiled by its pages, and nothing was in view there before. -/
theorem Reachable.mapRegion_tiled (reachable : Reachable LeafFlags others s)
    (half : InHalf vaddr size) (read : f.read = true)
    (run : s.mapRegion vaddr paddr size f allowHuge = (.ok (), s')) {distance : Nat}
    (apart : (vaddr + distance) % USIZE_RANGE = paddr)
    : s'.WellFormed False
      ∧ Tiled s'.view (PageOf distance f) vaddr size
      ∧ Fills s s' vaddr size := by
  have wf : s.WellFormed False :=
    (reachable.wellFormed False (fun _ _ leaf => leaf) (fun tight => tight.elim)).1
  have leaf : RegionFlags f allowHuge := .inr (MappingFlags.isLeaf_of_read read)
  obtain ⟨alignedV, alignedP, alignedS, loop⟩ := mapRegion_ok run
  exact ⟨(mapRegionLoop_keeps wf leaf loop).wellFormed,
    mapRegionLoop_ok wf leaf half alignedV alignedP alignedS apart loop⟩

/-- `mapRegion` establishes exactly the requested translation: inside the region every
address goes to its own offset from `paddr`, through a page that lies in the region, and
every other address keeps its translation.
-/
theorem Reachable.mapRegion_translates (reachable : Reachable LeafFlags others s)
    (half : InHalf vaddr size) (physical : paddr + size ≤ 2 ^ 56) (read : f.read = true)
    (run : s.mapRegion vaddr paddr size f allowHuge = (.ok (), s'))
    : (∀ va,
        vaddr ≤ va
        → va < vaddr + size
        → ∃ page : PageSize,
            s'.query va = .ok (paddr + (va - vaddr), f.access, page)
            ∧ vaddr ≤ alignDown va page.toUsize
            ∧ alignDown va page.toUsize + page.toUsize ≤ vaddr + size)
      ∧ ∀ va, Canonical va → va < vaddr ∨ vaddr + size ≤ va → s'.query va = s.query va := by
  obtain ⟨distance, apart⟩ : ∃ distance, distance = USIZE_RANGE - vaddr + paddr := ⟨_, rfl⟩
  have translate {va : Nat} (lower : vaddr ≤ va) (upper : va < vaddr + size)
      : (va + distance) % USIZE_RANGE = paddr + (va - vaddr) := by
    unfold InHalf USIZE_RANGE at *
    omega
  have apart : (vaddr + distance) % USIZE_RANGE = paddr := by
    unfold InHalf USIZE_RANGE at *
    omega
  obtain ⟨-, tiled, fills⟩ := reachable.mapRegion_tiled half read run apart
  refine ⟨fun va lower upper => ?_, fun va canonical away => ?_⟩
  · obtain ⟨e, page, start, shown, ⟨rfl, alignedP⟩, aligned, above, start_le, lt, le⟩ :=
      tiled.page_of lower upper
    have down := alignDown_page_of_mem aligned start_le lt
    have offset : va % page.toUsize = va - start := by
      rw [alignDown_page] at down
      have := Nat.mod_le va page.toUsize
      omega
    rw [translate above (by omega)] at shown alignedP
    have frame : FrameAddr (paddr + (start - vaddr)) := by
      refine ⟨?_, by omega⟩
      cases page <;> simp only [PageSize.toUsize] at alignedP <;> omega
    refine ⟨page, ?_, by omega, by omega⟩
    rw [query_eq_view, shown]
    simp only [View.report, LawfulPTE.page_paddr f _ frame, LawfulPTE.page_flags,
      alignOffset_page, offset]
    congr 2
    omega
  · rw [query_eq_view, query_eq_view, fills.outside va canonical away]

/-- Witness: a 2M page between two 4K pages. -/
theorem mapRegion_translates_mixed_pages
    : ∃ s', empty.mapRegion 0x1ff000 0x801ff000 0x202000 { read := true } true = (.ok (), s')
      ∧ s'.query 0x200123 = .ok (0x80200123, { read := true }, .size2M)
      ∧ ∃ page : PageSize,
          s'.query 0x400fff = .ok (0x80400fff, { read := true }, page)
          ∧ 0x1ff000 ≤ alignDown 0x400fff page.toUsize
          ∧ alignDown 0x400fff page.toUsize + page.toUsize ≤ 0x401000 := by
  have reachable := empty_reachable LeafFlags
  have run : (empty.mapRegion 0x1ff000 0x801ff000 0x202000 { read := true } true).1
      = .ok () := by
    decide +kernel
  have translated := (reachable.mapRegion_translates (by decide) (by decide) rfl
    (Prod.ext run rfl)).1
  refine ⟨_, Prod.ext run rfl, by decide +kernel, ?_⟩
  obtain ⟨page, found, lower, upper⟩ := translated 0x400fff (by decide) (by decide)
  exact ⟨page, found, lower, upper⟩

/-- `unmapRegion` undoes `mapRegion`: it meets the same pages, so its assertions hold, and
every address has the translation it had before.
-/
theorem Reachable.unmapRegion_restores (reachable : Reachable LeafFlags others s)
    (half : InHalf vaddr size) (word : paddr < USIZE_RANGE) (read : f.read = true)
    (run : s.mapRegion vaddr paddr size f allowHuge = (.ok (), s'))
    : ∃ s'',
        s'.unmapRegion vaddr size = (.ok (), s'')
        ∧ ∀ va, Canonical va → s''.query va = s.query va := by
  have apart : (vaddr + (USIZE_RANGE - vaddr + paddr)) % USIZE_RANGE = paddr := by
    unfold InHalf USIZE_RANGE at *
    omega
  obtain ⟨wf, tiled, fills⟩ := reachable.mapRegion_tiled half read run apart
  obtain ⟨s'', unmapped, -, cleared⟩ := unmapRegion_tiled wf half tiled fun _ _ _ => rfl
  refine ⟨s'', unmapped, fun va canonical => ?_⟩
  rw [query_eq_view, query_eq_view]
  by_cases inside : vaddr ≤ va ∧ va < vaddr + size
  · rw [cleared.free va inside.1 inside.2, fills.free va inside.1 inside.2]
  · rw [← cleared.outside va canonical (by omega), fills.outside va canonical (by omega)]

/-- Witness: a 2M page between two 4K pages is mapped and unmapped. -/
theorem unmapRegion_restores_mixed_pages
    : ∃ s' s'',
        empty.mapRegion 0x1ff000 0x801ff000 0x202000 { read := true } true = (.ok (), s')
        ∧ s'.unmapRegion 0x1ff000 0x202000 = (.ok (), s'')
        ∧ ∀ va, Canonical va → s''.query va = empty.query va := by
  have reachable := empty_reachable LeafFlags
  have run : (empty.mapRegion 0x1ff000 0x801ff000 0x202000 { read := true } true).1
      = .ok () := by
    decide +kernel
  obtain ⟨s'', unmapped, restored⟩ :=
    reachable.unmapRegion_restores (by decide) (by decide) rfl (Prod.ext run rfl)
  exact ⟨_, s'', Prod.ext run rfl, unmapped, restored⟩

-----------------------------------------------------------------------------------------
-- Huge pages that read as links
-----------------------------------------------------------------------------------------

/-- A writable huge page without READ is mapped to the frame of the root. Its entry reads as
a link to a table, so the root is also a table of 4K pages.
-/
def aliased : Paging Rv64PTE FreeList :=
  (empty.map 0 0x200000 .size2M { write := true }).2

theorem aliased_reachable : ∃ others, Reachable (fun _ _ => True) others aliased := by
  have reachable := empty_reachable (fun _ _ => True)
  exact ⟨_, reachable.request (.map 0 0x200000 .size2M { write := true }) trivial rfl⟩

/-- Without the flags of a leaf, mapping one page changes the translation of another. -/
theorem mapRegion_changes_other_page
    : ∃ others s s',
        Reachable (fun _ _ => True) others (s : Paging Rv64PTE FreeList)
        ∧ s.mapRegion 0x40000000 0 4096 { read := true } false = (.ok (), s')
        ∧ s'.query 0x1000 ≠ s.query 0x1000 := by
  obtain ⟨others, reachable⟩ := aliased_reachable
  refine ⟨others, aliased,
    (aliased.mapRegion 0x40000000 0 4096 { read := true } false).2, reachable, ?_, ?_⟩
  · rw [mapRegion_single _ _ rfl rfl]
    refine Prod.ext ?_ rfl
    decide +kernel
  · rw [mapRegion_single _ _ rfl rfl]
    decide +kernel

/-- Without the flags of a leaf, an empty table that unmapping leaves behind is visible. -/
theorem unmapRegion_leaves_other_page
    : ∃ others s s' s'',
        Reachable (fun _ _ => True) others (s : Paging Rv64PTE FreeList)
        ∧ s.mapRegion 0x40000000 0 4096 { read := true } false = (.ok (), s')
        ∧ s'.unmapRegion 0x40000000 4096 = (.ok (), s'')
        ∧ s''.query 0x1000 ≠ s.query 0x1000 := by
  obtain ⟨others, reachable⟩ := aliased_reachable
  have mapped : aliased.mapRegion 0x40000000 0 4096 { read := true } false
      = (.ok (), (aliased.map 0x40000000 0 .size4K { read := true }).2) := by
    rw [mapRegion_single _ _ rfl rfl]
    refine Prod.ext ?_ rfl
    decide +kernel
  have unmapped
      : ((aliased.map 0x40000000 0 .size4K { read := true }).2.unmap 0x40000000).1
        = .ok (0, .size4K) := by
    decide +kernel
  refine ⟨others, aliased, _, _, reachable, mapped,
    unmapRegion_single rfl (Prod.ext unmapped rfl), ?_⟩
  decide +kernel

end RCoreOS.PageTable.Paging
