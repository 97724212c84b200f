import RCoreOS.PageTable.Translation

/-! Huge pages change the shape of the tables and the sizes that are reported, not the
translation.
-/

namespace RCoreOS.PageTable

open GenericPTE

/-- The stored bits of any address, bit by bit. -/
theorem Rv64PTE.frameBits_mod (p : Nat)
    : (frameBits p <<< 2).toNat = p % 2 ^ 56 / 4096 * 4096 := by
  have shifted : p % 2 ^ 56 / 4096 * 4096 = (p % 2 ^ 56) >>> 12 <<< 12 := by
    rw [Nat.shiftLeft_eq, Nat.shiftRight_eq_div_pow]
  rw [shifted]
  apply Nat.eq_of_testBit_eq
  intro i
  rw [BitVec.testBit_toNat, BitVec.getLsbD_shiftLeft, frameBits, BitVec.getLsbD_and,
    mask_getLsbD, BitVec.getLsbD_ofNat, Nat.testBit_shiftRight, Nat.testBit_shiftLeft,
    Nat.testBit_shiftRight, Nat.testBit_mod_two_pow]
  by_cases stored : 12 ≤ i ∧ i < 56
  · have bits : 2 + (i - 2) = i ∧ 12 + (i - 12) = i := by omega
    have inner : ¬ i < 2 ∧ 10 ≤ i - 2 ∧ i - 2 < 54 ∧ i < 64 ∧ i - 2 < 64 := by omega
    simp [bits, inner, stored]
  · have right : (decide (i ≥ 12) && (decide (12 + (i - 12) < 56) && p.testBit (12 + (i - 12))))
        = false := by
      by_cases low : 12 ≤ i
      · simp [show ¬ 12 + (i - 12) < 56 by omega]
      · simp [low]
    have left : (decide (10 ≤ i - 2) && decide (i - 2 < 54)) = false := by
      by_cases low : 10 ≤ i - 2
      · simp [show ¬ i - 2 < 54 by omega]
      · simp [low]
    rw [right, left]
    simp

/-- An entry keeps the bits of an aligned address below bit 56. -/
theorem Rv64PTE.page_paddr_mod {p : Nat} (aligned : p % 4096 = 0) (f : MappingFlags) (h : Bool)
    : paddr (newPage p f h : Rv64PTE) = p % 2 ^ 56 := by
  simp only [paddr, newPage]
  rw [mask_or_frame (pageFlags_mask f), frameBits_mod]
  omega

/-- Inside an aligned block nothing wraps around a multiple of the block. -/
theorem add_mod_of_aligned {p offset n range : Nat} (aligned : p % n = 0) (inside : offset < n)
    (whole : n ∣ range) (positive : 0 < range)
    : (p + offset) % range = p % range + offset := by
  obtain ⟨blocks, rfl⟩ := whole
  have low : p % (n * blocks) % n = 0 := by
    rw [Nat.mod_mul_right_mod, aligned]
  obtain ⟨k, isBlock⟩ := Nat.dvd_of_mod_eq_zero low
  have below : p % (n * blocks) < n * blocks := Nat.mod_lt _ positive
  rw [isBlock] at below
  have last : k + 1 ≤ blocks := Nat.lt_of_mul_lt_mul_left below
  have room : p % (n * blocks) + offset < n * blocks := by
    rw [isBlock]
    exact Nat.lt_of_lt_of_le (Nat.add_lt_add_left inside _)
      (Nat.le_trans (Nat.le_of_eq (Nat.mul_succ n k).symm) (Nat.mul_le_mul_left n last))
  rw [← Nat.mod_add_mod, Nat.mod_eq_of_lt room]

theorem PageSize.toUsize_dvd (page : PageSize) {n : Nat} (wide : 30 ≤ n)
    : page.toUsize ∣ 2 ^ n := by
  have whole : page.toUsize ∣ 2 ^ 30 := by
    cases page <;> decide
  exact Nat.dvd_trans whole (Nat.pow_dvd_pow 2 wide)

namespace Paging

-----------------------------------------------------------------------------------------
-- A region of small pages
-----------------------------------------------------------------------------------------

/-- Free frames, the second of them at the start of a 2M page. -/
def spareFrames : FreeList where
  free := [0x400000, 0x200000, 0x201000]
  nodup := by decide
  frames := by decide

/-- An empty page table over zeroed memory with its root at `0x400000`. -/
def spare : Paging Rv64PTE FreeList where
  rootPaddr := 0x400000
  intrmTables := [0x400000]
  frames := fun f => if f = 0x400000 then fun _ => zeroed else fun _ => zeroed
  allocator := (PagingIf.allocFrame spareFrames).2

theorem spare_reachable (allowed : Paging Rv64PTE FreeList → Request → Prop)
    : Reachable allowed (LawfulPagingIf.inUse spareFrames) spare :=
  .new (m := { frames := fun _ _ => zeroed, allocator := spareFrames }) rfl

/-- Small pages behind the first `count` ones of the second 2M can be mapped; the first 2M has the
entry `e`.
-/
structure Filled (e : Rv64PTE) (s : Paging Rv64PTE FreeList) (count : Nat) : Prop where
  root : s.rootPaddr = 0x400000
  middle : s.frames 0x400000 0 = newTable 0x200000
  first : s.frames 0x200000 0 = e
  second : s.frames 0x200000 1 = newTable 0x201000
  free : ∀ i, count ≤ i → s.frames 0x201000 i = zeroed

/-- The indices of a small page of the second 2M. -/
theorem second_indices {i : Nat} (small : i < 512)
    : p3Index (0x200000 + i * 4096) = 0 ∧ p2Index (0x200000 + i * 4096) = 1
      ∧ p1Index (0x200000 + i * 4096) = i := by
  have table : ∀ j : Fin 512, p3Index (0x200000 + j * 4096) = 0
      ∧ p2Index (0x200000 + j * 4096) = 1 ∧ p1Index (0x200000 + j * 4096) = j := by
    decide +kernel
  exact table ⟨i, small⟩

/-- A link is followed. -/
theorem nextTableMutOrCreate_link {σ : Type} [PagingIf σ] {s : Paging Rv64PTE σ} {slot : Slot}
    {p : Nat} (linked : s.entry slot = newTable p) (frame : FrameAddr p)
    : s.nextTableMutOrCreate slot = (.ok p, s) := by
  have inUse : isUnused (newTable p : Rv64PTE) = false := LawfulPTE.table_used p
  have next : nextTableMut (newTable p : Rv64PTE) = .ok p :=
    nextTableMut_ok.mpr ⟨by simp [isTable, LawfulPTE.table_present, LawfulPTE.table_small],
      LawfulPTE.table_paddr frame⟩
  simp only [nextTableMutOrCreate, linked, inUse, next, Bool.false_eq_true, if_false]

/-- One more page. -/
theorem Filled.map {e : Rv64PTE} {s : Paging Rv64PTE FreeList} {i : Nat} (filled : Filled e s i)
    (small : i < 512) (target : Nat) (f : MappingFlags)
    : ∃ s', s.map (0x200000 + i * 4096) target .size4K f = (.ok (), s') ∧ Filled e s' (i + 1) := by
  obtain ⟨index3, index2, index1⟩ := second_indices small
  have upper : s.nextTableMutOrCreate ⟨s.rootPaddr, 0⟩ = (.ok 0x200000, s) :=
    nextTableMutOrCreate_link (by rw [entry, filled.root, filled.middle]) (by decide)
  have lower : s.nextTableMutOrCreate ⟨0x200000, 1⟩ = (.ok 0x201000, s) :=
    nextTableMutOrCreate_link (by rw [entry, filled.second]) (by decide)
  have unused : isUnused (s.entry ⟨0x201000, i⟩) = true := by
    rw [entry, filled.free i (Nat.le_refl i)]
    exact LawfulPTE.unused_zeroed
  refine ⟨s.setEntry ⟨0x201000, i⟩ (newPage (alignDown target PageSize.size4K.toUsize) f false),
    ?_, ?_⟩
  · simp [Paging.map, getEntryMutOrCreate, index3, index2, index1, upper, lower, unused,
      PageSize.isHuge]
  · refine ⟨filled.root, ?_, ?_, ?_, fun j above => ?_⟩
    · simp [setEntry, filled.middle]
    · simp [setEntry, filled.first]
    · simp [setEntry, filled.second]
    · have other : j ≠ i := by omega
      simp [setEntry, other, filled.free j (by omega)]

/-- The rest of the pages, by induction on their number. -/
theorem Filled.mapRegionLoop {e : Rv64PTE} {s : Paging Rv64PTE FreeList} {count rest : Nat}
    (filled : Filled e s count) (whole : count + rest = 512) (f : MappingFlags) (target : Nat)
    : ∃ s', s.mapRegionLoop (0x200000 + count * 4096) target (rest * 4096) f false = (.ok (), s')
      ∧ Filled e s' 512 := by
  induction rest generalizing s count target with
  | zero =>
      have last : count = 512 := by omega
      refine ⟨s, ?_, last ▸ filled⟩
      rw [Nat.zero_mul, Paging.mapRegionLoop, if_pos rfl]
  | succ rest ih =>
      obtain ⟨t, mapped, filled'⟩ := filled.map (by omega) target f
      obtain ⟨s', run, done⟩ := ih filled' (by omega) (wrapAdd target 4096)
      refine ⟨s', ?_, done⟩
      have small : regionPageSize (0x200000 + count * 4096) target ((rest + 1) * 4096) false
          = .size4K := rfl
      have next : wrapAdd (0x200000 + count * 4096) 4096 = 0x200000 + (count + 1) * 4096 := by
        rw [wrapAdd_of_lt (by unfold USIZE_RANGE; omega)]
        omega
      have left : (rest + 1) * 4096 - 4096 = rest * 4096 := by omega
      rw [Paging.mapRegionLoop, if_neg (by omega)]
      simp only [small, mapped, PageSize.toUsize, next, left, run]

/-- A region that is the second 2M is mapped by small pages if the first of them is. -/
theorem Filled.mapRegion {e : Rv64PTE} {s : Paging Rv64PTE FreeList} {target : Nat}
    {f : MappingFlags} (aligned : isAligned target PAGE_SIZE_4K = true)
    (first : (s.map 0x200000 target .size4K f).1 = .ok ())
    (filled : Filled e (s.map 0x200000 target .size4K f).2 1)
    : ∃ s', s.mapRegion 0x200000 target 0x200000 f false = (.ok (), s') ∧ Filled e s' 512 := by
  have pages : 1 + 511 = 512 := rfl
  obtain ⟨s', rest, done⟩ := filled.mapRegionLoop pages f (wrapAdd target 4096)
  refine ⟨s', ?_, done⟩
  have small : regionPageSize 0x200000 target 0x200000 false = .size4K := rfl
  have mapped : s.map 0x200000 target .size4K f = (.ok (), (s.map 0x200000 target .size4K f).2) :=
    Prod.ext first rfl
  have wholeV : isAligned 0x200000 PAGE_SIZE_4K = true := by decide
  rw [Paging.mapRegion, aligned, wholeV, Paging.mapRegionLoop, if_neg (by decide)]
  simp only [small]
  rw [mapped]
  exact rest

/-- The first of the small pages brings their table. -/
theorem spare_map
    : (spare.map 0x200000 0x80000000 .size4K { read := true }).1 = .ok ()
      ∧ Filled zeroed (spare.map 0x200000 0x80000000 .size4K { read := true }).2 1 := by
  refine ⟨by decide +kernel, ⟨rfl, by decide +kernel, by decide +kernel, by decide +kernel, ?_⟩⟩
  intro i above
  cases i with
  | zero => contradiction
  | succ i => rfl

-----------------------------------------------------------------------------------------
-- The translation with and without huge pages
-----------------------------------------------------------------------------------------

/-- The address and the flags of a report, without the size of the page. -/
def withoutSize (report : PagingResult (Nat × MappingFlags × PageSize))
    : PagingResult (Nat × MappingFlags) :=
  report.map fun (paddr, flags, _) => (paddr, flags)

/-- A page of a region translates its addresses at the distance of the region, whatever its
size.
-/
theorem PageOf.translates {distance start va : Nat} {f : MappingFlags} {e : Rv64PTE}
    {page : PageSize} (isPage : PageOf distance f start e page)
    (aligned : start % page.toUsize = 0) (lower : start ≤ va) (upper : va < start + page.toUsize)
    : withoutSize ((View.page e page).report va)
      = .ok ((va + distance) % USIZE_RANGE % 2 ^ 56, f.access) := by
  obtain ⟨rfl, alignedP⟩ := isPage
  have offset : va % page.toUsize = va - start := by
    have down := alignDown_page_of_mem aligned lower upper
    rw [alignDown_page] at down
    have := Nat.mod_le va page.toUsize
    omega
  have inside : va - start < page.toUsize := by omega
  have whole : (start + distance) % USIZE_RANGE % 4096 = 0 :=
    Nat.mod_eq_zero_of_dvd (Nat.dvd_trans (Nat.dvd_of_mod_eq_zero page.toUsize_mod)
      (Nat.dvd_of_mod_eq_zero alignedP))
  -- neither the range of addresses nor that of stored addresses ends inside of the page
  have range : page.toUsize ∣ USIZE_RANGE := page.toUsize_dvd (n := 64) (by decide)
  have alignedV : (start + distance) % page.toUsize = 0 := by
    rw [← Nat.mod_mod_of_dvd _ range, alignedP]
  have address
      : (va + distance) % USIZE_RANGE = (start + distance) % USIZE_RANGE + (va - start) := by
    rw [← add_mod_of_aligned alignedV inside range (by decide)]
    congr 1
    omega
  rw [address, add_mod_of_aligned alignedP inside (page.toUsize_dvd (by decide)) (by decide)]
  simp only [View.report, withoutSize, Except.map, Rv64PTE.page_paddr_mod whole,
    alignOffset_page, offset, LawfulPTE.page_flags]

variable {σ : Type} [PagingIf σ] [LawfulPagingIf σ]
variable {others : Set Nat} {s s₁ s₂ : Paging Rv64PTE σ} {vaddr target size : Nat}
variable {f : MappingFlags}

/-- With and without huge pages a region gets the same translation, by the tiles of both: at every
address of the region the distance is the same, and elsewhere nothing changes.
-/
theorem Reachable.mapRegion_huge_same (reachable : Reachable LeafFlags others s)
    (half : InHalf vaddr size) (word : target < USIZE_RANGE) (read : f.read = true)
    (huge : s.mapRegion vaddr target size f true = (.ok (), s₁))
    (small : s.mapRegion vaddr target size f false = (.ok (), s₂))
    : ∀ va, Canonical va → withoutSize (s₁.query va) = withoutSize (s₂.query va) := by
  have apart : (vaddr + (USIZE_RANGE - vaddr + target)) % USIZE_RANGE = target := by
    unfold InHalf USIZE_RANGE at *
    omega
  obtain ⟨-, tiled₁, fills₁⟩ := reachable.mapRegion_tiled half read huge apart
  obtain ⟨-, tiled₂, fills₂⟩ := reachable.mapRegion_tiled half read small apart
  intro va canonical
  rw [query_eq_view, query_eq_view]
  rcases Nat.lt_or_ge va vaddr with below | lower
  · rw [fills₁.outside va canonical (.inl below), fills₂.outside va canonical (.inl below)]
  rcases Nat.lt_or_ge va (vaddr + size) with upper | above
  · obtain ⟨e, page, start, shown, isPage, aligned, -, le, lt, -⟩ := tiled₁.page_of lower upper
    obtain ⟨e', page', start', shown', isPage', aligned', -, le', lt', -⟩ :=
      tiled₂.page_of lower upper
    rw [shown, shown', isPage.translates aligned le lt, isPage'.translates aligned' le' lt']
  · rw [fills₁.outside va canonical (.inr above), fills₂.outside va canonical (.inr above)]

/-- Witness: the second 2M is mapped by one page and by 512. -/
theorem mapRegion_huge_same_second_2M
    : ∃ s₁ s₂,
        spare.mapRegion 0x200000 0x80000000 0x200000 { read := true } true = (.ok (), s₁)
        ∧ spare.mapRegion 0x200000 0x80000000 0x200000 { read := true } false = (.ok (), s₂)
        ∧ s₁.query 0x201234 = .ok (0x80001234, { read := true }, .size2M)
        ∧ ∀ va, Canonical va → withoutSize (s₁.query va) = withoutSize (s₂.query va) := by
  have huge : (spare.mapRegion 0x200000 0x80000000 0x200000 { read := true } true).1 = .ok () := by
    decide +kernel
  obtain ⟨s₂, small, -⟩ := Filled.mapRegion (by decide) spare_map.1 spare_map.2
  exact ⟨_, s₂, Prod.ext huge rfl, small, by decide +kernel,
    (spare_reachable LeafFlags).mapRegion_huge_same (by decide) (by decide) rfl
      (Prod.ext huge rfl) small⟩

-----------------------------------------------------------------------------------------
-- A table of small pages that is a table of huge pages
-----------------------------------------------------------------------------------------

/-- A writable huge page without READ is mapped to the frame of the table that it is in. -/
def selfLinked : Paging Rv64PTE FreeList :=
  (spare.map 0 0x200000 .size2M { write := true }).2

theorem selfLinked_reachable : ∃ others, Reachable (fun _ _ => True) others selfLinked := by
  exact ⟨_, (spare_reachable _).request (.map 0 0x200000 .size2M { write := true }) trivial rfl⟩

/-- The first of the pages, which brings the table of the others. -/
theorem selfLinked_map
    : (selfLinked.map 0x200000 0x80000000 .size4K { read := true }).1 = .ok ()
      ∧ Filled (newPage 0x200000 { write := true } true)
        (selfLinked.map 0x200000 0x80000000 .size4K { read := true }).2 1 := by
  refine ⟨by decide +kernel, ⟨rfl, by decide +kernel, by decide +kernel, by decide +kernel, ?_⟩⟩
  intro i above
  cases i with
  | zero => contradiction
  | succ i => rfl

/-- The link to the table of the small pages, read as one of them. -/
theorem Filled.query {s : Paging Rv64PTE FreeList} {count : Nat}
    (filled : Filled (newPage 0x200000 { write := true } true) s count)
    : s.query 0x1000 = .ok (0x201000, {}, .size4K) := by
  have index3 : p3Index 0x1000 = 0 := by decide
  have index2 : p2Index 0x1000 = 0 := by decide
  have index1 : p1Index 0x1000 = 1 := by decide
  have upper : isHuge (newTable 0x200000 : Rv64PTE) = false
      ∧ nextTableMut (newTable 0x200000 : Rv64PTE) = .ok 0x200000 := by
    decide
  have lower : isHuge (newPage 0x200000 { write := true } true : Rv64PTE) = false
      ∧ nextTableMut (newPage 0x200000 { write := true } true : Rv64PTE) = .ok 0x200000 := by
    decide
  have slot : s.getEntryMut 0x1000 = .ok (⟨0x200000, 1⟩, .size4K) := by
    simp [getEntryMut, entry, index3, index2, index1, filled.root, filled.middle, filled.first,
      upper, lower]
  have found : isUnused (newTable 0x201000 : Rv64PTE) = false
      ∧ paddr (newTable 0x201000 : Rv64PTE) = 0x201000
      ∧ flags (newTable 0x201000 : Rv64PTE) = {} := by
    decide
  have start : alignOffset 0x1000 PageSize.size4K.toUsize = 0 := by decide
  simp [Paging.query, slot, entry, filled.second, found, start]

/-- From a state with a huge page that reads as a link, the region is mapped both ways, and another
page has a different translation.
-/
theorem mapRegion_huge_changes_other_page
    : ∃ others s s₁ s₂,
        Reachable (fun _ _ => True) others (s : Paging Rv64PTE FreeList)
        ∧ s.mapRegion 0x200000 0x80000000 0x200000 { read := true } true = (.ok (), s₁)
        ∧ s.mapRegion 0x200000 0x80000000 0x200000 { read := true } false = (.ok (), s₂)
        ∧ withoutSize (s₁.query 0x1000) = .ok (0x80000000, { read := true })
        ∧ withoutSize (s₂.query 0x1000) = .ok (0x201000, {}) := by
  obtain ⟨others, reachable⟩ := selfLinked_reachable
  obtain ⟨first, filled⟩ := selfLinked_map
  obtain ⟨s₂, small, done⟩ := filled.mapRegion (by decide) first
  have huge : (selfLinked.mapRegion 0x200000 0x80000000 0x200000 { read := true } true).1
      = .ok () := by
    decide +kernel
  refine ⟨others, selfLinked, _, s₂, reachable, Prod.ext huge rfl, small, by decide +kernel, ?_⟩
  rw [done.query]
  rfl

end Paging

end RCoreOS.PageTable
