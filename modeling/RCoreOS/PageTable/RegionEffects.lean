import RCoreOS.PageTable.PageEffects

/-! The effect of the region operations. Inside one canonical half an aligned block is an
interval of addresses, and a region is tiled by the blocks of its pages.
-/

namespace RCoreOS.PageTable

open GenericPTE

/-- The addresses of the two halves of the Sv39 address space. -/
def Canonical (vaddr : Nat) : Prop :=
  vaddr < 2 ^ 38 ∨ (2 ^ 64 - 2 ^ 38 ≤ vaddr ∧ vaddr < 2 ^ 64)

/-- A range of addresses that lies inside one canonical half. -/
def InHalf (vaddr size : Nat) : Prop :=
  vaddr + size ≤ 2 ^ 38 ∨ (2 ^ 64 - 2 ^ 38 ≤ vaddr ∧ vaddr + size ≤ 2 ^ 64)

instance (vaddr : Nat) : Decidable (Canonical vaddr) :=
  inferInstanceAs (Decidable (_ ∨ _))

instance (vaddr size : Nat) : Decidable (InHalf vaddr size) :=
  inferInstanceAs (Decidable (_ ∨ _))

theorem InHalf.canonical {vaddr size va : Nat} (half : InHalf vaddr size)
    (lower : vaddr ≤ va) (upper : va < vaddr + size) : Canonical va := by
  unfold InHalf Canonical at *
  omega

/-- Inside a half, the start of the rest of a range does not wrap. -/
theorem InHalf.advance {vaddr size n : Nat} (half : InHalf vaddr size) (more : n < size)
    : wrapAdd vaddr n = vaddr + n ∧ InHalf (vaddr + n) (size - n) := by
  unfold InHalf at *
  refine ⟨wrapAdd_of_lt ?_, ?_⟩
  · unfold USIZE_RANGE
    omega
  · omega

/-- Among canonical addresses, an aligned block is the interval of its page. -/
theorem block_eq_iff (page : PageSize) {vaddr other : Nat}
    (aligned : vaddr % page.toUsize = 0) (canonical : Canonical vaddr)
    (canonical' : Canonical other)
    : block page other = block page vaddr
      ↔ vaddr ≤ other ∧ other < vaddr + page.toUsize := by
  unfold block vpn Canonical at *
  cases page <;> simp only [PageSize.toUsize, PageSize.height] at * <;> omega

/-- Every page size is a whole number of 4K pages. -/
theorem PageSize.toUsize_mod (page : PageSize) : page.toUsize % 4096 = 0 := by
  cases page <;> rfl

/-- A region whose addresses are shown as a sequence of aligned pages, each with property
`good` at its first address.
-/
inductive Tiled {PTE : Type} (shown : Nat → View PTE) (good : Nat → PTE → PageSize → Prop)
    : Nat → Nat → Prop
  | nil {vaddr} : Tiled shown good vaddr 0
  | cons {vaddr size} (e : PTE) (page : PageSize)
    (aligned : vaddr % page.toUsize = 0)
    (fits : page.toUsize ≤ size)
    (first : good vaddr e page)
    (here : ∀ va, vaddr ≤ va → va < vaddr + page.toUsize → shown va = .page e page)
    (rest : Tiled shown good (vaddr + page.toUsize) (size - page.toUsize))
    : Tiled shown good vaddr size

namespace Tiled

variable {PTE : Type} {shown : Nat → View PTE} {good : Nat → PTE → PageSize → Prop}
variable {vaddr size : Nat}

/-- Every address of a tiled region lies in one of its pages, by induction on the pages. -/
theorem page_of (tiled : Tiled shown good vaddr size) {va : Nat} (lower : vaddr ≤ va)
    (upper : va < vaddr + size)
    : ∃ e page start,
        shown va = .page e page
        ∧ good start e page
        ∧ start % page.toUsize = 0
        ∧ vaddr ≤ start ∧ start ≤ va ∧ va < start + page.toUsize
        ∧ start + page.toUsize ≤ vaddr + size := by
  induction tiled with
  | nil => omega
  | @cons vaddr size e page aligned fits first here rest ih =>
      by_cases inside : va < vaddr + page.toUsize
      · exact ⟨e, page, vaddr, here va lower inside, first, aligned, le_rfl, lower, inside,
          by omega⟩
      · obtain ⟨e', page', start, shown, good, aligned', above, start_le, lt, le⟩ :=
          ih (by omega) (by omega)
        exact ⟨e', page', start, shown, good, aligned', by omega, start_le, lt, by omega⟩

end Tiled

variable {PTE σ : Type} [GenericPTE PTE] [LawfulPTE PTE] [PagingIf σ] [LawfulPagingIf σ]

namespace Paging

variable {tight : Prop} {s s' : Paging PTE σ} {vaddr paddr size : Nat} {f : MappingFlags}

/-- An operation that keeps the invariant and stays within its footprint. -/
def Keeps (tight : Prop) (s s' : Paging PTE σ) : Prop :=
  ∃ after, Effect tight s s' after

omit [LawfulPTE PTE] in
theorem Keeps.refl (wf : s.WellFormed tight) : Keeps tight s s :=
  ⟨_, .refl wf⟩

omit [LawfulPTE PTE] in
theorem Keeps.trans {t : Paging PTE σ} (first : Keeps tight s t) (second : Keeps tight t s')
    : Keeps tight s s' := by
  obtain ⟨_, effect⟩ := first
  obtain ⟨after, effect'⟩ := second
  exact ⟨after, effect.trans effect'⟩

omit [LawfulPTE PTE] in
theorem Keeps.wellFormed (keeps : Keeps tight s s') : s'.WellFormed tight :=
  keeps.elim fun _ effect => effect.wellFormed

/-- The view changes only inside the region, where nothing was in view. -/
structure Fills (s s' : Paging PTE σ) (vaddr size : Nat) : Prop where
  outside : ∀ va, Canonical va → va < vaddr ∨ vaddr + size ≤ va → s'.view va = s.view va
  free : ∀ va, vaddr ≤ va → va < vaddr + size → s.view va = .unused

omit [LawfulPTE PTE] [PagingIf σ] [LawfulPagingIf σ] in
/-- Filling the first page of a region and then the rest fills the region. -/
theorem Fills.cons {t : Paging PTE σ} {page : PageSize} {inside : View PTE}
    (half : InHalf vaddr size) (aligned : vaddr % page.toUsize = 0) (fits : page.toUsize ≤ size)
    (free : ∀ other, block page other = block page vaddr → s.view other = .unused)
    (view : t.view = overwrite page vaddr inside s.view)
    (rest : Fills t s' (vaddr + page.toUsize) (size - page.toUsize))
    : Fills s s' vaddr size
      ∧ ∀ va, vaddr ≤ va → va < vaddr + page.toUsize → s'.view va = inside := by
  have positive := page.toUsize_pos
  have start : Canonical vaddr := half.canonical le_rfl (by omega)
  have isBlock {va} (canonical : Canonical va) := block_eq_iff _ aligned start canonical
  refine ⟨⟨fun va canonical away => ?_, fun va lower upper => ?_⟩, fun va lower upper => ?_⟩
  · rw [rest.outside va canonical (by omega), view, overwrite, if_neg]
    rw [isBlock canonical]
    omega
  · have canonical := half.canonical lower upper
    by_cases first : va < vaddr + page.toUsize
    · exact free va ((isBlock canonical).mpr ⟨lower, first⟩)
    · have kept := rest.free va (by omega) (by omega)
      rw [view, overwrite, if_neg] at kept
      · exact kept
      · rw [isBlock canonical]
        omega
  · have canonical := half.canonical lower (by omega)
    rw [rest.outside va canonical (by omega), view, overwrite, if_pos]
    exact (isBlock canonical).mpr ⟨lower, upper⟩

-----------------------------------------------------------------------------------------
-- Mapping a region
-----------------------------------------------------------------------------------------

/-- The next page of a region fits in it and is aligned on both sides. -/
theorem regionPageSize_spec {vaddr paddr size : Nat} (allowHuge : Bool)
    (alignedV : vaddr % 4096 = 0) (alignedP : paddr % 4096 = 0) (alignedS : size % 4096 = 0)
    (more : size ≠ 0)
    : vaddr % (regionPageSize vaddr paddr size allowHuge).toUsize = 0
      ∧ paddr % (regionPageSize vaddr paddr size allowHuge).toUsize = 0
      ∧ (regionPageSize vaddr paddr size allowHuge).toUsize ≤ size := by
  have small : vaddr % PageSize.size4K.toUsize = 0
      ∧ paddr % PageSize.size4K.toUsize = 0
      ∧ PageSize.size4K.toUsize ≤ size := by
    simp only [PageSize.toUsize]
    omega
  unfold regionPageSize
  simp only [Bool.and_eq_true, isAligned_page, decide_eq_true_eq]
  split
  · split
    · tauto
    · split
      · tauto
      · exact small
  · exact small

omit [LawfulPTE PTE] [LawfulPagingIf σ] in
/-- A region of one 4K page is mapped by one `map`. -/
theorem mapRegion_single (s : Paging PTE σ) (f : MappingFlags) (alignedV : vaddr % 4096 = 0)
    (alignedP : paddr % 4096 = 0)
    : s.mapRegion vaddr paddr 4096 f false = s.map vaddr paddr .size4K f := by
  have whole : isAligned 4096 PAGE_SIZE_4K = true := by decide
  have small : regionPageSize vaddr paddr 4096 false = .size4K := rfl
  rw [mapRegion, if_neg (by simp [alignedV, alignedP, whole]), mapRegionLoop,
    if_neg (by decide)]
  simp only [small]
  rcases s.map vaddr paddr .size4K f with ⟨_ | _, t⟩
  · rfl
  · dsimp only
    rw [mapRegionLoop, if_pos (by rfl)]

/-- The flags that a region may be mapped with: huge pages need those of a leaf. -/
def RegionFlags (f : MappingFlags) (allowHuge : Bool) : Prop :=
  allowHuge = false ∨ f.isLeaf = true

theorem RegionFlags.page {allowHuge : Bool} (leaf : RegionFlags f allowHuge)
    : regionPageSize vaddr paddr size allowHuge = .size4K ∨ f.isLeaf = true := by
  refine leaf.imp_left ?_
  rintro rfl
  rfl

/-- The map loop keeps the invariant, whatever its outcome, by induction on its turns. -/
theorem mapRegionLoop_keeps (wf : s.WellFormed tight) {allowHuge : Bool}
    (leaf : RegionFlags f allowHuge) {result : PagingResult Unit}
    (run : s.mapRegionLoop vaddr paddr size f allowHuge = (result, s'))
    : Keeps tight s s' := by
  fun_induction mapRegionLoop s vaddr paddr size f allowHuge with
  | case1 s vaddr paddr =>
      cases run
      exact .refl wf
  | case2 s vaddr paddr size more page e t mapped =>
      cases run
      exact ⟨_, map_effect wf leaf.page mapped⟩
  | case3 s vaddr paddr size more page t mapped ih =>
      have effect := (map_effect wf leaf.page mapped).2
      exact Keeps.trans ⟨_, effect⟩ (ih effect.wellFormed run)

/-- The page entries of a region: the physical address is at a fixed distance, modulo 2^64,
from the virtual one.
-/
def PageOf (distance : Nat) (f : MappingFlags) (vaddr : Nat) (e : PTE) (page : PageSize) : Prop :=
  e = newPage ((vaddr + distance) % USIZE_RANGE) f page.isHuge
    ∧ (vaddr + distance) % USIZE_RANGE % page.toUsize = 0

/-- A map loop that succeeds fills the region with pages, by induction on its turns: each
page is written once and not touched by later turns.
-/
theorem mapRegionLoop_ok (wf : s.WellFormed tight) {allowHuge : Bool} {distance : Nat}
    (leaf : RegionFlags f allowHuge) (half : InHalf vaddr size)
    (alignedV : vaddr % 4096 = 0) (alignedP : paddr % 4096 = 0) (alignedS : size % 4096 = 0)
    (apart : (vaddr + distance) % USIZE_RANGE = paddr)
    (run : s.mapRegionLoop vaddr paddr size f allowHuge = (.ok (), s'))
    : Tiled s'.view (PageOf distance f) vaddr size ∧ Fills s s' vaddr size := by
  fun_induction mapRegionLoop s vaddr paddr size f allowHuge with
  | case1 s vaddr paddr =>
      cases run
      exact ⟨.nil, fun _ _ _ => rfl, fun _ _ _ => by omega⟩
  | case2 s vaddr paddr size more page e t mapped => cases run
  | case3 s vaddr paddr size more page t mapped ih =>
      obtain ⟨alignedV', alignedP', fits⟩ :=
        regionPageSize_spec allowHuge alignedV alignedP alignedS more
      change vaddr % page.toUsize = 0 at alignedV'
      change paddr % page.toUsize = 0 at alignedP'
      change page.toUsize ≤ size at fits
      obtain ⟨free, effect⟩ := map_effect wf leaf.page mapped
      rw [alignDown_of_aligned alignedP'] at effect
      have whole := page.toUsize_mod
      have wholeRange : USIZE_RANGE % 4096 = 0 := rfl
      have paddrLt : paddr < USIZE_RANGE := by
        rw [← apart]
        exact Nat.mod_lt _ (by decide)
      have tail : Tiled s'.view (PageOf distance f) (vaddr + page.toUsize) (size - page.toUsize)
          ∧ Fills t s' (vaddr + page.toUsize) (size - page.toUsize) := by
        by_cases last : size = page.toUsize
        · rw [last, Nat.sub_self, mapRegionLoop, if_pos rfl] at run
          cases run
          rw [last, Nat.sub_self]
          exact ⟨.nil, fun _ _ _ => rfl, fun _ _ _ => by omega⟩
        · obtain ⟨inRange, half'⟩ := half.advance (n := page.toUsize) (by omega)
          rw [inRange] at ih run
          refine ih effect.wellFormed half' (by omega) ?_ (by omega) ?_ run
          · unfold wrapAdd USIZE_RANGE at *
            omega
          · rw [← apart, wrapAdd, Nat.mod_add_mod]
            congr 1
            omega
      obtain ⟨fills, here⟩ := Fills.cons half alignedV' fits free effect.view_eq tail.2
      refine ⟨.cons _ page alignedV' fits ⟨?_, ?_⟩ here tail.1, fills⟩
      · rw [apart]
      · rwa [apart]

/-- A region of 4K pages can be mapped where nothing is in view, unless memory runs out. -/
theorem mapRegionLoop_error (wf : s.WellFormed tight) (half : InHalf vaddr size)
    (alignedV : vaddr % 4096 = 0) (alignedS : size % 4096 = 0)
    (free : ∀ va, vaddr ≤ va → va < vaddr + size → s.view va = .unused) {e : PagingError}
    (run : s.mapRegionLoop vaddr paddr size f false = (.error e, s'))
    : e = .noMemory := by
  fun_induction mapRegionLoop s vaddr paddr size f false with
  | case1 s vaddr paddr => cases run
  | case2 s vaddr paddr size more page e' t mapped =>
      cases run
      exact map_error wf (free vaddr le_rfl (by omega)) mapped
  | case3 s vaddr paddr size more page t mapped ih =>
      have small : page.toUsize = 4096 := rfl
      obtain ⟨-, effect⟩ := map_effect wf (.inl rfl) mapped
      by_cases last : size = 4096
      · rw [last, small, Nat.sub_self, mapRegionLoop, if_pos rfl] at run
        cases run
      · obtain ⟨inRange, half'⟩ := half.advance (n := 4096) (by omega)
        rw [small, inRange] at ih run
        refine ih effect.wellFormed half' (by omega) (by omega) (fun va lower upper => ?_) run
        have isBlock := block_eq_iff .size4K alignedV
          (half.canonical le_rfl (by omega)) (half.canonical (by omega : vaddr ≤ va) (by omega))
        have away : ¬ (vaddr ≤ va ∧ va < vaddr + PageSize.size4K.toUsize) := by
          simp only [PageSize.toUsize]
          omega
        rw [effect.view, overwrite, if_neg (isBlock.not.mpr away)]
        exact free va (by omega) (by omega)

/-- `mapRegion` keeps the invariant, whatever its outcome. -/
theorem mapRegion_keeps (wf : s.WellFormed tight) {allowHuge : Bool}
    (leaf : RegionFlags f allowHuge) {result : PagingResult Unit}
    (run : s.mapRegion vaddr paddr size f allowHuge = (result, s'))
    : Keeps tight s s' := by
  unfold mapRegion at run
  split at run
  · cases run
    exact .refl wf
  · exact mapRegionLoop_keeps wf leaf run

omit [LawfulPTE PTE] [LawfulPagingIf σ] in
/-- A region that is mapped is aligned, and was filled by the map loop. -/
theorem mapRegion_ok {allowHuge : Bool}
    (run : s.mapRegion vaddr paddr size f allowHuge = (.ok (), s'))
    : vaddr % 4096 = 0 ∧ paddr % 4096 = 0 ∧ size % 4096 = 0
      ∧ s.mapRegionLoop vaddr paddr size f allowHuge = (.ok (), s') := by
  unfold mapRegion at run
  split at run
  · cases run
  · rename_i aligned
    simp only [Bool.or_eq_true, Bool.not_eq_true', not_or, Bool.not_eq_false,
      isAligned_4k] at aligned
    exact ⟨aligned.1.1, aligned.1.2, aligned.2, run⟩

-----------------------------------------------------------------------------------------
-- Mapping a region of fault pages
-----------------------------------------------------------------------------------------

theorem mapFaultRegionLoop_keeps (wf : s.WellFormed tight) {result : PagingResult Unit}
    (run : s.mapFaultRegionLoop vaddr size f = (result, s'))
    : Keeps tight s s' := by
  fun_induction mapFaultRegionLoop s vaddr size f with
  | case1 s vaddr =>
      cases run
      exact .refl wf
  | case2 s vaddr size more e t mapped =>
      cases run
      exact ⟨_, mapFault_effect wf mapped⟩
  | case3 s vaddr size more t mapped ih =>
      have effect := (mapFault_effect wf mapped).2
      exact Keeps.trans ⟨_, effect⟩ (ih effect.wellFormed run)

/-- A region is mapped to its end only where nothing was in view, also when it is so long that its
addresses wrap and come back to the same blocks; by induction on the turns of the loop.
-/
theorem mapFaultRegionLoop_free (wf : s.WellFormed tight)
    (run : s.mapFaultRegionLoop vaddr size f = (.ok (), s')) {other i : Nat}
    (inside : 4096 * i < size)
    (same : block .size4K other = block .size4K (vaddr + 4096 * i))
    : s.view other = .unused := by
  fun_induction mapFaultRegionLoop s vaddr size f generalizing i with
  | case1 s vaddr => omega
  | case2 s vaddr size more e t mapped => cases run
  | case3 s vaddr size more t mapped ih =>
      obtain ⟨free, effect⟩ := mapFault_effect wf mapped
      by_cases here : block .size4K other = block .size4K vaddr
      · exact free other here
      · obtain ⟨j, rfl⟩ : ∃ j, i = j + 1 := by
          refine ⟨i - 1, (Nat.succ_pred fun zero => here ?_).symm⟩
          rw [same, zero, Nat.mul_zero, Nat.add_zero]
        have next : block .size4K (wrapAdd vaddr PageSize.size4K.toUsize + 4096 * j)
            = block .size4K (vaddr + 4096 * (j + 1)) := by
          simp only [block, vpn, wrapAdd, USIZE_RANGE, PageSize.toUsize, PageSize.height]
          omega
        have later := ih effect.wellFormed run (i := j)
          (by simp only [PageSize.toUsize]; omega) (same.trans next.symm)
        rwa [effect.view, overwrite, if_neg here] at later

theorem mapFaultRegion_keeps (wf : s.WellFormed tight) {result : PagingResult Unit}
    (run : s.mapFaultRegion vaddr size f = (result, s'))
    : Keeps tight s s' := by
  unfold mapFaultRegion at run
  split at run
  · cases run
    exact .refl wf
  · exact mapFaultRegionLoop_keeps wf run

-----------------------------------------------------------------------------------------
-- Unmapping a region
-----------------------------------------------------------------------------------------

/-- The unmap loop keeps the invariant, also when it stops on an error or an assertion. -/
theorem unmapRegion_keeps (wf : s.WellFormed tight) {result : Except (Stop PagingError) Unit}
    (run : s.unmapRegion vaddr size = (result, s'))
    : Keeps tight s s' := by
  fun_induction unmapRegion s vaddr size with
  | case1 s vaddr =>
      cases run
      exact .refl wf
  | case2 s vaddr size more e t unmapped =>
      cases run
      rw [(unmap_effect wf unmapped).1]
      exact .refl wf
  | case3 s vaddr size more p page t unmapped misaligned =>
      cases run
      obtain ⟨_, -, -, effect⟩ := unmap_effect wf unmapped
      exact ⟨_, effect⟩
  | case4 s vaddr size more p page t unmapped aligned long =>
      cases run
      obtain ⟨_, -, -, effect⟩ := unmap_effect wf unmapped
      exact ⟨_, effect⟩
  | case5 s vaddr size more p page t unmapped aligned fits ih =>
      obtain ⟨_, -, -, effect⟩ := unmap_effect wf unmapped
      exact Keeps.trans ⟨_, effect⟩ (ih effect.wellFormed run)

omit [LawfulPTE PTE] [PagingIf σ] [LawfulPagingIf σ] in
/-- A region of one 4K page is unmapped by one `unmap`. -/
theorem unmapRegion_single {p : Nat} (alignedV : vaddr % 4096 = 0)
    (unmapped : s.unmap vaddr = (.ok (p, .size4K), s'))
    : s.unmapRegion vaddr 4096 = (.ok (), s') := by
  have aligned : isAligned vaddr PageSize.size4K.toUsize = true :=
    (isAligned_page vaddr .size4K).mpr alignedV
  have fits : decide (PageSize.size4K.toUsize ≤ 4096) = true := rfl
  rw [unmapRegion, if_neg (by decide), unmapped]
  simp only [aligned, fits, Bool.not_true, Bool.false_eq_true, if_false]
  rw [unmapRegion, if_pos (by rfl)]

/-- Unmapping a tiled region succeeds and leaves nothing in view there, by induction on the
pages: the loop reads back the size of each page it unmaps.
-/
theorem unmapRegion_tiled (wf : s.WellFormed tight) (half : InHalf vaddr size)
    {shown : Nat → View PTE} {good : Nat → PTE → PageSize → Prop}
    (tiled : Tiled shown good vaddr size)
    (same : ∀ va, vaddr ≤ va → va < vaddr + size → s.view va = shown va)
    : ∃ s',
        s.unmapRegion vaddr size = (.ok (), s')
        ∧ Keeps tight s s'
        ∧ Fills s' s vaddr size := by
  induction tiled generalizing s with
  | nil =>
      refine ⟨s, ?_, .refl wf, fun _ _ _ => rfl, fun _ _ _ => by omega⟩
      rw [unmapRegion, if_pos rfl]
  | @cons vaddr size e page aligned fits first here rest ih =>
      have positive := page.toUsize_pos
      have start := half.canonical le_rfl (by omega)
      have isBlock {va} (canonical : Canonical va) := block_eq_iff _ aligned start canonical
      rcases unmapped : s.unmap vaddr with ⟨result, t⟩
      have effect := unmap_effect wf unmapped
      rw [same vaddr le_rfl (by omega), here vaddr le_rfl (by omega)] at effect
      cases result with
      | error e' => exact absurd rfl (effect.2 e page)
      | ok found =>
          obtain ⟨p, page'⟩ := found
          obtain ⟨e', shown, -, effect⟩ := effect
          obtain ⟨rfl, rfl⟩ := View.page.inj shown
          have cleared {va} (lower : vaddr ≤ va) (upper : va < vaddr + page.toUsize)
              : t.view va = .unused := by
            have canonical := half.canonical lower (by omega)
            rw [effect.view, overwrite, if_pos ((isBlock canonical).mpr ⟨lower, upper⟩)]
          have apart {va} (canonical : Canonical va)
              (away : va < vaddr ∨ vaddr + page.toUsize ≤ va) : t.view va = s.view va := by
            rw [effect.view, overwrite, if_neg]
            rw [isBlock canonical]
            omega
          have stepped : s.unmapRegion vaddr size
              = t.unmapRegion (wrapAdd vaddr page.toUsize) (size - page.toUsize) := by
            rw [unmapRegion, if_neg (by omega), unmapped]
            simp [aligned, fits]
          rw [stepped]
          by_cases last : size = page.toUsize
          · refine ⟨t, ?_, ⟨_, effect⟩, fun va canonical away => ?_, fun va lower upper => ?_⟩
            · rw [last, Nat.sub_self, unmapRegion, if_pos rfl]
            · exact (apart canonical (by omega)).symm
            · exact cleared lower (by omega)
          · obtain ⟨inRange, half'⟩ := half.advance (n := page.toUsize) (by omega)
            obtain ⟨s', run, keeps, fills⟩ := ih effect.wellFormed half' fun va lower upper => by
              rw [apart (half.canonical (by omega : vaddr ≤ va) (by omega)) (by omega)]
              exact same va (by omega) (by omega)
            rw [inRange]
            refine ⟨s', run, Keeps.trans ⟨_, effect⟩ keeps, fun va canonical away => ?_,
              fun va lower upper => ?_⟩
            · rw [← fills.outside va canonical (by omega)]
              exact (apart canonical (by omega)).symm
            · by_cases inside : va < vaddr + page.toUsize
              · rw [← fills.outside va (half.canonical lower upper) (by omega)]
                exact cleared lower inside
              · exact fills.free va (by omega) (by omega)

-----------------------------------------------------------------------------------------
-- Updating a region
-----------------------------------------------------------------------------------------

/-- A region of whole 4K pages, none of which is part of a larger page. -/
structure SmallPages (s : Paging PTE σ) (vaddr size : Nat) : Prop where
  aligned : vaddr % 4096 = 0 ∧ size % 4096 = 0
  inRange : vaddr + size < USIZE_RANGE
  small
    : ∀ va e page,
        vaddr ≤ va → va < vaddr + size → s.view va = .page e page → page = .size4K

/-- A single update keeps the invariant, and all pages keep their sizes. -/
theorem update_keeps (wf : s.WellFormed tight) {newPaddr : Option Nat}
    {newFlags : Option MappingFlags}
    (leaf : ∀ e page, s.view vaddr = .page e page → UpdateFlags page newFlags)
    {result : PagingResult PageSize} (run : s.update vaddr newPaddr newFlags = (result, s'))
    : Keeps tight s s'
      ∧ (∀ page, result = .ok page → page = .size4K ∨ ∃ e, s.view vaddr = .page e page)
      ∧ ∀ va e page, s'.view va = .page e page → ∃ e', s.view va = .page e' page := by
  by_cases shown : ∃ e page, s.view vaddr = .page e page
  · obtain ⟨e, page, shown⟩ := shown
    obtain ⟨rfl, effect⟩ := update_effect wf shown (leaf e page shown) run
    split at effect
    · rw [effect]
      exact ⟨.refl wf, fun _ eq => .inr ⟨e, by rwa [← Except.ok.inj eq]⟩,
        fun va e page shown => ⟨e, shown⟩⟩
    · refine ⟨⟨_, effect⟩, fun _ eq => .inr ⟨e, by rwa [← Except.ok.inj eq]⟩, ?_⟩
      intro va e' page' shown'
      rw [effect.view, overwrite] at shown'
      split at shown'
      · rename_i same
        refine ⟨e, ?_⟩
        rw [view_same_block shown same]
        unfold leafView at shown'
        split at shown'
        · cases shown'
        · split at shown'
          · cases shown'
            rfl
          · cases shown'
      · exact ⟨e', shown'⟩
  · simp only [not_exists] at shown
    obtain ⟨rfl, small⟩ := update_of_no_page shown run
    exact ⟨.refl wf, fun page eq => .inl (small page eq), fun va e page shown => ⟨e, shown⟩⟩

/-- The update loop keeps the invariant, by induction on its turns: it is given the flags of
a leaf, or it meets small pages only.
-/
theorem updateRegionLoop_keeps (turns : Nat) (wf : s.WellFormed tight) {stop : Nat}
    (leaf : f.isLeaf = true
      ∨ vaddr % 4096 = 0 ∧ stop % 4096 = 0 ∧ stop < USIZE_RANGE
        ∧ ∀ va e page, vaddr ≤ va → va < stop → s.view va = .page e page → page = .size4K)
    {result : PagingResult Unit}
    (run : updateRegionLoop turns s vaddr stop f = some (result, s'))
    : Keeps tight s s' := by
  induction turns generalizing s vaddr with
  | zero => cases run
  | succ turns ih =>
      rw [updateRegionLoop] at run
      split at run
      · rename_i more
        have allowed : ∀ e page, s.view vaddr = .page e page → UpdateFlags page (some f) := by
          intro e page shown g eq
          cases eq
          rcases leaf with leaf | ⟨-, -, -, small⟩
          · exact .inr leaf
          · exact .inl (small vaddr e page le_rfl more shown)
        split at run
        · rename_i e t updated
          cases run
          exact (update_keeps wf allowed updated).1
        · rename_i page t updated
          obtain ⟨keeps, size, old⟩ := update_keeps wf allowed updated
          refine keeps.trans (ih keeps.wellFormed (leaf.imp_right ?_) run)
          rintro ⟨alignedV, alignedS, inRange, small⟩
          obtain rfl : page = .size4K := by
            rcases size page rfl with small4K | ⟨e, shown⟩
            · exact small4K
            · exact small vaddr e page le_rfl more shown
          have next : wrapAdd vaddr PageSize.size4K.toUsize = vaddr + 4096 := by
            apply wrapAdd_of_lt
            simp only [PageSize.toUsize]
            omega
          rw [next]
          refine ⟨by omega, alignedS, inRange, fun va e page lower upper shown => ?_⟩
          obtain ⟨e', shown'⟩ := old va e page shown
          exact small va e' page (by omega) upper shown'
      · cases run
        exact .refl wf

theorem updateRegion_keeps (wf : s.WellFormed tight)
    (leaf : f.isLeaf = true ∨ s.SmallPages vaddr size) {result : PagingResult Unit}
    (run : s.updateRegion vaddr size f = some (result, s'))
    : Keeps tight s s' := by
  refine updateRegionLoop_keeps _ wf (leaf.imp_right fun pages => ?_) run
  obtain ⟨⟨alignedV, alignedS⟩, inRange, small⟩ := pages
  rw [wrapAdd_of_lt inRange]
  exact ⟨alignedV, by omega, inRange, small⟩

end Paging

end RCoreOS.PageTable
