import RCoreOS.Axmem.MapArea
import Mathlib.Data.List.Perm.Basic

/-! The agreement between the areas of a memory set and its page table: every slot shows as a
page or as a fault page, and nothing else is in view in user memory. Frames of loaded pages
are owned by one slot each and are no page tables.
-/

namespace RCoreOS.Axmem

open PageTable GenericPTE Outcome
open PageTable.Paging (Rewrites Keeps SameTables OrNoMemory Whole)

-----------------------------------------------------------------------------------------
-- Areas
-----------------------------------------------------------------------------------------

theorem PhysPage.frameAddr {page : PhysPage} (linear : Linear page.startVaddr)
    : FrameAddr page.paddr ∧ page.paddr ≠ 0 :=
  linear.frame

namespace MapArea

/-- The end of the area, which does not wrap in user memory. -/
def stop (area : MapArea) : Nat :=
  area.vaddr + 4096 * area.pages.length

/-- The frames of the loaded pages. -/
def frames (area : MapArea) : List Nat :=
  area.pages.reduceOption.map PhysPage.paddr

/-- The area has no address in common with [start, stop). -/
def Away (start stop : Nat) (area : MapArea) : Prop :=
  area.stop ≤ start ∨ stop ≤ area.vaddr

def Apart (a b : MapArea) : Prop :=
  a.Away b.vaddr b.stop

/-- An area of whole pages in user memory. -/
structure Shaped (area : MapArea) : Prop where
  aligned : area.vaddr % 4096 = 0
  nonempty : area.pages ≠ []
  below : area.stop ≤ 2 ^ 38
  linear : ∀ page, some page ∈ area.pages → Linear page.startVaddr

/-- An area of whole pages, wherever it lies and however it can be accessed: no address
arithmetic wraps in the lower half of the address space.
-/
structure Placed (area : MapArea) : Prop where
  aligned : area.vaddr % 4096 = 0
  nonempty : area.pages ≠ []
  below : area.stop < 2 ^ 63

theorem Apart.symm {a b : MapArea} (apart : Apart a b) : Apart b a :=
  Or.symm apart

theorem Shaped.placed {area : MapArea} (shaped : area.Shaped) : area.Placed :=
  ⟨shaped.aligned, shaped.nonempty, shaped.below.trans_lt (by decide)⟩

theorem Placed.lt_stop {area : MapArea} (placed : area.Placed) : area.vaddr < area.stop := by
  have := List.length_pos_of_ne_nil placed.nonempty
  unfold stop
  omega

theorem size_eq (area : MapArea) : area.size = 4096 * area.pages.length :=
  Nat.mul_comm ..

theorem stop_eq (area : MapArea) : area.stop = area.vaddr + area.size := by
  rw [stop, size_eq]

theorem Placed.endVa {area : MapArea} (placed : area.Placed) : area.endVa = area.stop := by
  have := placed.below
  rw [stop_eq] at *
  exact wrapAdd_of_lt (by unfold USIZE_RANGE; omega)

theorem Shaped.whole {area : MapArea} (shaped : area.Shaped)
    : Whole area.vaddr area.size := by
  refine ⟨.inl (area.stop_eq ▸ shaped.below), shaped.aligned, ?_⟩
  rw [size_eq]
  omega

/-- Areas that are apart start at different addresses. -/
theorem Apart.vaddr_ne {a b : MapArea} (apart : Apart a b) (placedA : a.Placed)
    (placedB : b.Placed)
    : a.vaddr ≠ b.vaddr := by
  have := placedA.lt_stop
  have := placedB.lt_stop
  unfold Apart Away at apart
  omega

end MapArea

-----------------------------------------------------------------------------------------
-- Areas and the page table
-----------------------------------------------------------------------------------------

section Laid

variable {PTE σ : Type} [GenericPTE PTE] [LawfulPTE PTE] [PagingIf σ] [LawfulPagingIf σ]
variable {s s' : Paging PTE σ} {area : MapArea} {areas rest : List MapArea}

/-- What is in view for a slot of an area with the given flags. A fault page may keep the
flags of an earlier time.
-/
def SlotShown (flags : MappingFlags) : Option PhysPage → View PTE → Prop
  | some page, view => view = .page (newPage page.paddr flags false) .size4K
  | none, view => ∃ f, view = .page (newFaultPage f false) .size4K

/-- Every slot of the area is shown at all addresses of its page. -/
def Shown (s : Paging PTE σ) (area : MapArea) : Prop :=
  ∀ i slot,
    area.pages[i]? = some slot
    → ∀ va,
      area.vaddr + 4096 * i ≤ va
      → va < area.vaddr + 4096 * (i + 1)
      → SlotShown area.flags slot (s.view va)

/-- The areas are apart, they are shown, and nothing else is in view in user memory. -/
structure Laid (s : Paging PTE σ) (areas : List MapArea) : Prop where
  tables : s.WellFormed True
  shaped : ∀ area ∈ areas, area.Shaped
  apart : areas.Pairwise MapArea.Apart
  shown : ∀ area ∈ areas, Shown s area
  free : ∀ va, va < 2 ^ 38 → (∀ area ∈ areas, area.Away va (va + 1)) → s.view va = .unused

omit [LawfulPTE PTE] in
theorem Laid.perm (laid : Laid s areas) {areas' : List MapArea} (perm : areas.Perm areas')
    : Laid s areas' where
  tables := laid.tables
  shaped area member := laid.shaped area (perm.mem_iff.mpr member)
  apart := (perm.pairwise_iff MapArea.Apart.symm).mp laid.apart
  shown area member := laid.shown area (perm.mem_iff.mpr member)
  free va below away := laid.free va below fun area member => away area (perm.mem_iff.mp member)

omit [LawfulPTE PTE] [PagingIf σ] [LawfulPagingIf σ] in
/-- A slot is shown as long as the view of its area stays as it is. -/
theorem Shown.of_view_eq (shown : Shown s area)
    (same : ∀ va, area.vaddr ≤ va → va < area.stop → s'.view va = s.view va)
    : Shown s' area := by
  intro i slot found va lower upper
  have inside := (List.getElem?_eq_some_iff.mp found).1
  rw [same va (by omega) (by unfold MapArea.stop; omega)]
  exact shown i slot found va lower upper

/-- The agreement only concerns the frames of the page table. -/
theorem Laid.elsewhere (laid : Laid s areas) (same : SameTables s s') : Laid s' areas where
  tables := same.wellFormed laid.tables
  shaped := laid.shaped
  apart := laid.apart
  shown area member :=
    (laid.shown area member).of_view_eq fun va _ _ => same.view laid.tables va
  free va below away := (same.view laid.tables va).trans (laid.free va below away)

omit [LawfulPTE PTE] in
/-- Rewriting a region that covers some areas and is away from the others replaces the former
by the areas that the region shows afterwards.
-/
theorem Laid.replace (old new : List MapArea) {start size : Nat} {inside : Nat → View PTE}
    (laid : Laid s (old ++ rest))
    (rewrites : Rewrites True s s' start size inside)
    (covered : ∀ area ∈ old, start ≤ area.vaddr ∧ area.stop ≤ start + size)
    (clear : ∀ area ∈ rest, area.Away start (start + size))
    (shaped : ∀ area ∈ new, area.Shaped)
    (fits : ∀ area ∈ new, start ≤ area.vaddr ∧ area.stop ≤ start + size)
    (apart : new.Pairwise MapArea.Apart)
    (shown : ∀ area ∈ new, Shown s' area)
    (free : ∀ va,
      start ≤ va
      → va < start + size
      → (∀ area ∈ new, area.Away va (va + 1))
      → s'.view va = .unused)
    : Laid s' (new ++ rest) where
  tables := rewrites.keeps.wellFormed
  shaped area member := by
    rcases List.mem_append.mp member with isNew | isRest
    · exact shaped area isNew
    · exact laid.shaped area (List.mem_append_right old isRest)
  apart := by
    refine List.pairwise_append.mpr ⟨apart, (List.pairwise_append.mp laid.apart).2.1, ?_⟩
    intro a isNew b isRest
    have within := fits a isNew
    have away := clear b isRest
    unfold MapArea.Apart MapArea.Away at *
    omega
  shown area member := by
    rcases List.mem_append.mp member with isNew | isRest
    · exact shown area isNew
    · have bound := (laid.shaped area (List.mem_append_right old isRest)).below
      have away := clear area isRest
      refine (laid.shown area (List.mem_append_right old isRest)).of_view_eq ?_
      intro va lower upper
      refine rewrites.outside va (.inl (by omega)) ?_
      unfold MapArea.Away at away
      omega
  free va bound away := by
    by_cases within : start ≤ va ∧ va < start + size
    · exact free va within.1 within.2 fun area isNew =>
        away area (List.mem_append_left rest isNew)
    · rw [rewrites.outside va (.inl bound) (by omega)]
      refine laid.free va bound fun area member => ?_
      rcases List.mem_append.mp member with isOld | isRest
      · have within := covered area isOld
        unfold MapArea.Away
        omega
      · exact away area (List.mem_append_right new isRest)

omit [LawfulPTE PTE] in
/-- An area is away from the addresses of the others. -/
theorem Laid.clear (laid : Laid s (area :: rest))
    : ∀ other ∈ rest, other.Away area.vaddr area.stop :=
  fun other member => ((List.pairwise_cons.mp laid.apart).1 other member).symm

omit [LawfulPTE PTE] [PagingIf σ] [LawfulPagingIf σ] in
theorem SlotShown.page {flags : MappingFlags} {slot : Option PhysPage} {view : View PTE}
    (shown : SlotShown flags slot view)
    : ∃ e, view = .page e .size4K := by
  cases slot with
  | some page => exact ⟨_, shown⟩
  | none => exact shown.elim fun f fault => ⟨_, fault⟩

/-- The slot of an address inside an area. -/
theorem MapArea.slot_of_mem {va : Nat} (lower : area.vaddr ≤ va) (upper : va < area.stop)
    : ∃ i slot,
        area.pages[i]? = some slot
        ∧ area.vaddr + 4096 * i ≤ va
        ∧ va < area.vaddr + 4096 * (i + 1) := by
  unfold MapArea.stop at upper
  have index : (va - area.vaddr) / 4096 < area.pages.length := by omega
  exact ⟨_, _, List.getElem?_eq_getElem index, by omega, by omega⟩

/-- The addresses of a slot's page lie in the area. -/
theorem MapArea.mem_of_slot {i va : Nat} {slot : Option PhysPage} (area : MapArea)
    (found : area.pages[i]? = some slot) (lower : area.vaddr + 4096 * i ≤ va)
    (upper : va < area.vaddr + 4096 * (i + 1))
    : area.vaddr ≤ va ∧ va < area.stop := by
  have := (List.getElem?_eq_some_iff.mp found).1
  have : 4096 * (i + 1) ≤ 4096 * area.pages.length := Nat.mul_le_mul_left 4096 this
  unfold MapArea.stop
  omega

/-- Different pages have no address in common. -/
theorem page_apart {start i j va : Nat} (ne : j ≠ i) (lower : start + 4096 * j ≤ va)
    (upper : va < start + 4096 * (j + 1))
    : va < start + 4096 * i ∨ start + 4096 * i + 4096 ≤ va := by
  rcases Nat.lt_or_gt_of_ne ne with before | after
  · have : 4096 * (j + 1) ≤ 4096 * i := Nat.mul_le_mul_left 4096 before
    exact .inl (by omega)
  · have : 4096 * (i + 1) ≤ 4096 * j := Nat.mul_le_mul_left 4096 after
    exact .inr (by omega)

omit [LawfulPTE PTE] [PagingIf σ] [LawfulPagingIf σ] in
/-- Small pages are in view in a shown area. -/
theorem Shown.small (shown : Shown s area) : s.Small area.vaddr area.size := by
  intro va lower upper
  obtain ⟨i, slot, found, lower', upper'⟩ := MapArea.slot_of_mem lower (area.stop_eq ▸ upper)
  exact (shown i slot found va lower' upper').page

omit [LawfulPTE PTE] [PagingIf σ] [LawfulPagingIf σ] in
/-- A list of pages is shown when its two parts are. -/
theorem shown_append {left right : List (Option PhysPage)}
    : Shown s { area with pages := left ++ right }
      ↔ Shown s { area with pages := left }
        ∧ Shown s { area with pages := right, vaddr := area.vaddr + 4096 * left.length } := by
  have offset (n i : Nat) : area.vaddr + 4096 * (n + i) = area.vaddr + 4096 * n + 4096 * i := by
    rw [Nat.mul_add, Nat.add_assoc]
  constructor
  · refine fun shown => ⟨fun i slot found => ?_, fun i slot found va lower upper => ?_⟩
    · have inside := (List.getElem?_eq_some_iff.mp found).1
      exact shown i slot (by rw [List.getElem?_append_left inside]; exact found)
    · refine shown (left.length + i) slot ?_ va ?_ ?_
      · dsimp only at found ⊢
        rw [List.getElem?_append_right (by omega), Nat.add_sub_cancel_left]
        exact found
      · exact (offset left.length i).symm ▸ lower
      · exact (offset left.length (i + 1)).symm ▸ upper
  · rintro ⟨shownLeft, shownRight⟩ i slot found va lower upper
    dsimp only at lower upper found
    by_cases inside : i < left.length
    · rw [List.getElem?_append_left inside] at found
      exact shownLeft i slot found va lower upper
    · rw [List.getElem?_append_right (by omega)] at found
      obtain ⟨j, rfl⟩ : ∃ j, i = left.length + j := ⟨i - left.length, by omega⟩
      rw [Nat.add_sub_cancel_left] at found
      refine shownRight j slot found va ?_ ?_
      · exact offset left.length j ▸ lower
      · exact offset left.length (j + 1) ▸ upper

-----------------------------------------------------------------------------------------
-- What one page table operation does to the agreement
-----------------------------------------------------------------------------------------

omit [LawfulPTE PTE] in
/-- Cutting an area in two changes nothing in the page table. -/
theorem Laid.cut {left right : List (Option PhysPage)} (backend : Option MemBackend)
    (laid : Laid s ({ area with pages := left ++ right } :: rest)) (more : left ≠ [])
    (more' : right ≠ [])
    : Laid s ({ area with pages := left }
        :: { area with pages := right, vaddr := area.vaddr + 4096 * left.length, backend }
        :: rest) := by
  have shaped := laid.shaped _ (List.mem_cons_self ..)
  have total : area.vaddr + 4096 * left.length + 4096 * right.length
      = MapArea.stop { area with pages := left ++ right } := by
    simp only [MapArea.stop, List.length_append, Nat.mul_add, Nat.add_assoc]
  have below := shaped.below
  have first := List.length_pos_of_ne_nil more
  have second := List.length_pos_of_ne_nil more'
  obtain ⟨shownLeft, shownRight⟩ := shown_append.mp (laid.shown _ (List.mem_cons_self ..))
  have same : Rewrites True s s area.vaddr (4096 * left.length + 4096 * right.length) s.view :=
    (Rewrites.nil laid.tables area.vaddr s.view).widen (Nat.le_refl _) (by omega)
  refine laid.replace [{ area with pages := left ++ right }] [_, _] same
    ?_ ?_ ?_ ?_ ?_ ?_ ?_
  · intro a member
    rw [List.mem_singleton.mp member, ← total, Nat.add_assoc]
    exact ⟨Nat.le_refl _, Nat.le_refl _⟩
  · rw [← Nat.add_assoc, total]
    exact laid.clear
  · rintro a (_ | ⟨_, _ | ⟨_, ⟨⟩⟩⟩)
    · refine ⟨shaped.aligned, more, ?_, fun page member =>
        shaped.linear page (List.mem_append_left right member)⟩
      unfold MapArea.stop
      dsimp only
      omega
    · refine ⟨?_, more', ?_, fun page member =>
        shaped.linear page (List.mem_append_right left member)⟩
      · have := shaped.aligned
        dsimp only at *
        omega
      · exact total.trans_le below
  · rintro a (_ | ⟨_, _ | ⟨_, ⟨⟩⟩⟩)
    · refine ⟨Nat.le_refl _, ?_⟩
      unfold MapArea.stop
      dsimp only
      omega
    · refine ⟨by dsimp only; omega, ?_⟩
      unfold MapArea.stop
      dsimp only
      omega
  · refine List.pairwise_pair.mpr (.inl (Nat.le_refl _))
  · rintro a (_ | ⟨_, _ | ⟨_, ⟨⟩⟩⟩)
    · exact shownLeft
    · exact shownRight
  · intro va lower upper away
    have awayLeft := away _ (List.mem_cons_self ..)
    have awayRight := away _ (List.mem_cons_of_mem _ (List.mem_cons_self ..))
    unfold MapArea.Away MapArea.stop at awayLeft awayRight
    dsimp only at awayLeft awayRight
    omega

/-- Unmapping an area. -/
theorem Laid.unmapRegion (laid : Laid s (area :: rest))
    : ∃ s', s.unmapRegion area.vaddr area.size = (.ok (), s') ∧ Keeps True s s' ∧ Laid s' rest := by
  have shaped := laid.shaped area (List.mem_cons_self ..)
  obtain ⟨s', run, rewrites⟩ := Paging.unmapRegion_rewrites laid.tables shaped.whole
    (laid.shown area (List.mem_cons_self ..)).small
  refine ⟨s', run, rewrites.keeps, ?_⟩
  refine laid.replace [area] [] rewrites ?_
    (area.stop_eq ▸ laid.clear) (List.forall_mem_nil _) (List.forall_mem_nil _) .nil
    (List.forall_mem_nil _) ?_
  · intro a member
    rw [List.mem_singleton.mp member, area.stop_eq]
    exact ⟨Nat.le_refl _, Nat.le_refl _⟩
  · exact fun va lower upper _ => rewrites.inside va lower upper

omit [LawfulPTE PTE] in
/-- An area becomes one of the same extent whose slots the page table shows afterwards. -/
theorem Laid.change {area' : MapArea} {start size : Nat} {inside : Nat → View PTE}
    (laid : Laid s (area :: rest))
    (rewrites : Rewrites True s s' start size inside)
    (lower : area.vaddr ≤ start)
    (upper : start + size ≤ area.stop)
    (shaped : area'.Shaped)
    (sameStart : area'.vaddr = area.vaddr)
    (sameStop : area'.stop = area.stop)
    (shown : Shown s' area')
    : Laid s' (area' :: rest) := by
  refine laid.replace [area] [area']
    (rewrites.widen lower (area.stop_eq ▸ upper)) ?_ (area.stop_eq ▸ laid.clear) ?_ ?_
    (List.pairwise_singleton ..) ?_ ?_
  · intro a member
    rw [List.mem_singleton.mp member, area.stop_eq]
    exact ⟨Nat.le_refl _, Nat.le_refl _⟩
  · exact fun a member => List.mem_singleton.mp member ▸ shaped
  · intro a member
    rw [List.mem_singleton.mp member, sameStart, sameStop, area.stop_eq]
    exact ⟨Nat.le_refl _, Nat.le_refl _⟩
  · exact fun a member => List.mem_singleton.mp member ▸ shown
  · intro va lower upper away
    have away := away area' (List.mem_cons_self ..)
    rw [← area.stop_eq] at upper
    unfold MapArea.Away at away
    omega

/-- Updating the flags of an area. -/
theorem Laid.updateRegion (flags : MappingFlags) (laid : Laid s (area :: rest))
    : ∃ s',
        s.updateRegion area.vaddr area.size flags = some (.ok (), s')
        ∧ Keeps True s s'
        ∧ Laid s' ({ area with flags } :: rest) := by
  have shaped := laid.shaped area (List.mem_cons_self ..)
  have shown := laid.shown area (List.mem_cons_self ..)
  have inRange : area.vaddr + area.size < USIZE_RANGE := by
    have := shaped.below
    rw [area.stop_eq] at this
    unfold USIZE_RANGE
    omega
  obtain ⟨s', run, rewrites⟩ := Paging.updateRegion_rewrites (f := flags) laid.tables
    shaped.whole inRange shown.small
  refine ⟨s', run, rewrites.keeps, ?_⟩
  refine laid.change rewrites (Nat.le_refl _) (area.stop_eq ▸ Nat.le_refl _)
    ⟨shaped.aligned, shaped.nonempty, shaped.below, shaped.linear⟩ rfl rfl ?_
  intro i slot found va lower upper
  obtain ⟨lower', upper'⟩ := area.mem_of_slot found lower upper
  rw [rewrites.inside va lower' (area.stop_eq ▸ upper')]
  have before := shown i slot found va lower upper
  cases slot with
  | some page =>
      have linear := PhysPage.frameAddr (shaped.linear page (List.mem_of_getElem? found))
      rw [SlotShown] at before
      rw [before, SlotShown, Paging.reflag, LawfulPTE.page_paddr _ _ linear.1, if_neg linear.2]
      simp only [Paging.updated, PageSize.isHuge]
      rw [LawfulPTE.setFlags_page _ _ _ linear.1, Paging.leafView_newPage]
  | none =>
      obtain ⟨f, fault⟩ := before
      exact ⟨f, by rw [fault, Paging.reflag, LawfulPTE.fault_paddr, if_pos rfl]⟩

omit [LawfulPTE PTE] in
/-- Where a new area goes, nothing is in view. -/
theorem Laid.unused (laid : Laid s rest) (shaped : area.Shaped)
    (clear : ∀ other ∈ rest, other.Away area.vaddr area.stop) (va : Nat) (lower : area.vaddr ≤ va)
    (upper : va < area.vaddr + area.size)
    : s.view va = .unused := by
  have := shaped.below
  rw [← area.stop_eq] at upper
  refine laid.free va (by omega) fun other member => ?_
  have := clear other member
  unfold MapArea.Away at *
  omega

omit [LawfulPTE PTE] in
/-- A new area in a free region. -/
theorem Laid.add {inside : Nat → View PTE} (laid : Laid s rest) (shaped : area.Shaped)
    (clear : ∀ other ∈ rest, other.Away area.vaddr area.stop)
    (rewrites : Rewrites True s s' area.vaddr area.size inside) (shown : Shown s' area)
    : Laid s' (area :: rest) := by
  refine Laid.replace [] [area] laid rewrites (List.forall_mem_nil _) (area.stop_eq ▸ clear)
    ?_ ?_ (List.pairwise_singleton ..) ?_ ?_
  · exact fun a member => List.mem_singleton.mp member ▸ shaped
  · intro a member
    rw [List.mem_singleton.mp member, area.stop_eq]
    exact ⟨Nat.le_refl _, Nat.le_refl _⟩
  · exact fun a member => List.mem_singleton.mp member ▸ shown
  · intro va lower upper away
    have away := away area (List.mem_cons_self ..)
    rw [← area.stop_eq] at upper
    unfold MapArea.Away at away
    omega

/-- Mapping fault pages makes a new area in a free region, unless memory runs out. -/
theorem Laid.mapFaultRegion (laid : Laid s rest) (unloaded : ∀ slot ∈ area.pages, slot = none)
    (shaped : area.Shaped) (clear : ∀ other ∈ rest, other.Away area.vaddr area.stop)
    {result : PagingResult Unit}
    (run : s.mapFaultRegion area.vaddr area.size area.flags = (result, s'))
    : OrNoMemory result (Keeps True s s' ∧ Laid s' (area :: rest)) := by
  refine (Paging.mapFaultRegion_rewrites laid.tables shaped.whole (laid.unused shaped clear)
    run).imp id fun ⟨ok, rewrites⟩ => ⟨ok, rewrites.keeps, laid.add shaped clear rewrites ?_⟩
  intro i slot found va lower upper
  obtain ⟨lower', upper'⟩ := area.mem_of_slot found lower upper
  rw [unloaded slot (List.mem_of_getElem? found), rewrites.inside va lower' (area.stop_eq ▸ upper')]
  exact ⟨_, rfl⟩

/-- Mapping consecutive frames makes a new area in a free region, unless memory runs out. -/
theorem Laid.mapRegion {first : Nat} (laid : Laid s rest)
    (loaded
      : ∀ i (slot : Option PhysPage), area.pages[i]? = some slot
        → slot = some ⟨first + i * 4096⟩)
    (shaped : area.Shaped) (clear : ∀ other ∈ rest, other.Away area.vaddr area.stop)
    {result : PagingResult Unit}
    (run : s.mapRegion area.vaddr (virtToPhys first) area.size area.flags false = (result, s'))
    : OrNoMemory result (Keeps True s s' ∧ Laid s' (area :: rest)) := by
  obtain ⟨distance, frame⟩ : ∃ distance, ∀ i,
      (area.vaddr + 4096 * i + distance) % USIZE_RANGE = virtToPhys (first + i * 4096) := by
    refine ⟨first + (USIZE_RANGE - PHYS_VIRT_OFFSET) + (USIZE_RANGE - area.vaddr), fun i => ?_⟩
    have := shaped.below
    unfold MapArea.stop at this
    unfold virtToPhys wrapSub USIZE_RANGE
    omega
  have linear : Linear first := by
    obtain ⟨slot, pages, split⟩ := List.exists_cons_of_ne_nil shaped.nonempty
    have here := loaded 0 slot (by rw [split]; rfl)
    rw [Nat.zero_mul, Nat.add_zero] at here
    exact shaped.linear _ (by rw [split, here]; exact List.mem_cons_self ..)
  have apart : (area.vaddr + distance) % USIZE_RANGE = virtToPhys first := by
    simpa only [Nat.mul_zero, Nat.zero_mul, Nat.add_zero] using frame 0
  refine (Paging.mapRegion_rewrites laid.tables shaped.whole (laid.unused shaped clear)
    linear.frame.1.1 apart run).imp id
    fun ⟨ok, rewrites⟩ => ⟨ok, rewrites.keeps, laid.add shaped clear rewrites ?_⟩
  intro i slot found va lower upper
  obtain ⟨lower', upper'⟩ := area.mem_of_slot found lower upper
  have start : va - va % 4096 = area.vaddr + 4096 * i := by
    have := shaped.aligned
    omega
  rw [loaded i slot found, rewrites.inside va lower' (area.stop_eq ▸ upper'), Paging.regionPage,
    start, frame]
  rfl

/-- Overwriting the fault page of an empty slot loads it, unless memory runs out. -/
theorem Laid.mapOverwrite {i : Nat} {page : PhysPage} (backend : Option MemBackend)
    (laid : Laid s (area :: rest)) (empty : area.pages[i]? = some none)
    (linear : Linear page.startVaddr) {result : PagingResult Unit}
    (run : s.mapOverwrite (area.vaddr + 4096 * i) page.paddr .size4K area.flags = (result, s'))
    : OrNoMemory result
        (Keeps True s s'
          ∧ Laid s' ({ area with pages := area.pages.set i (some page), backend } :: rest)) := by
  have shaped := laid.shaped area (List.mem_cons_self ..)
  have shown := laid.shown area (List.mem_cons_self ..)
  have aligned : (area.vaddr + 4096 * i) % 4096 = 0 := by
    have := shaped.aligned
    omega
  have upper : area.vaddr + 4096 * i + 4096 ≤ area.stop := by
    have := (List.getElem?_eq_some_iff.mp empty).1
    have : 4096 * (i + 1) ≤ 4096 * area.pages.length := Nat.mul_le_mul_left 4096 this
    unfold MapArea.stop
    omega
  have half : InHalf (area.vaddr + 4096 * i) 4096 := .inl (upper.trans shaped.below)
  obtain ⟨f, fault⟩ := shown i none empty _ (Nat.le_refl _) (by omega)
  refine (Paging.mapOverwrite_rewrites laid.tables aligned
    (PhysPage.frameAddr linear).1.1 half fault run).imp id
    fun ⟨ok, rewrites⟩ => ⟨ok, rewrites.keeps, ?_⟩
  refine laid.change rewrites (by omega) upper ?_ rfl ?_ ?_
  · refine ⟨shaped.aligned, ?_, ?_, ?_⟩
    · simpa using shaped.nonempty
    · simpa [MapArea.stop] using shaped.below
    · intro other member
      rcases List.mem_or_eq_of_mem_set member with old | new
      · exact shaped.linear other old
      · cases new
        exact linear
  · simp [MapArea.stop]
  · intro j slot found va lower upper
    dsimp only at found lower upper
    rw [List.getElem?_set] at found
    split at found
    · rename_i same
      subst same
      split at found
      · cases found
        exact rewrites.inside va lower (Nat.add_assoc .. ▸ upper)
      · cases found
    · rename_i other
      obtain ⟨lower', upper'⟩ := area.mem_of_slot found lower upper
      rw [rewrites.outside va (.inl (upper'.trans_le shaped.below))
        (page_apart (Ne.symm other) lower upper)]
      exact shown j slot found va lower upper

end Laid

end RCoreOS.Axmem
