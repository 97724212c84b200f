import RCoreOS.PageTable.SmallPages

/-! Mapping only adds pages. What is mapped without an error lies where nothing was in view, also
when a region is so long that its addresses wrap, and every page that was in view stays there.
-/

namespace RCoreOS.PageTable

open GenericPTE

/-- Whether the entry of a page is present depends on its flags only. -/
class PresentByFlags (PTE : Type) [GenericPTE PTE] : Prop where
  page_present_eq (p q : Nat) (f : MappingFlags) (h : Bool)
    : isPresent (newPage p f h : PTE) = isPresent (newPage q f h : PTE)

instance : PresentByFlags Rv64PTE where
  page_present_eq p q f h := by rw [Rv64PTE.newPage_present, Rv64PTE.newPage_present]

variable {PTE σ : Type} [GenericPTE PTE] [LawfulPTE PTE] [PagingIf σ] [LawfulPagingIf σ]

namespace Paging

variable {tight : Prop} {s s' t : Paging PTE σ} {vaddr target size : Nat} {f : MappingFlags}
variable {page : PageSize}

/-- An operation that keeps the invariant and every page in view. -/
structure Extends (tight : Prop) (s s' : Paging PTE σ) : Prop where
  keeps : Keeps tight s s'
  pages : ∀ {va e page}, s.view va = .page e page → s'.view va = .page e page

omit [LawfulPTE PTE] in
theorem Extends.refl (wf : s.WellFormed tight) : Extends tight s s :=
  ⟨.refl wf, id⟩

omit [LawfulPTE PTE] in
theorem Extends.trans (first : Extends tight s t) (second : Extends tight t s')
    : Extends tight s s' :=
  ⟨first.keeps.trans second.keeps, fun shown => second.pages (first.pages shown)⟩

omit [LawfulPTE PTE] in
/-- Overwriting a block in which nothing was in view loses no page. -/
theorem Effect.extends {inside : View PTE}
    (free : ∀ other, block page other = block page vaddr → s.view other = .unused)
    (effect : Effect tight s s' (overwrite page vaddr inside s.view))
    : Extends tight s s' := by
  refine ⟨⟨_, effect⟩, fun {va e page} shown => ?_⟩
  rw [effect.view, overwrite, if_neg]
  · exact shown
  · intro same
    rw [free va same] at shown
    cases shown

/-- A page that is mapped is in view in its whole block. -/
theorem map_extends (wf : s.WellFormed tight) (leaf : page = .size4K ∨ f.isLeaf = true)
    (run : s.map vaddr target page f = (.ok (), s'))
    : Extends tight s s'
      ∧ ∀ other, block page other = block page vaddr
        → s'.view other = .page (newPage (alignDown target page.toUsize) f page.isHuge) page := by
  obtain ⟨free, effect⟩ := map_effect wf leaf run
  refine ⟨effect.extends free, fun other same => ?_⟩
  rw [effect.view, overwrite, if_pos same]

/-- So is a fault page. -/
theorem mapFault_extends (wf : s.WellFormed tight)
    (run : s.mapFault vaddr .size4K f = (.ok (), s'))
    : Extends tight s s'
      ∧ ∀ other, block .size4K other = block .size4K vaddr
        → s'.view other = .page (newFaultPage f false) .size4K := by
  obtain ⟨free, effect⟩ := mapFault_effect wf run
  refine ⟨effect.extends free, fun other same => ?_⟩
  rw [effect.view, overwrite, if_pos same]
  exact leafView_newFaultPage f

/-- The map loop keeps every page in view, by induction on its turns. -/
theorem mapRegionLoop_extends (wf : s.WellFormed tight) {allowHuge : Bool}
    (leaf : RegionFlags f allowHuge)
    (run : s.mapRegionLoop vaddr target size f allowHuge = (.ok (), s'))
    : Extends tight s s' := by
  fun_induction mapRegionLoop s vaddr target size f allowHuge with
  | case1 s vaddr target =>
      cases run
      exact .refl wf
  | case2 s vaddr target size more page e t mapped => cases run
  | case3 s vaddr target size more page t mapped ih =>
      have first := (map_extends wf leaf.page mapped).1
      exact first.trans (ih first.keeps.wellFormed run)

theorem mapRegion_extends (wf : s.WellFormed tight) {allowHuge : Bool}
    (leaf : RegionFlags f allowHuge)
    (run : s.mapRegion vaddr target size f allowHuge = (.ok (), s'))
    : Extends tight s s' :=
  mapRegionLoop_extends wf leaf (mapRegion_ok run).2.2.2

omit [PagingIf σ] [LawfulPagingIf σ] [LawfulPTE PTE] [GenericPTE PTE] in
/-- The block of a page of a region, counted from the next page of the region. -/
theorem block_next (vaddr i : Nat)
    : block .size4K (wrapAdd vaddr 4096 + 4096 * i) = block .size4K (vaddr + 4096 * (i + 1)) := by
  simp only [block, vpn, wrapAdd, USIZE_RANGE, PageSize.height]
  omega

/-- Each small page of a region that is mapped is in view, by induction on the turns of the loop:
later turns add pages to those of the earlier ones.
-/
theorem mapRegionLoop_pages (wf : s.WellFormed tight) (aligned : target % 4096 = 0)
    (word : target < USIZE_RANGE)
    (run : s.mapRegionLoop vaddr target size f false = (.ok (), s')) {other i : Nat}
    (inside : 4096 * i < size) (same : block .size4K other = block .size4K (vaddr + 4096 * i))
    : s'.view other
      = .page (newPage ((target + 4096 * i) % USIZE_RANGE) f false) .size4K := by
  fun_induction mapRegionLoop s vaddr target size f false generalizing i with
  | case1 s vaddr target => omega
  | case2 s vaddr target size more page e t mapped => cases run
  | case3 s vaddr target size more page t mapped ih =>
      obtain ⟨first, shown⟩ := map_extends wf (.inl rfl) mapped
      have later : Extends tight t s' :=
        mapRegionLoop_extends first.keeps.wellFormed (.inl rfl) run
      cases i with
      | zero =>
          have down : alignDown target PageSize.size4K.toUsize = target :=
            alignDown_of_aligned aligned
          have here := later.pages (shown other same)
          rw [down] at here
          rw [Nat.mul_zero, Nat.add_zero, Nat.mod_eq_of_lt word]
          exact here
      | succ i =>
          have next := ih first.keeps.wellFormed
            (by simp only [wrapAdd, USIZE_RANGE, show page.toUsize = 4096 from rfl]; omega)
            (Nat.mod_lt _ (by decide)) run (i := i)
            (by simp only [show page.toUsize = 4096 from rfl]; omega)
            (same.trans (block_next vaddr i).symm)
          have behind : (wrapAdd target page.toUsize + 4096 * i) % USIZE_RANGE
              = (target + 4096 * (i + 1)) % USIZE_RANGE := by
            rw [show page.toUsize = 4096 from rfl, wrapAdd, Nat.mod_add_mod, Nat.mul_succ,
              Nat.add_right_comm, Nat.add_assoc]
          rw [next, behind]

/-- Each small page of a region that is mapped is in view. -/
theorem mapRegion_pages (wf : s.WellFormed tight) (word : target < USIZE_RANGE)
    (run : s.mapRegion vaddr target size f false = (.ok (), s')) {va i : Nat}
    (inside : 4096 * i < size) (lower : vaddr + 4096 * i ≤ va)
    (upper : va < vaddr + 4096 * (i + 1))
    : s'.view va = .page (newPage ((target + 4096 * i) % USIZE_RANGE) f false) .size4K := by
  obtain ⟨alignedV, alignedP, -, loop⟩ := mapRegion_ok run
  refine mapRegionLoop_pages wf alignedP word loop inside ?_
  simp only [block, vpn, PageSize.height]
  omega

end Paging

end RCoreOS.PageTable
