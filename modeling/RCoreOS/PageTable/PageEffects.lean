import RCoreOS.PageTable.WellFormed

/-! The effect of every single-page operation on the invariant and on the view. An error
leaves the view as it was; a success changes it inside one block of the page size.
-/

namespace RCoreOS.PageTable

open GenericPTE

variable {PTE σ : Type} [GenericPTE PTE] [LawfulPTE PTE] [PagingIf σ] [LawfulPagingIf σ]

namespace Paging

variable {tight : Prop} {s s' : Paging PTE σ} {vaddr target : Nat} {size : PageSize}
variable {f : MappingFlags}

-----------------------------------------------------------------------------------------
-- Finding and creating entries
-----------------------------------------------------------------------------------------

/-- Creating the way to an entry changes no view; the slot that is returned is walked. -/
theorem getEntryMutOrCreate_effect (wf : s.WellFormed tight) {result : PagingResult Slot}
    (run : s.getEntryMutOrCreate vaddr size = (result, s'))
    : Effect tight s s' s.view
      ∧ ∀ slot,
          result = .ok slot
          → ∃ table, s'.Walks vaddr size table ∧ slot = slotAt size vaddr table := by
  simp only [getEntryMutOrCreate, p3Index_eq, p2Index_eq, p1Index_eq] at run
  have walks := s.walks_root vaddr
  split at run
  · rename_i giga
    obtain ⟨rfl, rfl⟩ := Prod.mk.inj run
    refine ⟨.refl wf, ?_⟩
    rintro slot eq
    obtain rfl := Except.ok.inj eq
    exact ⟨_, giga ▸ walks, by rw [giga]; rfl⟩
  rename_i notGiga
  split at run
  · rename_i e t first
    obtain ⟨rfl, rfl⟩ := Prod.mk.inj run
    exact ⟨(nextTableMutOrCreate_effect wf walks .size2M rfl first).1, by simp⟩
  rename_i p2 t first
  obtain ⟨effect, reached⟩ := nextTableMutOrCreate_effect wf walks .size2M rfl first
  have walks2M := reached p2 rfl
  split at run
  · rename_i mega
    obtain ⟨rfl, rfl⟩ := Prod.mk.inj run
    refine ⟨effect, ?_⟩
    rintro slot eq
    obtain rfl := Except.ok.inj eq
    exact ⟨p2, mega ▸ walks2M, by rw [mega]; rfl⟩
  rename_i notMega
  have page : size = .size4K := by cases size <;> simp_all
  subst page
  split at run
  · rename_i e u second
    obtain ⟨rfl, rfl⟩ := Prod.mk.inj run
    have effect' :=
      (nextTableMutOrCreate_effect effect.wellFormed walks2M .size4K rfl second).1
    exact ⟨effect.trans (effect.view_eq ▸ effect'), by simp⟩
  · rename_i p1 u second
    obtain ⟨rfl, rfl⟩ := Prod.mk.inj run
    obtain ⟨effect', reached'⟩ :=
      nextTableMutOrCreate_effect effect.wellFormed walks2M .size4K rfl second
    refine ⟨effect.trans (effect.view_eq ▸ effect'), ?_⟩
    rintro slot eq
    obtain rfl := Except.ok.inj eq
    exact ⟨p1, reached' p1 rfl, rfl⟩

omit [PagingIf σ] [LawfulPagingIf σ] [LawfulPTE PTE] in
/-- Where nothing or a 4K page is in view, every inner entry on the way is unused or a table. -/
theorem Walks.inner {table : Nat} (walks : s.Walks vaddr size table) (inner : size ≠ .size4K)
    (small : s.view vaddr = .unused ∨ ∃ e, s.view vaddr = .page e .size4K)
    : isUnused (s.entry (slotAt size vaddr table)) = true
      ∨ isTable (s.entry (slotAt size vaddr table)) = true := by
  cases linked : isTable (s.entry (slotAt size vaddr table)) with
  | true => exact .inr rfl
  | false =>
      refine .inl ?_
      rw [Ends.view_eq ⟨walks, .inr linked⟩, leafView] at small
      by_contra inUse
      rw [if_neg inUse] at small
      by_cases huge : isHuge (s.entry (slotAt size vaddr table)) = true <;>
        simp [huge, inner] at small

omit [LawfulPagingIf σ] [LawfulPTE PTE] in
/-- From an unused entry or a table, asking for the next table can only run out of memory. -/
theorem nextTableMutOrCreate_error {slot : Slot} {e : PagingError}
    (inner : isUnused (s.entry slot) = true ∨ isTable (s.entry slot) = true)
    (run : s.nextTableMutOrCreate slot = (.error e, s'))
    : e = .noMemory := by
  cases unused : isUnused (s.entry slot) with
  | true =>
      rcases nextTableMutOrCreate_unused unused with
        ⟨p, allocator, -, ran⟩ | ⟨allocator, -, ran⟩
      · simp [ran] at run
      · rw [ran] at run
        cases run
        rfl
  | false =>
      have linked : isTable (s.entry slot) = true := inner.resolve_left (by simp [unused])
      rw [nextTableMutOrCreate, unused, nextTableMut_ok.mpr ⟨linked, rfl⟩] at run
      simp at run

/-- Where nothing or a 4K page is in view, the way to a 4K entry is only refused when memory
runs out.
-/
theorem getEntryMutOrCreate_error (wf : s.WellFormed tight) {e : PagingError}
    (small : s.view vaddr = .unused ∨ ∃ e, s.view vaddr = .page e .size4K)
    (run : s.getEntryMutOrCreate vaddr .size4K = (.error e, s'))
    : e = .noMemory := by
  simp only [getEntryMutOrCreate, p3Index_eq, p2Index_eq, p1Index_eq] at run
  have walks := s.walks_root vaddr
  split at run
  · contradiction
  split at run
  · rename_i e' t first
    obtain ⟨eq, rfl⟩ := Prod.mk.inj run
    cases eq
    exact nextTableMutOrCreate_error (walks.inner (by decide) small) first
  rename_i p2 t first
  obtain ⟨effect, reached⟩ := nextTableMutOrCreate_effect wf walks .size2M rfl first
  have walks2M := reached p2 rfl
  rw [← effect.view] at small
  split at run
  · contradiction
  split at run
  · rename_i e' u second
    obtain ⟨eq, rfl⟩ := Prod.mk.inj run
    cases eq
    exact nextTableMutOrCreate_error (walks2M.inner (by decide) small) second
  · cases run

omit [PagingIf σ] [LawfulPagingIf σ] in
/-- An unused slot at the end of a walk hides its whole block. -/
theorem view_of_unused {table : Nat} (walks : s.Walks vaddr size table)
    (unused : isUnused (s.entry (slotAt size vaddr table)) = true)
    {other : Nat} (same : block size other = block size vaddr)
    : s.view other = .unused := by
  obtain ⟨walks', slot⟩ := walks.same_block same
  have ends : s.Ends other size table := by
    refine ⟨walks', .inr ?_⟩
    rw [slot]
    simp [isTable, LawfulPTE.absent_of_unused unused]
  rw [ends.view_eq, slot]
  simp [leafView, unused]

omit [PagingIf σ] [LawfulPagingIf σ] [LawfulPTE PTE] in
/-- A 4K slot that is in use is in view. -/
theorem view_of_used {table : Nat} (walks : s.Walks vaddr .size4K table)
    (inUse : isUnused (s.entry (slotAt .size4K vaddr table)) = false)
    : s.view vaddr = .page (s.entry (slotAt .size4K vaddr table)) .size4K := by
  rw [Ends.view_eq ⟨walks, .inl rfl⟩]
  simp [leafView, inUse]

-----------------------------------------------------------------------------------------
-- Mapping
-----------------------------------------------------------------------------------------

omit [PagingIf σ] [LawfulPagingIf σ] in
/-- An unused entry links nothing. -/
theorem isTable_of_unused {e : PTE} (unused : isUnused e = true) : isTable e = false := by
  simp [isTable, LawfulPTE.absent_of_unused unused]

variable (PTE) in
omit [PagingIf σ] [LawfulPagingIf σ] in
/-- A page entry is in view, and at the upper levels it links nothing. -/
theorem newPage_leaf (p : Nat) (leaf : size = .size4K ∨ f.isLeaf = true)
    : leafView (newPage p f size.isHuge : PTE) size = .page (newPage p f size.isHuge) size
      ∧ (size = .size4K ∨ isTable (newPage p f size.isHuge : PTE) = false) := by
  by_cases page : size = .size4K
  · simp [leafView, LawfulPTE.page_used, page]
  · have huge : size.isHuge = true := by
      cases size <;> simp_all [PageSize.isHuge]
    have isPage : isHuge (newPage p f true : PTE) = true :=
      LawfulPTE.page_huge p (leaf.resolve_left page)
    simp [leafView, LawfulPTE.page_used, huge, isPage, isTable]

/-- The common part of `map` and `mapFault`: an entry is written to a slot that is not in use. -/
def fillSlot (s : Paging PTE σ) (vaddr : Nat) (size : PageSize) (e : PTE)
    : PagingResult Unit × Paging PTE σ :=
  match s.getEntryMutOrCreate vaddr size with
  | (.error e, s) => (.error e, s)
  | (.ok slot, s) =>
      if !isUnused (s.entry slot) then (.error .alreadyMapped, s)
      else (.ok (), s.setEntry slot e)

/-- A block in which nothing was in view is filled, or there is no effect. -/
theorem fillSlot_effect (wf : s.WellFormed tight) {e : PTE}
    (notTable : size = .size4K ∨ isTable e = false) {result : PagingResult Unit}
    (run : s.fillSlot vaddr size e = (result, s'))
    : match result with
      | .ok () =>
          (∀ other, block size other = block size vaddr → s.view other = .unused)
          ∧ Effect tight s s' (overwrite size vaddr (leafView e size) s.view)
      | .error _ => Effect tight s s' s.view := by
  unfold fillSlot at run
  split at run
  · rename_i e t found
    cases run
    exact (getEntryMutOrCreate_effect wf found).1
  rename_i slot t found
  obtain ⟨effect, reached⟩ := getEntryMutOrCreate_effect wf found
  obtain ⟨table, walks, rfl⟩ := reached slot rfl
  cases unused : isUnused (t.entry (slotAt size vaddr table)) with
  | false =>
      simp only [unused, Bool.not_false, if_true] at run
      cases run
      exact effect
  | true =>
      simp only [unused, Bool.not_true, Bool.false_eq_true, if_false] at run
      cases run
      refine ⟨fun other same => ?_, ?_⟩
      · rw [← effect.view]
        exact view_of_unused walks unused same
      · have written := setEntry_effect effect.wellFormed walks notTable
          (fun _ => .inr (isTable_of_unused unused))
        rw [effect.view_eq] at written
        exact effect.trans written

/-- The slot of a 4K page that is not in view can be filled, unless memory runs out. -/
theorem fillSlot_error (wf : s.WellFormed tight) (free : s.view vaddr = .unused) {e : PTE}
    {error : PagingError} (run : s.fillSlot vaddr .size4K e = (.error error, s'))
    : error = .noMemory := by
  unfold fillSlot at run
  split at run
  · rename_i error' t found
    cases run
    exact getEntryMutOrCreate_error wf (.inl free) found
  rename_i slot t found
  obtain ⟨effect, reached⟩ := getEntryMutOrCreate_effect wf found
  obtain ⟨table, walks, rfl⟩ := reached slot rfl
  cases unused : isUnused (t.entry (slotAt .size4K vaddr table)) with
  | false =>
      have used := view_of_used walks unused
      rw [effect.view, free] at used
      cases used
  | true => simp [unused] at run

/-- `map` fills a block in which nothing was in view, or fails without an effect. -/
theorem map_effect (wf : s.WellFormed tight) (leaf : size = .size4K ∨ f.isLeaf = true)
    {result : PagingResult Unit} (run : s.map vaddr target size f = (result, s'))
    : match result with
      | .ok () =>
          (∀ other, block size other = block size vaddr → s.view other = .unused)
          ∧ Effect tight s s' (overwrite size vaddr
            (.page (newPage (alignDown target size.toUsize) f size.isHuge) size) s.view)
      | .error _ => Effect tight s s' s.view := by
  obtain ⟨shown, notTable⟩ := newPage_leaf PTE (alignDown target size.toUsize) leaf
  rw [← shown]
  cases result with
  | ok => exact fillSlot_effect wf notTable run
  | error => exact fillSlot_effect wf notTable run

/-- A 4K page can be mapped where nothing is in view, unless memory runs out. -/
theorem map_error (wf : s.WellFormed tight) (free : s.view vaddr = .unused) {e : PagingError}
    (run : s.map vaddr target .size4K f = (.error e, s'))
    : e = .noMemory :=
  fillSlot_error wf free run

/-- `mapOverwrite` replaces an entry in use, or fails without an effect. -/
theorem mapOverwrite_effect (wf : s.WellFormed tight) (leaf : size = .size4K ∨ f.isLeaf = true)
    (small : tight → size = .size4K) {result : PagingResult Unit}
    (run : s.mapOverwrite vaddr target size f = (result, s'))
    : match result with
      | .ok () => Effect tight s s' (overwrite size vaddr
          (.page (newPage (alignDown target size.toUsize) f size.isHuge) size) s.view)
      | .error _ => Effect tight s s' s.view := by
  unfold mapOverwrite at run
  split at run
  · rename_i e t found
    cases run
    exact (getEntryMutOrCreate_effect wf found).1
  rename_i slot t found
  obtain ⟨effect, reached⟩ := getEntryMutOrCreate_effect wf found
  obtain ⟨table, walks, rfl⟩ := reached slot rfl
  split at run
  · cases run
    exact effect
  · cases run
    obtain ⟨shown, notTable⟩ := newPage_leaf PTE (alignDown target size.toUsize) leaf
    have written := setEntry_effect effect.wellFormed walks notTable
      (fun isTight => .inl (small isTight))
    rw [shown, effect.view_eq] at written
    exact effect.trans written

/-- A 4K page in view can be overwritten, unless memory runs out. -/
theorem mapOverwrite_error (wf : s.WellFormed tight) {old : PTE}
    (page : s.view vaddr = .page old .size4K) {e : PagingError}
    (run : s.mapOverwrite vaddr target .size4K f = (.error e, s'))
    : e = .noMemory := by
  unfold mapOverwrite at run
  split at run
  · rename_i e' t found
    cases run
    exact getEntryMutOrCreate_error wf (.inr ⟨old, page⟩) found
  rename_i slot t found
  obtain ⟨effect, reached⟩ := getEntryMutOrCreate_effect wf found
  obtain ⟨table, walks, rfl⟩ := reached slot rfl
  split at run
  · rename_i unused
    have absent := view_of_unused walks unused rfl
    rw [effect.view, page] at absent
    cases absent
  · cases run

omit [PagingIf σ] [LawfulPagingIf σ] in
theorem newFaultPage_leaf (f : MappingFlags) (h : Bool)
    : isTable (newFaultPage f h : PTE) = false := by
  simp [isTable, LawfulPTE.fault_absent]

/-- `mapFault` fills a block in which nothing was in view, or fails without an effect. -/
theorem mapFault_effect (wf : s.WellFormed tight) {result : PagingResult Unit}
    (run : s.mapFault vaddr size f = (result, s'))
    : match result with
      | .ok () =>
          (∀ other, block size other = block size vaddr → s.view other = .unused)
          ∧ Effect tight s s' (overwrite size vaddr
            (leafView (newFaultPage f size.isHuge) size) s.view)
      | .error _ => Effect tight s s' s.view := by
  have notTable : isTable (newFaultPage f size.isHuge : PTE) = false := newFaultPage_leaf f _
  cases result with
  | ok => exact fillSlot_effect wf (.inr notTable) run
  | error => exact fillSlot_effect wf (.inr notTable) run

/-- A 4K fault page can be mapped where nothing is in view, unless memory runs out. -/
theorem mapFault_error (wf : s.WellFormed tight) (free : s.view vaddr = .unused)
    {e : PagingError} (run : s.mapFault vaddr .size4K f = (.error e, s'))
    : e = .noMemory :=
  fillSlot_error wf free run

omit [PagingIf σ] [LawfulPagingIf σ] [LawfulPTE PTE] in
/-- All addresses of a page have the same view. -/
theorem view_same_block {e : PTE} {other : Nat} (page : s.view vaddr = .page e size)
    (same : block size other = block size vaddr) : s.view other = .page e size := by
  obtain ⟨slot, found, rfl, inUse, -⟩ := getEntryMut_of_page page
  obtain ⟨table, walks, rfl, last, -⟩ := getEntryMut_page found inUse
  obtain ⟨walks', slot⟩ := walks.same_block same
  rw [Ends.view_eq ⟨walks', by rwa [slot]⟩, slot, ← Ends.view_eq ⟨walks, last⟩, page]

-----------------------------------------------------------------------------------------
-- Unmapping and updating
-----------------------------------------------------------------------------------------

/-- Unmapping succeeds exactly on a page in view and leaves nothing in its block. -/
theorem unmap_effect (wf : s.WellFormed tight) {result : PagingResult (Nat × PageSize)}
    (run : s.unmap vaddr = (result, s'))
    : match result with
      | .ok (p, size) =>
          ∃ e,
            s.view vaddr = .page e size
            ∧ p = paddr e
            ∧ Effect tight s s' (overwrite size vaddr .unused s.view)
      | .error _ => s' = s ∧ ∀ e size, s.view vaddr ≠ .page e size := by
  by_cases shown : ∃ e size, s.view vaddr = .page e size
  · obtain ⟨e, size, page⟩ := shown
    obtain ⟨slot, found, rfl, inUse, -⟩ := getEntryMut_of_page page
    obtain ⟨table, walks, rfl, notTable, -⟩ := getEntryMut_page found inUse
    simp only [unmap, found, inUse, Bool.false_eq_true, if_false] at run
    cases run
    have cleared := LawfulPTE.unused_clear (s.entry (slotAt size vaddr table))
    refine ⟨_, page, rfl, ?_⟩
    have written := setEntry_effect wf walks (.inr (isTable_of_unused cleared))
      (fun _ => notTable)
    rwa [leafView, if_pos cleared] at written
  · simp only [not_exists] at shown
    rcases getEntryMut_error shown with found | ⟨slot, found, unused⟩
    · simp only [unmap, found] at run
      cases run
      exact ⟨rfl, shown⟩
    · simp only [unmap, found, unused, if_true] at run
      cases run
      exact ⟨rfl, shown⟩

/-- The flags that an update may give to a page of the given size. -/
def UpdateFlags (size : PageSize) (newFlags : Option MappingFlags) : Prop :=
  ∀ f, newFlags = some f → size = .size4K ∨ f.isLeaf = true

/-- An update rewrites the page in view unless its physical address is zero. -/
theorem update_effect (wf : s.WellFormed tight) {old : PTE} {newPaddr : Option Nat}
    {newFlags : Option MappingFlags} (page : s.view vaddr = .page old size)
    (leaf : UpdateFlags size newFlags)
    {result : PagingResult PageSize} (run : s.update vaddr newPaddr newFlags = (result, s'))
    : result = .ok size
      ∧ if paddr old = 0 then s' = s
        else Effect tight s s' (overwrite size vaddr
          (leafView (updated old size newPaddr newFlags) size) s.view) := by
  obtain ⟨slot, found, rfl, inUse, isPage⟩ := getEntryMut_of_page page
  obtain ⟨table, walks, rfl, notTable, -⟩ := getEntryMut_page found inUse
  simp only [update, found] at run
  split at run
  · rename_i zero
    cases run
    simp [zero]
  · rename_i nonzero
    cases run
    refine ⟨rfl, ?_⟩
    rw [if_neg nonzero]
    refine setEntry_effect wf walks ?_ (fun _ => notTable)
    rcases isPage with small | huge
    · exact .inl small
    · refine or_iff_not_imp_left.mpr fun notSmall => ?_
      have sizeHuge : size.isHuge = true := by cases size <;> simp_all [PageSize.isHuge]
      have kept : isHuge (updated (s.entry (slotAt size vaddr table)) size newPaddr newFlags)
          = true := by
        unfold updated
        cases newFlags with
        | some f =>
            rw [sizeHuge]
            exact LawfulPTE.setFlags_huge _ ((leaf f rfl).resolve_left notSmall)
        | none => cases newPaddr <;> simp [LawfulPTE.setPaddr_huge, huge]
      simp [isTable, kept]

omit [PagingIf σ] [LawfulPagingIf σ] in
/-- An update where no page is in view changes nothing and never reports a huge page. -/
theorem update_of_no_page {newPaddr : Option Nat} {newFlags : Option MappingFlags}
    (absent : ∀ e size, s.view vaddr ≠ .page e size)
    {result : PagingResult PageSize} (run : s.update vaddr newPaddr newFlags = (result, s'))
    : s' = s ∧ ∀ page, result = .ok page → page = .size4K := by
  rcases getEntryMut_error absent with found | ⟨slot, found, unused⟩
  · simp only [update, found] at run
    cases run
    simp
  · simp only [update, found, LawfulPTE.paddr_of_unused unused, if_true] at run
    cases run
    simp

-----------------------------------------------------------------------------------------
-- A new page table
-----------------------------------------------------------------------------------------

/-- What `tryNew` returns when it succeeds: one fresh frame, the root of an empty table. -/
structure NewTable (tight : Prop) (m m' : PhysMemory PTE σ) (t : PageTable64) : Prop where
  fresh : t.rootPaddr ∉ LawfulPagingIf.inUse m.allocator
  single : t.intrmTables = [t.rootPaddr]
  used : ∀ f,
    f ∈ LawfulPagingIf.inUse m'.allocator
      ↔ f ∈ LawfulPagingIf.inUse m.allocator ∨ f = t.rootPaddr
  frames : ∀ f, f ≠ t.rootPaddr → m'.frames f = m.frames f
  wellFormed : ({ toPageTable64 := t, toPhysMemory := m' } : Paging PTE σ).WellFormed tight
  view : ∀ vaddr, ({ toPageTable64 := t, toPhysMemory := m' } : Paging PTE σ).view vaddr = .unused

theorem tryNew_ok (tight : Prop) {m m' : PhysMemory PTE σ} {t : PageTable64}
    (created : PageTable64.tryNew m = (.ok t, m')) : NewTable tight m m' t := by
  rcases alloc : PagingIf.allocFrame m.allocator with ⟨_ | p, allocator⟩
  · simp [PageTable64.tryNew, PhysMemory.allocTable, alloc] at created
  simp only [PageTable64.tryNew, PhysMemory.allocTable, alloc, Prod.mk.injEq,
    Except.ok.injEq] at created
  obtain ⟨rfl, rfl⟩ := created
  obtain ⟨fresh, frame, inUse'⟩ := LawfulPagingIf.alloc_some alloc
  have unlinked : isTable (zeroed : PTE) = false := isTable_of_unused LawfulPTE.unused_zeroed
  refine ⟨fresh, rfl, fun f => ?_, fun f other => ?_, ?_, fun vaddr => ?_⟩
  · rw [inUse', Set.mem_insert_iff, or_comm]
  · simp [other]
  · refine ⟨fun f => if f = p then some (2, 0) else none, ⟨⟨by simp, ?_, ?_⟩, ?_, by simp, ?_⟩, ?_⟩
    · intro a h pre placed
      split at placed <;> simp_all
    · intro a h pre i b placed _ linked
      split at placed
      · rename_i isRoot
        simp [links, isRoot, unlinked] at linked
      · cases placed
    · intro f
      by_cases isRoot : f = p <;> simp [isRoot]
    · intro f member
      change f ∈ LawfulPagingIf.inUse allocator
      rw [inUse']
      exact .inl (List.mem_singleton.mp member)
    · intro _ b h pre placed notRoot
      have other : b ≠ p := notRoot
      simp [other] at placed
  · simp [view, entry, slotAt, unlinked, leafView, LawfulPTE.unused_zeroed]

end Paging

end RCoreOS.PageTable
