import RCoreOS.Lib.RadixTree
import RCoreOS.PageTable.Operations
import Mathlib.Data.Set.Insert

/-! What a walk of the page table sees. The tables form a radix tree over virtual page
numbers; `view` is the translation they establish, and it depends on an address only through
the slot where its walk ends.
-/

namespace RCoreOS.PageTable

open GenericPTE RadixTree

/-- The 27 bits of a virtual address that select a 4K page. -/
def vpn (vaddr : Nat) : Nat :=
  vaddr / 4096 % 512 ^ 3

theorem vpn_lt (vaddr : Nat) : vpn vaddr < 512 ^ (2 + 1) :=
  Nat.mod_lt _ (by decide)

/-- The number of the aligned block of the given size that contains an address. -/
def block (size : PageSize) (vaddr : Nat) : Nat :=
  vpn vaddr / 512 ^ size.height

theorem p3Index_eq (vaddr : Nat) : p3Index vaddr = digit 512 2 (vpn vaddr) := by
  have mask : p3Index vaddr = vaddr >>> 30 % 2 ^ 9 :=
    Nat.and_two_pow_sub_one_eq_mod (vaddr >>> 30) 9
  rw [mask, Nat.shiftRight_eq_div_pow, digit, vpn]
  omega

theorem p2Index_eq (vaddr : Nat) : p2Index vaddr = digit 512 1 (vpn vaddr) := by
  have mask : p2Index vaddr = vaddr >>> 21 % 2 ^ 9 :=
    Nat.and_two_pow_sub_one_eq_mod (vaddr >>> 21) 9
  rw [mask, Nat.shiftRight_eq_div_pow, digit, vpn]
  omega

theorem p1Index_eq (vaddr : Nat) : p1Index vaddr = digit 512 0 (vpn vaddr) := by
  have mask : p1Index vaddr = vaddr >>> 12 % 2 ^ 9 :=
    Nat.and_two_pow_sub_one_eq_mod (vaddr >>> 12) 9
  rw [mask, Nat.shiftRight_eq_div_pow, digit, vpn]
  omega

/-- The slot of a table that `vaddr` selects among entries of the given page size. -/
def slotAt (size : PageSize) (vaddr table : Nat) : Slot :=
  ⟨table, digit 512 size.height (vpn vaddr)⟩

section Views

variable {PTE σ : Type} [GenericPTE PTE]

/-- An inner entry that the walk follows. -/
def isTable (e : PTE) : Bool :=
  isPresent e && !isHuge e

/-- What the walk of an address comes to: nothing, a page, or an inner entry that is in use
but is neither a table nor a page.
-/
inductive View (PTE : Type) where
  | unused
  | page (e : PTE) (size : PageSize)
  | blocked

/-- The view of a walk that ends in entry `e` among entries of the given page size. -/
def leafView (e : PTE) (size : PageSize) : View PTE :=
  if isUnused e then .unused
  else if size = .size4K ∨ isHuge e = true then .page e size
  else .blocked

/-- What `query` reports of a view: the offset of the address inside its page is added. -/
def View.report (v : View PTE) (vaddr : Nat) : PagingResult (Nat × MappingFlags × PageSize) :=
  match v with
  | .page e size => .ok (paddr e + alignOffset vaddr size.toUsize, flags e, size)
  | .unused | .blocked => .error .notMapped

namespace Paging

/-- The links between table frames. -/
def links (s : Paging PTE σ) : Links Nat := fun f i =>
  if isTable (s.frames f i) then some (paddr (s.frames f i)) else none

/-- The walk of `vaddr` reaches the table whose entries map pages of the given size. -/
abbrev Walks (s : Paging PTE σ) (vaddr : Nat) (size : PageSize) (table : Nat) : Prop :=
  Visits 512 s.links s.rootPaddr 2 (vpn vaddr) size.height table

/-- The walk of `vaddr` ends in a table: no further table hangs from the slot it selects. -/
structure Ends (s : Paging PTE σ) (vaddr : Nat) (size : PageSize) (table : Nat) : Prop where
  walks : s.Walks vaddr size table
  last : size = .size4K ∨ isTable (s.entry (slotAt size vaddr table)) = false

/-- The view of an address is read off the first entry on its way that links no table. -/
def view (s : Paging PTE σ) (vaddr : Nat) : View PTE :=
  let p3 := s.entry (slotAt .size1G vaddr s.rootPaddr)
  if isTable p3 then
    let p2 := s.entry (slotAt .size2M vaddr (paddr p3))
    if isTable p2 then leafView (s.entry (slotAt .size4K vaddr (paddr p2))) .size4K
    else leafView p2 .size2M
  else leafView p3 .size1G

-----------------------------------------------------------------------------------------
-- One step of a walk
-----------------------------------------------------------------------------------------

@[simp]
theorem nextTableMut_ok {e : PTE} {p : Nat}
    : nextTableMut e = .ok p ↔ isTable e = true ∧ paddr e = p := by
  unfold nextTableMut isTable
  cases isPresent e <;> cases isHuge e <;> simp

/-- An inner entry that is not huge is followed, or the address is not mapped. -/
theorem nextTableMut_small {e : PTE} (small : isHuge e = false)
    : nextTableMut e = if isTable e then .ok (paddr e) else .error .notMapped := by
  unfold nextTableMut isTable
  cases isPresent e <;> simp [small]

theorem links_eq_some {s : Paging PTE σ} {f i p : Nat}
    : s.links f i = some p ↔ isTable (s.frames f i) = true ∧ paddr (s.frames f i) = p := by
  unfold links
  split <;> simp_all

theorem links_eq_none {s : Paging PTE σ} {f i : Nat}
    : s.links f i = none ↔ isTable (s.frames f i) = false := by
  unfold links
  split <;> simp_all

/-- Every walk starts at the root. -/
theorem walks_root (s : Paging PTE σ) (vaddr : Nat) : s.Walks vaddr .size1G s.rootPaddr :=
  .root

/-- A walk follows the link of the slot it selects into the tables of the next smaller size. -/
theorem Walks.step {s : Paging PTE σ} {vaddr table p : Nat} {size : PageSize}
    (walks : s.Walks vaddr size table) (lower : PageSize) (step : size.height = lower.height + 1)
    (linked : s.links table (slotAt size vaddr table).index = some p)
    : s.Walks vaddr lower p := by
  unfold Walks at walks ⊢
  unfold slotAt at linked
  rw [step] at walks linked
  exact .down walks linked

/-- A table entry at the end of a walk is followed. -/
theorem Walks.next {s : Paging PTE σ} {vaddr table : Nat} {size : PageSize}
    (walks : s.Walks vaddr size table) (lower : PageSize) (step : size.height = lower.height + 1)
    (linked : isTable (s.entry (slotAt size vaddr table)) = true)
    : s.Walks vaddr lower (paddr (s.entry (slotAt size vaddr table))) :=
  walks.step lower step (links_eq_some.mpr ⟨linked, rfl⟩)

/-- `getEntryMut` finds the entry where the walk ends, unless that is an inner entry that is
not a page.
-/
theorem getEntryMut_ends (s : Paging PTE σ) (vaddr : Nat)
    : ∃ size table,
        s.Ends vaddr size table
        ∧ s.getEntryMut vaddr
          = if size = .size4K ∨ isHuge (s.entry (slotAt size vaddr table)) = true then
              .ok (slotAt size vaddr table, size)
            else .error .notMapped := by
  have notTable {e : PTE} (huge : isHuge e = true) : isTable e = false := by
    simp [isTable, huge]
  have notMapped {e : PTE} (small : isHuge e = false) (leaf : isTable e = false)
      : nextTableMut e = .error .notMapped := by
    simp [nextTableMut_small small, leaf]
  have followed {e : PTE} (table : isTable e = true)
      : isHuge e = false ∧ nextTableMut e = .ok (paddr e) := by
    refine ⟨?_, nextTableMut_ok.mpr ⟨table, rfl⟩⟩
    unfold isTable at table
    simp_all
  have slot1G : (⟨s.rootPaddr, p3Index vaddr⟩ : Slot) = slotAt .size1G vaddr s.rootPaddr := by
    rw [p3Index_eq]
    rfl
  have slot2M (t : Nat) : (⟨t, p2Index vaddr⟩ : Slot) = slotAt .size2M vaddr t := by
    rw [p2Index_eq]
    rfl
  have slot4K (t : Nat) : (⟨t, p1Index vaddr⟩ : Slot) = slotAt .size4K vaddr t := by
    rw [p1Index_eq]
    rfl
  have walks := s.walks_root vaddr
  cases top : isTable (s.entry (slotAt .size1G vaddr s.rootPaddr)) with
  | false =>
      refine ⟨_, _, ⟨walks, .inr top⟩, ?_⟩
      simp only [getEntryMut, slot1G, slot2M, slot4K]
      cases huge : isHuge (s.entry (slotAt .size1G vaddr s.rootPaddr)) with
      | true => simp
      | false => simp [notMapped huge top]
  | true =>
      obtain ⟨small, next⟩ := followed top
      have walks2M := walks.next .size2M rfl top
      cases middle : isTable (s.entry (slotAt .size2M vaddr _)) with
      | false =>
          refine ⟨_, _, ⟨walks2M, .inr middle⟩, ?_⟩
          simp only [getEntryMut, slot1G, slot2M, slot4K]
          cases huge : isHuge (s.entry (slotAt .size2M vaddr _)) with
          | true => simp [small, next, huge]
          | false => simp [small, next, huge, notMapped huge middle]
      | true =>
          obtain ⟨small', next'⟩ := followed middle
          refine ⟨_, _, ⟨walks2M.next .size4K rfl middle, .inl rfl⟩, ?_⟩
          simp only [getEntryMut, slot1G, slot2M, slot4K]
          simp [small, next, small', next']

theorem exists_ends (s : Paging PTE σ) (vaddr : Nat)
    : ∃ size table, s.Ends vaddr size table := by
  obtain ⟨size, table, ends, -⟩ := s.getEntryMut_ends vaddr
  exact ⟨size, table, ends⟩

/-- The view is that of the entry where the walk ends. -/
theorem Ends.view_eq {s : Paging PTE σ} {vaddr table : Nat} {size : PageSize}
    (ends : s.Ends vaddr size table)
    : s.view vaddr = leafView (s.entry (slotAt size vaddr table)) size := by
  obtain ⟨walks, last⟩ := ends
  have at1G {t} (walks : s.Walks vaddr .size1G t) : t = s.rootPaddr :=
    walks.functional (s.walks_root vaddr)
  have at2M {t} (walks : s.Walks vaddr .size2M t)
      : isTable (s.entry (slotAt .size1G vaddr s.rootPaddr)) = true
        ∧ t = paddr (s.entry (slotAt .size1G vaddr s.rootPaddr)) := by
    cases walks with
    | down above linked =>
        obtain rfl := at1G above
        obtain ⟨isTab, rfl⟩ := links_eq_some.mp linked
        exact ⟨isTab, rfl⟩
  cases size with
  | size1G =>
      obtain rfl := at1G walks
      simp [view, last.resolve_left (by decide)]
  | size2M =>
      obtain ⟨isTab, rfl⟩ := at2M walks
      simp [view, isTab, last.resolve_left (by decide)]
  | size4K =>
      cases walks with
      | down above linked =>
          obtain ⟨isTab, rfl⟩ := at2M above
          obtain ⟨isTab', rfl⟩ := links_eq_some.mp linked
          change isTable (s.entry (slotAt .size2M vaddr _)) = true at isTab'
          simp only [view, isTab, isTab', if_true]
          rfl

/-- A used entry that `getEntryMut` finds is the page in view. -/
theorem getEntryMut_page {s : Paging PTE σ} {vaddr : Nat} {slot : Slot} {size : PageSize}
    (found : s.getEntryMut vaddr = .ok (slot, size)) (inUse : isUnused (s.entry slot) = false)
    : ∃ table,
        s.Walks vaddr size table
        ∧ slot = slotAt size vaddr table
        ∧ (size = .size4K ∨ isTable (s.entry slot) = false)
        ∧ s.view vaddr = .page (s.entry slot) size := by
  obtain ⟨size', table, ends, run⟩ := s.getEntryMut_ends vaddr
  rw [found] at run
  split at run
  · rename_i leaf
    cases run
    exact ⟨table, ends.walks, rfl, ends.last, by simp [ends.view_eq, leafView, inUse, leaf]⟩
  · cases run

/-- A page in view is found by `getEntryMut`. -/
theorem getEntryMut_of_page {s : Paging PTE σ} {vaddr : Nat} {e : PTE} {size : PageSize}
    (page : s.view vaddr = .page e size)
    : ∃ slot,
        s.getEntryMut vaddr = .ok (slot, size)
        ∧ s.entry slot = e
        ∧ isUnused e = false
        ∧ (size = .size4K ∨ isHuge e = true) := by
  obtain ⟨size', table, ends, run⟩ := s.getEntryMut_ends vaddr
  rw [ends.view_eq, leafView] at page
  split at page
  · cases page
  rename_i inUse
  split at page
  · rename_i leaf
    cases page
    exact ⟨_, by rw [run, if_pos leaf], rfl, by simpa using inUse, leaf⟩
  · cases page

/-- Where no page is in view, `getEntryMut` finds nothing or an unused 4K entry. -/
theorem getEntryMut_error [LawfulPTE PTE] {s : Paging PTE σ} {vaddr : Nat}
    (absent : ∀ e size, s.view vaddr ≠ .page e size)
    : s.getEntryMut vaddr = .error .notMapped
      ∨ ∃ slot,
        s.getEntryMut vaddr = .ok (slot, .size4K) ∧ isUnused (s.entry slot) = true := by
  obtain ⟨size, table, ends, run⟩ := s.getEntryMut_ends vaddr
  rw [ends.view_eq] at absent
  split at run
  · rename_i leaf
    have unused : isUnused (s.entry (slotAt size vaddr table)) = true := by
      by_contra inUse
      rw [Bool.not_eq_true] at inUse
      exact absent (s.entry (slotAt size vaddr table)) size (by simp [leafView, inUse, leaf])
    obtain rfl := leaf.resolve_right (by simp [LawfulPTE.small_of_unused unused])
    exact .inr ⟨_, run, unused⟩
  · exact .inl run

/-- `query` reports what is in view. -/
theorem query_eq_view [LawfulPTE PTE] (s : Paging PTE σ) (vaddr : Nat)
    : s.query vaddr = (s.view vaddr).report vaddr := by
  have none (absent : ∀ e size, s.view vaddr ≠ .page e size)
      : s.query vaddr = .error .notMapped := by
    unfold query
    rcases getEntryMut_error absent with found | ⟨slot, found, unused⟩
    · simp [found]
    · simp [found, unused]
  cases shown : s.view vaddr with
  | page e size =>
      obtain ⟨slot, found, rfl, inUse, -⟩ := getEntryMut_of_page shown
      simp [query, found, inUse, View.report]
  | unused => exact none (by simp [shown])
  | blocked => exact none (by simp [shown])

-----------------------------------------------------------------------------------------
-- Writes to one slot
-----------------------------------------------------------------------------------------

omit [GenericPTE PTE] in
@[simp]
theorem entry_setEntry (s : Paging PTE σ) (slot : Slot) (e : PTE)
    : (s.setEntry slot e).entry slot = e := by
  simp [entry, setEntry]

omit [GenericPTE PTE] in
/-- A write is invisible at every other slot. -/
theorem entry_setEntry_of_ne (s : Paging PTE σ) {slot other : Slot} (e : PTE)
    (ne : other ≠ slot) : (s.setEntry slot e).entry other = s.entry other := by
  have apart : ¬ (other.table = slot.table ∧ other.index = slot.index) := by
    intro same
    exact ne (by cases other; cases slot; simp_all)
  simp [entry, setEntry, apart]

/-- A write changes the links of its slot only. -/
theorem links_setEntry_agree (s : Paging PTE σ) (slot : Slot) (e : PTE)
    : AgreeOff s.links (s.setEntry slot e).links slot.table slot.index := by
  intro a j off
  have apart : ¬ (a = slot.table ∧ j = slot.index) := by tauto
  simp [links, setEntry, apart]

theorem links_setEntry_self (s : Paging PTE σ) (slot : Slot) {e : PTE}
    (leaf : isTable e = false) : (s.setEntry slot e).links slot.table slot.index = none := by
  simp [links, setEntry, leaf]

/-- Addresses of one block walk to the same slot. -/
theorem Walks.same_block {s : Paging PTE σ} {vaddr other table : Nat} {size : PageSize}
    (walks : s.Walks vaddr size table)
    (same : block size other = block size vaddr)
    : s.Walks other size table ∧ slotAt size other table = slotAt size vaddr table := by
  unfold block at same
  refine ⟨walks.of_prefix_eq ?_, ?_⟩
  · rw [Nat.pow_succ, ← Nat.div_div_eq_div_mul, same, Nat.div_div_eq_div_mul]
  · simp only [slotAt, digit, same]

end Paging

end Views

end RCoreOS.PageTable
