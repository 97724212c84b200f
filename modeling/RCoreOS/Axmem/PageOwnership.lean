import RCoreOS.Axmem.Agreement
import Mathlib.Data.List.Nodup

/-! Ownership of page frames: each is owned by one slot, is in use and holds no page table.
Page table operations and other allocations keep it, dropping pages gives it up.
-/

namespace RCoreOS.Axmem

open PageTable GenericPTE Outcome
open PageTable.Paging (Keeps SameTables)

/-- The frames are owned once each, are in use, and are no page tables. -/
structure Framed {PTE σ : Type} [PagingIf σ] [LawfulPagingIf σ] (s : Paging PTE σ)
    (frames : List Nat)
    : Prop where
  nodup : frames.Nodup
  owned : ∀ f ∈ frames, f ∈ s.used
  apart : ∀ f ∈ frames, f ∉ s.intrmTables

section Framed

variable {PTE σ : Type} [GenericPTE PTE] [PagingIf σ] [LawfulPagingIf σ]
variable {s s' : Paging PTE σ} {frames frames' : List Nat}

omit [GenericPTE PTE] in
theorem Framed.perm (framed : Framed s frames) (perm : frames.Perm frames') : Framed s frames' where
  nodup := perm.nodup framed.nodup
  owned f member := framed.owned f (perm.mem_iff.mpr member)
  apart f member := framed.apart f (perm.mem_iff.mpr member)

/-- Page table operations take frames that nobody used before. -/
theorem Framed.keeps (framed : Framed s frames) (keeps : Keeps True s s') : Framed s' frames := by
  obtain ⟨after, effect⟩ := keeps
  obtain ⟨fresh, tables, used, new⟩ := effect.footprint.tables
  refine ⟨framed.nodup, fun f member => (used f).mpr (.inl (framed.owned f member)), ?_⟩
  intro f member table
  rw [tables, List.mem_append] at table
  rcases table with old | isFresh
  · exact framed.apart f member old
  · exact new f isFresh (framed.owned f member)

omit [GenericPTE PTE] in
/-- Ownership only concerns the frames that are owned. -/
theorem Framed.elsewhere (framed : Framed s frames) (same : s'.intrmTables = s.intrmTables)
    (owned : ∀ f ∈ frames, f ∈ s'.used)
    : Framed s' frames :=
  ⟨framed.nodup, owned, fun f member => same ▸ framed.apart f member⟩

theorem tables_used (wf : s.WellFormed True) : ∀ f ∈ s.intrmTables, f ∈ s.used := by
  obtain ⟨place, layout, -⟩ := wf
  exact layout.owned

end Framed

section Pages

variable {PTE σ : Type} [GenericPTE PTE] [GlobalAllocator σ] [LawfulGlobalAllocator σ]
variable {m : Machine PTE σ}

omit [GenericPTE PTE] in
/-- Dropping pages that are owned once each releases their frames and no others, by induction
on the pages.
-/
theorem drop_pages (pages : List PhysPage) (linear : ∀ page ∈ pages, Linear page.startVaddr)
    (nodup : (pages.map PhysPage.paddr).Nodup)
    (owned : ∀ f ∈ pages.map PhysPage.paddr, f ∈ m.toPaging.used)
    : ∃ allocator,
        pages.foldl PhysPage.drop m = m.withAllocator allocator
        ∧ ∀ f,
          f ∈ LawfulPagingIf.inUse allocator
            ↔ f ∈ m.toPaging.used ∧ f ∉ pages.map PhysPage.paddr := by
  induction pages generalizing m with
  | nil => exact ⟨m.allocator, rfl, by simp [Paging.used]⟩
  | cons page pages ih =>
      obtain ⟨linearFirst, linear⟩ := List.forall_mem_cons.mp linear
      obtain ⟨notLater, nodup⟩ := List.nodup_cons.mp nodup
      obtain ⟨ownedFirst, owned⟩ := List.forall_mem_cons.mp owned
      have released : (page.drop m).toPaging.used = m.toPaging.used \ {page.paddr} :=
        LawfulGlobalAllocator.dealloc linearFirst ownedFirst
      have still (f : Nat) (member : f ∈ pages.map PhysPage.paddr)
          : f ∈ (page.drop m).toPaging.used := by
        rw [released]
        exact ⟨owned f member, fun same => notLater (same ▸ member)⟩
      obtain ⟨allocator, run, used⟩ := ih linear nodup still
      refine ⟨allocator, run, fun f => ?_⟩
      rw [used, released, List.map_cons, List.mem_cons, not_or]
      exact and_assoc

/-- Dropping owned pages leaves the page table and the other frames alone. -/
theorem Framed.dropPages {slots : List (Option PhysPage)} {frames : List Nat}
    (tables : m.toPaging.WellFormed True)
    (linear : ∀ page, some page ∈ slots → Linear page.startVaddr)
    (framed : Framed m.toPaging (slots.reduceOption.map PhysPage.paddr ++ frames))
    : SameTables m.toPaging (dropPages slots m).toPaging
      ∧ Framed (dropPages slots m).toPaging frames := by
  obtain ⟨nodup, nodupRest, disjoint⟩ := List.nodup_append.mp framed.nodup
  obtain ⟨allocator, run, used⟩ := drop_pages slots.reduceOption
    (fun page member => linear page (List.reduceOption_mem_iff.mp member)) nodup
    (fun f member => framed.owned f (List.mem_append_left frames member))
  rw [Axmem.dropPages, run]
  refine ⟨⟨rfl, fun _ _ => rfl, fun f table => (used f).mpr ⟨tables_used tables f table, ?_⟩⟩,
    nodupRest, fun f member => (used f).mpr ⟨?_, ?_⟩, ?_⟩
  · exact fun page => framed.apart f (List.mem_append_left frames page) table
  · exact framed.owned f (List.mem_append_right _ member)
  · exact fun page => disjoint f page f member rfl
  · exact fun f member => framed.apart f (List.mem_append_right _ member)

/-- A page that is allocated has a frame of its own. -/
theorem alloc_ok {m' : Machine PTE σ} {page : PhysPage} (tables : m.toPaging.WellFormed True)
    (run : PhysPage.alloc m = (.ok page, m'))
    : Linear page.startVaddr
      ∧ SameTables m.toPaging m'.toPaging
      ∧ ∀ frames, Framed m.toPaging frames → Framed m'.toPaging (page.paddr :: frames) := by
  rcases alloc : GlobalAllocator.allocPages m.allocator 1 PAGE_SIZE_4K with ⟨e | vaddr, allocator⟩
  · simp [PhysPage.alloc, alloc] at run
  simp only [PhysPage.alloc, alloc, Prod.mk.injEq, Except.ok.injEq] at run
  obtain ⟨rfl, rfl⟩ := run
  obtain ⟨fresh, used⟩ := LawfulGlobalAllocator.alloc_ok alloc
  obtain ⟨linear, unused⟩ : Linear vaddr ∧ virtToPhys vaddr ∉ m.toPaging.used :=
    fresh 0 Nat.one_pos
  have grown (f : Nat) (old : f ∈ m.toPaging.used)
      : f ∈ (m.withAllocator allocator).toPaging.used :=
    (used f).mpr (.inl old)
  refine ⟨linear, ⟨rfl, fun _ _ => rfl, fun f table => grown f (tables_used tables f table)⟩, ?_⟩
  refine fun frames framed => ⟨List.nodup_cons.mpr ⟨?_, framed.nodup⟩, ?_, ?_⟩
  · exact fun member => unused (framed.owned _ member)
  · refine List.forall_mem_cons.mpr ⟨(used _).mpr (.inr ⟨0, Nat.one_pos, rfl⟩), ?_⟩
    exact fun f member => grown f (framed.owned f member)
  · refine List.forall_mem_cons.mpr ⟨?_, framed.apart⟩
    exact fun table => unused (tables_used tables _ table)

omit [GenericPTE PTE] [GlobalAllocator σ] [LawfulGlobalAllocator σ] in
theorem writeBytes_at (paddr a : Nat) (data : List UInt8)
    : (m.writeBytes paddr data).bytes a
      = if paddr ≤ a then (data[a - paddr]?).getD (m.bytes a) else m.bytes a :=
  rfl

omit [GenericPTE PTE] [GlobalAllocator σ] [LawfulGlobalAllocator σ] in
/-- A page that is written with the bytes of another has them, and other bytes stay. -/
theorem copied_bytes (m : Machine PTE σ) (p q a : Nat)
    : (m.writeBytes q (m.readBytes p PAGE_SIZE_4K)).bytes a
      = if q ≤ a ∧ a < q + 4096 then m.bytes (p + (a - q)) else m.bytes a := by
  have found (i : Nat) : (m.readBytes p PAGE_SIZE_4K)[i]?
      = if i < 4096 then some (m.bytes (p + i)) else none := by
    unfold Machine.readBytes PAGE_SIZE_4K
    rw [List.getElem?_map]
    split
    · rename_i inside
      rw [List.getElem?_range inside, Option.map_some]
    · rename_i outside
      rw [List.getElem?_eq_none (by simpa using outside), Option.map_none]
  simp only [Machine.writeBytes, found]
  by_cases inside : q ≤ a ∧ a < q + 4096
  · rw [if_pos inside, if_pos inside.1, if_pos (by omega), Option.getD_some]
  · rw [if_neg inside]
    split
    · rw [if_neg (by omega), Option.getD_none]
    · rfl

theorem pageSize : PAGE_SIZE_4K = 4096 :=
  rfl

/-- Consecutive pages. -/
def contiguousPages (vaddr numPages : Nat) : List (Option PhysPage) :=
  (List.range numPages).map fun i => some ⟨vaddr + i * PAGE_SIZE_4K⟩

/-- A slot of consecutive pages. -/
theorem contiguousPages_slot {vaddr numPages i : Nat} {slot : Option PhysPage}
    (found : (contiguousPages vaddr numPages)[i]? = some slot)
    : i < numPages ∧ slot = some ⟨vaddr + i * 4096⟩ := by
  rw [contiguousPages, List.getElem?_map, Option.map_eq_some_iff] at found
  obtain ⟨j, isIndex, rfl⟩ := found
  obtain ⟨inside, same⟩ := List.getElem?_eq_some_iff.mp isIndex
  rw [List.getElem_range] at same
  exact ⟨by simpa using inside, by rw [same, pageSize]⟩

theorem contiguousPages_at {vaddr numPages i : Nat} (inside : i < numPages)
    : (contiguousPages vaddr numPages)[i]? = some (some ⟨vaddr + i * 4096⟩) := by
  rw [contiguousPages, List.getElem?_map, List.getElem?_range inside, pageSize]
  rfl

/-- The frame of a page behind another. -/
theorem paddr_behind {vaddr i : Nat} (first : Linear vaddr) (linear : Linear (vaddr + i * 4096))
    : PhysPage.paddr ⟨vaddr + i * 4096⟩ = virtToPhys vaddr + i * 4096 := by
  have above := first.2.1
  rw [PhysPage.paddr]
  dsimp only
  rw [virtToPhys_of_linear linear, virtToPhys_of_linear first]
  omega

/-- Consecutive pages have consecutive frames. -/
theorem contiguousPages_frames {vaddr numPages : Nat}
    (linear : ∀ i, i < numPages → Linear (vaddr + i * 4096))
    : (contiguousPages vaddr numPages).reduceOption.map PhysPage.paddr
      = (List.range numPages).map fun i => virtToPhys vaddr + i * 4096 := by
  have pages : contiguousPages vaddr numPages
      = ((List.range numPages).map fun i => ⟨vaddr + i * PAGE_SIZE_4K⟩).map some := by
    rw [List.map_map]
    rfl
  rw [pages, List.reduceOption, List.filterMap_map, Function.id_comp, List.filterMap_some,
    List.map_map]
  refine List.map_congr_left fun i member => ?_
  have inside := List.mem_range.mp member
  have first := linear 0 (by omega)
  rw [Nat.zero_mul, Nat.add_zero] at first
  rw [Function.comp_apply, pageSize]
  exact paddr_behind first (linear i inside)

/-- What an allocation of consecutive pages does: the pages have frames of their own, with the data
and zeros behind it, and nothing else changes.
-/
structure AllocatesContiguous (m m' : Machine PTE σ) (vaddr numPages : Nat) (data : List UInt8)
    : Prop where
  linear : ∀ i, i < numPages → Linear (vaddr + i * 4096)
  tables : SameTables m.toPaging m'.toPaging
  framed
    : ∀ frames, Framed m.toPaging frames
      → Framed m'.toPaging
          ((contiguousPages vaddr numPages).reduceOption.map PhysPage.paddr ++ frames)
  inside : ∀ i, i < numPages * 4096 → m'.bytes (virtToPhys vaddr + i) = (data[i]?).getD 0
  outside
    : ∀ a, a < virtToPhys vaddr ∨ virtToPhys vaddr + numPages * 4096 ≤ a → m'.bytes a = m.bytes a

/-- Consecutive pages are allocated, or the allocator has none. -/
theorem allocContiguous_ok {numPages : Nat} {data : List UInt8} {allowed : Crash → Prop}
    (tables : m.toPaging.WellFormed True) (fits : data.length ≤ numPages * 4096)
    : Ends allowed
        (fun r =>
          (∃ e, r.1 = .error e)
          ∨ ∃ vaddr, r.1 = .ok (contiguousPages vaddr numPages)
            ∧ AllocatesContiguous m r.2 vaddr numPages data)
        (PhysPage.allocContiguous numPages PAGE_SIZE_4K (some data) m) := by
  rcases alloc : GlobalAllocator.allocPages m.allocator numPages PAGE_SIZE_4K
    with ⟨e | vaddr, allocator⟩
  · simp only [PhysPage.allocContiguous, alloc]
    exact .inl ⟨_, rfl⟩
  obtain ⟨fresh, used⟩ := LawfulGlobalAllocator.alloc_ok alloc
  have linear (i : Nat) (inside : i < numPages) : Linear (vaddr + i * 4096) := (fresh i inside).1
  simp only [PhysPage.allocContiguous, alloc]
  rw [if_neg (by unfold PAGE_SIZE_4K; omega)]
  refine .inr ⟨vaddr, rfl, linear, ⟨rfl, fun _ _ => rfl, fun f table => ?_⟩, ?_, ?_, ?_⟩
  · exact (used f).mpr (.inl (tables_used tables f table))
  · intro frames framed
    have own {f : Nat}
        (member : f ∈ (contiguousPages vaddr numPages).reduceOption.map PhysPage.paddr)
        : ∃ i, i < numPages ∧ f = virtToPhys (vaddr + i * 4096) := by
      obtain ⟨page, isPage, rfl⟩ := List.mem_map.mp member
      obtain ⟨i, isSlot⟩ := List.mem_iff_getElem?.mp (List.reduceOption_mem_iff.mp isPage)
      obtain ⟨inside, same⟩ := contiguousPages_slot isSlot
      obtain rfl := Option.some.inj same
      exact ⟨i, inside, by rw [PhysPage.paddr]⟩
    have unused {f : Nat}
        (member : f ∈ (contiguousPages vaddr numPages).reduceOption.map PhysPage.paddr)
        : f ∉ m.toPaging.used := by
      obtain ⟨i, inside, same⟩ := own member
      rw [same]
      exact (fresh i inside).2
    refine ⟨List.nodup_append.mpr ⟨?_, framed.nodup, ?_⟩, ?_, ?_⟩
    · rw [contiguousPages_frames linear]
      refine List.Nodup.map (fun i j same => ?_) List.nodup_range
      omega
    · rintro f isNew f' old rfl
      exact unused isNew (framed.owned f old)
    · intro f member
      refine (used f).mpr ((List.mem_append.mp member).elim (fun isNew => .inr (own isNew))
        fun old => .inl (framed.owned f old))
    · intro f member table
      rcases List.mem_append.mp member with isNew | old
      · exact unused isNew (tables_used tables f table)
      · exact framed.apart f old table
  · intro i inside
    rw [writeBytes_at, if_pos (Nat.le_add_right ..), Nat.add_sub_cancel_left, writeBytes_at,
      if_pos (Nat.le_add_right ..), Nat.add_sub_cancel_left, pageSize,
      List.getElem?_replicate_of_lt inside, Option.getD_some]
  · intro a away
    rw [writeBytes_at, writeBytes_at]
    split
    · rw [List.getElem?_eq_none (by omega), List.getElem?_eq_none]
      · rfl
      · rw [List.length_replicate]
        unfold PAGE_SIZE_4K
        omega
    · rfl

end Pages

end RCoreOS.Axmem
