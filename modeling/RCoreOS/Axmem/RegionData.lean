import RCoreOS.Axmem.Contents

/-! Regions that are made with their data. Such a region is loaded from the start, with zeros
behind the data, and later regions leave it as it is.
-/

namespace RCoreOS.Axmem

open PageTable GenericPTE Outcome

namespace MemorySet

section Regions

variable {PTE σ : Type} [GenericPTE PTE] [LawfulPTE PTE] [GlobalAllocator σ]
variable [LawfulGlobalAllocator σ]
variable {s s' : MemorySet PTE σ} {start numPages va : Nat} {flags : MappingFlags}
variable {data : List UInt8} {mapping : Mapping} {page : PhysPage} {allowed : Crash → Prop}
variable {kind : Nat → MappingFlags → Option MemBackend → Prop}

/-- All pages of the region are loaded with the flags, and have the data and zeros behind it. -/
def HasRegion (s : MemorySet PTE σ) (start numPages : Nat) (flags : MappingFlags)
    (data : List UInt8) : Prop :=
  ∀ i, i < numPages * 4096
    → ∃ mapping page,
      s.Maps (start + i) mapping
      ∧ mapping.slot = some page
      ∧ mapping.flags = flags
      ∧ s.bytes (page.paddr + (start + i) % 4096) = (data[i]?).getD 0

/-- What is mapped by a page that can be accessed is found with the flags of its area. -/
theorem Furnished.query (furnished : Furnished s) (maps : s.Maps va mapping)
    (loaded : mapping.slot = some page)
    : s.query va = .ok (page.paddr + va % 4096, mapping.flags.access, .size4K) := by
  obtain ⟨slot, run, entry⟩ := furnished.getEntry maps
  rw [loaded] at entry
  dsimp only at entry
  have frame := (PhysPage.frameAddr (furnished.linear maps loaded)).1
  rw [Paging.query, run]
  dsimp only
  rw [entry, LawfulPTE.page_used, if_neg Bool.false_ne_true, LawfulPTE.page_paddr _ _ frame,
    LawfulPTE.page_flags, alignOffset_page va .size4K]
  rfl

/-- The byte of a page that is loaded and present. -/
theorem Furnished.load (furnished : Furnished s) (maps : s.Maps va mapping)
    (loaded : mapping.slot = some page) (leaf : mapping.flags.isLeaf = true)
    : s.load va = some (s.bytes (page.paddr + va % 4096)) := by
  obtain ⟨slot, run, entry⟩ := furnished.getEntry maps
  rw [loaded] at entry
  dsimp only at entry
  have frame := (PhysPage.frameAddr (furnished.linear maps loaded)).1
  rw [Machine.load, run]
  dsimp only
  rw [entry, LawfulPTE.page_present _ _ leaf, if_pos rfl, LawfulPTE.page_paddr _ _ frame,
    alignOffset_page va .size4K]
  rfl

/-- A new region with its data in a free range, unless memory runs out: the region is there, and
the regions that were there are still there.
-/
theorem Agrees.newRegion_data {size : Nat} (memory : allowed .outOfMemory)
    (agrees : Agrees kind s []) (kindOf : kind start flags none) (aligned : start % 4096 = 0)
    (pages : numPages = (size + PAGE_SIZE_4K - 1) / PAGE_SIZE_4K) (nonempty : 0 < numPages)
    (below : start + 4096 * numPages ≤ 2 ^ 38) (fits : data.length ≤ numPages * 4096)
    (cleared : s.Cleared start (start + 4096 * numPages))
    : Ends allowed
        (fun s' =>
          Agrees kind s' []
          ∧ HasRegion s' start numPages flags data
          ∧ (∀ {start' numPages' flags' data'}, HasRegion s start' numPages' flags' data'
            → HasRegion s' start' numPages' flags' data')
          ∧ ∀ {low high}, s.Cleared low high
            → start + 4096 * numPages ≤ low ∨ high ≤ start → s'.Cleared low high)
        (s.newRegion start size flags (some data) none) := by
  rw [MemorySet.newRegion, ← pages]
  refine (Sound.newAlloc memory agrees.sound aligned nonempty below fits cleared).bind ?_
  rintro ⟨result, m⟩ (⟨e, rfl⟩ | ⟨first, rfl, sound, brings⟩)
  · exact memory
  obtain ⟨s', insert, agrees', values⟩ := (agrees.withMachine [_] sound
    (List.forall_mem_singleton.mpr kindOf)).insertArea
  have bytes : s'.bytes = m.bytes := insertArea_bytes.of_ok insert
  refine .of_eq insert ⟨agrees', ?_, ?_, ?_⟩
  · intro i inside
    have member : MapArea.contiguous start first numPages flags none ∈ s'.ownedMem.values :=
      values.mem_iff.mpr (List.mem_cons_self ..)
    have slot : (contiguousPages first numPages)[(start + i - start) / 4096]?
        = some (some ⟨first + i / 4096 * 4096⟩) := by
      rw [Nat.add_sub_cancel_left]
      exact contiguousPages_at (by omega)
    have linear (j : Nat) (isPage : j < numPages) : Linear (first + j * 4096) :=
      (sound.laid.shaped _ (List.mem_cons_self ..)).linear ⟨first + j * 4096⟩
        (List.mem_of_getElem? (contiguousPages_at isPage))
    have frame := paddr_behind (by simpa using linear 0 nonempty) (linear (i / 4096) (by omega))
    have offset : i / 4096 * 4096 + (start + i) % 4096 = i := by omega
    refine ⟨(MapArea.contiguous start first numPages flags none).mapping (start + i), _, ?_,
      congrArg Option.join slot, rfl, ?_⟩
    · refine ⟨_, member, Nat.le_add_right .., ?_, rfl⟩
      rw [MapArea.contiguous_stop]
      omega
    · rw [bytes, frame, Nat.add_assoc, offset]
      exact brings.inside i inside
  · intro start' numPages' flags' data' has i inside
    obtain ⟨mapping, page, ⟨area, member, holds⟩, loaded, flag, byte⟩ := has i inside
    have frame := Maps.frame ⟨area, member, holds⟩ loaded
    refine ⟨mapping, page, ⟨area, ?_, holds⟩, loaded, flag, ?_⟩
    · exact values.mem_iff.mpr (List.mem_cons_of_mem _ member)
    · rw [bytes, brings.outside _ frame _ (Nat.mod_lt _ (by decide))]
      exact byte
  · intro low high before apart
    refine Cleared.insert (s := s.withMachine m) before values ?_
    unfold MapArea.Away
    rw [MapArea.contiguous_stop]
    exact apart

end Regions

end MemorySet

end RCoreOS.Axmem
