import RCoreOS.Axmem.Keeping
import RCoreOS.Axmem.Representation

/-! Where the pages of a file mapping are read. The offset is kept as the cursor of the file that
an area has; through every run of requests each page keeps the offset that it had when it was
mapped, until it is taken away.
-/

namespace RCoreOS.Axmem

open PageTable GenericPTE Outcome

variable {fs : Vfs}

-----------------------------------------------------------------------------------------
-- Memory sets
-----------------------------------------------------------------------------------------

namespace MemorySet

variable {PTE σ : Type} {s s' : MemorySet PTE σ} {area : MapArea} {areas pieces : List MapArea}
variable {start stop va : Nat} {mapped : List MapArea}

/-- Cutting an area does not change where its file is read for an address. -/
theorem position_steady : MapArea.Steady MapArea.position where
  left _ _ _ _ := rfl
  behind _ cuts inside _ := cuts.position_behind inside

/-- One of the areas has the address, and its file is read at the position there. -/
def Backed (areas : List MapArea) (va : Nat) (position : MemBackend) : Prop :=
  Has MapArea.position areas va (some position)

theorem Tidy.of_empty (none : s.ownedMem = .empty) : Tidy s [] where
  keyed := by simp [none, BTreeMap.empty]
  placed := by simp [none, BTreeMap.empty, BTreeMap.values]
  apart := by simp [none, BTreeMap.empty, BTreeMap.values]

theorem Keeping.updateFlags (keeping : Keeping MapArea.position start stop mapped s (area :: areas))
    (flags : MappingFlags)
    : Keeping MapArea.position start stop mapped s ({ area with flags } :: areas) := by
  have placed := keeping.tidy.placed area (.head _)
  refine keeping.replace [_] (keeping.tidy.replace [_] ?_ ?_ ?_) ?_
  · exact List.forall_mem_singleton.mpr ⟨placed.aligned, placed.nonempty, placed.below⟩
  · exact List.forall_mem_singleton.mpr ⟨Nat.le_refl _, Nat.le_refl _⟩
  · exact List.pairwise_singleton ..
  · exact fun va _ lower upper => ⟨_, List.mem_cons_self .., lower, upper, rfl⟩

section Loops

variable [GenericPTE PTE] [GlobalAllocator σ]

omit [GlobalAllocator σ] in
/-- What an overlapped area has in the range gets the flags, and nothing moves. -/
theorem Keeping.protectArea {flags : MappingFlags}
    (keeping : Keeping MapArea.position 0 0 mapped s (area :: areas))
    (overlap : Overlap area start stop)
    : Returns (fun s' => Keeping MapArea.position 0 0 mapped s' areas)
        (protectArea fs start stop flags s area) := by
  have placed := keeping.tidy.placed area (.head _)
  cases overlap with
  | contained holds =>
      rw [MemorySet.protectArea, if_pos holds]
      refine (MapArea.updateFlags_returns flags).bind ?_
      rintro ⟨_, m⟩ rfl
      exact ((keeping.updateFlags flags).withMachine m).inserts.imp fun s₁ holds₁ => holds₁.1
  | strict no holds first second range =>
      rw [MemorySet.protectArea, no, if_neg Bool.false_ne_true, if_pos holds]
      refine (MapArea.split3_ends placed first second range
        (first.seek_returns placed) (second.seek_returns placed)).bind ?_
      rintro _ rfl
      refine (MapArea.updateFlags_returns flags).bind ?_
      rintro ⟨_, m⟩ rfl
      have firstLeft := first.left second placed range
      have keeping' := ((((keeping.cut position_steady second).cut position_steady
        firstLeft).perm (.swap ..)).updateFlags flags).perm
        ((List.Perm.swap ..).cons _)
      refine (keeping'.withMachine m).inserts.bind fun s₁ holds₁ => ?_
      refine holds₁.1.inserts.bind fun s₂ holds₂ => ?_
      exact holds₂.1.inserts.imp fun s₃ holds₃ => holds₃.1
  | left no no' holds cuts =>
      rw [MemorySet.protectArea, no, no', if_neg Bool.false_ne_true, if_neg Bool.false_ne_true,
        if_pos holds]
      refine (MapArea.split_ends placed cuts (cuts.seek_returns placed)).bind ?_
      rintro _ rfl
      refine (MapArea.updateFlags_returns flags).bind ?_
      rintro ⟨_, m⟩ rfl
      have keeping' := ((keeping.cut position_steady cuts).updateFlags flags).perm (.swap ..)
      refine (keeping'.withMachine m).inserts.bind fun s₁ holds₁ => ?_
      exact holds₁.1.inserts.imp fun s₂ holds₂ => holds₂.1
  | right no no' fails cuts =>
      rw [MemorySet.protectArea, no, no', if_neg Bool.false_ne_true, if_neg Bool.false_ne_true,
        if_neg fails]
      refine (MapArea.split_ends placed cuts (cuts.seek_returns placed)).bind ?_
      rintro _ rfl
      refine (MapArea.updateFlags_returns flags).bind ?_
      rintro ⟨_, m⟩ rfl
      have keeping' := ((keeping.cut position_steady cuts).perm (.swap ..)).updateFlags flags
      refine (keeping'.withMachine m).inserts.bind fun s₁ holds₁ => ?_
      exact holds₁.1.inserts.imp fun s₂ holds₂ => holds₂.1

omit [GlobalAllocator σ] in
/-- Protecting a range moves nothing. -/
theorem Keeping.mprotect {size : Nat} {flags : MappingFlags} (tidy : Tidy s [])
    (alignedStart : start % 4096 = 0) (positive : 0 < size) (below : start + size < 2 ^ 63)
    : Returns (fun s' => Keeping MapArea.position 0 0 s.ownedMem.values s' [])
        (s.mprotect fs start size flags) := by
  have stop : wrapAdd start size = start + size := wrapAdd_of_lt (by unfold USIZE_RANGE; omega)
  have range : start < start + size := Nat.lt_add_of_pos_right positive
  obtain ⟨overlapped, ownedMem, run, tidy', -, perm, overlaps⟩ := tidy.takeOverlapped range
  rw [MemorySet.mprotect, stop]
  refine (Returns.self _).bind fun _ passed => ?_
  have aligned : (start + size) % 4096 = 0 := (isAligned_4k _).mp (assert_ok passed)
  rw [run]
  have keeping : Keeping MapArea.position 0 0 s.ownedMem.values { s with ownedMem } overlapped :=
    ⟨tidy', fun va position _ has => has.perm perm⟩
  refine (Ends.foldlM (fun areas s' =>
      Keeping MapArea.position 0 0 s.ownedMem.values s' areas
      ∧ ∀ area ∈ areas, area.overlapWith start (start + size) = true) ?_
    ⟨keeping, overlaps⟩).imp fun s' holds => holds.1
  rintro area areas s' ⟨keeping, overlaps⟩
  obtain ⟨overlap, overlaps⟩ := List.forall_mem_cons.mp overlaps
  have placed := keeping.tidy.placed area (.head _)
  exact (keeping.protectArea (placed.overlap alignedStart aligned range overlap)).imp
    fun s'' keeping => ⟨keeping, overlaps⟩

-----------------------------------------------------------------------------------------
-- Requests
-----------------------------------------------------------------------------------------

omit [GenericPTE PTE] [GlobalAllocator σ] in
/-- A free range can be filled with an area. -/
theorem Tidy.add (tidy : Tidy s []) (placed : area.Placed)
    (cleared : s.Cleared area.vaddr area.stop)
    : Tidy s [area] where
  keyed := tidy.keyed
  placed := List.forall_mem_cons.mpr ⟨placed, tidy.placed⟩
  apart := List.pairwise_cons.mpr ⟨fun other member => (cleared other member).symm, tidy.apart⟩

theorem newLazy_returns {m : Machine PTE σ} (start numPages : Nat) (flags : MappingFlags)
    (backend : Option MemBackend)
    : Returns (·.1 = MapArea.unloaded start numPages flags backend)
        (MapArea.newLazy start numPages flags backend m) :=
  (Returns.self _).bind fun _ _ => rfl

/-- A new lazily loaded region in a free range is read from its file from the start on. -/
theorem Keeping.newRegion {size low high : Nat} {flags : MappingFlags}
    {backend : Option MemBackend} (keeping : Keeping MapArea.position low high mapped s [])
    (cleared : s.Cleared start (start + size)) (aligned : start % 4096 = 0)
    (alignedSize : size % 4096 = 0) (positive : 0 < size) (below : start + size < 2 ^ 63)
    : Returns (fun s' => Keeping MapArea.position low high mapped s' []
        ∧ ∀ b ∈ backend, ∀ va, start ≤ va → va < start + size
          → Backed s'.ownedMem.values va (b.forward (va - start)))
        (s.newRegion start size flags none backend) := by
  have stop : (MapArea.unloaded start (size / 4096) flags backend).stop = start + size :=
    MapArea.unloaded_stop alignedSize
  have placed : (MapArea.unloaded start (size / 4096) flags backend).Placed := by
    refine ⟨aligned, List.ne_nil_of_length_pos ?_, stop.trans_lt below⟩
    simp only [MapArea.unloaded, List.length_replicate]
    omega
  rw [MemorySet.newRegion, numPages_of_aligned alignedSize]
  refine (newLazy_returns ..).bind ?_
  rintro ⟨_, m⟩ rfl
  have keeping' : Keeping MapArea.position low high mapped s
      [MapArea.unloaded start (size / 4096) flags backend] :=
    ⟨keeping.tidy.add placed (stop.symm ▸ cleared), fun va position outside backed => by
      obtain ⟨a, member, holds⟩ := keeping.kept va position outside backed
      exact ⟨a, .tail _ member, holds⟩⟩
  obtain ⟨s', insert, keeping'', values⟩ := (keeping'.withMachine m).insertArea
  refine .of_eq insert ⟨keeping'', ?_⟩
  rintro b here va lower upper
  refine ⟨_, values.mem_iff.mpr (List.mem_cons_self ..), lower, stop.symm ▸ upper, ?_⟩
  rw [MapArea.position, MapArea.unloaded, here]
  rfl

/-- What `mmap` is asked for: a range of whole pages, and for a free range that nothing attached
overlaps the areas.
-/
structure MmapRange (s : MemorySet PTE σ) (start size : Nat) (fixed : Bool) : Prop where
  aligned : start % 4096 = 0
  positive : 0 < size
  below : start + alignUpSize size < 2 ^ 63
  spread : fixed = false → Spread (2 ^ 63 - 1) s

/-- `mmap` leaves pages outside of a fixed range alone, and reads the pages of the new mapping
from the file from its start on.
-/
theorem Keeping.mmap {size : Nat} {flags : MappingFlags} {fixed : Bool}
    {backend : Option MemBackend} (tidy : Tidy s []) (range : MmapRange s start size fixed)
    : Returns (fun r =>
          (if fixed then
              Keeping MapArea.position start (start + alignUpSize size) s.ownedMem.values r.2 []
            else Keeping MapArea.position 0 0 s.ownedMem.values r.2 [])
          ∧ ∀ a : Nat, r.1 = (a : Int) → ∀ b ∈ backend, ∀ va, a ≤ va → va < a + alignUpSize size
            → Backed r.2.ownedMem.values va (b.forward (va - a)))
        (s.mmap fs start size flags fixed backend) := by
  obtain ⟨aligned, positive, below, spread⟩ := range
  obtain ⟨alignedSize, atLeast, atMost⟩ := alignUpSize_spec size
  have positive' : 0 < alignUpSize size := positive.trans_le atLeast
  unfold MemorySet.mmap
  cases fixed with
  | true =>
      simp only [if_true]
      refine (Keeping.splitForArea position_steady tidy aligned alignedSize positive' below).bind ?_
      rintro s' ⟨keeping, cleared⟩
      refine (keeping.newRegion cleared aligned alignedSize positive' below).bind ?_
      rintro s'' ⟨keeping', backed⟩
      refine ⟨keeping', fun a same => ?_⟩
      rw [asI64_of_lt (by omega), Int.natCast_inj] at same
      exact same ▸ backed
  | false =>
      simp only [Bool.false_eq_true, if_false]
      have keeping : Keeping MapArea.position 0 0 s.ownedMem.values s [] :=
        ⟨tidy, fun va position _ backed => backed⟩
      cases found : s.findFreeArea start (alignUpSize size) with
      | none => exact ⟨keeping, fun a same => by omega⟩
      | some gap =>
          obtain ⟨alignedGap, belowGap, cleared⟩ := tidy.findFreeArea (spread rfl) (by decide)
            (by decide) (by omega) (by omega) aligned found
          refine (keeping.newRegion cleared alignedGap alignedSize positive' (by omega)).bind ?_
          rintro s' ⟨keeping', backed⟩
          refine ⟨keeping', fun a same => ?_⟩
          rw [asI64_of_lt (by omega), Int.natCast_inj] at same
          exact same ▸ backed

/-- What a page fault at an address loads from where, in an area whose cursor stays. -/
def Loads (fs : Vfs) (s s' : MemorySet PTE σ) (va : Nat) : Prop :=
  ∃ key area page,
    s.findArea va = some (key, area)
    ∧ area.pages[(va - area.vaddr) / 4096]? = some none
    ∧ s'.findArea va = some (key,
        { area with pages := area.pages.set ((va - area.vaddr) / 4096) (some page) })
    ∧ ∀ i, i < PAGE_SIZE_4K → s'.bytes (page.paddr + i)
        = MapArea.loadedByte fs (area.position (va - va % 4096)) (s.bytes (page.paddr + i)) i

omit [GenericPTE PTE] [GlobalAllocator σ] in
/-- An area is changed in place, but for its pages and flags. -/
theorem Keeping.update {key : Nat} (area' : MapArea) (tidy : Tidy s [])
    (found : s.findArea va = some (key, area)) (sameStart : area'.vaddr = area.vaddr)
    (sameLength : area'.pages.length = area.pages.length)
    (sameBackend : area'.backend = area.backend) (m : Machine PTE σ)
    : Keeping MapArea.position 0 0 s.ownedMem.values
        { s.withMachine m with ownedMem := (s.ownedMem.insert key area').2 } [] := by
  have sameStop : area'.stop = area.stop := by
    rw [MapArea.stop, sameStart, sameLength, MapArea.stop]
  obtain ⟨-, rest, before, replaced⟩ := tidy.replaceFound found
  obtain ⟨after, -⟩ := replaced area' sameStart
  refine ⟨tidy.update found area' sameStart sameLength rfl, fun va position outside backed => ?_⟩
  obtain ⟨a, member, lower, upper, holds⟩ := backed.perm before
  rcases List.mem_cons.mp member with rfl | other
  · refine ⟨area', after.mem_iff.mpr (.head _), sameStart.trans_le lower,
      upper.trans_eq sameStop.symm, ?_⟩
    rw [MapArea.position, sameBackend, sameStart]
    exact holds
  · exact ⟨a, after.mem_iff.mpr (.tail _ other), lower, upper, holds⟩

/-- A page fault in an area that was found is refused, or it loads the page. -/
theorem Keeping.faultArea {key : Nat} {flags : MappingFlags} (tidy : Tidy s [])
    (found : s.findArea va = some (key, area))
    : Returns (fun r =>
          Keeping MapArea.position 0 0 s.ownedMem.values r.2 []
          ∧ (r.1 = .ok () → Loads fs s r.2 va))
        (s.faultArea fs key area va flags) := by
  obtain ⟨-, -, -, lower, upper⟩ := tidy.findArea found
  obtain ⟨here, pre, post, split, notBefore⟩ := List.find?_eq_some_iff_append.mp found
  have placed : area.Placed := tidy.placed area (List.mem_map_of_mem (f := Prod.snd)
    (split ▸ List.mem_append_right pre (.head post)))
  refine (MapArea.handlePageFault_returns placed lower upper flags).bind ?_
  rintro ⟨handled, area', m⟩ (⟨rfl, rfl⟩ | ⟨rfl, page, -, empty, rfl, bytes⟩)
  · exact ⟨Keeping.update _ tidy found rfl rfl rfl m, fun ok => by cases ok⟩
  · refine ⟨Keeping.update { area with
      pages := area.pages.set ((va - area.vaddr) / 4096) (some page) } tidy found rfl
      (by simp) rfl m, fun _ => ?_⟩
    refine ⟨key, area, page, found, empty, ?_, bytes⟩
    refine List.find?_eq_some_iff_append.mpr ⟨?_, pre, post, ?_, notBefore⟩
    · have sameEnd (page : PhysPage) (i : Nat)
          : MapArea.endVa { area with pages := area.pages.set i (some page) } = area.endVa := by
        rw [MapArea.endVa, MapArea.size, List.length_set, MapArea.endVa, MapArea.size]
      dsimp only at here ⊢
      rw [sameEnd]
      exact here
    · exact BTreeMap.insert_known split _

omit [GenericPTE PTE] [GlobalAllocator σ] in
theorem syncPageWithBackend_returns {m : Machine PTE σ} (writeAt : WriteAt) (pageIndex : Nat)
    : Returns (·.1 = area) (area.syncPageWithBackend writeAt fs pageIndex m) := by
  unfold MapArea.syncPageWithBackend
  split
  · trivial
  · exact rfl
  split
  · exact rfl
  rename_i backend same
  split
  · refine (writeToSeek_returns ..).bind ?_
    rintro ⟨len, _, fs'⟩ rfl
    cases len with
    | none => trivial
    | some len =>
        obtain ⟨pages, vaddr, flags, _⟩ := area
        cases same
        rfl
  · exact rfl

omit [GenericPTE PTE] [GlobalAllocator σ] in
/-- Writing pages back changes nothing in the memory set, by the loop rule for the areas and the
pages of each.
-/
theorem msync_returns (writeAt : WriteAt) (size : Nat)
    : Returns (·.1 = s) (s.msync writeAt fs start size) := by
  refine (Ends.foldlM (fun entries state =>
      s = state.1 ∧ ∀ entry ∈ entries, entry ∈ s.ownedMem.entries) ?_
    ⟨rfl, fun _ member => member⟩).imp fun state holds => holds.1.symm
  rintro ⟨key, area⟩ entries ⟨_, fs⟩ ⟨rfl, known⟩
  obtain ⟨here, later⟩ := List.forall_mem_cons.mp known
  unfold MemorySet.syncArea
  dsimp only
  split
  swap
  · exact ⟨rfl, later⟩
  have pages : Returns (·.1 = area) ((List.range area.pages.length).foldlM
      (syncPage writeAt start (wrapAdd start size) s.toMachine) (area, fs)) := by
    refine (Ends.foldlM (fun _ state => area = state.1) ?_ rfl).imp fun _ same => same.symm
    rintro i rest ⟨_, fs⟩ rfl
    unfold MemorySet.syncPage
    dsimp only
    split
    · exact (syncPageWithBackend_returns writeAt i).imp fun _ same => same.symm
    · exact rfl
  refine pages.bind ?_
  rintro ⟨_, fs'⟩ rfl
  refine ⟨?_, later⟩
  dsimp only
  rw [BTreeMap.insert_same here]

-----------------------------------------------------------------------------------------
-- Runs
-----------------------------------------------------------------------------------------

/-- A step that does not take a page away, or any step: requests whose ranges have no address of
the page, write-backs, and whatever does not change the areas.
-/
inductive Change (page : Option Nat) (s s' : MemorySet PTE σ) : Prop
  | mmap {fs : Vfs} {start size : Nat} {flags : MappingFlags} {fixed : Bool}
    {backend : Option MemBackend} {addr : Int} (range : MmapRange s start size fixed)
    (away : fixed = true → ∀ va ∈ page, va < start ∨ start + alignUpSize size ≤ va)
    (run : s.mmap fs start size flags fixed backend = .ok (addr, s'))
  | munmap {fs : Vfs} {start size : Nat} (aligned : start % 4096 = 0) (positive : 0 < size)
    (below : start + alignUpSize size < 2 ^ 63)
    (away : ∀ va ∈ page, va < start ∨ start + alignUpSize size ≤ va)
    (run : s.munmap fs start size = .ok s')
  | mprotect {fs : Vfs} {start size : Nat} {flags : MappingFlags} (aligned : start % 4096 = 0)
    (positive : 0 < size) (below : start + size < 2 ^ 63)
    (run : s.mprotect fs start size flags = .ok s')
  | handlePageFault {fs : Vfs} {addr : Nat} {flags : MappingFlags} {result : AxResult Unit}
    (run : s.handlePageFault fs addr flags = .ok (result, s'))
  | manualAllocForLazy {fs : Vfs} {addr : Nat} {result : AxResult Unit}
    (run : s.manualAllocForLazy fs addr = .ok (result, s'))
  | msync {writeAt : WriteAt} {fs fs' : Vfs} {start size : Nat}
    (run : s.msync writeAt fs start size = .ok (s', fs'))
  | unmapUserAreas (away : page = none) (run : s.unmapUserAreas = .ok s')
  | others (areas : s'.ownedMem = s.ownedMem)

theorem Keeping.handlePageFault {flags : MappingFlags} (tidy : Tidy s [])
    : Returns (fun r =>
          Keeping MapArea.position 0 0 s.ownedMem.values r.2 []
          ∧ (r.1 = .ok () → Loads fs s r.2 va))
        (s.handlePageFault fs va flags) := by
  unfold MemorySet.handlePageFault
  split
  · rename_i found
    exact Keeping.faultArea tidy found
  · exact ⟨⟨tidy, fun va position _ backed => backed⟩, fun ok => by cases ok⟩

theorem Keeping.manualAllocForLazy (tidy : Tidy s [])
    : Returns (fun r => Keeping MapArea.position 0 0 s.ownedMem.values r.2 [])
        (s.manualAllocForLazy fs va) := by
  have same : Keeping MapArea.position 0 0 s.ownedMem.values s [] :=
    ⟨tidy, fun va position _ backed => backed⟩
  unfold MemorySet.manualAllocForLazy
  split
  swap
  · exact same
  rename_i found
  split
  · exact same
  · split
    · trivial
    · exact (Keeping.faultArea tidy found).imp fun r effect => effect.1
  · exact same

/-- A step keeps the areas tidy, and the page is read from where it was. -/
theorem Change.keeps {page : Option Nat} (change : Change page s s') (tidy : Tidy s [])
    : Tidy s' [] ∧ ∀ va ∈ page, ∀ position,
        Backed s.ownedMem.values va position → Backed s'.ownedMem.values va position := by
  have everywhere {s' : MemorySet PTE σ}
      (keeping : Keeping MapArea.position 0 0 s.ownedMem.values s' [])
      : Tidy s' [] ∧ ∀ va ∈ page, ∀ position,
        Backed s.ownedMem.values va position → Backed s'.ownedMem.values va position :=
    ⟨keeping.tidy, fun va _ position backed => keeping.kept va _ (.inr (Nat.zero_le _)) backed⟩
  cases change with
  | mmap range away run =>
      have effect := ((Keeping.mmap tidy range).of_ok run).1
      split at effect
      · rename_i fixed
        exact ⟨effect.tidy, fun va here position backed =>
          effect.kept va _ (away fixed va here) backed⟩
      · exact everywhere effect
  | @munmap _ _ size aligned positive below away run =>
      obtain ⟨alignedSize, atLeast, -⟩ := alignUpSize_spec size
      have effect := ((Keeping.splitForArea position_steady tidy aligned alignedSize
        (positive.trans_le atLeast) below).of_ok run).1
      exact ⟨effect.tidy, fun va here position backed =>
        effect.kept va _ (away va here) backed⟩
  | mprotect aligned positive below run =>
      exact everywhere ((Keeping.mprotect tidy aligned positive below).of_ok run)
  | handlePageFault run => exact everywhere ((Keeping.handlePageFault tidy).of_ok run).1
  | manualAllocForLazy run => exact everywhere ((Keeping.manualAllocForLazy tidy).of_ok run)
  | msync run =>
      have same := (msync_returns ..).of_ok run
      dsimp only at same
      subst same
      exact ⟨tidy, fun _ _ _ backed => backed⟩
  | unmapUserAreas away run =>
      have none : Returns (fun s' => s'.ownedMem = .empty) s.unmapUserAreas :=
        (Returns.self _).bind fun m _ => rfl
      have values : s'.ownedMem = .empty := none.of_ok run
      refine ⟨Tidy.of_empty values, fun va here => ?_⟩
      rw [away] at here
      cases here
  | others areas =>
      exact ⟨⟨areas ▸ tidy.keyed, areas ▸ tidy.placed, areas ▸ tidy.apart⟩,
        fun va _ position backed => areas ▸ backed⟩

/-- Runs keep the areas tidy, and pages are read from where they were, by the lemma of each
step.
-/
theorem run_keeps {page : Option Nat} (run : Relation.ReflTransGen (Change page) s s')
    (tidy : Tidy s [])
    : Tidy s' [] ∧ ∀ va ∈ page, ∀ position,
        Backed s.ownedMem.values va position → Backed s'.ownedMem.values va position := by
  induction run with
  | refl => exact ⟨tidy, fun _ _ _ backed => backed⟩
  | tail _ change ih =>
      obtain ⟨tidy', kept⟩ := change.keeps ih.1
      refine ⟨tidy', fun va here position backed => ?_⟩
      exact kept va here position (ih.2 va here position backed)

/-- A page of a file mapping that no later request has taken away is loaded from the offset of
the backend plus the distance from the start of the mapping, whatever has happened to the
mapping around it; and the cursor of its area stays where it was.
-/
theorem page_loaded_from_offset {s₀ s₁ s₂ s₃ : MemorySet PTE σ} {fs₁ fs₂ : Vfs}
    {size a page : Nat} {flags₁ flags₂ : MappingFlags} {fixed : Bool} {backend : MemBackend}
    (fresh : s₀.ownedMem = .empty) (before : Relation.ReflTransGen (Change none) s₀ s)
    (range : MmapRange s start size fixed)
    (created : s.mmap fs₁ start size flags₁ fixed (some backend) = .ok ((a : Int), s₁))
    (aligned : page % 4096 = 0) (lower : a ≤ page) (upper : page < a + alignUpSize size)
    (after : Relation.ReflTransGen (Change (some page)) s₁ s₂)
    (inside : page ≤ va ∧ va < page + 4096)
    (fault : s₂.handlePageFault fs₂ va flags₂ = .ok (.ok (), s₃))
    : ∃ key area frame,
        s₂.findArea va = some (key, area)
        ∧ area.position page = some (backend.forward (page - a))
        ∧ s₃.findArea va = some (key,
            { area with pages := area.pages.set ((va - area.vaddr) / 4096) (some frame) })
        ∧ ∀ i, i < PAGE_SIZE_4K → s₃.bytes (frame.paddr + i)
            = MapArea.loadedByte fs₂ (some (backend.forward (page - a)))
                (s₂.bytes (frame.paddr + i)) i := by
  have tidy : Tidy s [] := (run_keeps before (.of_empty fresh)).1
  have mapped := (Keeping.mmap tidy range).of_ok created
  have backed₁ := mapped.2 a rfl backend rfl page lower upper
  have tidy₁ : Tidy s₁ [] := by
    have keeping := mapped.1
    split at keeping <;> exact keeping.tidy
  obtain ⟨tidy₂, kept⟩ := run_keeps after tidy₁
  obtain ⟨area', member, lower', upper', position⟩ := kept page rfl _ backed₁
  obtain ⟨key, area, frame, found, -, found', bytes⟩ :=
    ((Keeping.handlePageFault tidy₂).of_ok fault).2 rfl
  obtain ⟨pre, post, split, lowerVa, upperVa⟩ := tidy₂.findArea found
  have inMap : area ∈ s₂.ownedMem.values := List.mem_map_of_mem (f := Prod.snd)
    (split ▸ List.mem_append_right pre (.head post))
  -- areas have whole pages
  have covers : area.vaddr ≤ page ∧ page < area.stop := by
    have := (tidy₂.placed area inMap).aligned
    unfold MapArea.stop at *
    omega
  obtain rfl := tidy₂.unique member inMap ⟨lower', upper'⟩ covers
  have start : va - va % 4096 = page := by omega
  refine ⟨key, area', frame, found, position, found', fun i within => ?_⟩
  rw [bytes i within, start, position]

end Loops

/-- A file system whose reads at an offset return its page number. -/
def numberedPages : Vfs where
  getAttr _ := some 0x10000
  readAt _ offset len := some (List.replicate len (UInt8.ofNat (offset / 4096)))

/-- An open file at offset 0x5000. -/
def numberedFile : MemBackend where
  file := { node := 0, readable := true, writable := true, isAppend := false, offset := 0x5000 }

/-- Three pages of a file are mapped, the middle one is protected, the first is unmapped, and the
middle one is touched.
-/
def protectedMiddle : Except Crash (Int × AxResult Unit) := do
  let s : MemorySet Rv64PTE PagePool ← newEmpty blank (fun _ => 0)
  let (a, s) ← s.mmap numberedPages 0x1000 0x3000 { read := true } true (some numberedFile)
  let s ← s.mprotect numberedPages 0x2000 0x1000 { read := true, write := true }
  let s ← s.munmap numberedPages 0x1000 0x1000
  let (result, _) ← s.handlePageFault numberedPages 0x2345 { write := true }
  return (a, result)

/-- Witness: the middle page is loaded from offset 0x6000. -/
theorem page_loaded_from_offset_middle
    : ∃ s : MemorySet Rv64PTE PagePool, ∃ key area, s.findArea 0x2345 = some (key, area)
      ∧ (area.position 0x2000).map (·.file.offset) = some 0x6000 := by
  have run : protectedMiddle = .ok (0x1000, .ok ()) := by decide +kernel
  obtain ⟨s, created, run⟩ := bind_eq_ok.mp run
  obtain ⟨⟨a, s₁⟩, mapped, run⟩ := bind_eq_ok.mp run
  obtain ⟨s₂, flagged, run⟩ := bind_eq_ok.mp run
  obtain ⟨s₃, unmapped, run⟩ := bind_eq_ok.mp run
  obtain ⟨⟨result, s₄⟩, fault, run⟩ := bind_eq_ok.mp run
  cases run
  have fresh : s.ownedMem = .empty := newEmpty_areas created
  have protect : Change (some 0x2000) s₁ s₂ :=
    .mprotect (by decide) (by decide) (by decide) flagged
  have unmap : Change (some 0x2000) s₂ s₃ :=
    .munmap (by decide) (by decide) (by decide) (by simp [alignUpSize, PAGE_SIZE_4K]) unmapped
  obtain ⟨key, area, frame, found, position, -⟩ := page_loaded_from_offset fresh .refl
    ⟨by decide, by decide, by decide, by simp⟩ mapped (by decide : 0x2000 % 4096 = 0) (by decide)
    (by decide) ((Relation.ReflTransGen.single protect).tail unmap) (by decide) fault
  exact ⟨s₃, key, area, found, by rw [position]; rfl⟩

end MemorySet

end RCoreOS.Axmem
