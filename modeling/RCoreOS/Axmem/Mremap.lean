import RCoreOS.Axmem.FilePosition
import RCoreOS.Axmem.Remap

/-! When `mremap` preserves contents: the pages of the old range that are not loaded must read
as zeros, and no page may be copied behind a smaller new area into another one.
-/

namespace RCoreOS.Axmem

open PageTable GenericPTE Outcome

namespace MemorySet

variable {PTE σ : Type} {s s' : MemorySet PTE σ} {area : MapArea} {start stop size va : Nat}
variable {fs : Vfs} {mapping : Mapping} {old oldSize newSize : Nat}

-----------------------------------------------------------------------------------------
-- What is preserved
-----------------------------------------------------------------------------------------

/-- A mapping of the memory set has the flags, and it can have the byte at the address. -/
def Holds (fs : Vfs) (s : MemorySet PTE σ) (va : Nat) (flags : MappingFlags) (b : UInt8) : Prop :=
  ∃ mapping, s.Maps va mapping ∧ mapping.flags = flags ∧ mapping.Byte fs s.bytes va b

/-- What a user could read in the old range is read in the new one, and every other mapping has
the contents and the flags that it had.
-/
structure Preserves (fs : Vfs) (s s' : MemorySet PTE σ) (old oldSize start newSize : Nat)
    : Prop where
  moved : ∀ k, k < min oldSize newSize → (∃ b, Reads fs s (old + k) b) →
    ∀ b, Reads fs s' (start + k) b ↔ Reads fs s (old + k) b
  others : ∀ va, va < old ∨ old + oldSize ≤ va → va < start ∨ start + newSize ≤ va →
    ∀ flags b, Holds fs s' va flags b ↔ Holds fs s va flags b

/-- What holds of some mapping of an address holds of its mapping. -/
theorem Tidy.maps_iff (tidy : Tidy s []) (maps : s.Maps va mapping) (holds : Mapping → Prop)
    : (∃ other, s.Maps va other ∧ holds other) ↔ holds mapping := by
  constructor
  · rintro ⟨other, maps', isHeld⟩
    obtain rfl := tidy.maps_unique maps' maps
    exact isHeld
  · exact fun isHeld => ⟨mapping, maps, isHeld⟩

theorem Tidy.reads_iff (tidy : Tidy s []) (maps : s.Maps va mapping) (b : UInt8)
    : Reads fs s va b
      ↔ mapping.flags.contains { user := true, read := true } = true
        ∧ mapping.Byte fs s.bytes va b :=
  tidy.maps_iff maps _

theorem Tidy.holds_iff (tidy : Tidy s []) (maps : s.Maps va mapping) (flags : MappingFlags)
    (b : UInt8)
    : Holds fs s va flags b ↔ mapping.flags = flags ∧ mapping.Byte fs s.bytes va b :=
  tidy.maps_iff maps _

theorem SameAt.holds (same : SameAt fs s s' va) (flags : MappingFlags) (b : UInt8)
    : Holds fs s' va flags b ↔ Holds fs s va flags b := by
  refine exists_congr fun mapping => ?_
  rw [same.maps mapping]
  exact and_congr_right fun maps => and_congr_right fun _ => same.bytes mapping maps b

-----------------------------------------------------------------------------------------
-- Giving up a range
-----------------------------------------------------------------------------------------

/-- The area lies in one of the others. -/
def Within (mapped : List MapArea) (area : MapArea) : Prop :=
  ∃ other ∈ mapped, other.vaddr ≤ area.vaddr ∧ area.stop ≤ other.stop

theorem Within.part {mapped : List MapArea} {piece : MapArea} (within : Within mapped area)
    (lower : area.vaddr ≤ piece.vaddr) (upper : piece.stop ≤ area.stop)
    : Within mapped piece := by
  obtain ⟨other, member, lower', upper'⟩ := within
  exact ⟨other, member, lower'.trans lower, upper.trans upper'⟩

/-- An area that is inserted is the only one that is new. -/
theorem insertArea_within {mapped : List MapArea} (within : Within mapped area)
    (others : ∀ a ∈ s.ownedMem.values, Within mapped a)
    : Returns (fun s' => ∀ a ∈ s'.ownedMem.values, Within mapped a) (s.insertArea area) := by
  refine (Returns.self _).bind fun _ _ a member => ?_
  obtain ⟨entry, inMap, rfl⟩ := List.mem_map.mp member
  rcases (BTreeMap.mem_insertEntry s.ownedMem.sorted entry).mp inMap with rfl | ⟨old, -⟩
  · exact within
  · exact others _ (List.mem_map_of_mem old)

variable [GenericPTE PTE] [GlobalAllocator σ]

/-- What is left of an overlapped area lies in it. -/
theorem splitArea_within {mapped : List MapArea} (placed : area.Placed)
    (overlap : Overlap area start stop) (within : Within mapped area)
    (others : ∀ a ∈ s.ownedMem.values, Within mapped a)
    : Returns (fun s' => ∀ a ∈ s'.ownedMem.values, Within mapped a)
        (splitArea fs start stop s area) := by
  cases overlap with
  | contained holds =>
      rw [MemorySet.splitArea, if_pos holds]
      exact (Returns.self _).bind fun r _ => others
  | strict no holds first second range =>
      have firstLeft := first.left second placed range
      have low := (firstLeft.stop_left (second.placed_left placed)).trans_le first.upper.le
      rw [MemorySet.splitArea, no, if_neg Bool.false_ne_true, if_pos holds]
      refine (MapArea.removeMid_returns placed first second range).bind ?_
      rintro ⟨_, _, m⟩ ⟨rfl, rfl⟩
      refine (insertArea_within (s := s.withMachine m) (within.part second.lower.le
        (second.stop_right placed _).le) others).bind fun s₁ others₁ => ?_
      exact insertArea_within (within.part (Nat.le_refl _) low) others₁
  | left no no' holds cuts =>
      rw [MemorySet.splitArea, no, no', if_neg Bool.false_ne_true, if_neg Bool.false_ne_true,
        if_pos holds]
      refine (MapArea.shrinkLeft_returns placed cuts).bind ?_
      rintro ⟨_, m⟩ rfl
      exact insertArea_within (s := s.withMachine m)
        (within.part cuts.lower.le (cuts.stop_right placed _).le) others
  | right no no' fails cuts =>
      rw [MemorySet.splitArea, no, no', if_neg Bool.false_ne_true, if_neg Bool.false_ne_true,
        if_neg fails]
      refine (MapArea.shrinkRight_returns placed cuts).bind ?_
      rintro ⟨_, m⟩ rfl
      exact insertArea_within (s := s.withMachine m)
        (within.part (Nat.le_refl _) ((cuts.stop_left placed).trans_le cuts.upper.le)) others

/-- What is left when a range is made free lies in the areas that were there, by the loop rule. -/
theorem Tidy.splitForArea_within (tidy : Tidy s []) (alignedStart : start % 4096 = 0)
    (alignedSize : size % 4096 = 0) (positive : 0 < size) (below : start + size < 2 ^ 63)
    : Returns (fun s' => ∀ a ∈ s'.ownedMem.values, Within s.ownedMem.values a)
        (s.splitForArea fs start size) := by
  have stop : wrapAdd start size = start + size := wrapAdd_of_lt (by unfold USIZE_RANGE; omega)
  have aligned : (start + size) % 4096 = 0 := by omega
  have range : start < start + size := Nat.lt_add_of_pos_right positive
  obtain ⟨overlapped, ownedMem, run, -, -, perm, overlaps⟩ := tidy.takeOverlapped range
  have itself (a : MapArea) (member : a ∈ overlapped ++ ownedMem.values)
      : a ∈ s.ownedMem.values ∧ Within s.ownedMem.values a :=
    have old := perm.mem_iff.mpr member
    ⟨old, a, old, Nat.le_refl _, Nat.le_refl _⟩
  simp only [MemorySet.splitForArea, stop, assert, isAligned_4k, aligned, if_true, ok_bind, run]
  refine (Ends.foldlM (fun areas (s' : MemorySet PTE σ) =>
      (∀ a ∈ areas, a ∈ overlapped)
      ∧ ∀ a ∈ s'.ownedMem.values, Within s.ownedMem.values a) ?_
    ⟨fun a member => member, fun a member => (itself a (List.mem_append_right _ member)).2⟩).imp
    fun s' holds => holds.2
  rintro area areas s' ⟨pending, others⟩
  obtain ⟨here, later⟩ := List.forall_mem_cons.mp pending
  obtain ⟨old, within⟩ := itself area (List.mem_append_left _ here)
  have placed : area.Placed := tidy.placed area old
  exact (splitArea_within placed (placed.overlap alignedStart aligned range (overlaps area here))
    within others).imp fun s'' others' => ⟨later, others'⟩

/-- Giving up a range changes nothing outside of it, and leaves nothing in it. -/
theorem Tidy.munmap (tidy : Tidy s []) (alignedStart : start % 4096 = 0)
    (alignedSize : size % 4096 = 0) (positive : 0 < size) (below : start + size < 2 ^ 63)
    (run : s.munmap fs start size = .ok s')
    : (∀ va, va < start ∨ start + size ≤ va → SameAt fs s s' va)
      ∧ ∀ va mapping, start ≤ va → va < start + size → ¬ s'.Maps va mapping := by
  have sameSize : alignUpSize size = size := by
    unfold alignUpSize PAGE_SIZE_4K
    omega
  rw [MemorySet.munmap, sameSize] at run
  obtain ⟨keeping, cleared⟩ := (Keeping.splitForArea MapArea.mapping_steady tidy alignedStart
    alignedSize positive below).of_ok run
  have within := (tidy.splitForArea_within alignedStart alignedSize positive below).of_ok run
  have bytes : s'.bytes = s.bytes := splitForArea_bytes.of_ok run
  refine ⟨fun va outside => ⟨fun mapping => ⟨?_, keeping.kept va mapping outside⟩, ?_⟩, ?_⟩
  · intro maps
    have found := maps
    obtain ⟨area, member, lower, upper, -⟩ := found
    obtain ⟨other, old, lower', upper'⟩ := within area member
    have before : s.Maps va (other.mapping va) :=
      ⟨other, old, lower'.trans lower, upper.trans_le upper', rfl⟩
    exact (keeping.tidy.maps_unique maps (keeping.kept va _ outside before)) ▸ before
  · intro mapping _
    rw [bytes]
    exact fun _ => Iff.rfl
  · rintro va mapping lower upper ⟨area, member, lower', upper', -⟩
    have away := cleared area member
    unfold MapArea.Away at away
    omega

-----------------------------------------------------------------------------------------
-- The new area
-----------------------------------------------------------------------------------------

section Region

variable [LawfulPTE PTE] [LawfulGlobalAllocator σ]
variable {kind : Nat → MappingFlags → Option MemBackend → Prop} {hint : Nat}
variable {flags : MappingFlags}

/-- A size above that of user memory does not get a new area: its addresses wrap and come back
to a page that is mapped.
-/
theorem Agrees.newRegion_small (agrees : Agrees kind s []) {page : Nat}
    (maps : s.Maps page mapping) (alignedPage : page % 4096 = 0)
    (low : hint ≤ 2 ^ 38) (alignedHint : hint % 4096 = 0) (alignedSize : size % 4096 = 0)
    (word : size < USIZE_RANGE) (found : s.findFreeArea hint size = some start)
    (run : s.newRegion start size flags none none = .ok s')
    : size ≤ 2 ^ 38 := by
  by_contra large
  have spread : Spread (2 ^ 38) s := agrees.tidy.spread agrees.detached fun area member =>
    (agrees.sound.laid.shaped area member).below
  have user : max hint USER_MEMORY_START ≤ 2 ^ 38
      ∧ max hint USER_MEMORY_START % 4096 = 0 := by
    unfold USER_MEMORY_START
    omega
  obtain ⟨lowStart, alignedStart, wraps⟩ :=
    firstGap_fits user.1 user.2 spread.sorted.inside found
  have below : page < 2 ^ 38 := by
    obtain ⟨area, member, -, upper, -⟩ := maps
    exact upper.trans_le (agrees.sound.laid.shaped area member).below
  have long : 2 ^ 64 ≤ start + size := by
    unfold wrapAdd USIZE_RANGE at wraps
    unfold USIZE_RANGE at word
    omega
  have pages : (size + PAGE_SIZE_4K - 1) / PAGE_SIZE_4K * PAGE_SIZE_4K = size := by
    unfold PAGE_SIZE_4K
    omega
  obtain ⟨⟨area, m⟩, made, -⟩ := bind_eq_ok.mp run
  obtain ⟨m, mapped, -⟩ := bind_eq_ok.mp made
  rw [pages, Machine.mapFaultRegion, Paging.mapFaultRegion] at mapped
  split at mapped
  · cases mapped
  · rcases looped : s.toPaging.mapFaultRegionLoop start size flags with ⟨result, paging⟩
    rw [looped] at mapped
    cases result with
    | error e => cases e <;> cases mapped
    | ok =>
        have free := Paging.mapFaultRegionLoop_free agrees.sound.laid.tables looped
          (by omega : 4096 * ((page + 2 ^ 39 - start) / 4096) < size)
          (by
            simp only [block, vpn, PageSize.height]
            omega : block .size4K page
              = block .size4K (start + 4096 * ((page + 2 ^ 39 - start) / 4096)))
        obtain ⟨e, here⟩ := (agrees.furnished.slotShown maps).page
        rw [free] at here
        cases here

/-- A new area has no file and no pages yet, and nothing changes outside of it. -/
theorem Agrees.newRegion_maps (fs : Vfs) (agrees : Agrees kind s [])
    (kindOf : kind start flags none) (alignedStart : start % 4096 = 0)
    (alignedSize : size % 4096 = 0) (positive : 0 < size)
    (below : start + size ≤ 2 ^ 38) (cleared : s.Cleared start (start + size))
    (run : s.newRegion start size flags none none = .ok s')
    : Agrees kind s' []
      ∧ (∀ va, va < start ∨ start + size ≤ va → SameAt fs s s' va)
      ∧ ∀ va, start ≤ va → va < start + size → s'.Maps va ⟨flags, none, none⟩ := by
  have made : Returns _ (s.newRegion start size flags none none) :=
    agrees.newRegion trivial (unloaded_shaped flags none alignedStart (by omega) below) kindOf
      cleared alignedSize
  obtain ⟨agrees', values⟩ := made.of_ok run
  have bytes : s'.bytes = s.bytes := newRegion_bytes.of_ok run
  have stop : (MapArea.unloaded start (size / 4096) flags none).stop = start + size :=
    MapArea.unloaded_stop alignedSize
  refine ⟨agrees', fun va outside => ⟨fun mapping => ⟨?_, ?_⟩, fun mapping _ => ?_⟩, ?_⟩
  · intro maps
    obtain ⟨area, member, lower, upper, same⟩ := Has.perm maps values
    rcases List.mem_cons.mp member with rfl | old
    · rw [stop] at upper
      have start' : (MapArea.unloaded start (size / 4096) flags none).vaddr = start := rfl
      omega
    · exact ⟨area, old, lower, upper, same⟩
  · rintro ⟨area, member, holds⟩
    exact Has.perm ⟨area, List.mem_cons_of_mem _ member, holds⟩ values.symm
  · rw [bytes]
    exact fun _ => Iff.rfl
  · intro va lower upper
    refine Has.perm ⟨_, List.mem_cons_self .., lower, stop.symm ▸ upper, ?_⟩ values.symm
    have inside : (va - start) / 4096 < size / 4096 := by omega
    simp [MapArea.mapping, MapArea.unloaded, MapArea.position, inside]

end Region

-----------------------------------------------------------------------------------------
-- The whole call
-----------------------------------------------------------------------------------------

section Call

variable [LawfulPTE PTE] [LawfulGlobalAllocator σ]
variable {kind : Nat → MappingFlags → Option MemBackend → Prop} {va' : Nat}

/-- The flags of the new area. -/
def userReadWrite : MappingFlags :=
  { user := true, read := true, write := true }

theorem Agrees.valid_page (agrees : Agrees kind s []) (maps : s.Maps va mapping)
    (page : va' / 4096 = va / 4096)
    : s.Valid va' ↔ s.Valid va := by
  rw [agrees.furnished.valid_iff maps, agrees.furnished.valid_iff (agrees.tidy.maps_page maps page)]

theorem Agrees.receives_page (agrees : Agrees kind s []) (page : va' / 4096 = va / 4096)
    : s.Receives va' ↔ s.Receives va := by
  refine exists_congr fun mapping => ?_
  constructor
  · rintro ⟨maps, holds⟩
    exact ⟨agrees.tidy.maps_page maps page.symm,
      holds.imp_right (agrees.valid_page maps page.symm).mpr⟩
  · rintro ⟨maps, holds⟩
    exact ⟨agrees.tidy.maps_page maps page, holds.imp_right (agrees.valid_page maps page).mpr⟩

/-- All that a call does which moves a range of whole pages to a new start. -/
structure Moved (fs : Vfs) (s s' : MemorySet PTE σ) (old oldSize start newSize : Nat) : Prop where
  tidy : Tidy s' []
  apart : start + newSize ≤ old ∨ old + oldSize ≤ start
  copied : ∀ k source, k < min oldSize newSize → s.Valid (old + k) → s.Maps (old + k) source →
    ∃ copy, s'.Maps (start + k) copy ∧ copy.flags = userReadWrite
      ∧ ∀ b, copy.Byte fs s'.bytes (start + k) b ↔ source.Byte fs s.bytes (old + k) b
  fresh : ∀ k, k < newSize → ¬ (k < oldSize ∧ s.Valid (old + k)) →
    s'.Maps (start + k) ⟨userReadWrite, none, none⟩
  spilled : ∀ k source target, newSize ≤ k → k < oldSize →
    start + k < old ∨ old + oldSize ≤ start + k → s.Valid (old + k) → s.Receives (start + k) →
    s.Maps (old + k) source → s.Maps (start + k) target →
    ∃ copy, s'.Maps (start + k) copy ∧ copy.flags = target.flags
      ∧ ∀ b, copy.Byte fs s'.bytes (start + k) b ↔ source.Byte fs s.bytes (old + k) b
  same : ∀ va, va < old ∨ old + oldSize ≤ va → va < start ∨ start + newSize ≤ va →
    (∀ k, newSize ≤ k → k < oldSize → s.Valid (old + k) → s.Receives (start + k) →
      va ≠ start + k) →
    SameAt fs s s' va

omit [GenericPTE PTE] [GlobalAllocator σ] [LawfulPTE PTE] [LawfulGlobalAllocator σ] in
/-- The loop goes through the starts of the pages of the old range. -/
theorem pagesThrough_range {old oldSize : Nat} (alignedOld : old % 4096 = 0)
    (alignedSize : oldSize % 4096 = 0) (positive : 0 < oldSize)
    (below : old + oldSize < USIZE_RANGE)
    : pagesThrough old (alignDown (wrapSub (wrapAdd old oldSize) 1) PAGE_SIZE_4K)
      = (List.range' 0 (oldSize / 4096)).map (fun i => old + i * PAGE_SIZE_4K) := by
  have last : alignDown (wrapSub (wrapAdd old oldSize) 1) PAGE_SIZE_4K = old + oldSize - 4096 := by
    have down : alignDown (old + oldSize - 1) PAGE_SIZE_4K
        = old + oldSize - 1 - (old + oldSize - 1) % 4096 := alignDown_page _ .size4K
    rw [wrapAdd_of_lt below, wrapSub_of_le (by omega) below]
    omega
  have count : (old + oldSize - 4096 - old) / PAGE_SIZE_4K + 1 = oldSize / 4096 := by
    unfold PAGE_SIZE_4K
    omega
  rw [pagesThrough, last, if_pos (by omega), count, List.range_eq_range']

/-- The pages are copied into the new area, and those behind it where they can be written to. -/
theorem Agrees.moved {s₁ s₂ : MemorySet PTE σ} {old oldSize newSize : Nat}
    (agrees : Agrees kind s []) (agrees₁ : Agrees kind s₁ []) (tidy : Tidy s' [])
    (alignedStart : start % 4096 = 0) (alignedOld : old % 4096 = 0)
    (alignedSize : oldSize % 4096 = 0) (alignedNew : newSize % 4096 = 0)
    (mapped : ∀ k, k < oldSize → ∃ mapping, s.Maps (old + k) mapping)
    (apart : start + newSize ≤ old ∨ old + oldSize ≤ start)
    (same₁ : ∀ va, va < start ∨ start + newSize ≤ va → SameAt fs s s₁ va)
    (inside₁ : ∀ va, start ≤ va → va < start + newSize →
      s₁.Maps va ⟨userReadWrite, none, none⟩)
    (remapped : Remapped fs s₁ s₂ start old (oldSize / 4096))
    (same₃ : ∀ va, va < old ∨ old + oldSize ≤ va → SameAt fs s₂ s' va)
    : Moved fs s s' old oldSize start newSize := by
  have atOld (k : Nat) (inside : k < oldSize) : SameAt fs s s₁ (old + k) :=
    same₁ _ (by omega)
  have valid (k : Nat) (inside : k < oldSize) : s₁.Valid (old + k) ↔ s.Valid (old + k) := by
    obtain ⟨mapping, maps⟩ := mapped k inside
    exact (atOld k inside).valid agrees agrees₁ maps
  have moves (k : Nat) (inside : k < oldSize)
      : s₁.Moves start old (k / 4096) ↔ s.Valid (old + k) ∧ s₁.Receives (start + k) := by
    obtain ⟨mapping, maps⟩ := mapped k inside
    rw [← valid k inside]
    refine and_congr ?_ (agrees₁.receives_page (by omega))
    exact agrees₁.valid_page (((atOld k inside).maps mapping).mpr maps) (by omega)
  -- what is found at the target of a page that is copied
  have copied (k : Nat) (inside : k < oldSize)
      (outside : start + k < old ∨ old + oldSize ≤ start + k)
      {source target : Mapping} (present : s.Valid (old + k)) (receives : s₁.Receives (start + k))
      (fromSrc : s.Maps (old + k) source) (fromDst : s₁.Maps (start + k) target)
      : ∃ copy, s'.Maps (start + k) copy ∧ copy.flags = target.flags
        ∧ ∀ b, copy.Byte fs s'.bytes (start + k) b ↔ source.Byte fs s.bytes (old + k) b := by
    have run := remapped.copied (k / 4096) (by omega) ((moves k inside).mpr ⟨present, receives⟩)
      (k % 4096) (Nat.mod_lt k (by decide))
    have offset : 4096 * (k / 4096) + k % 4096 = k := Nat.div_add_mod k 4096
    rw [Nat.add_assoc, Nat.add_assoc, offset] at run
    obtain ⟨copy, maps, flags, -, bytes⟩ := run source target
      (((atOld k inside).maps source).mpr fromSrc) fromDst
    have kept := same₃ (start + k) outside
    exact ⟨copy, (kept.maps copy).mpr maps, flags, fun b =>
      ((kept.bytes copy maps b).trans (bytes b)).trans ((atOld k inside).bytes source fromSrc b)⟩
  refine ⟨tidy, apart, fun k source inside present fromSrc => ?_, fun k inside idle => ?_,
    fun k source target behind inside outside present receives fromSrc fromDst => ?_,
    fun va outsideOld outsideNew others => ?_⟩
  · have here := inside₁ (start + k) (by omega) (by omega)
    exact copied k (by omega) (by omega) present ⟨_, here, .inl rfl⟩ fromSrc here
  · have here := inside₁ (start + k) (by omega) (by omega)
    have untouched : SameAt fs s₁ s₂ (start + k) := remapped.same _ fun i before moved page => by
      obtain rfl : i = k / 4096 := by omega
      exact idle ⟨by omega, ((moves k (by omega)).mp moved).1⟩
    exact (((untouched.trans (same₃ _ (by omega))).maps _).mpr here)
  · have at₁ := same₁ (start + k) (by omega)
    exact copied k inside outside present ((at₁.receives agrees agrees₁).mpr receives) fromSrc
      ((at₁.maps target).mpr fromDst)
  · have at₁ := same₁ va outsideNew
    refine (at₁.trans (remapped.same va fun i before moved page => ?_)).trans (same₃ va outsideOld)
    have target : va = start + (va - start) := by omega
    have page' : (va - start) / 4096 = i := by omega
    rw [← page'] at moved
    obtain ⟨present, receives⟩ := (moves (va - start) (by omega)).mp moved
    refine others (va - start) (by omega) (by omega) present ?_ target
    rw [← target] at receives ⊢
    exact (at₁.receives agrees agrees₁).mp receives

/-- A call that returns finds no free range and changes nothing, or it moves the old range. -/
theorem Agrees.mremap {old oldSize newSize : Nat} {r : Int}
    (agrees : Agrees (fun _ _ _ => True) s []) (member : area ∈ s.ownedMem.values)
    (lower : area.vaddr ≤ old) (upper : old + oldSize ≤ area.stop) (alignedOld : old % 4096 = 0)
    (alignedSize : oldSize % 4096 = 0) (positive : 0 < oldSize)
    (alignedNew : newSize % 4096 = 0) (positiveNew : 0 < newSize) (word : newSize < USIZE_RANGE)
    (run : s.mremap fs old oldSize newSize = .ok (r, s'))
    : s.findFreeArea old newSize = none ∧ r = -1 ∧ s' = s
      ∨ ∃ start : Nat, s.findFreeArea old newSize = some start ∧ r = start
        ∧ Moved fs s s' old oldSize start newSize := by
  have below : area.stop ≤ 2 ^ 38 := (agrees.sound.laid.shaped area member).below
  have mapped (k : Nat) (inside : k < oldSize) : ∃ mapping, s.Maps (old + k) mapping :=
    ⟨_, area, member, by omega, by omega, rfl⟩
  rw [MemorySet.mremap] at run
  cases found : s.findFreeArea old newSize with
  | none =>
      rw [found] at run
      cases run
      exact .inl ⟨rfl, rfl, rfl⟩
  | some start =>
      refine .inr ⟨start, rfl, ?_⟩
      rw [found] at run
      obtain ⟨s₁, made, run⟩ := bind_eq_ok.mp run
      obtain ⟨⟨⟩, -, run⟩ := bind_eq_ok.mp run
      obtain ⟨⟨completed, s₂⟩, looped, run⟩ := bind_eq_ok.mp run
      obtain ⟨_, maps₀⟩ := mapped 0 positive
      have small := agrees.newRegion_small maps₀ (by simpa using alignedOld) (by omega)
        alignedOld alignedNew word found made
      obtain ⟨alignedStart, belowStart, cleared⟩ :=
        agrees.findFreeArea small (by omega) alignedOld found
      obtain ⟨agrees₁, same₁, inside₁⟩ := agrees.newRegion_maps fs trivial alignedStart
        alignedNew positiveNew belowStart cleared made
      have apart : start + newSize ≤ old ∨ old + oldSize ≤ start := by
        have away := cleared area member
        unfold MapArea.Away at away
        omega
      have word' : old + oldSize < USIZE_RANGE ∧ start + old + oldSize < USIZE_RANGE := by
        unfold USIZE_RANGE
        omega
      have first : alignDown old PAGE_SIZE_4K = old := by
        have down : alignDown old PAGE_SIZE_4K = old - old % 4096 := alignDown_page old .size4K
        omega
      rw [first, pagesThrough_range alignedOld alignedSize positive word'.1] at looped
      have looped := (agrees₁.remapPages (Serves.returns fs) alignedStart alignedOld
        (fun i before => by
          obtain ⟨mapping, maps⟩ := mapped (4096 * i) (by omega)
          exact ⟨mapping, ((same₁ _ (by omega)).maps mapping).mpr maps⟩)
        (by omega) (by omega) (oldSize / 4096) 0 (Nat.zero_add _) agrees₁
        ⟨fun va _ => .refl fs s₁ va, fun i before => absurd before (Nat.not_lt_zero i)⟩).of_ok
        looped
      obtain ⟨rfl, agrees₂, remapped⟩ := looped
      obtain ⟨s₃, unmapped, run⟩ := bind_eq_ok.mp run
      obtain ⟨same₃, gone⟩ := agrees₂.tidy.munmap alignedOld alignedSize positive (by omega)
        unmapped
      obtain ⟨rfl, rfl⟩ := Prod.mk.inj (Except.ok.inj run)
      have agrees₃ := (agrees₂.munmap (Serves.returns fs) alignedOld positive (by omega)).of_ok
        unmapped
      exact ⟨asI64_of_lt (by omega), agrees.moved agrees₁ agrees₃.tidy alignedStart alignedOld
        alignedSize alignedNew mapped apart same₁ inside₁ remapped same₃⟩

-----------------------------------------------------------------------------------------
-- When contents are preserved
-----------------------------------------------------------------------------------------

/-- When a move preserves contents: what a user can read of the pages that are not loaded yet is
zero, and what is copied behind a smaller new area is there already.
-/
structure Carries (fs : Vfs) (s : MemorySet PTE σ) (old oldSize start newSize : Nat) : Prop where
  zeros : ∀ k mapping, k < min oldSize newSize → s.Maps (old + k) mapping →
    mapping.flags.contains { user := true, read := true } = true → mapping.slot = none →
    ∀ prev, MapArea.loadedByte fs mapping.position prev ((old + k) % 4096) = 0
  spills : ∀ k source target, newSize ≤ k → k < oldSize →
    start + k < old ∨ old + oldSize ≤ start + k → s.Valid (old + k) → s.Receives (start + k) →
    s.Maps (old + k) source → s.Maps (start + k) target →
    ∀ b, source.Byte fs s.bytes (old + k) b ↔ target.Byte fs s.bytes (start + k) b

/-- A page that a user can read is not loaded exactly when its entry is not present. -/
theorem Agrees.absent_iff (agrees : Agrees kind s []) (maps : s.Maps va mapping)
    (readable : mapping.flags.contains { user := true, read := true } = true)
    : ¬ s.Valid va ↔ mapping.slot = none := by
  rw [agrees.furnished.valid_iff maps]
  cases mapping.slot with
  | none => simp
  | some page =>
      have read : mapping.flags.read = true := by
        simp [MappingFlags.contains] at readable
        exact readable.1
      have present : isPresent (newPage page.paddr mapping.flags false : PTE) = true :=
        LawfulPTE.page_present page.paddr false (MappingFlags.isLeaf_of_read read)
      simp [present]

/-- A new page reads as zero. -/
theorem fresh_byte (flags : MappingFlags) (bytes : Nat → UInt8) (b : UInt8)
    : (⟨flags, none, none⟩ : Mapping).Byte fs bytes va b ↔ b = 0 := by
  simp [Mapping.Byte, MapArea.loadedByte]

/-- A move preserves contents exactly when they carry over. -/
theorem Moved.preserves_iff (moved : Moved fs s s' old oldSize start newSize)
    (agrees : Agrees kind s [])
    (mapped : ∀ k, k < oldSize → ∃ mapping, s.Maps (old + k) mapping)
    : Preserves fs s s' old oldSize start newSize ↔ Carries fs s old oldSize start newSize := by
  have userReads : userReadWrite.contains { user := true, read := true } = true := by decide
  constructor
  · rintro ⟨reads, others⟩
    refine ⟨fun k mapping inside maps readable empty prev => ?_,
      fun k source target behind inside outside present receives fromSrc fromDst b => ?_⟩
    · have absent := (agrees.absent_iff maps readable).mpr empty
      have fresh := moved.fresh k (by omega) fun here => absent here.2
      have before (prev : UInt8) : Reads fs s (old + k)
          (MapArea.loadedByte fs mapping.position prev ((old + k) % 4096)) := by
        refine ⟨mapping, maps, readable, ?_⟩
        rw [Mapping.Byte, empty]
        exact ⟨prev, rfl⟩
      have after := (reads k inside ⟨_, before prev⟩ _).mpr (before prev)
      rw [moved.tidy.reads_iff fresh, fresh_byte] at after
      exact after.2
    · obtain ⟨copy, maps, flags, bytes⟩ := moved.spilled k source target behind inside outside
        present receives fromSrc fromDst
      have unchanged := others (start + k) outside (by omega) target.flags b
      rw [moved.tidy.holds_iff maps, agrees.tidy.holds_iff fromDst, bytes] at unchanged
      simpa [flags] using unchanged
  · rintro ⟨zeros, spills⟩
    refine ⟨fun k inside readable b => ?_, fun va outsideOld outsideNew flags b => ?_⟩
    · obtain ⟨first, mapping, maps, contains, -⟩ := readable
      rw [agrees.tidy.reads_iff maps]
      by_cases present : s.Valid (old + k)
      · obtain ⟨copy, maps', flags, bytes⟩ := moved.copied k mapping inside present maps
        rw [moved.tidy.reads_iff maps', bytes, flags]
        simp [userReads, contains]
      · have fresh := moved.fresh k (by omega) fun here => present here.2
        have empty := (agrees.absent_iff maps contains).mp present
        have zero := zeros k mapping inside maps contains empty
        rw [moved.tidy.reads_iff fresh, fresh_byte, Mapping.Byte, empty]
        simp [userReads, contains, zero]
    · by_cases behind : ∃ k, newSize ≤ k ∧ k < oldSize ∧ s.Valid (old + k)
          ∧ s.Receives (start + k) ∧ va = start + k
      · obtain ⟨k, behind, inside, present, receives, rfl⟩ := behind
        obtain ⟨source, fromSrc⟩ := mapped k inside
        obtain ⟨target, fromDst, -⟩ := id receives
        obtain ⟨copy, maps, sameFlags, bytes⟩ := moved.spilled k source target behind inside
          outsideOld present receives fromSrc fromDst
        rw [moved.tidy.holds_iff maps, agrees.tidy.holds_iff fromDst, bytes, sameFlags,
          spills k source target behind inside outsideOld present receives fromSrc fromDst]
      · exact (moved.same va outsideOld outsideNew fun k above inside present receives here =>
          behind ⟨k, above, inside, present, receives, here⟩).holds flags b

/-- A call that returns preserves contents exactly when those of the range that it moves carry
over to the place that it finds, and one that fails changes nothing.
-/
theorem mremap_preserves_iff {r : Int}
    (agrees : Agrees (fun _ _ _ => True) s []) (member : area ∈ s.ownedMem.values)
    (lower : area.vaddr ≤ old) (upper : old + oldSize ≤ area.stop) (alignedOld : old % 4096 = 0)
    (alignedSize : oldSize % 4096 = 0) (positive : 0 < oldSize)
    (alignedNew : newSize % 4096 = 0) (positiveNew : 0 < newSize) (word : newSize < USIZE_RANGE)
    (run : s.mremap fs old oldSize newSize = .ok (r, s'))
    : ((0 ≤ r → Preserves fs s s' old oldSize r.toNat newSize) ∧ (r = -1 → s' = s))
      ↔ ∀ start, s.findFreeArea old newSize = some start →
        Carries fs s old oldSize start newSize := by
  have mapped (k : Nat) (inside : k < oldSize) : ∃ mapping, s.Maps (old + k) mapping :=
    ⟨_, area, member, by omega, by omega, rfl⟩
  rcases agrees.mremap member lower upper alignedOld alignedSize positive alignedNew positiveNew
    word run with ⟨none, rfl, rfl⟩ | ⟨start, found, rfl, moved⟩
  · simp [none]
  · have iff := moved.preserves_iff agrees mapped
    rw [found]
    constructor
    · rintro ⟨preserves, -⟩ start' here
      obtain rfl := Option.some.inj here
      exact iff.mp (preserves (Int.natCast_nonneg start))
    · exact fun carries => ⟨fun _ => iff.mpr (carries start rfl), by omega⟩

end Call

-----------------------------------------------------------------------------------------
-- A page that is moved
-----------------------------------------------------------------------------------------

/-- What a call does with the place that it finds. -/
def remapTo (fs : Vfs) (s : MemorySet Rv64PTE PagePool) (oldStart oldSize newSize start : Nat)
    : Except Crash (Int × MemorySet Rv64PTE PagePool) := do
  let oldPageStart := alignDown oldStart PAGE_SIZE_4K
  let oldPageEnd := alignDown (wrapSub (wrapAdd oldStart oldSize) 1) PAGE_SIZE_4K
  let s ← s.newRegion start newSize userReadWrite none none
  assert (isAligned (wrapAdd start newSize) PAGE_SIZE_4K)
  let (completed, s) ← remapPages fs start oldPageStart (pagesThrough oldPageStart oldPageEnd) s
  if completed then
    let s ← s.munmap fs oldStart oldSize
    return (asI64 start, s)
  else return (-1, s)

theorem mremap_of_found {s : MemorySet Rv64PTE PagePool}
    (found : s.findFreeArea old newSize = some start)
    : s.mremap fs old oldSize newSize = remapTo fs s old oldSize newSize start := by
  rw [MemorySet.mremap, found]
  rfl

/-- A page is mapped, and another one behind a gap. The first is moved to the gap: the areas
before it is, and the new start.
-/
def mremapped (fs : Vfs) (backend : Option MemBackend)
    : Except Crash (List (Nat × MapArea) × Int) := do
  let s : MemorySet Rv64PTE PagePool ← newEmpty blank (fun _ => 0)
  let (_, s) ← s.mmap fs 0x5000 0x1000 {} true none
  let (_, s) ← s.mmap fs 0x1000 0x1000 { user := true, read := true } true backend
  let (r, _) ← remapTo fs s 0x1000 0x1000 0x2000 0x2000
  return (s.ownedMem.entries, r)

/-- A page that is not loaded. -/
def lazyPage (backend : Option MemBackend) : MapArea :=
  MapArea.unloaded 0x1000 1 { user := true, read := true } backend

theorem mremapped_run {backend : Option MemBackend} {r : Int}
    (run : mremapped fs backend = .ok ([(0x1000, lazyPage backend),
      (0x5000, MapArea.unloaded 0x5000 1 {} none)], r))
    : ∃ s s' : MemorySet Rv64PTE PagePool,
        Agrees (fun _ _ _ => True) s []
        ∧ lazyPage backend ∈ s.ownedMem.values
        ∧ s.mremap fs 0x1000 0x1000 0x2000 = .ok (r, s') := by
  obtain ⟨s, created, run⟩ := bind_eq_ok.mp run
  obtain ⟨⟨a, s₁⟩, neighbour, run⟩ := bind_eq_ok.mp run
  obtain ⟨⟨a', s₂⟩, mapped, run⟩ := bind_eq_ok.mp run
  obtain ⟨⟨r', s₃⟩, moved, run⟩ := bind_eq_ok.mp run
  obtain ⟨entries, rfl⟩ := Prod.mk.inj (Except.ok.inj run)
  have agrees := agrees_newEmpty created
  have start : Agrees (fun _ _ _ => True) s [] :=
    ⟨agrees.keyed, agrees.sound, agrees.detached, fun _ _ => trivial⟩
  have first := (start.mmap (Serves.returns fs) (by decide) (by decide) (by decide) (by decide)
    (fun _ => by decide) fun _ => trivial).of_ok neighbour
  have second := (first.mmap (Serves.returns fs) (by decide) (by decide) (by decide) (by decide)
    (fun _ => by decide) fun _ => trivial).of_ok mapped
  have segments : s₂.segments = [(0x1000, 0x2000), (0x5000, 0x6000)] := by
    rw [MemorySet.segments, entries, second.detached, List.mergeSort_of_pairwise]
    · simp [lazyPage, MapArea.unloaded, MapArea.size, PAGE_SIZE_4K]
    · simp [lazyPage, MapArea.unloaded, MapArea.size, PAGE_SIZE_4K, segmentLe]
  have found : s₂.findFreeArea 0x1000 0x2000 = some 0x2000 := by
    rw [findFreeArea, segments]
    decide
  refine ⟨s₂, s₃, second, ?_, ?_⟩
  · rw [BTreeMap.values, entries]
    exact List.mem_cons_self ..
  · exact (mremap_of_found found).trans moved

/-- Witness: an anonymous page reads as zero, so its contents are preserved. -/
theorem mremap_preserves_iff_anonymous
    : ∃ s s' : MemorySet Rv64PTE PagePool,
        s.mremap noFiles 0x1000 0x1000 0x2000 = .ok (0x2000, s')
        ∧ Preserves noFiles s s' 0x1000 0x1000 0x2000 0x2000 := by
  obtain ⟨s, s', agrees, member, called⟩ := mremapped_run
    (by decide +kernel : mremapped noFiles none = .ok (_, 0x2000))
  refine ⟨s, s', called, ((mremap_preserves_iff agrees member (by decide) (by decide) (by decide)
    (by decide) (by decide) (by decide) (by decide) (by decide) called).mpr
    fun start found => ⟨?_, ?_⟩).1 (by decide)⟩
  · intro k mapping inside maps readable empty prev
    have stop : (lazyPage none).stop = 0x2000 := by decide
    obtain rfl := agrees.tidy.maps_unique maps
      ⟨_, member, Nat.le_add_right 0x1000 k, by omega, rfl⟩
    rfl
  · intro k source target behind inside
    omega

/-- A page of numbered bytes is filled with its number. -/
theorem loadedByte_numbered {backend : MemBackend} (readable : backend.file.readable = true)
    (prev : UInt8) {i : Nat} (inside : i < PAGE_SIZE_4K)
    : MapArea.loadedByte numberedPages (some backend) prev i
      = UInt8.ofNat (backend.file.offset / 4096) := by
  have full (n : Nat) (more : 0 < n) : backend.file.readFull numberedPages n
      = some (List.replicate n (UInt8.ofNat (backend.file.offset / 4096)),
        { backend.file with offset := backend.file.offset + n }) := by
    obtain ⟨n, rfl⟩ := Nat.exists_eq_add_one.mpr more
    have read : backend.file.read numberedPages (n + 1)
        = some (UInt8.ofNat (backend.file.offset / 4096)
            :: List.replicate n (UInt8.ofNat (backend.file.offset / 4096)),
          { backend.file with offset := backend.file.offset + (n + 1) }) := by
      simp [File.read, readable, numberedPages, List.replicate_succ]
    rw [File.readFull, if_neg n.succ_ne_zero, read]
    simp [File.readFull, List.replicate_succ]
  simp only [MapArea.loadedByte, full PAGE_SIZE_4K (by decide), List.getElem?_replicate,
    if_pos inside, Option.getD_some]

/-- Counterexample: a page of a file that is not loaded yet reads 5, and 0 where it is moved. -/
theorem mremap_forgets
    : ∃ s s' : MemorySet Rv64PTE PagePool,
        Agrees (fun _ _ _ => True) s []
        ∧ lazyPage (some numberedFile) ∈ s.ownedMem.values
        ∧ s.mremap numberedPages 0x1000 0x1000 0x2000 = .ok (0x2000, s')
        ∧ (∀ b, Reads numberedPages s 0x1000 b ↔ b = 5)
        ∧ (∀ b, Reads numberedPages s' 0x2000 b ↔ b = 0)
        ∧ ¬ Preserves numberedPages s s' 0x1000 0x1000 0x2000 0x2000 := by
  obtain ⟨s, s', agrees, member, called⟩ := mremapped_run
    (by decide +kernel : mremapped numberedPages (some numberedFile) = .ok (_, 0x2000))
  have maps : s.Maps 0x1000 ((lazyPage (some numberedFile)).mapping 0x1000) :=
    ⟨_, member, by decide, by decide, rfl⟩
  have before (b : UInt8) : Reads numberedPages s 0x1000 b ↔ b = 5 := by
    have loaded (prev : UInt8) : MapArea.loadedByte numberedPages
        ((lazyPage (some numberedFile)).mapping 0x1000).position prev (0x1000 % 4096) = 5 :=
      loadedByte_numbered rfl prev (by decide)
    have empty : ((lazyPage (some numberedFile)).mapping 0x1000).slot = none := by decide
    rw [agrees.tidy.reads_iff maps, Mapping.Byte, empty]
    simp only [loaded]
    simp [MapArea.mapping, lazyPage, MapArea.unloaded, MappingFlags.contains]
  obtain ⟨-, failed, -⟩ | ⟨start, found, here, moved⟩ := agrees.mremap member (by decide)
    (by decide) (by decide) (by decide) (by decide) (by decide) (by decide) (by decide) called
  · cases failed
  obtain rfl : 0x2000 = start := Int.ofNat.inj here
  have absent := (agrees.absent_iff maps (by decide)).mpr (by decide)
  have fresh := moved.fresh 0 (by decide) fun here => absent here.2
  have after (b : UInt8) : Reads numberedPages s' 0x2000 b ↔ b = 0 := by
    rw [moved.tidy.reads_iff fresh, fresh_byte]
    simp [userReadWrite, MappingFlags.contains]
  refine ⟨s, s', agrees, member, called, before, after, fun preserves => ?_⟩
  have same := preserves.moved 0 (by decide) ⟨5, (before 5).mpr rfl⟩ 5
  have read := (after 5).mp (same.mpr ((before 5).mpr rfl))
  exact absurd read (by decide)

end MemorySet

end RCoreOS.Axmem
