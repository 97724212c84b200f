import RCoreOS.Axmem.AreaMap

/-! What the operations of a memory set do. A loop over overlapped areas keeps the agreement of
the areas that are back in the map together with those that are still pending.
-/

namespace RCoreOS.Axmem

open PageTable GenericPTE Outcome

/-- What the operations may rely on: files fail in an allowed way or move as asked, for all
areas of the kind that the memory set has, and the parts of an area are of its kind.
-/
structure Serves (fs : Vfs) (allowed : Crash → Prop)
    (kind : Nat → MappingFlags → Option MemBackend → Prop) : Prop where
  memory : allowed .outOfMemory
  behind
    : ∀ {area : MapArea} {addr : Nat},
        area.Placed
        → area.Cuts addr
        → kind area.vaddr area.flags area.backend
        → kind addr area.flags (area.behind addr).backend
  seek
    : ∀ {area : MapArea} {addr : Nat},
        area.Shaped
        → area.Cuts addr
        → kind area.vaddr area.flags area.backend
        → Ends allowed (· = (area.behind addr).backend)
            (MapArea.seekBackend fs area.backend (addr - area.vaddr))
  fill
    : ∀ {PTE σ : Type} {area : MapArea} {i : Nat} (page : PhysPage) (m : Machine PTE σ),
        area.Shaped
        → i < area.pages.length
        → kind area.vaddr area.flags area.backend
        → Ends allowed
            (· = (area.backend, m.fillFrame fs
              (area.backend.map (·.forward (i * PAGE_SIZE_4K))) page.paddr))
            (MapArea.fillPage fs area.backend i page m)

/-- Whatever files do, nothing is said about how they fail. -/
theorem Serves.returns (fs : Vfs) : Serves fs (fun _ => True) (fun _ _ _ => True) where
  memory := trivial
  behind _ _ _ := trivial
  seek shaped cuts _ := cuts.seek_returns shaped.placed
  fill page m shaped inside _ := by
    refine fillPage_returns page ?_
    have := shaped.below
    unfold MapArea.stop at this
    unfold PAGE_SIZE_4K
    omega

namespace MemorySet

variable {PTE σ : Type} [GenericPTE PTE] [LawfulPTE PTE] [GlobalAllocator σ]
variable [LawfulGlobalAllocator σ]
variable {s : MemorySet PTE σ} {area : MapArea} {areas : List MapArea} {start stop : Nat}
variable {fs : Vfs} {allowed : Crash → Prop}
variable {kind : Nat → MappingFlags → Option MemBackend → Prop}

/-- The areas of the map and those that are pending agree with the page table and are of the
kind, and the map has each of its areas under its start.
-/
structure Agrees (kind : Nat → MappingFlags → Option MemBackend → Prop) (s : MemorySet PTE σ)
    (pending : List MapArea) : Prop where
  keyed : ∀ entry ∈ s.ownedMem.entries, entry.1 = entry.2.vaddr
  sound : Sound s.toMachine (pending ++ s.ownedMem.values)
  detached : s.attachedMem = []
  kinds : ∀ area ∈ pending ++ s.ownedMem.values, kind area.vaddr area.flags area.backend

omit [LawfulPTE PTE] in
theorem Agrees.tidy (agrees : Agrees kind s areas) : Tidy s areas :=
  ⟨agrees.keyed, fun area member => (agrees.sound.laid.shaped area member).placed,
    agrees.sound.laid.apart⟩

omit [LawfulPTE PTE] in
/-- Of the pending areas the first is of the kind, too. -/
theorem Agrees.kindOf (agrees : Agrees kind s (area :: areas))
    : kind area.vaddr area.flags area.backend :=
  agrees.kinds area (List.mem_cons_self ..)

omit [LawfulPTE PTE] in
/-- The same areas, in the map or pending. -/
theorem Agrees.perm {ownedMem : BTreeMap Nat MapArea} {pending : List MapArea}
    (agrees : Agrees kind s areas) (tidy : Tidy { s with ownedMem } pending)
    (perm : (areas ++ s.ownedMem.values).Perm (pending ++ ownedMem.values))
    : Agrees kind { s with ownedMem } pending :=
  ⟨tidy.keyed, agrees.sound.perm perm, agrees.detached, fun area member =>
    agrees.kinds area (perm.mem_iff.mpr member)⟩

omit [LawfulPTE PTE] in
/-- A pending area can be inserted: its start is no key. -/
theorem Agrees.insertArea (agrees : Agrees kind s (area :: areas))
    : ∃ s',
        s.insertArea area = .ok s'
        ∧ Agrees kind s' areas
        ∧ s'.ownedMem.values.Perm (area :: s.ownedMem.values) := by
  obtain ⟨ownedMem, run, tidy, values⟩ := agrees.tidy.insertArea
  refine ⟨{ s with ownedMem }, run, agrees.perm tidy ?_, values⟩
  exact List.perm_middle.symm.trans (values.symm.append_left areas)

omit [LawfulPTE PTE] in
/-- The insertion of a pending area, as a step of a longer computation. -/
theorem Agrees.inserts (agrees : Agrees kind s (area :: areas))
    : Ends allowed
        (fun s' => Agrees kind s' areas ∧ s'.ownedMem.values.Perm (area :: s.ownedMem.values))
        (s.insertArea area) := by
  obtain ⟨s', insert, holds⟩ := agrees.insertArea
  exact .of_eq insert holds

omit [LawfulPTE PTE] in
/-- Changes of the machine leave the map alone. -/
theorem Agrees.withMachine {pending : List MapArea} {m : Machine PTE σ}
    (agrees : Agrees kind s pending) (areas : List MapArea)
    (sound : Sound m (areas ++ s.ownedMem.values))
    (kinds : ∀ area ∈ areas, kind area.vaddr area.flags area.backend)
    : Agrees kind (s.withMachine m) areas :=
  ⟨agrees.keyed, sound, agrees.detached, List.forall_mem_append.mpr
    ⟨kinds, (List.forall_mem_append.mp agrees.kinds).2⟩⟩

-----------------------------------------------------------------------------------------
-- Making a range free
-----------------------------------------------------------------------------------------

/-- What an overlapped area has in the range is given up, and the rest is inserted. -/
theorem Agrees.splitArea (serves : Serves fs allowed kind)
    (agrees : Agrees kind s (area :: areas)) (cleared : s.Cleared start stop)
    (overlap : Overlap area start stop)
    : Ends allowed (fun s' => Agrees kind s' areas ∧ s'.Cleared start stop)
        (splitArea fs start stop s area) := by
  have shaped := agrees.sound.shaped
  have placed := shaped.placed
  have kinds := List.forall_mem_cons.mp agrees.kinds
  have others := (List.forall_mem_append.mp kinds.2).1
  cases overlap with
  | contained holds =>
      rw [MemorySet.splitArea, if_pos holds]
      exact agrees.sound.dealloc.bind fun r sound =>
        ⟨agrees.withMachine _ sound others, cleared⟩
  | strict no holds first second range =>
      rw [MemorySet.splitArea, no, if_neg Bool.false_ne_true, if_pos holds]
      refine (agrees.sound.removeMid first second range (serves.seek shaped second kinds.1)).bind ?_
      rintro ⟨_, _, m⟩ ⟨rfl, rfl, sound⟩
      have agrees₀ : Agrees kind (s.withMachine m)
          (area.behind stop :: (area.left stop).left start :: areas) :=
        agrees.withMachine _ (sound.perm (.swap ..)) (List.forall_mem_cons.mpr
          ⟨serves.behind placed second kinds.1, List.forall_mem_cons.mpr ⟨kinds.1, others⟩⟩)
      refine agrees₀.inserts.bind fun s₁ ⟨agrees₁, values₁⟩ => agrees₁.inserts.imp ?_
      rintro s₂ ⟨agrees₂, values₂⟩
      refine ⟨agrees₂, (Cleared.insert (s := s.withMachine m) cleared values₁ ?_).insert values₂ ?_⟩
      · exact .inr (Nat.le_refl _)
      · exact .inl ((first.left second placed range).stop_left (second.placed_left placed)).le
  | left no no' holds cuts =>
      rw [MemorySet.splitArea, no, no', if_neg Bool.false_ne_true, if_neg Bool.false_ne_true,
        if_pos holds]
      refine (agrees.sound.shrinkLeft cuts (serves.seek shaped cuts kinds.1)).bind ?_
      rintro ⟨_, m⟩ ⟨rfl, sound⟩
      have agrees₀ : Agrees kind (s.withMachine m) (area.behind stop :: areas) :=
        agrees.withMachine _ sound
          (List.forall_mem_cons.mpr ⟨serves.behind placed cuts kinds.1, others⟩)
      refine agrees₀.inserts.imp fun s' ⟨agrees', values⟩ => ⟨agrees', ?_⟩
      exact Cleared.insert (s := s.withMachine m) cleared values (.inr (Nat.le_refl _))
  | right no no' fails cuts =>
      rw [MemorySet.splitArea, no, no', if_neg Bool.false_ne_true, if_neg Bool.false_ne_true,
        if_neg fails]
      refine (agrees.sound.shrinkRight cuts).bind ?_
      rintro ⟨_, m⟩ ⟨rfl, sound⟩
      have agrees₀ : Agrees kind (s.withMachine m) (area.left start :: areas) :=
        agrees.withMachine _ sound (List.forall_mem_cons.mpr ⟨kinds.1, others⟩)
      refine agrees₀.inserts.imp fun s' ⟨agrees', values⟩ => ⟨agrees', ?_⟩
      exact Cleared.insert (s := s.withMachine m) cleared values (.inl (cuts.stop_left placed).le)

omit [LawfulPTE PTE] in
/-- Taking the overlapped areas out of the map leaves those that are away from the range. -/
theorem Agrees.takeOverlapped (agrees : Agrees kind s []) (range : start < stop)
    : ∃ overlapped ownedMem,
        s.takeOverlapped start stop = (overlapped, ownedMem)
        ∧ Agrees kind { s with ownedMem } overlapped
        ∧ Cleared { s with ownedMem } start stop
        ∧ ∀ area ∈ overlapped, area.overlapWith start stop = true := by
  obtain ⟨overlapped, ownedMem, run, tidy, cleared, perm, overlaps⟩ :=
    agrees.tidy.takeOverlapped range
  exact ⟨overlapped, ownedMem, run, agrees.perm tidy perm, cleared, overlaps⟩

/-- A range of whole pages can be made free. -/
theorem Agrees.splitForArea {size : Nat} (serves : Serves fs allowed kind)
    (agrees : Agrees kind s []) (alignedStart : start % 4096 = 0) (alignedSize : size % 4096 = 0)
    (positive : 0 < size)
    (below : start + size ≤ 2 ^ 38)
    : Ends allowed (fun s' => Agrees kind s' [] ∧ s'.Cleared start (start + size))
        (s.splitForArea fs start size) := by
  have stop : wrapAdd start size = start + size := wrapAdd_of_lt (by unfold USIZE_RANGE; omega)
  have aligned : (start + size) % 4096 = 0 := by omega
  have range : start < start + size := Nat.lt_add_of_pos_right positive
  obtain ⟨overlapped, ownedMem, run, agrees', cleared, overlaps⟩ := agrees.takeOverlapped range
  simp only [MemorySet.splitForArea, stop, assert, isAligned_4k, aligned, if_true, ok_bind, run]
  refine (Ends.foldlM (fun areas s =>
      Agrees kind s areas ∧ s.Cleared start (start + size)
      ∧ ∀ area ∈ areas, area.overlapWith start (start + size) = true) ?_
    ⟨agrees', cleared, overlaps⟩).imp fun s' ⟨agrees', cleared, _⟩ => ⟨agrees', cleared⟩
  rintro area areas s ⟨agrees, cleared, overlaps⟩
  obtain ⟨overlap, overlaps⟩ := List.forall_mem_cons.mp overlaps
  exact (agrees.splitArea serves cleared
    (agrees.sound.shaped.placed.overlap alignedStart aligned range overlap)).imp
    fun s' ⟨agrees', cleared'⟩ => ⟨agrees', cleared', overlaps⟩

/-- A new lazily loaded region in a free range, unless memory runs out. -/
theorem Agrees.newRegion {size : Nat} {flags : MappingFlags} {backend : Option MemBackend}
    (memory : allowed .outOfMemory) (agrees : Agrees kind s [])
    (shaped : (MapArea.unloaded start (size / 4096) flags backend).Shaped)
    (kindOf : kind start flags backend) (cleared : s.Cleared start (start + size))
    (alignedSize : size % 4096 = 0)
    : Ends allowed
        (fun s' =>
          Agrees kind s' []
          ∧ s'.ownedMem.values.Perm
              (MapArea.unloaded start (size / 4096) flags backend :: s.ownedMem.values))
        (s.newRegion start size flags none backend) := by
  have stop : (MapArea.unloaded start (size / 4096) flags backend).stop = start + size :=
    MapArea.unloaded_stop alignedSize
  rw [MemorySet.newRegion, numPages_of_aligned alignedSize]
  refine (Sound.newLazy memory agrees.sound shaped (stop ▸ cleared)).bind ?_
  rintro ⟨area, m⟩ ⟨rfl, sound⟩
  obtain ⟨s', insert, agrees', values⟩ := (agrees.withMachine [_] sound
    (List.forall_mem_singleton.mpr kindOf)).insertArea
  exact .of_eq insert ⟨agrees', values⟩

omit [LawfulPTE PTE] in
/-- A free range that is found has no address of an area. -/
theorem Agrees.findFreeArea {size : Nat} (agrees : Agrees kind s []) (small : size ≤ 2 ^ 38)
    (low : start ≤ 2 ^ 38) (aligned : start % 4096 = 0) {found : Nat}
    (run : s.findFreeArea start size = some found)
    : found % 4096 = 0 ∧ found + size ≤ 2 ^ 38 ∧ s.Cleared found (found + size) := by
  have spread : Spread (2 ^ 38) s := agrees.tidy.spread agrees.detached fun area member =>
    (agrees.sound.laid.shaped area member).below
  exact agrees.tidy.findFreeArea spread (by decide) (by decide) small low aligned run

-----------------------------------------------------------------------------------------
-- Protecting a range
-----------------------------------------------------------------------------------------

/-- What an overlapped area has in the range gets the flags, and all its parts are inserted. -/
theorem Agrees.protectArea {flags : MappingFlags} (serves : Serves fs allowed kind)
    (agrees : Agrees kind s (area :: areas))
    (reflag : ∀ {vaddr old backend}, kind vaddr old backend → kind vaddr flags backend)
    (overlap : Overlap area start stop)
    : Ends allowed (fun s' => Agrees kind s' areas) (protectArea fs start stop flags s area) := by
  have shaped := agrees.sound.shaped
  have placed := shaped.placed
  have kinds := List.forall_mem_cons.mp agrees.kinds
  have others := (List.forall_mem_append.mp kinds.2).1
  cases overlap with
  | contained holds =>
      rw [MemorySet.protectArea, if_pos holds]
      refine (agrees.sound.updateFlags flags).bind ?_
      rintro ⟨_, m⟩ ⟨rfl, sound⟩
      have agrees₀ : Agrees kind (s.withMachine m) ({ area with flags } :: areas) :=
        agrees.withMachine _ sound (List.forall_mem_cons.mpr ⟨reflag kinds.1, others⟩)
      exact agrees₀.inserts.imp fun s' holds => holds.1
  | strict no holds first second range =>
      rw [MemorySet.protectArea, no, if_neg Bool.false_ne_true, if_pos holds]
      refine (MapArea.split3_ends placed first second range (serves.seek shaped first kinds.1)
        (serves.seek shaped second kinds.1)).bind ?_
      rintro _ rfl
      have firstLeft := first.left second placed range
      have pieces := (agrees.sound.cutBehind second).cutBehind firstLeft
      refine (Sound.updateFlags (pieces.perm (.swap ..)) flags).bind ?_
      rintro ⟨_, m⟩ ⟨rfl, sound⟩
      have agrees₀ : Agrees kind (s.withMachine m)
          ({ (area.left stop).behind start with flags }
            :: area.behind stop :: (area.left stop).left start :: areas) :=
        agrees.withMachine _ (sound.perm ((List.Perm.swap ..).cons _)) (List.forall_mem_cons.mpr
          ⟨reflag (serves.behind (second.placed_left placed) firstLeft kinds.1),
            List.forall_mem_cons.mpr ⟨serves.behind placed second kinds.1,
              List.forall_mem_cons.mpr ⟨kinds.1, others⟩⟩⟩)
      refine agrees₀.inserts.bind fun s₁ holds₁ => holds₁.1.inserts.bind fun s₂ holds₂ => ?_
      exact holds₂.1.inserts.imp fun s₃ holds₃ => holds₃.1
  | left no no' holds cuts =>
      rw [MemorySet.protectArea, no, no', if_neg Bool.false_ne_true, if_neg Bool.false_ne_true,
        if_pos holds]
      refine (MapArea.split_ends placed cuts (serves.seek shaped cuts kinds.1)).bind ?_
      rintro _ rfl
      refine ((agrees.sound.cutBehind cuts).updateFlags flags).bind ?_
      rintro ⟨_, m⟩ ⟨rfl, sound⟩
      have agrees₀ : Agrees kind (s.withMachine m)
          (area.behind stop :: { area.left stop with flags } :: areas) :=
        agrees.withMachine _ (sound.perm (.swap ..)) (List.forall_mem_cons.mpr
          ⟨serves.behind placed cuts kinds.1, List.forall_mem_cons.mpr ⟨reflag kinds.1, others⟩⟩)
      refine agrees₀.inserts.bind fun s₁ holds₁ => ?_
      exact holds₁.1.inserts.imp fun s₂ holds₂ => holds₂.1
  | right no no' fails cuts =>
      rw [MemorySet.protectArea, no, no', if_neg Bool.false_ne_true, if_neg Bool.false_ne_true,
        if_neg fails]
      refine (MapArea.split_ends placed cuts (serves.seek shaped cuts kinds.1)).bind ?_
      rintro _ rfl
      refine (((agrees.sound.cutBehind cuts).perm (.swap ..)).updateFlags flags).bind ?_
      rintro ⟨_, m⟩ ⟨rfl, sound⟩
      have agrees₀ : Agrees kind (s.withMachine m)
          ({ area.behind start with flags } :: area.left start :: areas) :=
        agrees.withMachine _ sound (List.forall_mem_cons.mpr
          ⟨reflag (serves.behind placed cuts kinds.1), List.forall_mem_cons.mpr ⟨kinds.1, others⟩⟩)
      refine agrees₀.inserts.bind fun s₁ holds₁ => ?_
      exact holds₁.1.inserts.imp fun s₂ holds₂ => holds₂.1

/-- A range of whole pages can be protected. -/
theorem Agrees.mprotect {size : Nat} {flags : MappingFlags} (serves : Serves fs allowed kind)
    (agrees : Agrees kind s [])
    (reflag : ∀ {vaddr old backend}, kind vaddr old backend → kind vaddr flags backend)
    (alignedStart : start % 4096 = 0) (alignedSize : size % 4096 = 0) (positive : 0 < size)
    (below : start + size ≤ 2 ^ 38)
    : Ends allowed (fun s' => Agrees kind s' []) (s.mprotect fs start size flags) := by
  have stop : wrapAdd start size = start + size := wrapAdd_of_lt (by unfold USIZE_RANGE; omega)
  have aligned : (start + size) % 4096 = 0 := by omega
  have range : start < start + size := Nat.lt_add_of_pos_right positive
  obtain ⟨overlapped, ownedMem, run, agrees', -, overlaps⟩ := agrees.takeOverlapped range
  simp only [MemorySet.mprotect, stop, assert, isAligned_4k, aligned, if_true, ok_bind, run]
  refine (Ends.foldlM (fun areas s =>
      Agrees kind s areas ∧ ∀ area ∈ areas, area.overlapWith start (start + size) = true) ?_
    ⟨agrees', overlaps⟩).imp fun s' ⟨agrees', _⟩ => agrees'
  rintro area areas s ⟨agrees, overlaps⟩
  obtain ⟨overlap, overlaps⟩ := List.forall_mem_cons.mp overlaps
  exact (agrees.protectArea serves reflag
    (agrees.sound.shaped.placed.overlap alignedStart aligned range overlap)).imp
    fun s' agrees' => ⟨agrees', overlaps⟩

-----------------------------------------------------------------------------------------
-- Mapping and unmapping
-----------------------------------------------------------------------------------------

theorem alignUpSize_spec (size : Nat)
    : alignUpSize size % 4096 = 0 ∧ size ≤ alignUpSize size ∧ alignUpSize size < size + 4096 := by
  unfold alignUpSize PAGE_SIZE_4K
  omega

/-- A new area of a positive number of pages in user memory is well shaped. -/
theorem unloaded_shaped {size : Nat} (flags : MappingFlags) (backend : Option MemBackend)
    (aligned : start % 4096 = 0) (positive : 4096 ≤ size) (below : start + size ≤ 2 ^ 38)
    : (MapArea.unloaded start (size / 4096) flags backend).Shaped where
  aligned := aligned
  nonempty := by
    apply List.ne_nil_of_length_pos
    simp only [MapArea.unloaded, List.length_replicate]
    omega
  below := by
    simp only [MapArea.unloaded, MapArea.stop, List.length_replicate]
    omega
  linear page member := nomatch List.eq_of_mem_replicate member

theorem Agrees.mmap {size : Nat} {flags : MappingFlags} {fixed : Bool}
    {backend : Option MemBackend} (serves : Serves fs allowed kind) (agrees : Agrees kind s [])
    (aligned : start % 4096 = 0) (positive : 0 < size) (low : start ≤ 2 ^ 38)
    (small : size ≤ 2 ^ 38) (below : fixed = true → start + size ≤ 2 ^ 38)
    (kindOf : ∀ vaddr, kind vaddr flags backend)
    : Ends allowed (fun r => Agrees kind r.2 []) (s.mmap fs start size flags fixed backend) := by
  obtain ⟨alignedSize, atLeast, atMost⟩ := alignUpSize_spec size
  have region {s : MemorySet PTE σ} {start : Nat} (agrees : Agrees kind s [])
      (aligned : start % 4096 = 0) (below : start + alignUpSize size ≤ 2 ^ 38)
      (cleared : s.Cleared start (start + alignUpSize size))
      : Ends allowed (fun r : Int × MemorySet PTE σ => Agrees kind r.2 [])
          (do
            let s ← s.newRegion start (alignUpSize size) flags none backend
            return (asI64 start, s)) := by
    have shaped := unloaded_shaped flags backend aligned (by omega) below
    exact (agrees.newRegion serves.memory shaped (kindOf start) cleared alignedSize).bind
      fun s' holds => holds.1
  unfold MemorySet.mmap
  cases fixed with
  | true =>
      have below := below rfl
      have below' : start + alignUpSize size ≤ 2 ^ 38 := by omega
      exact (agrees.splitForArea serves aligned alignedSize (by omega) below').bind
        fun s' ⟨agrees', cleared⟩ => region agrees' aligned below' cleared
  | false =>
      dsimp only
      cases found : s.findFreeArea start (alignUpSize size) with
      | none => exact agrees
      | some gap =>
          obtain ⟨alignedGap, belowGap, cleared⟩ :=
            agrees.findFreeArea (by omega) low aligned found
          exact region agrees alignedGap belowGap cleared

theorem Agrees.munmap {size : Nat} (serves : Serves fs allowed kind) (agrees : Agrees kind s [])
    (aligned : start % 4096 = 0) (positive : 0 < size) (below : start + size ≤ 2 ^ 38)
    : Ends allowed (fun s' => Agrees kind s' []) (s.munmap fs start size) := by
  obtain ⟨alignedSize, atLeast, atMost⟩ := alignUpSize_spec size
  exact (agrees.splitForArea serves aligned alignedSize (by omega) (by omega)).imp
    fun s' ⟨agrees', _⟩ => agrees'

/-- All areas can be given up, by the loop rule. -/
theorem Agrees.unmapUserAreas (agrees : Agrees kind s [])
    : Ends allowed (fun s' => Agrees kind s' []) s.unmapUserAreas := by
  refine (Ends.foldlM (fun areas m => Sound m areas) ?_ agrees.sound).bind ?_
  · intro area areas m sound
    exact sound.dealloc.bind fun r sound' => sound'
  · exact fun m sound => ⟨List.forall_mem_nil _, sound, agrees.detached, List.forall_mem_nil _⟩

-----------------------------------------------------------------------------------------
-- Page faults
-----------------------------------------------------------------------------------------

/-- What loading the page of a slot does to the areas and to the bytes. -/
structure Faulted (fs : Vfs) (s s' : MemorySet PTE σ) (area : MapArea) (i : Nat) (page : PhysPage)
    (rest : List MapArea) : Prop where
  before : s.ownedMem.values.Perm (area :: rest)
  after : s'.ownedMem.values.Perm (area.withPage i page :: rest)
  loads : Loads fs s.toMachine s'.toMachine area rest i page

/-- A page fault in an area that was found loads a page, or it is refused and changes nothing. -/
theorem Agrees.faultArea (serves : Serves fs allowed kind) (agrees : Agrees kind s [])
    {addr key : Nat} (found : s.findArea addr = some (key, area)) (flags : MappingFlags)
    : Ends allowed
        (fun r =>
          Agrees kind r.2 []
          ∧ (r = (.error .badAddress, s)
              ∧ (area.flags.contains flags = true
                → ∃ page, area.pages[(addr - area.vaddr) / 4096]? = some (some page))
            ∨ r.1 = .ok ()
              ∧ ∃ page rest, Faulted fs s r.2 area ((addr - area.vaddr) / 4096) page rest))
        (s.faultArea fs key area addr flags) := by
  obtain ⟨-, -, -, lower, upper⟩ := agrees.tidy.findArea found
  obtain ⟨same, rest, before, replaced⟩ := agrees.tidy.replaceFound found
  have sound := agrees.sound.perm before
  have kindOf := agrees.kinds area (before.mem_iff.mpr (List.mem_cons_self ..))
  refine (sound.handlePageFault serves.memory lower upper flags fun i page m empty =>
    serves.fill page m sound.shaped (List.getElem?_eq_some_iff.mp empty).1 kindOf).bind ?_
  rintro ⟨handled, area', m⟩ (⟨⟨⟩, refused⟩ | ⟨page, ⟨⟩, loads⟩)
  · dsimp only
    rw [same]
    exact ⟨agrees, .inl ⟨rfl, refused⟩⟩
  · obtain ⟨after, keyed⟩ := replaced (area.withPage ((addr - area.vaddr) / 4096) page) rfl
    refine ⟨⟨keyed, loads.sound.perm after.symm, agrees.detached, fun a member => ?_⟩,
      .inr ⟨rfl, page, _, before, after, loads⟩⟩
    rcases List.mem_cons.mp (after.mem_iff.mp member) with rfl | other
    · exact kindOf
    · exact agrees.kinds a (before.mem_iff.mpr (List.mem_cons_of_mem _ other))

theorem Agrees.handlePageFault (serves : Serves fs allowed kind) (agrees : Agrees kind s [])
    (addr : Nat) (flags : MappingFlags)
    : Ends allowed (fun r => Agrees kind r.2 []) (s.handlePageFault fs addr flags) := by
  unfold MemorySet.handlePageFault
  split
  · rename_i found
    exact (agrees.faultArea serves found flags).imp fun r holds => holds.1
  · exact agrees

omit [LawfulPTE PTE] in
/-- Inside an area `getEntryMut` finds an entry. -/
theorem Agrees.getEntryMut (agrees : Agrees kind s []) {addr key : Nat}
    (found : s.findArea addr = some (key, area))
    : ∃ slot, s.toPaging.getEntryMut addr = .ok (slot, .size4K) := by
  obtain ⟨pre, post, split, lower, upper⟩ := agrees.tidy.findArea found
  have shown : Shown s.toPaging area := agrees.sound.laid.shown area
    (List.mem_map_of_mem (f := Prod.snd) (split ▸ List.mem_append_right pre (.head post)))
  obtain ⟨e, page⟩ := shown.small addr lower (area.stop_eq ▸ upper)
  obtain ⟨slot, run, -⟩ := Paging.getEntryMut_of_page page
  exact ⟨slot, run⟩

theorem Agrees.manualAllocForLazy (serves : Serves fs allowed kind) (agrees : Agrees kind s [])
    (addr : Nat)
    : Ends allowed (fun r => Agrees kind r.2 []) (s.manualAllocForLazy fs addr) := by
  unfold MemorySet.manualAllocForLazy
  split
  · rename_i key area found
    obtain ⟨slot, entry⟩ := agrees.getEntryMut found
    rw [entry]
    split
    · exact agrees
    · exact (agrees.faultArea serves found _).imp fun r holds => holds.1
    · exact agrees
  · exact agrees

end MemorySet

end RCoreOS.Axmem
