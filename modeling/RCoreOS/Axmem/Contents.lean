import RCoreOS.Axmem.Keeping
import RCoreOS.Axmem.SetOperations

/-! What a memory set has at its addresses: the flags and the page of each, where its file is
read, and the byte there. A page that is not loaded yet has the bytes that loading it brings.
-/

namespace RCoreOS.Axmem

open PageTable GenericPTE Outcome

-----------------------------------------------------------------------------------------
-- Mappings
-----------------------------------------------------------------------------------------

/-- What an area has at an address: the position is that of its page in the file. -/
structure Mapping where
  flags : MappingFlags
  slot : Option PhysPage
  position : Option MemBackend

/-- A byte that the mapping can have at an address. What a file does not fill of a page is left
as it was, so it can be any byte until the page is loaded.
-/
def Mapping.Byte (fs : Vfs) (bytes : Nat → UInt8) (va : Nat) (mapping : Mapping) (b : UInt8)
    : Prop :=
  match mapping.slot with
  | some page => b = bytes (page.paddr + va % 4096)
  | none => ∃ old, b = MapArea.loadedByte fs mapping.position old (va % 4096)

/-- The byte of a mapping depends on those of its page only. -/
theorem Mapping.byte_congr {fs : Vfs} {bytes bytes' : Nat → UInt8} {va : Nat} {mapping : Mapping}
    (same : ∀ page, mapping.slot = some page
      → bytes' (page.paddr + va % 4096) = bytes (page.paddr + va % 4096))
    (b : UInt8)
    : mapping.Byte fs bytes' va b ↔ mapping.Byte fs bytes va b := by
  obtain ⟨flags, slot, position⟩ := mapping
  cases slot with
  | none => exact Iff.rfl
  | some page =>
      unfold Mapping.Byte
      dsimp only
      rw [same page rfl]

namespace MapArea

variable {area : MapArea} {va : Nat}

def mapping (area : MapArea) (va : Nat) : Mapping where
  flags := area.flags
  slot := (area.pages[(va - area.vaddr) / 4096]?).join
  position := area.position (va - va % 4096)

/-- Every part of an area that is cut has the mappings of its addresses. -/
theorem mapping_steady : Steady mapping where
  left := by
    intro area addr va placed cuts lower before
    have aligned := placed.aligned
    have cut := cuts.aligned
    have index : (va - area.vaddr) / 4096 < (addr - area.vaddr) / 4096 := by omega
    simp only [mapping, left, position, List.getElem?_take, if_pos index]
  behind := by
    intro area addr va placed cuts inside upper
    have aligned := placed.aligned
    have cut := cuts.aligned
    have lower := cuts.lower
    have index : (addr - area.vaddr) / 4096 + (va - addr) / 4096 = (va - area.vaddr) / 4096 := by
      omega
    have position : (area.behind addr).position (va - va % 4096) = area.position (va - va % 4096) :=
      cuts.position_behind (by omega)
    simp only [mapping, position, Mapping.mk.injEq, and_true]
    simp only [behind, right, List.getElem?_drop, index, true_and]

/-- The slot of a mapping, as it is found in the area. -/
theorem mapping_slot (lower : area.vaddr ≤ va) (upper : va < area.stop)
    : area.pages[(va - area.vaddr) / 4096]? = some (area.mapping va).slot := by
  obtain ⟨i, slot, found, lower', upper'⟩ := slot_of_mem lower upper
  obtain rfl : i = (va - area.vaddr) / 4096 := by omega
  rw [mapping, found, Option.join_some]

theorem withPage_mapping {i : Nat} {page : PhysPage} (inside : i < area.pages.length)
    : (area.withPage i page).mapping va
      = if (va - area.vaddr) / 4096 = i then { area.mapping va with slot := some page }
        else area.mapping va := by
  simp only [mapping, withPage, position, List.getElem?_set]
  split
  · rename_i here
    subst here
    rw [if_pos rfl, Option.join_some]
  · rename_i elsewhere
    rw [if_neg fun here => elsewhere here.symm]

end MapArea

-----------------------------------------------------------------------------------------
-- The mappings of a memory set
-----------------------------------------------------------------------------------------

namespace MemorySet

variable {PTE σ : Type} {s s' s'' : MemorySet PTE σ} {va : Nat} {mapping mapping' : Mapping}
variable {fs : Vfs}

/-- The memory set has the mapping at the address. -/
def Maps (s : MemorySet PTE σ) (va : Nat) (mapping : Mapping) : Prop :=
  Has MapArea.mapping s.ownedMem.values va mapping

/-- A user can read the byte at the address, where the page may have to be loaded first. -/
def Reads (fs : Vfs) (s : MemorySet PTE σ) (va : Nat) (b : UInt8) : Prop :=
  ∃ mapping, s.Maps va mapping
    ∧ mapping.flags.contains { user := true, read := true } = true
    ∧ mapping.Byte fs s.bytes va b

/-- At the address nothing has changed: the mapping there is as before, and so is its byte. -/
structure SameAt (fs : Vfs) (s s' : MemorySet PTE σ) (va : Nat) : Prop where
  maps : ∀ mapping, s'.Maps va mapping ↔ s.Maps va mapping
  bytes : ∀ mapping,
    s.Maps va mapping → ∀ b, mapping.Byte fs s'.bytes va b ↔ mapping.Byte fs s.bytes va b

theorem SameAt.refl (fs : Vfs) (s : MemorySet PTE σ) (va : Nat) : SameAt fs s s va :=
  ⟨fun _ => Iff.rfl, fun _ _ _ => Iff.rfl⟩

theorem SameAt.trans (first : SameAt fs s s' va) (second : SameAt fs s' s'' va)
    : SameAt fs s s'' va where
  maps mapping := (second.maps mapping).trans (first.maps mapping)
  bytes mapping maps b :=
    (second.bytes mapping ((first.maps mapping).mpr maps) b).trans (first.bytes mapping maps b)

/-- An address has one mapping. -/
theorem Tidy.maps_unique (tidy : Tidy s []) (maps : s.Maps va mapping)
    (maps' : s.Maps va mapping')
    : mapping = mapping' := by
  obtain ⟨a, memberA, lowerA, upperA, rfl⟩ := maps
  obtain ⟨b, memberB, lowerB, upperB, rfl⟩ := maps'
  rw [tidy.unique memberA memberB ⟨lowerA, upperA⟩ ⟨lowerB, upperB⟩]

/-- An area is found exactly for the addresses that are mapped. -/
theorem Tidy.findArea_maps (tidy : Tidy s []) {key : Nat} {area : MapArea}
    (found : s.findArea va = some (key, area))
    : s.Maps va (area.mapping va) := by
  obtain ⟨pre, post, split, lower, upper⟩ := tidy.findArea found
  exact ⟨area, List.mem_map_of_mem (f := Prod.snd) (split ▸ List.mem_append_right pre (.head post)),
    lower, upper, rfl⟩

theorem Tidy.findArea_none (tidy : Tidy s []) (none : s.findArea va = none)
    : ¬ s.Maps va mapping := by
  rintro ⟨area, member, lower, upper, -⟩
  obtain ⟨entry, inMap, rfl⟩ := List.mem_map.mp member
  have placed : entry.2.Placed := tidy.placed entry.2 member
  have no := List.find?_eq_none.mp none entry inMap
  dsimp only at no
  rw [placed.endVa] at no
  simp [lower, upper] at no

-----------------------------------------------------------------------------------------
-- The page table
-----------------------------------------------------------------------------------------

/-- The entry of the address is present. -/
def Valid [GenericPTE PTE] (s : MemorySet PTE σ) (va : Nat) : Prop :=
  checkPageTableEntryValidity s.toPaging va = .ok ()

section Entries

variable [GenericPTE PTE] [LawfulPTE PTE] [PagingIf σ] [LawfulPagingIf σ]

/-- The page table shows every slot of the areas, whatever else is mapped. -/
structure Furnished (s : MemorySet PTE σ) : Prop where
  tidy : Tidy s []
  tables : s.toPaging.WellFormed True
  shaped : ∀ area ∈ s.ownedMem.values, area.Shaped
  shown : ∀ area ∈ s.ownedMem.values, Shown s.toPaging area

omit [LawfulPTE PTE] in
/-- The page table shows the slot of a mapping. -/
theorem Furnished.slotShown (furnished : Furnished s) (maps : s.Maps va mapping)
    : SlotShown mapping.flags mapping.slot (s.toPaging.view va) := by
  obtain ⟨area, member, lower, upper, rfl⟩ := maps
  obtain ⟨i, slot, found, lower', upper'⟩ := area.slot_of_mem lower upper
  obtain rfl : i = (va - area.vaddr) / 4096 := by omega
  rw [MapArea.mapping_slot lower upper, Option.some.injEq] at found
  subst found
  exact furnished.shown area member _ _ (MapArea.mapping_slot lower upper) va lower' upper'

omit [LawfulPTE PTE] in
/-- The page of a mapping lies in the linear mapping. -/
theorem Furnished.linear (furnished : Furnished s) (maps : s.Maps va mapping) {page : PhysPage}
    (loaded : mapping.slot = some page)
    : Linear page.startVaddr := by
  obtain ⟨area, member, lower, upper, rfl⟩ := maps
  have found := MapArea.mapping_slot lower upper
  rw [loaded] at found
  exact (furnished.shaped area member).linear page (List.mem_of_getElem? found)

omit [LawfulPTE PTE] in
/-- The entry of a mapping: a page with the flags of the area, or a fault page. -/
theorem Furnished.getEntry (furnished : Furnished s) (maps : s.Maps va mapping)
    : ∃ slot,
        s.toPaging.getEntryMut va = .ok (slot, .size4K)
        ∧ match mapping.slot with
          | some page => s.entry slot = newPage page.paddr mapping.flags false
          | none => ∃ f, s.entry slot = newFaultPage f false := by
  have shown := furnished.slotShown maps
  obtain ⟨e, page⟩ := shown.page
  obtain ⟨slot, run, entry, -⟩ := Paging.getEntryMut_of_page page
  refine ⟨slot, run, ?_⟩
  rw [page] at shown
  cases here : mapping.slot with
  | some page =>
      rw [here] at shown
      exact entry.trans (by cases shown; rfl)
  | none =>
      rw [here] at shown
      obtain ⟨f, fault⟩ := shown
      exact ⟨f, entry.trans (by cases fault; rfl)⟩

/-- An entry is present when the page is loaded and its flags make it present. -/
theorem Furnished.valid_iff (furnished : Furnished s) (maps : s.Maps va mapping)
    : s.Valid va ↔ ∃ page, mapping.slot = some page
        ∧ isPresent (newPage page.paddr mapping.flags false : PTE) = true := by
  obtain ⟨slot, run, entry⟩ := furnished.getEntry maps
  rw [Valid, checkPageTableEntryValidity, run]
  cases here : mapping.slot with
  | some page =>
      rw [here] at entry
      dsimp only at entry ⊢
      rw [entry]
      simp
  | none =>
      rw [here] at entry
      obtain ⟨f, fault⟩ := entry
      simp [fault, LawfulPTE.fault_absent]

omit [LawfulPTE PTE] in
/-- Inside an area an entry is present, or it counts as not mapped. -/
theorem Furnished.validity (furnished : Furnished s) (maps : s.Maps va mapping)
    : s.Valid va ∨ checkPageTableEntryValidity s.toPaging va = .error .notMapped := by
  obtain ⟨slot, run, -⟩ := furnished.getEntry maps
  rw [Valid, checkPageTableEntryValidity, run]
  dsimp only
  split
  · exact .inr rfl
  · exact .inl rfl

end Entries

section Access

variable [GenericPTE PTE] [LawfulPTE PTE] [GlobalAllocator σ] [LawfulGlobalAllocator σ]
variable {kind : Nat → MappingFlags → Option MemBackend → Prop}

omit [LawfulPTE PTE] in
theorem Agrees.furnished (agrees : Agrees kind s []) : Furnished s where
  tidy := agrees.tidy
  tables := agrees.sound.laid.tables
  shaped := agrees.sound.laid.shaped
  shown := agrees.sound.laid.shown

/-- The kernel accesses the page of the mapping. -/
theorem Agrees.access (agrees : Agrees kind s []) (maps : s.Maps va mapping)
    {flags : MappingFlags} {p : Nat} (access : s.toMachine.access va flags = some p)
    : ∃ page, mapping.slot = some page ∧ p = page.paddr + va % 4096 := by
  obtain ⟨slot, run, entry⟩ := agrees.furnished.getEntry maps
  rw [Machine.access, run] at access
  cases here : mapping.slot with
  | some page =>
      rw [here] at entry
      dsimp only at entry access
      rw [entry] at access
      have frame := (PhysPage.frameAddr (agrees.furnished.linear maps here)).1
      split at access
      · cases access
        refine ⟨page, rfl, ?_⟩
        rw [LawfulPTE.page_paddr _ _ frame, alignOffset_page va .size4K]
        rfl
      · cases access
  | none =>
      rw [here] at entry
      obtain ⟨f, fault⟩ := entry
      simp [fault, LawfulPTE.fault_absent] at access

end Access

-----------------------------------------------------------------------------------------
-- Frames
-----------------------------------------------------------------------------------------

/-- Slots with one frame are one slot, by induction on the slots. -/
theorem slot_unique {slots : List (Option PhysPage)} {i j : Nat} {p q : PhysPage}
    (nodup : (slots.reduceOption.map PhysPage.paddr).Nodup) (atI : slots[i]? = some (some p))
    (atJ : slots[j]? = some (some q)) (same : p.paddr = q.paddr)
    : i = j := by
  induction slots generalizing i j with
  | nil => cases atI
  | cons slot slots ih =>
      have frame {k : Nat} {page : PhysPage} (here : slots[k]? = some (some page))
          : page.paddr ∈ slots.reduceOption.map PhysPage.paddr :=
        List.mem_map_of_mem (List.reduceOption_mem_iff.mpr (List.mem_of_getElem? here))
      cases slot with
      | none =>
          rw [List.reduceOption_cons_of_none] at nodup
          cases i with
          | zero => cases atI
          | succ i =>
              cases j with
              | zero => cases atJ
              | succ j => exact congrArg _ (ih nodup atI atJ)
      | some page =>
          rw [List.reduceOption_cons_of_some, List.map_cons, List.nodup_cons] at nodup
          cases i with
          | zero =>
              cases atI
              cases j with
              | zero => rfl
              | succ j =>
                  rw [same] at nodup
                  exact absurd (frame atJ) nodup.1
          | succ i =>
              cases j with
              | zero =>
                  cases atJ
                  rw [← same] at nodup
                  exact absurd (frame atI) nodup.1
              | succ j => exact congrArg _ (ih nodup.2 atI atJ)

section Frames

variable [GlobalAllocator σ] [LawfulGlobalAllocator σ] [GenericPTE PTE]
variable {kind : Nat → MappingFlags → Option MemBackend → Prop}

/-- Addresses whose pages have one frame are on one page. -/
theorem Agrees.page_unique (agrees : Agrees kind s []) {va' : Nat} {page page' : PhysPage}
    (maps : s.Maps va mapping) (maps' : s.Maps va' mapping') (loaded : mapping.slot = some page)
    (loaded' : mapping'.slot = some page') (same : page.paddr = page'.paddr)
    : va / 4096 = va' / 4096 := by
  obtain ⟨a, memberA, lowerA, upperA, rfl⟩ := maps
  obtain ⟨b, memberB, lowerB, upperB, rfl⟩ := maps'
  have foundA := MapArea.mapping_slot lowerA upperA
  have foundB := MapArea.mapping_slot lowerB upperB
  rw [loaded] at foundA
  rw [loaded'] at foundB
  have nodup : (s.ownedMem.values.flatMap MapArea.frames).Nodup := agrees.sound.framed.nodup
  obtain ⟨each, apart⟩ := List.nodup_flatMap.mp nodup
  by_cases one : a = b
  · subst one
    have index := slot_unique (each a memberA) foundA foundB same
    have aligned := (agrees.sound.laid.shaped a memberA).aligned
    omega
  · have symmetric : Std.Symm (Function.onFun List.Disjoint MapArea.frames) :=
      ⟨fun _ _ disjoint _ inB inA => disjoint inA inB⟩
    have disjoint := apart.forall memberA memberB one
    have inA : page.paddr ∈ a.frames :=
      List.mem_map_of_mem (List.reduceOption_mem_iff.mpr (List.mem_of_getElem? foundA))
    have inB : page'.paddr ∈ b.frames :=
      List.mem_map_of_mem (List.reduceOption_mem_iff.mpr (List.mem_of_getElem? foundB))
    rw [same] at inA
    exact absurd inB (disjoint inA)

/-- Different pages have no byte in common. -/
theorem Agrees.bytes_apart (agrees : Agrees kind s []) {va' i : Nat} {page page' : PhysPage}
    (maps : s.Maps va mapping) (maps' : s.Maps va' mapping') (loaded : mapping.slot = some page)
    (loaded' : mapping'.slot = some page') (different : va / 4096 ≠ va' / 4096) (inside : i < 4096)
    : page.paddr + i < page'.paddr ∨ page'.paddr + 4096 ≤ page.paddr + i := by
  have frames : page.paddr ≠ page'.paddr := fun same =>
    different (agrees.page_unique maps maps' loaded loaded' same)
  have aligned := (PhysPage.frameAddr (agrees.furnished.linear maps loaded)).1.1
  have aligned' := (PhysPage.frameAddr (agrees.furnished.linear maps' loaded')).1.1
  omega

end Frames

-----------------------------------------------------------------------------------------
-- Bytes
-----------------------------------------------------------------------------------------

section Bytes

variable {start stop size : Nat} {area : MapArea}

theorem insertArea_bytes : Returns (·.bytes = s.bytes) (s.insertArea area) :=
  (Returns.self _).bind fun _ _ => rfl

variable [GlobalAllocator σ]

/-- Dropping pages changes no bytes, by induction on the pages. -/
theorem dropPages_bytes {m : Machine PTE σ} (slots : List (Option PhysPage))
    : (dropPages slots m).bytes = m.bytes := by
  unfold dropPages
  induction slots.reduceOption generalizing m with
  | nil => rfl
  | cons page pages ih => exact ih.trans rfl

variable [GenericPTE PTE]

omit [GlobalAllocator σ] in
theorem unmapRegion_bytes {m : Machine PTE σ} (vaddr : Nat)
    : Returns (·.bytes = m.bytes) (m.unmapRegion vaddr size) := by
  unfold Machine.unmapRegion
  split
  · exact rfl
  · trivial

theorem newRegion_bytes {flags : MappingFlags} {backend : Option MemBackend}
    : Returns (·.bytes = s.bytes) (s.newRegion start size flags none backend) := by
  refine (((MapArea.unwrap_bytes _).bind fun m same => same) :
    Returns (fun r => r.2.bytes = s.bytes)
      (MapArea.newLazy start _ flags backend s.toMachine)).bind ?_
  exact fun r same => insertArea_bytes.imp fun _ same' => same'.trans same

/-- Cutting an area and giving a part of it up changes no bytes. -/
theorem splitArea_bytes : Returns (·.bytes = s.bytes) (splitArea fs start stop s area) := by
  unfold MemorySet.splitArea
  split
  · refine ((unmapRegion_bytes _).bind fun m same => (dropPages_bytes _).trans same :
      Returns (fun r => r.2.bytes = s.bytes) (area.dealloc s.toMachine)).bind fun r same => same
  split
  · have removed : Returns (fun r => r.2.2.bytes = s.bytes)
        (area.removeMid fs start stop s.toMachine) := by
      unfold MapArea.removeMid
      refine (Returns.self _).bind fun _ _ => (Returns.self _).bind fun _ _ => ?_
      refine (Returns.self _).bind fun _ _ => (Returns.self _).bind fun _ _ => ?_
      refine (Returns.self _).bind fun _ _ => (Returns.self _).bind fun _ _ => ?_
      exact (unmapRegion_bytes _).bind fun m same => same.trans (dropPages_bytes _)
    refine removed.bind fun r same => insertArea_bytes.bind fun s₁ same₁ => ?_
    exact insertArea_bytes.imp fun s₂ same₂ => same₂.trans (same₁.trans same)
  split
  · have shrunk : Returns (fun r => r.2.bytes = s.bytes) (area.shrinkLeft fs stop s.toMachine) := by
      unfold MapArea.shrinkLeft
      refine (Returns.self _).bind fun _ _ => (Returns.self _).bind fun _ _ => ?_
      refine (Returns.self _).bind fun _ _ => ?_
      exact (unmapRegion_bytes _).bind fun m same => same.trans (dropPages_bytes _)
    exact shrunk.bind fun r same => insertArea_bytes.imp fun s₁ same₁ => same₁.trans same
  · have shrunk : Returns (fun r => r.2.bytes = s.bytes) (area.shrinkRight start s.toMachine) := by
      unfold MapArea.shrinkRight
      refine (Returns.self _).bind fun _ _ => (Returns.self _).bind fun _ _ => ?_
      exact (unmapRegion_bytes _).bind fun m same => same.trans (dropPages_bytes _)
    exact shrunk.bind fun r same => insertArea_bytes.imp fun s₁ same₁ => same₁.trans same

/-- Making a range free changes no bytes, by the loop rule. -/
theorem splitForArea_bytes : Returns (·.bytes = s.bytes) (s.splitForArea fs start size) := by
  unfold MemorySet.splitForArea
  refine (Returns.self _).bind fun _ _ => ?_
  refine Ends.foldlM (fun _ (s' : MemorySet PTE σ) => s'.bytes = s.bytes) ?_ rfl
  exact fun area rest s' same => splitArea_bytes.imp fun s'' same' => same'.trans same

end Bytes

-----------------------------------------------------------------------------------------
-- Loading and writing a page
-----------------------------------------------------------------------------------------

/-- The addresses of a page have one mapping. -/
theorem Tidy.maps_page (tidy : Tidy s []) (maps : s.Maps va mapping) {va' : Nat}
    (page : va' / 4096 = va / 4096)
    : s.Maps va' mapping := by
  obtain ⟨area, member, lower, upper, rfl⟩ := maps
  have aligned := (tidy.placed area member).aligned
  unfold MapArea.stop at upper
  refine ⟨area, member, by omega, by unfold MapArea.stop; omega, ?_⟩
  have index : (va' - area.vaddr) / 4096 = (va - area.vaddr) / 4096 := by omega
  have start : va' - va' % 4096 = va - va % 4096 := by omega
  rw [MapArea.mapping, MapArea.mapping, index, start]

section Pages

variable [GenericPTE PTE] [GlobalAllocator σ] [LawfulGlobalAllocator σ]
variable {kind : Nat → MappingFlags → Option MemBackend → Prop} {area : MapArea} {i : Nat}
variable {page : PhysPage} {rest : List MapArea}

omit [LawfulGlobalAllocator σ] [GenericPTE PTE] [GlobalAllocator σ] in
theorem Maps.frame (maps : s.Maps va mapping) (loaded : mapping.slot = some page)
    : page.paddr ∈ s.ownedMem.values.flatMap MapArea.frames := by
  obtain ⟨area, member, lower, upper, rfl⟩ := maps
  have found := MapArea.mapping_slot lower upper
  rw [loaded] at found
  exact List.mem_flatMap.mpr ⟨area, member,
    List.mem_map_of_mem (List.reduceOption_mem_iff.mpr (List.mem_of_getElem? found))⟩

omit [LawfulGlobalAllocator σ] [GenericPTE PTE] [GlobalAllocator σ] in
/-- A slot that is filled does not change the mappings of the other pages. -/
theorem has_withPage (aligned : area.vaddr % 4096 = 0) (inside : i < area.pages.length)
    (elsewhere : va / 4096 ≠ (area.vaddr + 4096 * i) / 4096)
    : Has MapArea.mapping (area.withPage i page :: rest) va mapping
      ↔ Has MapArea.mapping (area :: rest) va mapping := by
  have stop : (area.withPage i page).stop = area.stop := by
    simp [MapArea.withPage, MapArea.stop]
  have here : area.vaddr ≤ va → (area.withPage i page).mapping va = area.mapping va := by
    intro lower
    rw [MapArea.withPage_mapping inside, if_neg (by omega)]
  unfold Has
  rw [List.exists_mem_cons_iff, List.exists_mem_cons_iff, stop]
  refine or_congr_left (and_congr_right fun lower => ?_)
  rw [here lower]

/-- Loading a page changes nothing elsewhere: its frame is not that of another page. -/
theorem Faulted.sameAt (faulted : Faulted fs s s' area i page rest) (agrees : Agrees kind s [])
    (elsewhere : va / 4096 ≠ (area.vaddr + 4096 * i) / 4096)
    : SameAt fs s s' va := by
  obtain ⟨before, after, ⟨empty, sound, fresh, bytes⟩⟩ := faulted
  have inside := (List.getElem?_eq_some_iff.mp empty).1
  have member : area ∈ s.ownedMem.values := before.mem_iff.mpr (List.mem_cons_self ..)
  have filled (mapping : Mapping)
      : Has MapArea.mapping (area.withPage i page :: rest) va mapping
        ↔ Has MapArea.mapping (area :: rest) va mapping :=
    has_withPage (agrees.sound.laid.shaped area member).aligned inside elsewhere
  refine ⟨fun mapping => ⟨fun maps => ?_, fun maps => ?_⟩, fun mapping maps => ?_⟩
  · exact ((filled mapping).mp (Has.perm maps after)).perm before.symm
  · exact ((filled mapping).mpr (Has.perm maps before)).perm after.symm
  · refine Mapping.byte_congr fun loaded here => ?_
    have frame := maps.frame here
    rw [(before.flatMap_right MapArea.frames).mem_iff] at frame
    have different : loaded.paddr ≠ page.paddr := fun same => fresh (same ▸ frame)
    have aligned := (PhysPage.frameAddr (agrees.furnished.linear maps here)).1.1
    have linear : Linear page.startVaddr :=
      sound.shaped.linear page (List.mem_of_getElem? (i := i) (List.getElem?_set_self inside))
    have aligned' := (PhysPage.frameAddr linear).1.1
    rw [bytes, Machine.fillFrame_outside]
    unfold PAGE_SIZE_4K
    omega

/-- At its own addresses the mapping gets the page, with the bytes that it could have. -/
theorem Faulted.loadedAt (faulted : Faulted fs s s' area i page rest) (tidy : Tidy s [])
    (here : va / 4096 = (area.vaddr + 4096 * i) / 4096) (maps : s.Maps va mapping)
    : mapping.slot = none
      ∧ s'.Maps va { mapping with slot := some page }
      ∧ mapping.Byte fs s.bytes va (s'.bytes (page.paddr + va % 4096)) := by
  obtain ⟨before, after, ⟨empty, -, -, bytes⟩⟩ := faulted
  have inside := (List.getElem?_eq_some_iff.mp empty).1
  have member : area ∈ s.ownedMem.values := before.mem_iff.mpr (List.mem_cons_self ..)
  have aligned := (tidy.placed area member).aligned
  have lower : area.vaddr ≤ va := by omega
  have upper : va < area.stop := by
    have : 4096 * (i + 1) ≤ 4096 * area.pages.length := Nat.mul_le_mul_left 4096 inside
    unfold MapArea.stop
    omega
  have index : (va - area.vaddr) / 4096 = i := by omega
  obtain rfl : mapping = area.mapping va := tidy.maps_unique maps ⟨area, member, lower, upper, rfl⟩
  have none : (area.mapping va).slot = none := by
    have found := MapArea.mapping_slot lower upper
    rw [index, empty] at found
    exact (Option.some.inj found).symm
  refine ⟨none, ⟨area.withPage i page, after.mem_iff.mpr (List.mem_cons_self ..), lower, ?_, ?_⟩,
    ?_⟩
  · simpa [MapArea.withPage, MapArea.stop] using upper
  · rw [MapArea.withPage_mapping inside, if_pos index]
  · have position : (area.mapping va).position
        = area.backend.map (·.forward (i * PAGE_SIZE_4K)) := by
      have distance : va - va % 4096 - area.vaddr = i * PAGE_SIZE_4K := by
        unfold PAGE_SIZE_4K
        omega
      simp only [MapArea.mapping, MapArea.position, distance]
    have offset : va % 4096 < PAGE_SIZE_4K := Nat.mod_lt _ (by decide)
    unfold Mapping.Byte
    rw [none, position]
    refine ⟨s.bytes (page.paddr + va % 4096), ?_⟩
    rw [bytes, Machine.fillFrame_inside offset]

end Pages

end MemorySet

end RCoreOS.Axmem
