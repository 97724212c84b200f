import RCoreOS.Axmem.AreaCloning
import RCoreOS.Axmem.SetOperations
import RCoreOS.Lib.Transition

/-! Memory sets whose page table shows their areas and attached segments, with frames that nobody
else uses. What they read depends on their own frames only, and what they write into their areas
changes those frames only. So sets that own different frames do not see the writes of each other.
-/

namespace RCoreOS.Axmem

open PageTable GenericPTE Outcome
open PageTable.Paging (SameTables)

def SharedMem.frames (mem : SharedMem) : List Nat :=
  (List.range mem.numPages).map fun i => mem.paddr + 4096 * i

theorem SharedMem.mem_frames {mem : SharedMem} {i : Nat} (inside : i < mem.numPages)
    : mem.paddr + 4096 * i ∈ mem.frames :=
  List.mem_map.mpr ⟨i, List.mem_range.mpr inside, rfl⟩

namespace Machine

variable {PTE σ : Type} [GenericPTE PTE] [GlobalAllocator σ]

/-- A write of one byte. One that the entry does not allow is a page fault and writes nothing. -/
def store (m : Machine PTE σ) (vaddr : Nat) (byte : UInt8) : Machine PTE σ :=
  match m.access vaddr { write := true } with
  | some paddr => m.writeBytes paddr [byte]
  | none => m

/-- The same page tables with other contents of memory. -/
def withBytes (m : Machine PTE σ) (bytes : Nat → UInt8) : Machine PTE σ :=
  { m with bytes }

variable [LawfulPTE PTE] {m : Machine PTE σ} {va : Nat} {flags want : MappingFlags}

omit [GlobalAllocator σ] in
/-- An access at a slot that is shown goes to its page. -/
theorem access_of_slot {slot : Option PhysPage} {paddr : Nat}
    (frame : ∀ page, slot = some page → FrameAddr page.paddr)
    (shown : SlotShown flags slot (m.view va)) (access : m.access va want = some paddr)
    : ∃ page, slot = some page ∧ paddr = page.paddr + va % 4096 := by
  obtain ⟨e, inView⟩ := shown.page
  obtain ⟨found, run, rfl, -⟩ := Paging.getEntryMut_of_page inView
  rw [Machine.access, run] at access
  dsimp only at access
  split at access
  · rename_i allowed
    cases access
    rw [inView] at shown
    cases slot with
    | some page =>
        have entry : m.entry found = newPage page.paddr flags false := (View.page.inj shown).1
        refine ⟨page, rfl, ?_⟩
        rw [entry, LawfulPTE.page_paddr _ _ (frame page rfl), alignOffset_page va .size4K]
        rfl
    | none =>
        obtain ⟨f, fault⟩ := shown
        have entry : m.entry found = newFaultPage f false := (View.page.inj fault).1
        rw [entry, LawfulPTE.fault_absent, Bool.false_and] at allowed
        cases allowed
  · cases access

end Machine

namespace MemorySet

variable {PTE σ : Type} [GenericPTE PTE] [GlobalAllocator σ]
variable {s s' : MemorySet PTE σ} {va : Nat} {area : MapArea}

/-- The frames of the loaded pages of all areas. -/
def ownFrames (s : MemorySet PTE σ) : List Nat :=
  s.ownedMem.values.flatMap MapArea.frames

/-- The frames that a set reads: those of its areas and of its segments. -/
def readFrames (s : MemorySet PTE σ) : List Nat :=
  s.ownFrames ++ s.attachedMem.flatMap fun entry => entry.2.2.frames

/-- The address lies in an area. -/
def Owns (s : MemorySet PTE σ) (va : Nat) : Prop :=
  ∃ area ∈ s.ownedMem.values, area.vaddr ≤ va ∧ va < area.stop

/-- The address lies in an area or in an attached segment. -/
def Reaches (s : MemorySet PTE σ) (va : Nat) : Prop :=
  s.Owns va ∨ ∃ entry ∈ s.attachedMem, entry.1 ≤ va ∧ va < entry.1 + entry.2.2.size

/-- Contents of memory that are the same in all frames that a set reads. -/
def SameRead (s : MemorySet PTE σ) (bytes bytes' : Nat → UInt8) : Prop :=
  ∀ f ∈ s.readFrames, ∀ i, i < 4096 → bytes (f + i) = bytes' (f + i)

/-- A page table maps a segment at its address, frame by frame, with its flags. -/
def ShowsSegment (s : Paging PTE σ) (addr : Nat) (flags : MappingFlags) (mem : SharedMem) : Prop :=
  ∀ i, i < mem.numPages
    → ∀ va,
      addr + 4096 * i ≤ va
      → va < addr + 4096 * (i + 1)
      → s.view va = .page (newPage (mem.paddr + 4096 * i) flags false) .size4K

variable [LawfulGlobalAllocator σ]

/-- A segment that is attached: its frames are in use, and neither page tables nor pages of the
areas.
-/
structure Attached (s : MemorySet PTE σ) (addr : Nat) (flags : MappingFlags) (mem : SharedMem)
    : Prop where
  aligned : addr % 4096 = 0
  shown : ShowsSegment s.toPaging addr flags mem
  used : ∀ f ∈ mem.frames, f ∈ s.toPaging.used
  apart : ∀ f ∈ mem.frames, f ∉ s.intrmTables ∧ f ∉ s.ownFrames

/-- The page table shows the areas and the attached segments, and every frame of a loaded page has
one owner.
-/
structure Intact (s : MemorySet PTE σ) : Prop where
  tables : s.toPaging.WellFormed True
  aligned : ∀ area ∈ s.ownedMem.values, area.vaddr % 4096 = 0
  below : ∀ area ∈ s.ownedMem.values, area.stop ≤ USIZE_RANGE
  shown : ∀ area ∈ s.ownedMem.values, Shown s.toPaging area
  framed : Framed s.toPaging s.ownFrames
  segments : ∀ entry ∈ s.attachedMem, s.Attached entry.1 entry.2.1 entry.2.2

/-- Sets whose areas agree with the page table are intact. -/
theorem Agrees.intact {kind : Nat → MappingFlags → Option MemBackend → Prop}
    (agrees : Agrees kind s [])
    : Intact s where
  tables := agrees.sound.laid.tables
  aligned area member := (agrees.sound.laid.shaped area member).aligned
  below area member := (agrees.sound.laid.shaped area member).below.trans (by decide)
  shown := agrees.sound.laid.shown
  framed := agrees.sound.framed
  segments := agrees.detached ▸ List.forall_mem_nil _

omit [GenericPTE PTE] [GlobalAllocator σ] [LawfulGlobalAllocator σ] in
theorem mem_ownFrames (member : area ∈ s.ownedMem.values) {f : Nat} (owned : f ∈ area.frames)
    : f ∈ s.ownFrames :=
  List.mem_flatMap.mpr ⟨area, member, owned⟩

/-- The frames that a set reads are in use. -/
theorem Intact.used (intact : Intact s) {f : Nat} (member : f ∈ s.readFrames)
    : f ∈ s.toPaging.used := by
  rcases List.mem_append.mp member with own | shared
  · exact intact.framed.owned f own
  · obtain ⟨entry, attached, isFrame⟩ := List.mem_flatMap.mp shared
    exact (intact.segments entry attached).used f isFrame

/-- A set stays intact while its page table grows. -/
theorem Intact.grows (intact : Intact s) {m : Machine PTE σ} (grows : Grows s.toMachine m)
    : Intact (s.withMachine m) where
  tables := grows.tables
  aligned := intact.aligned
  below := intact.below
  shown area member := grows.shown (intact.shown area member)
  framed := grows.framed intact.framed
  segments entry member := by
    have attached := intact.segments entry member
    refine ⟨attached.aligned, fun i inside va lower upper => ?_, fun f isFrame => ?_,
      fun f isFrame => ⟨?_, (attached.apart f isFrame).2⟩⟩
    · exact grows.pages (attached.shown i inside va lower upper)
    · exact grows.used f (attached.used f isFrame)
    · exact grows.not_table (attached.used f isFrame) (attached.apart f isFrame).1

/-- At an address of an area there is a page of the area or a fault page. -/
theorem Intact.slot (intact : Intact s) (owns : s.Owns va)
    : ∃ flags slot,
        SlotShown flags slot (s.view va)
        ∧ ∀ page, slot = some page → page.paddr ∈ s.ownFrames := by
  obtain ⟨area, member, lower, upper⟩ := owns
  obtain ⟨i, slot, found, lower', upper'⟩ := area.slot_of_mem lower upper
  refine ⟨area.flags, slot, intact.shown area member i slot found va lower' upper', ?_⟩
  rintro page rfl
  exact mem_ownFrames member (mem_slotFrames (List.mem_of_getElem? found))

/-- At an address of an attached segment there is the frame of the segment. -/
theorem Intact.segment (intact : Intact s) {entry : Nat × MappingFlags × SharedMem}
    (member : entry ∈ s.attachedMem) {i : Nat} (inside : i < entry.2.2.size)
    : ∃ f ∈ entry.2.2.frames,
        s.view (entry.1 + i) = .page (newPage f entry.2.1 false) .size4K
        ∧ f + (entry.1 + i) % 4096 = entry.2.2.paddr + i := by
  have attached := intact.segments entry member
  have aligned := attached.aligned
  have index : i / 4096 < entry.2.2.numPages := by
    unfold SharedMem.size PAGE_SIZE_4K at inside
    omega
  exact ⟨_, SharedMem.mem_frames index, attached.shown _ index _ (by omega) (by omega), by omega⟩

variable [LawfulPTE PTE]

/-- A segment whose frames are in use for nobody else is attached. -/
theorem Intact.attach (intact : Intact s) {mem : SharedMem} {addr : Nat} {flags : MappingFlags}
    (used : ∀ f ∈ mem.frames, f ∈ s.toPaging.used)
    (apart : ∀ f ∈ mem.frames, f ∉ s.intrmTables ∧ f ∉ s.ownFrames)
    (run : s.attachSharedMem mem addr flags = .ok s')
    : Grows s.toMachine s'.toMachine
      ∧ Intact s'
      ∧ s'.ownedMem = s.ownedMem
      ∧ s'.attachedMem = s.attachedMem ++ [(addr, flags, mem)] := by
  obtain ⟨m, mapped, run⟩ := bind_eq_ok.mp run
  cases run
  have grows := (Machine.mapRegion_grows intact.tables (.inl rfl) mapped).1
  have grown := intact.grows grows
  refine ⟨grows, ⟨grown.tables, grown.aligned, grown.below, grown.shown, grown.framed, ?_⟩, rfl,
    rfl⟩
  intro entry member
  rcases List.mem_append.mp member with old | new
  · have attached := grown.segments entry old
    exact ⟨attached.aligned, attached.shown, attached.used, attached.apart⟩
  · obtain rfl := List.mem_singleton.mp new
    obtain ⟨_, _, call, -⟩ := Machine.unwrap_eq_ok mapped
    refine ⟨(Paging.mapRegion_ok call).1, fun i inside va lower upper => ?_, fun f isFrame => ?_,
      fun f isFrame => ⟨?_, (apart f isFrame).2⟩⟩
    · dsimp only at inside lower upper ⊢
      have last : FrameAddr (mem.paddr + 4096 * (mem.numPages - 1)) :=
        frameAddr_of_used (used _ (SharedMem.mem_frames (by omega)))
      have word : mem.paddr + mem.size ≤ USIZE_RANGE := by
        have bound := last.2
        unfold SharedMem.size PAGE_SIZE_4K USIZE_RANGE
        omega
      refine Machine.mapRegion_pages intact.tables word mapped ?_ lower upper
      unfold SharedMem.size PAGE_SIZE_4K
      omega
    · exact grows.used f (used f isFrame)
    · exact grows.not_table (used f isFrame) (apart f isFrame).1

/-- Segments are attached one after the other, by induction on them. -/
theorem Intact.attach_all (intact : Intact s) {segments : List (Nat × MappingFlags × SharedMem)}
    (used : ∀ entry ∈ segments, ∀ f ∈ entry.2.2.frames, f ∈ s.toPaging.used)
    (apart : ∀ entry ∈ segments, ∀ f ∈ entry.2.2.frames, f ∉ s.intrmTables ∧ f ∉ s.ownFrames)
    (run : segments.foldlM
      (fun newMemory (addr, flags, mem) => newMemory.attachSharedMem mem addr flags) s = .ok s')
    : Grows s.toMachine s'.toMachine
      ∧ Intact s'
      ∧ s'.ownedMem = s.ownedMem
      ∧ s'.attachedMem = s.attachedMem ++ segments := by
  induction segments generalizing s with
  | nil =>
      cases run
      exact ⟨.refl intact.tables, intact, rfl, (List.append_nil _).symm⟩
  | cons entry segments ih =>
      obtain ⟨usedFirst, used⟩ := List.forall_mem_cons.mp used
      obtain ⟨apartFirst, apart⟩ := List.forall_mem_cons.mp apart
      obtain ⟨s₁, first, run⟩ := bind_eq_ok.mp run
      obtain ⟨grows, intact₁, areas, attached⟩ := intact.attach usedFirst apartFirst first
      have own : s₁.ownFrames = s.ownFrames := by rw [ownFrames, ownFrames, areas]
      obtain ⟨grows', intact', areas', attached'⟩ := ih intact₁
        (fun entry later f isFrame => grows.used f (used entry later f isFrame))
        (fun entry later f isFrame =>
          ⟨grows.not_table (used entry later f isFrame) (apart entry later f isFrame).1,
            own ▸ (apart entry later f isFrame).2⟩) run
      refine ⟨grows.trans grows', intact', areas'.trans areas, ?_⟩
      rw [attached', attached, List.append_assoc]
      rfl

/-- What a set reads depends on its own frames only. -/
theorem Intact.load_congr (intact : Intact s) (reaches : s.Reaches va) {m m' : Machine PTE σ}
    (view : m.view va = s.view va) (view' : m'.view va = s.view va)
    (same : s.SameRead m.bytes m'.bytes)
    : m.load va = m'.load va := by
  have within : va % 4096 < 4096 := Nat.mod_lt va (by decide)
  rcases reaches with owns | ⟨entry, member, lower, upper⟩
  · obtain ⟨flags, slot, shown, own⟩ := intact.slot owns
    have frame (page : PhysPage) (isPage : slot = some page) : FrameAddr page.paddr :=
      frameAddr_of_used (intact.framed.owned _ (own page isPage))
    rw [Machine.load_of_slot frame (view.symm ▸ shown),
      Machine.load_of_slot frame (view'.symm ▸ shown)]
    refine Option.bind_congr fun page isPage => ?_
    rw [same _ (List.mem_append_left _ (own page isPage)) _ within]
  · obtain ⟨i, rfl⟩ : ∃ i, va = entry.1 + i := ⟨va - entry.1, by omega⟩
    obtain ⟨f, isFrame, shown, -⟩ := intact.segment member (i := i) (by omega)
    have read : f ∈ s.readFrames :=
      List.mem_append_right _ (List.mem_flatMap.mpr ⟨entry, member, isFrame⟩)
    have frame : FrameAddr f := frameAddr_of_used (intact.used read)
    rw [Machine.load_of_page frame (view.trans shown),
      Machine.load_of_page frame (view'.trans shown), same f read _ within]

/-- A write at an address of an area changes bytes of the frames of the areas only. -/
theorem Intact.store_outside (intact : Intact s) (owns : s.Owns va) (bytes : Nat → UInt8)
    (byte : UInt8) {f i : Nat} (frame : FrameAddr f) (other : f ∉ s.ownFrames) (inside : i < 4096)
    : ((s.withBytes bytes).store va byte).bytes (f + i) = bytes (f + i) := by
  unfold Machine.store
  split
  · rename_i paddr access
    obtain ⟨flags, slot, shown, own⟩ := intact.slot owns
    have isFrame (page : PhysPage) (isPage : slot = some page) : FrameAddr page.paddr :=
      frameAddr_of_used (intact.framed.owned _ (own page isPage))
    obtain ⟨page, isPage, rfl⟩ := Machine.access_of_slot isFrame shown access
    have apart := frame_apart frame (isFrame page isPage)
      (fun same => other (same ▸ own page isPage)) inside
    have offset : va % 4096 < 4096 := Nat.mod_lt va (by decide)
    rw [writeBytes_at]
    split
    · rw [List.getElem?_eq_none (by rw [List.length_singleton]; omega)]
      rfl
    · rfl
  · rfl

omit [GlobalAllocator σ] [LawfulGlobalAllocator σ] [LawfulPTE PTE] in
/-- A write changes the same byte whatever is in memory. -/
theorem store_congr (s : MemorySet PTE σ) (va : Nat) (byte : UInt8) {bytes bytes' : Nat → UInt8}
    {a : Nat} (same : bytes' a = bytes a)
    : ((s.withBytes bytes').store va byte).bytes a
      = ((s.withBytes bytes).store va byte).bytes a := by
  have access (bytes : Nat → UInt8)
      : (s.withBytes bytes).access va { write := true } = s.access va { write := true } :=
    rfl
  unfold Machine.store
  rw [access, access]
  split
  · rw [writeBytes_at, writeBytes_at]
    simp only [Machine.withBytes, same]
  · exact same

-----------------------------------------------------------------------------------------
-- Sets in one memory
-----------------------------------------------------------------------------------------

/-- A write of one byte by one of several memory sets. -/
structure Write (ι : Type) where
  set : ι
  vaddr : Nat
  byte : UInt8

variable {ι : Type} {sets : ι → MemorySet PTE σ}

/-- The contents of memory after a write. -/
def written (sets : ι → MemorySet PTE σ) (bytes : Nat → UInt8) (w : Write ι) : Nat → UInt8 :=
  (((sets w.set).withBytes bytes).store w.vaddr w.byte).bytes

/-- What one set owns no other set reads. -/
def Isolated (sets : ι → MemorySet PTE σ) : Prop :=
  ∀ i j, i ≠ j → ∀ f ∈ (sets i).ownFrames, f ∉ (sets j).readFrames

/-- Sets that are isolated write into their areas in any order: what a set reads afterwards is
what it would read after its own writes alone.
-/
theorem Isolated.load_writes [DecidableEq ι] (isolated : Isolated sets)
    (intact : ∀ i, Intact (sets i)) {writes : List (Write ι)}
    (owned : ∀ w ∈ writes, (sets w.set).Owns w.vaddr) {i : ι} (reaches : (sets i).Reaches va)
    (bytes : Nat → UInt8)
    : ((sets i).withBytes (writes.foldl (written sets) bytes)).load va
      = ((sets i).withBytes
          ((writes.filter fun w => w.set = i).foldl (written sets) bytes)).load va := by
  have start : (sets i).SameRead bytes bytes := fun _ _ _ _ => rfl
  refine (intact i).load_congr reaches rfl rfl (Transition.foldl_filter _ ?_ ?_ start)
  · intro w _ _ bytes' bytes same f read o inside
    exact store_congr _ _ _ (same f read o inside)
  · intro w member others bytes' bytes same f read o inside
    have apart : f ∉ (sets w.set).ownFrames := fun own =>
      isolated _ _ (of_decide_eq_false others) f own read
    rw [written, (intact w.set).store_outside (owned w member) _ _
      (frameAddr_of_used ((intact i).used read)) apart inside]
    exact same f read o inside

end MemorySet

end RCoreOS.Axmem
