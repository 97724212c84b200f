import RCoreOS.Axmem.IntactSet
import RCoreOS.Axmem.Representation
import RCoreOS.Axmem.SharedSegments

/-! Isolation of a process and its fork. The clone of an intact memory set reads the same bytes at
the same addresses, from frames of its own, and neither set sees what the other writes into its
areas later.
-/

namespace RCoreOS.Axmem

open PageTable GenericPTE Outcome
open PageTable.Paging (SameTables)
open MemorySet (Intact)
open List (Forall₂)

section Clone

variable {PTE σ : Type} [GenericPTE PTE] [LawfulPTE PTE] [GlobalAllocator σ]
variable [LawfulGlobalAllocator σ]
variable {s child : MemorySet PTE σ} {m m' m₀ : Machine PTE σ} {p : Platform}

/-- The kernel regions are mapped next to what is in use. -/
theorem Machine.mapMemRegions_grows (tables : m.toPaging.WellFormed True)
    (run : Machine.mapMemRegions p m = .ok m')
    : Grows m m' := by
  have mapped : Returns (Grows m) (Machine.mapMemRegions p m) := by
    refine Ends.imp (Ends.foldlM
      (fun (rest : List MemRegion) m' => (∀ r ∈ rest, r.flags.read = true) ∧ Grows m m') ?_
      ⟨fun r => memoryRegions_read, .refl tables⟩) fun m' holds => holds.2
    rintro r rest m₁ ⟨readable, grows⟩
    obtain ⟨first, others⟩ := List.forall_mem_cons.mp readable
    refine (Returns.self (m₁.mapMemRegion r)).imp fun m₂ mapped => ⟨others, ?_⟩
    exact grows.trans
      (Machine.mapRegion_grows grows.tables (.inr (MappingFlags.isLeaf_of_read first)) mapped).1
  exact mapped.of_ok run

-----------------------------------------------------------------------------------------
-- The set that is cloned
-----------------------------------------------------------------------------------------

/-- A machine with a page table of its own in the memory of a set, which is as the set left it. -/
structure Beside (s : MemorySet PTE σ) (m : Machine PTE σ) : Prop where
  tables : m.toPaging.WellFormed True
  used : ∀ f ∈ s.toPaging.used, f ∈ m.toPaging.used
  fresh : ∀ f ∈ m.intrmTables, f ∉ s.toPaging.used
  entries : ∀ f ∈ s.toPaging.used, m.frames f = s.frames f
  bytes : SameBytes s.toMachine m

/-- A new page table is one. -/
theorem beside_tryNew {table : PageTable64} {memory : PhysMemory PTE σ}
    (created : PageTable64.tryNew s.toPhysMemory = (.ok table, memory))
    : Beside s { toPageTable64 := table, toPhysMemory := memory, bytes := s.bytes } := by
  have new := Paging.tryNew_ok True created
  refine ⟨new.wellFormed, fun f old => (new.used f).mpr (.inl old), ?_, fun f old => ?_,
    fun _ _ _ _ => rfl⟩
  · dsimp only
    rw [new.single]
    exact List.forall_mem_singleton.mpr new.fresh
  · exact new.frames f fun same => new.fresh (same ▸ old)

omit [LawfulPTE PTE] in
theorem Beside.grows (beside : Beside s m) (grows : Grows m m') : Beside s m' where
  tables := grows.tables
  used f old := grows.used f (beside.used f old)
  fresh f table old :=
    grows.not_table (beside.used f old) (fun isTable => beside.fresh f isTable old) table
  entries f old :=
    (grows.entries f (beside.used f old) fun isTable => beside.fresh f isTable old).trans
      (beside.entries f old)
  bytes f old i inside :=
    (grows.bytes f (beside.used f old) i inside).trans (beside.bytes f old i inside)

omit [LawfulPTE PTE] in
/-- Seen from the machine, the set has its page table. -/
theorem Beside.sameTables (beside : Beside s m) (tables : s.toPaging.WellFormed True)
    : SameTables s.toPaging (m.withTable s.toPageTable64).toPaging where
  object := rfl
  frames f table := beside.entries f (tables_used tables f table)
  owned f table := beside.used f (tables_used tables f table)

/-- The set stays intact. -/
theorem Beside.intact (beside : Beside s m) (intact : Intact s)
    : Intact (s.withMachine (m.withTable s.toPageTable64)) := by
  have same := beside.sameTables intact.tables
  have view (va : Nat) : (m.withTable s.toPageTable64).toPaging.view va = s.view va :=
    same.view intact.tables va
  refine ⟨same.wellFormed intact.tables, intact.aligned, intact.below, ?_, ?_, ?_⟩
  · exact fun area member => (intact.shown area member).of_view_eq fun va _ _ => view va
  · exact ⟨intact.framed.nodup, fun f own => beside.used f (intact.framed.owned f own),
      intact.framed.apart⟩
  · intro entry member
    have attached := intact.segments entry member
    refine ⟨attached.aligned, fun i inside va lower upper => ?_,
      fun f isFrame => beside.used f (attached.used f isFrame), attached.apart⟩
    exact (view va).trans (attached.shown i inside va lower upper)

/-- The set reads what it read before. -/
theorem Beside.load (beside : Beside s m) (intact : Intact s) {va : Nat} (reaches : s.Reaches va)
    : (m.withTable s.toPageTable64).load va = s.load va :=
  intact.load_congr reaches ((beside.sameTables intact.tables).view intact.tables va) rfl
    fun f read => beside.bytes f (intact.used read)

-----------------------------------------------------------------------------------------
-- The areas of the clone
-----------------------------------------------------------------------------------------

/-- The copy of an entry of the map of areas. -/
structure EntryCopy (m : Machine PTE σ) (entry copy : Nat × MapArea) : Prop where
  key : copy.1 = entry.1
  area : AreaCopy m entry.2 copy.2
  used : ∀ f ∈ entry.2.frames ++ copy.2.frames, f ∈ m.toPaging.used

omit [LawfulPTE PTE] in
theorem EntryCopy.kept {entry copy : Nat × MapArea} (isCopy : EntryCopy m entry copy)
    (grows : Grows m m')
    : EntryCopy m' entry copy := by
  obtain ⟨used, used'⟩ := List.forall_mem_append.mp isCopy.used
  exact ⟨isCopy.key, isCopy.area.kept grows used used', fun f member =>
    grows.used f (isCopy.used f member)⟩

/-- The copies of some entries, with frames that were not in use in the first machine. -/
structure Cloned (m₀ m : Machine PTE σ) (entries : List (Nat × MapArea))
    (ownedMem : BTreeMap Nat MapArea)
    : Prop where
  grows : Grows m₀ m
  copies : Forall₂ (EntryCopy m) entries ownedMem.entries
  taken : Taken m₀ m (ownedMem.values.flatMap MapArea.frames)

omit [LawfulPTE PTE] in
theorem Cloned.later {entries : List (Nat × MapArea)} {ownedMem : BTreeMap Nat MapArea}
    (cloned : Cloned m₀ m entries ownedMem) (grows : Grows m m')
    : Cloned m₀ m' entries ownedMem where
  grows := cloned.grows.trans grows
  copies := cloned.copies.imp fun _ _ isCopy => isCopy.kept grows
  taken := cloned.taken.later grows

omit [LawfulPTE PTE] in
/-- The copy of an entry behind the others joins their copies. -/
theorem Cloned.insert {entries : List (Nat × MapArea)} {ownedMem : BTreeMap Nat MapArea}
    (cloned : Cloned m₀ m entries ownedMem) {vaddr : Nat} {area new : MapArea}
    (behind : ∀ entry ∈ entries, entry.1 < vaddr) (used : ∀ f ∈ area.frames, f ∈ m.toPaging.used)
    (grows : Grows m m') (taken : Taken m m' new.frames) (isCopy : AreaCopy m' area new)
    : Cloned m₀ m' (entries ++ [(vaddr, area)]) (ownedMem.insert vaddr new).2 := by
  have below : ∀ copy ∈ ownedMem.entries, copy.1 < vaddr := by
    intro copy member
    obtain ⟨entry, isEntry, copied⟩ := cloned.copies.exists_left member
    exact copied.key ▸ behind entry isEntry
  have added : (ownedMem.insert vaddr new).2.entries = ownedMem.entries ++ [(vaddr, new)] :=
    congrArg Prod.snd (BTreeMap.insertEntry_last vaddr new below)
  have kept := cloned.later grows
  refine ⟨kept.grows, ?_, ?_⟩
  · rw [added]
    refine (List.forall₂_append_iff kept.copies.length_eq).mpr
      ⟨kept.copies, .cons ⟨rfl, isCopy, ?_⟩ .nil⟩
    exact List.forall_mem_append.mpr
      ⟨fun f member => grows.used f (used f member), taken.framed.owned⟩
  · rw [BTreeMap.values, added, List.map_append, List.flatMap_append]
    have joined := cloned.taken.append cloned.grows taken grows
    rwa [List.map_singleton, List.flatMap_singleton]

/-- The areas that are left are cloned, by induction on them. -/
theorem cloneAreas_copies (intact : Intact s) (beside : Beside s m₀)
    {left rest : List (Nat × MapArea)} {ownedMem all : BTreeMap Nat MapArea}
    (split : s.ownedMem.entries = left ++ rest) (cloned : Cloned m₀ m left ownedMem)
    (run : MemorySet.cloneAreas s.toPageTable64 ownedMem rest m = .ok (.ok all, m'))
    : Cloned m₀ m' s.ownedMem.entries all := by
  induction rest generalizing left ownedMem m with
  | nil =>
      cases run
      rw [split, List.append_nil]
      exact cloned
  | cons entry rest ih =>
      obtain ⟨vaddr, area⟩ := entry
      obtain ⟨⟨result, m₁⟩, first, run⟩ := bind_eq_ok.mp run
      cases result with
      | error e => cases run
      | ok new =>
          have isEntry : (vaddr, area) ∈ s.ownedMem.entries := by
            rw [split]
            exact List.mem_append_right _ (List.mem_cons_self ..)
          have member : area ∈ s.ownedMem.values := List.mem_map_of_mem isEntry
          have now := beside.grows cloned.grows
          have used (f : Nat) (own : f ∈ area.frames) : f ∈ m.toPaging.used :=
            now.used f (intact.framed.owned f (MemorySet.mem_ownFrames member own))
          have behind := (List.pairwise_append.mp (split ▸ s.ownedMem.sorted)).2.2
          obtain ⟨grows, taken, isCopy⟩ := cloneAlloc_copies now.tables
            (intact.aligned area member) (intact.below area member)
            ((now.intact intact).shown area member) used first
          have next := cloned.insert (fun entry before => behind entry before _
            (List.mem_cons_self ..)) used grows taken isCopy
          exact ih (by rw [split, List.append_assoc, List.singleton_append]) next run

omit [LawfulPTE PTE] in
/-- Every area of the clone is the copy of one. -/
theorem Cloned.origin {entries : List (Nat × MapArea)} {ownedMem : BTreeMap Nat MapArea}
    (cloned : Cloned m₀ m entries ownedMem) {new : MapArea} (member : new ∈ ownedMem.values)
    : ∃ area ∈ entries.map Prod.snd, AreaCopy m area new := by
  obtain ⟨copy, isCopy, rfl⟩ := List.mem_map.mp member
  obtain ⟨entry, isEntry, copied⟩ := cloned.copies.exists_left isCopy
  exact ⟨entry.2, List.mem_map_of_mem isEntry, copied.area⟩

omit [LawfulPTE PTE] in
/-- A clone of all areas is intact. -/
theorem Cloned.intact (intact : Intact s)
    (cloned : Cloned m₀ child.toMachine s.ownedMem.entries child.ownedMem)
    (detached : child.attachedMem = [])
    : Intact child where
  tables := cloned.grows.tables
  aligned new member := by
    obtain ⟨area, isArea, copied⟩ := cloned.origin member
    exact copied.vaddr ▸ intact.aligned area isArea
  below new member := by
    obtain ⟨area, isArea, copied⟩ := cloned.origin member
    rw [MapArea.stop, copied.vaddr, ← copied.slots.length_eq]
    exact intact.below area isArea
  shown new member := by
    obtain ⟨area, isArea, copied⟩ := cloned.origin member
    exact copied.shown
  framed := cloned.taken.framed
  segments := detached ▸ List.forall_mem_nil _

end Clone

-----------------------------------------------------------------------------------------
-- The two sets after the fork
-----------------------------------------------------------------------------------------

/-- The sets after a fork. -/
inductive Side where
  | parent
  | child
deriving DecidableEq, Repr

/-- The areas have the same addresses, sizes and flags, and the same slots are loaded. -/
structure SameShape (entry copy : Nat × MapArea) : Prop where
  key : copy.1 = entry.1
  vaddr : copy.2.vaddr = entry.2.vaddr
  size : copy.2.size = entry.2.size
  flags : copy.2.flags = entry.2.flags
  loaded : copy.2.pages.map Option.isSome = entry.2.pages.map Option.isSome

/-- The copy of an entry has its shape. -/
theorem EntryCopy.sameShape {PTE σ : Type} [GenericPTE PTE] [GlobalAllocator σ]
    [LawfulGlobalAllocator σ] {m : Machine PTE σ} {entry copy : Nat × MapArea}
    (isCopy : EntryCopy m entry copy)
    : SameShape entry copy where
  key := isCopy.key
  vaddr := isCopy.area.vaddr
  size := by rw [MapArea.size, MapArea.size, isCopy.area.slots.length_eq]
  flags := isCopy.area.flags
  loaded := isCopy.area.loaded

namespace MemorySet

section Fork

variable {PTE σ : Type} [GenericPTE PTE] [GlobalAllocator σ]

/-- The sets after a fork that left the machine `m` to the parent. -/
def forked (s child : MemorySet PTE σ) (m : Machine PTE σ) : Side → MemorySet PTE σ
  | .parent => s.withMachine m
  | .child => child

/-- The child has the areas and segments of the parent, with the same contents. The frames of its
areas are its own, so writes into areas are seen by the set only that makes them, in whatever
order the two sets make them.
-/
structure Forked (s child : MemorySet PTE σ) (m : Machine PTE σ) : Prop where
  memory : m.toPhysMemory = child.toPhysMemory ∧ m.bytes = child.bytes
  areas : Forall₂ SameShape s.ownedMem.entries child.ownedMem.entries
  attached : child.attachedMem = s.attachedMem
  kept : ∀ va, s.Reaches va → m.load va = s.load va
  reads : ∀ va, s.Owns va → child.load va = m.load va
  segments
    : ∀ entry ∈ s.attachedMem, ∀ i, i < entry.2.2.size
      → m.query (entry.1 + i) = .ok (entry.2.2.paddr + i, entry.2.1.access, .size4K)
        ∧ child.query (entry.1 + i) = .ok (entry.2.2.paddr + i, entry.2.1.access, .size4K)
  apart : ∀ f ∈ s.ownFrames, f ∉ child.ownFrames
  isolated
    : ∀ writes : List (Write Side),
        (∀ w ∈ writes, (forked s child m w.set).Owns w.vaddr)
        → ∀ side va,
          (forked s child m side).Reaches va
          → ∀ bytes,
            ((forked s child m side).withBytes
                (writes.foldl (written (forked s child m)) bytes)).load va
              = ((forked s child m side).withBytes
                  ((writes.filter fun w => w.set = side).foldl (written (forked s child m))
                    bytes)).load va

variable [LawfulPTE PTE] [LawfulGlobalAllocator σ] {s child : MemorySet PTE σ} {m : Machine PTE σ}

/-- An attached segment is found at its address with its flags. -/
theorem Intact.query_segment (intact : Intact s) {entry : Nat × MappingFlags × SharedMem}
    (member : entry ∈ s.attachedMem) {i : Nat} (inside : i < entry.2.2.size)
    : s.query (entry.1 + i) = .ok (entry.2.2.paddr + i, entry.2.1.access, .size4K) := by
  obtain ⟨f, isFrame, shown, offset⟩ := intact.segment member inside
  have frame : FrameAddr f := frameAddr_of_used ((intact.segments entry member).used f isFrame)
  rw [Paging.query_eq_view, shown, View.report, LawfulPTE.page_paddr _ _ frame,
    LawfulPTE.page_flags, alignOffset_page _ .size4K, ← offset]
  rfl

omit [LawfulPTE PTE] in
/-- Sets are isolated when the areas of the child have frames that the parent does not read. -/
theorem Intact.isolated_forked (intact : Intact s) (attached : child.attachedMem = s.attachedMem)
    (fresh : ∀ f ∈ child.ownFrames, f ∉ s.readFrames)
    : Isolated (forked s child m) := by
  rintro (- | -) (- | -) ne f own
  · exact absurd rfl ne
  · intro read
    rcases List.mem_append.mp read with childOwn | shared
    · exact fresh f childOwn (List.mem_append_left _ own)
    · obtain ⟨entry, member, isFrame⟩ := List.mem_flatMap.mp shared
      exact ((intact.segments entry (attached ▸ member)).apart f isFrame).2 own
  · exact fresh f own
  · exact absurd rfl ne

/-- A shared memory that is created has frames of its own, and can be attached. -/
theorem Intact.attach_created (intact : Intact s) {request : CreateRequest} {mem : SharedSegment}
    {allocator : σ} (created : request.tryNew s.allocator = (.ok mem, allocator)) {addr : Nat}
    {flags : MappingFlags}
    (run
      : (s.withMachine (s.toMachine.withAllocator allocator)).attachSharedMem mem.toSharedMem
          addr flags = .ok child)
    : Intact child := by
  unfold CreateRequest.tryNew at created
  split at created
  · cases created
  rename_i vaddr allocator' alloc
  cases created
  obtain ⟨fresh, used⟩ := LawfulGlobalAllocator.alloc_ok alloc
  have isNew {f : Nat} (isFrame : f ∈ (request.segment vaddr).frames)
      : ∃ i, i < request.numPages ∧ f = virtToPhys (vaddr + i * 4096) := by
    obtain ⟨i, inside, rfl⟩ := List.mem_map.mp isFrame
    have inside : i < request.numPages := List.mem_range.mp inside
    have first := (fresh 0 (by omega)).1
    rw [Nat.zero_mul, Nat.add_zero] at first
    refine ⟨i, inside, ?_⟩
    rw [Nat.mul_comm]
    exact (paddr_behind first (fresh i inside).1).symm
  have unused {f : Nat} (isFrame : f ∈ (request.segment vaddr).frames) : f ∉ s.toPaging.used := by
    obtain ⟨i, inside, same⟩ := isNew isFrame
    exact same ▸ (fresh i inside).2
  have same : SameTables s.toPaging (s.toMachine.withAllocator allocator).toPaging :=
    ⟨rfl, fun _ _ => rfl, fun f table => (used f).mpr (.inl (tables_used intact.tables f table))⟩
  have grows : Grows s.toMachine (s.toMachine.withAllocator allocator) :=
    grows_of_sameTables intact.tables same (fun f old => (used f).mpr (.inl old)) rfl
      fun _ _ _ _ => rfl
  refine ((intact.grows grows).attach (fun f isFrame => (used f).mpr (.inr (isNew isFrame)))
    (fun f isFrame => ⟨fun table => ?_, fun own => ?_⟩) run).2.1
  · exact unused isFrame (tables_used intact.tables f table)
  · exact unused isFrame (intact.framed.owned f own)

/-- A clone is made of copies of the areas and of the attached segments, in a machine in which the
set that is cloned is as it was.
-/
theorem cloneOrErr_clones {p : Platform} (intact : Intact s)
    (run : s.cloneOrErr p s.toPageTable64 = .ok (.ok child, m))
    : ∃ m₀,
        Beside s m₀
        ∧ Cloned m₀ child.toMachine s.ownedMem.entries child.ownedMem
        ∧ Intact child
        ∧ child.attachedMem = s.attachedMem
        ∧ m = child.withTable s.toPageTable64 := by
  unfold cloneOrErr at run
  split at run
  · cases run
  rename_i table memory created
  obtain ⟨m₀, kernel, run⟩ := bind_eq_ok.mp run
  obtain ⟨⟨result, m₁⟩, areas, run⟩ := bind_eq_ok.mp run
  cases result with
  | error e => cases run
  | ok ownedMem =>
      obtain ⟨child, segments, run⟩ := bind_eq_ok.mp run
      cases run
      have new := beside_tryNew created
      have beside := new.grows (Machine.mapMemRegions_grows new.tables kernel)
      have cloned := cloneAreas_copies intact beside rfl ⟨.refl beside.tables, .nil, .nil⟩ areas
      have shared (entry : Nat × MappingFlags × SharedMem) (member : entry ∈ s.attachedMem)
          (f : Nat) (isFrame : f ∈ entry.2.2.frames) : f ∈ s.toPaging.used :=
        (intact.segments entry member).used f isFrame
      have beside' := beside.grows cloned.grows
      have detached : Intact (MemorySet.mk m₁ ownedMem s.privateMem []) := cloned.intact intact rfl
      obtain ⟨grows, intactChild, same, attached⟩ := detached.attach_all
        (fun entry member f isFrame => beside'.used f (shared entry member f isFrame))
        (fun entry member f isFrame =>
          ⟨fun table => beside'.fresh f table (shared entry member f isFrame), fun own =>
            cloned.taken.unused f own (beside.used f (shared entry member f isFrame))⟩) segments
      exact ⟨m₀, beside, same ▸ cloned.later grows, intactChild, attached, rfl⟩

/-- A process and its fork are isolated: the child that is cloned from an intact memory set has
the areas and segments of its parent with the same contents, in frames of its own.
-/
theorem cloneOrErr_isolates [PresentByFlags PTE] {p : Platform} (intact : Intact s)
    (run : s.cloneOrErr p s.toPageTable64 = .ok (.ok child, m))
    : Forked s child m := by
  obtain ⟨m₀, beside, cloned, intactChild, attached, rfl⟩ := cloneOrErr_clones intact run
  have beside' := beside.grows cloned.grows
  have parent := beside'.intact intact
  have fresh (f : Nat) (own : f ∈ child.ownFrames) : f ∉ s.toPaging.used :=
    fun old => cloned.taken.unused f own (beside.used f old)
  have isolated : Isolated (forked s child (child.withTable s.toPageTable64)) :=
    intact.isolated_forked attached fun f own read => fresh f own (intact.used read)
  refine ⟨⟨rfl, rfl⟩, cloned.copies.imp fun _ _ isCopy => isCopy.sameShape, attached,
    fun va => beside'.load intact, ?_, fun entry member i inside => ⟨?_, ?_⟩, ?_, ?_⟩
  · rintro va ⟨area, member, lower, upper⟩
    obtain ⟨entry, isEntry, rfl⟩ := List.mem_map.mp member
    obtain ⟨copy, -, isCopy⟩ := cloned.copies.exists_right isEntry
    obtain ⟨used, used'⟩ := List.forall_mem_append.mp isCopy.used
    exact isCopy.area.load used used' (parent.shown _ member) rfl lower upper
  · exact parent.query_segment member inside
  · exact intactChild.query_segment (attached ▸ member) inside
  · exact fun f own childOwn => fresh f childOwn (intact.framed.owned f own)
  · intro writes owned side va reaches bytes
    refine isolated.load_writes (fun side => ?_) owned reaches bytes
    cases side with
    | parent => exact parent
    | child => exact intactChild

end Fork

/-- A small board with a page for each part of the kernel. -/
def board : Platform where
  stext := 0xffff_ffc0_8020_0000
  etext := 0xffff_ffc0_8020_1000
  srodata := 0xffff_ffc0_8020_1000
  erodata := 0xffff_ffc0_8020_2000
  sdata := 0xffff_ffc0_8020_2000
  edata := 0xffff_ffc0_8020_3000
  bootStack := 0xffff_ffc0_8020_3000
  bootStackTop := 0xffff_ffc0_8020_4000
  sbss := 0xffff_ffc0_8020_4000
  ebss := 0xffff_ffc0_8020_5000
  ekernel := 0xffff_ffc0_8020_5000
  physMemoryEnd := 0x8020_6000
  mmioRegions := [(0x1000_1000, 0x1000)]
  monolithic := false

/-- Three pages are mapped, and the middle one is loaded. -/
def parentRequests : List Request :=
  [.mmap 0x1000 0x3000 { read := true, write := true, user := true } true none,
    .handlePageFault 0x2345 { write := true }]

/-- A shared memory of two pages. -/
def sharedRequest : CreateRequest where
  key := 7
  size := 0x1800
  pid := 1
  uid := 0
  gid := 0
  mode := 0o600
  currentTime := 0
  isI32 := by
    unfold IsI32
    omega

/-- A process with an area and an attached segment. -/
def parentRun : Except Crash (MemorySet Rv64PTE PagePool) := do
  let s ← newEmpty blank (fun _ => 0)
  let s ← parentRequests.foldlM (serve noFiles) s
  match sharedRequest.tryNew s.allocator with
  | (.error _, _) => .error .outOfMemory
  | (.ok mem, allocator) =>
      (s.withMachine (s.toMachine.withAllocator allocator)).attachSharedMem mem.toSharedMem 0x10000
        { read := true, write := true, user := true }

/-- What the process has before it forks. -/
theorem parentRun_intact {s : MemorySet Rv64PTE PagePool} (run : parentRun = .ok s) : Intact s := by
  obtain ⟨start, created, run⟩ := bind_eq_ok.mp run
  obtain ⟨t, requests, run⟩ := bind_eq_ok.mp run
  have agrees := agrees_reachable (reachable_requests (fun _ => rfl)
    (by simp [parentRequests, Request.Allowed, MemBackend.bounded_none]) (.start ⟨_, _, created⟩)
    requests)
  split at run
  · cases run
  · rename_i mem allocator shared
    exact agrees.intact.attach_created shared run

/-- Witness: the loaded page is copied, the others are fault pages again, and the segment is
attached at its address.
-/
theorem cloneOrErr_isolates_shared
    : ∃ s child m,
        parentRun = .ok s
        ∧ s.cloneOrErr board s.toPageTable64 = .ok (.ok child, m)
        ∧ child.ownedMem.entries.map (fun entry => (entry.1, entry.2.pages.map Option.isSome))
          = [(0x1000, [false, true, false])]
        ∧ child.attachedMem.map (fun entry => (entry.1, entry.2.2.numPages)) = [(0x10000, 2)]
        ∧ Forked s child m := by
  have shape : (parentRun.bind fun s => (s.cloneOrErr board s.toPageTable64).map fun r =>
      r.1.toOption.map fun child =>
        (child.ownedMem.entries.map fun entry => (entry.1, entry.2.pages.map Option.isSome),
          child.attachedMem.map fun entry => (entry.1, entry.2.2.numPages)))
      = .ok (some ([(0x1000, [false, true, false])], [(0x10000, 2)])) := by
    decide +kernel
  obtain ⟨s, parent, shape⟩ := bind_eq_ok.mp shape
  obtain ⟨⟨result, m⟩, run, shape⟩ := map_eq_ok.mp shape
  cases result with
  | error e => cases shape
  | ok child =>
      obtain ⟨areas, attached⟩ := Prod.ext_iff.mp (Option.some.inj shape)
      exact ⟨s, child, m, parent, run, areas, attached,
        cloneOrErr_isolates (parentRun_intact parent) run⟩

end MemorySet

end RCoreOS.Axmem
