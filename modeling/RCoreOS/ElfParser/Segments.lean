import RCoreOS.Axmem.RegionData
import RCoreOS.Axmem.Representation
import RCoreOS.ElfParser.Relocation

/-! The `LOAD` segments of an ELF file, and the memory set that they are loaded into. A segment
starts with the page of its first byte, so what is before that byte in the file comes with it.
-/

namespace RCoreOS.ElfParser

open PageTable GenericPTE Outcome Axmem
open Axmem.MemorySet (Agrees HasRegion Created Step)
open Transition (Reachable)

-----------------------------------------------------------------------------------------
-- The parsed file
-----------------------------------------------------------------------------------------

/-- What the loader reads of a program header. -/
structure LoadHeader extends ProgramHeader where
  offset : Usize
  fileSize : Usize
  memSize : Usize
  isRead : Bool
  isWrite : Bool
  isExecute : Bool
deriving DecidableEq, Repr

/-- An ELF file with its bytes, of which there are not more than addresses. -/
structure LoadFile where
  magic : List UInt8
  entryPoint : Usize
  programHeaders : List LoadHeader
  sections : List (String × SectionData)
  input : List UInt8
  bounded : input.length < USIZE_RANGE

structure ELFSegment where
  vaddr : Nat
  size : Nat
  flags : MappingFlags
  data : Option (List UInt8)
deriving DecidableEq, Repr

inductive SegmentPanic where
  | invalidElf
  | noBaseAddr
  | misaligned
  | sliceOutOfRange
deriving DecidableEq, Repr

/-- The flags of the pages of a segment. -/
def LoadHeader.mappingFlags (ph : LoadHeader) : MappingFlags where
  user := true
  read := ph.isRead
  write := ph.isWrite
  execute := ph.isExecute

/-- The segment of a `LOAD` header, which may not start at a page. -/
def LoadHeader.segment (baseAddr : Usize) (input : List UInt8) (ph : LoadHeader)
    : Except SegmentPanic ELFSegment :=
  let startVa := (ph.virtualAddr + baseAddr).toNat
  let endVa := (ph.virtualAddr + ph.memSize + baseAddr).toNat
  let startOffset := ph.offset.toNat
  let endOffset := (ph.offset + ph.fileSize).toNat
  if startVa % PAGE_SIZE_4K ≠ startOffset % PAGE_SIZE_4K then .error .misaligned
  else
    let frontPad := startVa % PAGE_SIZE_4K
    let startVa := startVa - frontPad
    let startOffset := startOffset - frontPad
    if startOffset ≤ endOffset ∧ endOffset ≤ input.length then .ok {
      vaddr := startVa
      size := wrapSub endVa startVa
      flags := ph.mappingFlags
      data := some ((input.take endOffset).drop startOffset) }
    else .error .sliceOutOfRange

namespace LoadFile

/-- The part of the file that the relocation pairs are made of. -/
def toElfFile (elf : LoadFile) : ElfFile where
  magic := elf.magic
  programHeaders := elf.programHeaders.map LoadHeader.toProgramHeader
  sections := elf.sections

/-- The headers of the segments to load. -/
def loads (elf : LoadFile) : List LoadHeader :=
  elf.programHeaders.filter fun ph => ph.isLoad

def getElfSegments (elf : LoadFile) (elfBaseAddr : Option Usize)
    : Except SegmentPanic (List ELFSegment) :=
  if elf.magic ≠ [0x7f, 0x45, 0x4c, 0x46] then .error .invalidElf
  else
    match elf.toElfFile.baseAddr elfBaseAddr with
    | .error _ => .error .noBaseAddr
    | .ok baseAddr => elf.loads.mapM fun ph => ph.segment baseAddr elf.input

end LoadFile

section Loading

variable {PTE σ : Type} [GenericPTE PTE] [GlobalAllocator σ]

/-- The turn of the loop over the segments. -/
def newSegment (s : MemorySet PTE σ) (segment : ELFSegment) : Except Crash (MemorySet PTE σ) :=
  s.newRegion segment.vaddr segment.size segment.flags segment.data none

/-- The segments of a file, one region each. -/
def LoadFile.loadSegments (elf : LoadFile) (elfBaseAddr : Option Usize) (s : MemorySet PTE σ)
    : Except Crash (MemorySet PTE σ) :=
  match elf.getElfSegments elfBaseAddr with
  | .error _ => .error .panic
  | .ok segments => segments.foldlM newSegment s

end Loading

-----------------------------------------------------------------------------------------
-- Regions for segments
-----------------------------------------------------------------------------------------

namespace ELFSegment

def numPages (segment : ELFSegment) : Nat :=
  (segment.size + PAGE_SIZE_4K - 1) / PAGE_SIZE_4K

def stop (segment : ELFSegment) : Nat :=
  segment.vaddr + 4096 * segment.numPages

/-- A segment that a region can be made for: it has pages of user memory that can be read, from the
start of one on, and not more data.
-/
structure Placeable (segment : ELFSegment) : Prop where
  data : ∃ bytes, segment.data = some bytes ∧ bytes.length ≤ segment.numPages * 4096
  aligned : segment.vaddr % 4096 = 0
  nonempty : 0 < segment.numPages
  below : segment.stop ≤ 2 ^ 38
  readable : segment.flags.read = true

def Apart (a b : ELFSegment) : Prop :=
  a.stop ≤ b.vaddr ∨ b.stop ≤ a.vaddr

end ELFSegment

section Regions

variable {PTE σ : Type} [GenericPTE PTE] [LawfulPTE PTE] [GlobalAllocator σ]
variable [LawfulGlobalAllocator σ] {s s' : MemorySet PTE σ}

/-- The region of the segment is there. -/
def HasSegment (s : MemorySet PTE σ) (segment : ELFSegment) : Prop :=
  HasRegion s segment.vaddr segment.numPages segment.flags (segment.data.getD [])

/-- A segment is loaded into free memory, unless memory runs out. -/
theorem newSegment_loads (agrees : Agrees Accessible s []) {segment : ELFSegment}
    (placeable : segment.Placeable) (cleared : s.Cleared segment.vaddr segment.stop)
    : Ends (· = .outOfMemory)
        (fun s' =>
          Agrees Accessible s' []
          ∧ HasSegment s' segment
          ∧ (∀ other, HasSegment s other → HasSegment s' other)
          ∧ ∀ other : ELFSegment, segment.Apart other → s.Cleared other.vaddr other.stop
            → s'.Cleared other.vaddr other.stop)
        (newSegment s segment) := by
  obtain ⟨⟨data, has, fits⟩, aligned, nonempty, below, readable⟩ := placeable
  rw [newSegment, has]
  refine (agrees.newRegion_data (by rfl) ⟨readable, MemBackend.bounded_none⟩ aligned rfl nonempty
    below fits cleared).imp ?_
  rintro s' ⟨agrees', here, others, clear⟩
  refine ⟨agrees', ?_, fun other => others, fun other apart before => clear before apart⟩
  rw [HasSegment, has]
  exact here

/-- Segments that are apart are loaded one after the other, unless memory runs out; by induction on
the segments.
-/
theorem newSegments_load (agrees : Agrees Accessible s []) {segments : List ELFSegment}
    (placeable : ∀ segment ∈ segments, segment.Placeable)
    (apart : segments.Pairwise ELFSegment.Apart)
    (cleared : ∀ segment ∈ segments, s.Cleared segment.vaddr segment.stop)
    : Ends (· = .outOfMemory)
        (fun s' =>
          Agrees Accessible s' []
          ∧ (∀ segment ∈ segments, HasSegment s' segment)
          ∧ ∀ other, HasSegment s other → HasSegment s' other)
        (segments.foldlM newSegment s) := by
  induction segments generalizing s with
  | nil => exact ⟨agrees, List.forall_mem_nil _, fun _ has => has⟩
  | cons segment segments ih =>
      obtain ⟨first, later⟩ := List.forall_mem_cons.mp placeable
      obtain ⟨free, clear⟩ := List.forall_mem_cons.mp cleared
      obtain ⟨away, apart⟩ := List.pairwise_cons.mp apart
      rw [List.foldlM_cons]
      refine (newSegment_loads agrees first free).bind ?_
      rintro s₁ ⟨agrees₁, here, kept, still⟩
      have cleared₁ : ∀ other ∈ segments, s₁.Cleared other.vaddr other.stop :=
        fun other member => still other (away other member) (clear other member)
      refine (ih agrees₁ later apart cleared₁).imp ?_
      rintro s' ⟨agrees', loaded, kept'⟩
      refine ⟨agrees', List.forall_mem_cons.mpr ⟨kept' _ here, loaded⟩, fun other has => ?_⟩
      exact kept' other (kept other has)

end Regions

-----------------------------------------------------------------------------------------
-- Segments of a file
-----------------------------------------------------------------------------------------

namespace LoadHeader

variable {ph other : LoadHeader} {base : Usize} {input : List UInt8} {i n : Nat}

/-- The address of a byte of the segment. -/
def address (ph : LoadHeader) (base : Usize) (i : Nat) : Nat :=
  ph.virtualAddr.toNat + base.toNat + i

/-- The segment has bytes on the page with the number. -/
def OnPage (ph : LoadHeader) (base : Usize) (n : Nat) : Prop :=
  ∃ i, i < ph.memSize.toNat ∧ n = ph.address base i / 4096

/-- A segment that can be read and has bytes, the first of them from the file, at the same place of
a page as in the file.
-/
structure WellFormed (ph : LoadHeader) (base : Usize) (input : List UInt8) : Prop where
  readable : ph.isRead = true
  nonempty : 0 < ph.memSize.toNat
  fits : ph.fileSize.toNat ≤ ph.memSize.toNat
  inside : ph.offset.toNat + ph.fileSize.toNat ≤ input.length
  congruent : ph.offset.toNat % 4096 = ph.virtualAddr.toNat % 4096

/-- The segment lies in user memory. -/
def Lower (ph : LoadHeader) (base : Usize) : Prop :=
  ph.address base ph.memSize.toNat ≤ 2 ^ 38

instance (ph : LoadHeader) (base : Usize) : Decidable (ph.Lower base) :=
  inferInstanceAs (Decidable (_ ≤ _))

/-- What becomes of a segment: all its pages have its flags, it has its bytes of the file, and the
rest is zero.
-/
structure Loaded {PTE σ : Type} [GenericPTE PTE] [GlobalAllocator σ] (ph : LoadHeader)
    (base : Usize) (input : List UInt8) (s : MemorySet PTE σ) : Prop where
  file
    : ∀ i, i < ph.fileSize.toNat → s.load (ph.address base i) = input[ph.offset.toNat + i]?
  zero
    : ∀ i, ph.fileSize.toNat ≤ i → i < ph.memSize.toNat → s.load (ph.address base i) = some 0
  flags
    : ∀ va, ph.OnPage base (va / 4096)
      → ∃ paddr, s.query va = .ok (paddr, ph.mappingFlags, .size4K)

/-- The segment that is made of a header: whole pages from the one with the first byte. -/
def paged (ph : LoadHeader) (base : Usize) (input : List UInt8) : ELFSegment where
  vaddr := ph.address base 0 - ph.address base 0 % 4096
  size := ph.memSize.toNat + ph.address base 0 % 4096
  flags := ph.mappingFlags
  data := some ((input.take (ph.offset.toNat + ph.fileSize.toNat)).drop
    (ph.offset.toNat - ph.address base 0 % 4096))

/-- Nothing wraps around for a segment in user memory. -/
theorem segment_eq (wellFormed : ph.WellFormed base input) (lower : ph.Lower base)
    (aligned : base.toNat % 4096 = 0) (bounded : input.length < USIZE_RANGE)
    : ph.segment base input = .ok (ph.paged base input) := by
  obtain ⟨-, nonempty, -, inside, congruent⟩ := wellFormed
  unfold Lower address at lower
  have start : (ph.virtualAddr + base).toNat = ph.address base 0 := by
    rw [BitVec.toNat_add, Nat.mod_eq_of_lt (by omega)]
    rfl
  have stop : (ph.virtualAddr + ph.memSize + base).toNat
      = ph.address base 0 + ph.memSize.toNat := by
    rw [BitVec.toNat_add, BitVec.toNat_add, Nat.mod_add_mod, Nat.mod_eq_of_lt (by omega), address]
    omega
  have fileStop : (ph.offset + ph.fileSize).toNat = ph.offset.toNat + ph.fileSize.toNat := by
    rw [BitVec.toNat_add, Nat.mod_eq_of_lt (inside.trans_lt bounded)]
  have same : ph.address base 0 % 4096 = ph.offset.toNat % 4096 := by
    unfold address
    omega
  simp only [segment, start, stop, fileStop, pageSize, same]
  rw [if_neg (by omega), if_pos ⟨by omega, inside⟩, paged, same]
  have size : wrapSub (ph.address base 0 + ph.memSize.toNat)
      (ph.address base 0 - ph.offset.toNat % 4096)
      = ph.memSize.toNat + ph.offset.toNat % 4096 := by
    rw [wrapSub_of_le (by omega) (by unfold address USIZE_RANGE; omega)]
    omega
  rw [size]

/-- The pages of a segment, by their numbers. -/
theorem onPage_iff (nonempty : 0 < ph.memSize.toNat)
    : ph.OnPage base n
      ↔ ph.address base 0 / 4096 ≤ n ∧ n ≤ (ph.address base 0 + (ph.memSize.toNat - 1)) / 4096 := by
  constructor
  · rintro ⟨i, inside, rfl⟩
    unfold address
    omega
  · rintro ⟨lower, upper⟩
    by_cases first : n = ph.address base 0 / 4096
    · exact ⟨0, nonempty, first⟩
    · refine ⟨4096 * n - ph.address base 0, ?_, ?_⟩
      · omega
      · unfold address at *
        omega

/-- The pages that are made of a segment: from that of its first byte to that of its last. -/
theorem paged_extent (base : Usize) (input : List UInt8) (nonempty : 0 < ph.memSize.toNat)
    : (ph.paged base input).vaddr = 4096 * (ph.address base 0 / 4096)
      ∧ (ph.paged base input).stop
        = 4096 * ((ph.address base 0 + (ph.memSize.toNat - 1)) / 4096 + 1) := by
  simp only [ELFSegment.stop, ELFSegment.numPages, paged, pageSize]
  omega

theorem paged_placeable (wellFormed : ph.WellFormed base input) (lower : ph.Lower base)
    (aligned : base.toNat % 4096 = 0)
    : (ph.paged base input).Placeable := by
  obtain ⟨readable, nonempty, fits, inside, congruent⟩ := wellFormed
  obtain ⟨start, stop⟩ := paged_extent base input nonempty
  have total : ph.address base ph.memSize.toNat ≤ 2 ^ 38 := lower
  refine ⟨⟨_, rfl, ?_⟩, ?_, ?_, ?_, readable⟩
  · simp only [List.length_drop, List.length_take, ELFSegment.numPages, paged, pageSize]
    unfold address
    omega
  · rw [start]
    exact Nat.mul_mod_right ..
  · unfold ELFSegment.stop at stop
    omega
  · rw [stop]
    unfold address at *
    omega

/-- Segments that share no page are apart. -/
theorem paged_apart (nonempty : 0 < ph.memSize.toNat) (nonempty' : 0 < other.memSize.toNat)
    (disjoint : ∀ n, ph.OnPage base n → ¬ other.OnPage base n)
    : (ph.paged base input).Apart (other.paged base input) := by
  obtain ⟨start, stop⟩ := paged_extent base input nonempty
  obtain ⟨start', stop'⟩ := paged_extent base input nonempty'
  unfold ELFSegment.Apart
  rw [start, stop, start', stop']
  by_contra overlap
  refine disjoint (max (ph.address base 0 / 4096) (other.address base 0 / 4096))
    ((onPage_iff nonempty).mpr ?_) ((onPage_iff nonempty').mpr ?_)
  · omega
  · omega

/-- The data of a segment, behind what comes before its first byte in the file. -/
theorem paged_byte (wellFormed : ph.WellFormed base input) (aligned : base.toNat % 4096 = 0)
    (i : Nat)
    : ((ph.paged base input).data.getD [])[ph.address base 0 % 4096 + i]?
      = if i < ph.fileSize.toNat then input[ph.offset.toNat + i]? else none := by
  obtain ⟨-, -, -, inside, congruent⟩ := wellFormed
  have index : ph.offset.toNat - ph.address base 0 % 4096 + (ph.address base 0 % 4096 + i)
      = ph.offset.toNat + i := by
    unfold address
    omega
  rw [paged, Option.getD_some, List.getElem?_drop, index, List.getElem?_take]
  simp only [Nat.add_lt_add_iff_left]

variable {PTE σ : Type} [GenericPTE PTE] [LawfulPTE PTE] [GlobalAllocator σ]
variable [LawfulGlobalAllocator σ] {s : MemorySet PTE σ}

/-- A segment whose region is there is loaded. -/
theorem WellFormed.loaded (wellFormed : ph.WellFormed base input) (aligned : base.toNat % 4096 = 0)
    (agrees : Agrees Accessible s []) (has : HasSegment s (ph.paged base input))
    : ph.Loaded base input s := by
  obtain ⟨start, stop⟩ := paged_extent base input wellFormed.nonempty
  have inRegion {va : Nat} (onPage : ph.OnPage base (va / 4096))
      : ∃ i, i < (ph.paged base input).numPages * 4096
        ∧ va = (ph.paged base input).vaddr + i := by
    obtain ⟨lower, upper⟩ := (onPage_iff wellFormed.nonempty).mp onPage
    refine ⟨va - (ph.paged base input).vaddr, ?_, ?_⟩
    · unfold ELFSegment.stop at stop
      omega
    · omega
  have leaf : ph.mappingFlags.isLeaf = true := MappingFlags.isLeaf_of_read wellFormed.readable
  have byte (i : Nat) (inside : i < ph.memSize.toNat)
      : s.load (ph.address base i)
        = some ((if i < ph.fileSize.toNat then input[ph.offset.toNat + i]? else none).getD 0) := by
    have place : ph.address base i
        = (ph.paged base input).vaddr + (ph.address base 0 % 4096 + i) := by
      rw [start]
      unfold address
      omega
    have within : ph.address base 0 % 4096 + i < (ph.paged base input).numPages * 4096 := by
      unfold ELFSegment.stop at stop
      omega
    obtain ⟨mapping, page, maps, slot, flags, stored⟩ := has _ within
    have present : mapping.flags.isLeaf = true := by
      rw [flags]
      exact leaf
    rw [place, agrees.furnished.load maps slot present, stored, paged_byte wellFormed aligned]
  refine ⟨fun i inside => ?_, fun i behind inside => ?_, fun va onPage => ?_⟩
  · rw [byte i (inside.trans_le wellFormed.fits), if_pos inside]
    have inFile : ph.offset.toNat + i < input.length := by
      have := wellFormed.inside
      omega
    rw [List.getElem?_eq_getElem inFile, Option.getD_some]
  · rw [byte i inside, if_neg (Nat.not_lt.mpr behind), Option.getD_none]
  · obtain ⟨i, within, rfl⟩ := inRegion onPage
    obtain ⟨mapping, page, maps, slot, flags, -⟩ := has i within
    have access : mapping.flags.access = ph.mappingFlags := by
      rw [flags]
      rfl
    exact ⟨_, access ▸ agrees.furnished.query maps slot⟩

end LoadHeader

namespace LoadFile

variable {elf : LoadFile} {addr : Usize}

/-- Where the file is loaded: the given address is added if the first segment starts at 0. -/
def base (elf : LoadFile) (addr : Usize) : Usize :=
  if elf.toElfFile.firstLoad = some 0 then addr else 0

/-- The base is found if it is given. -/
theorem baseAddr_given (elf : LoadFile) (addr : Usize)
    : elf.toElfFile.baseAddr (some addr) = .ok (elf.base addr) := by
  unfold ElfFile.baseAddr base
  cases elf.toElfFile.firstLoad with
  | none => rfl
  | some vaddr =>
      simp only [Option.some.injEq, apply_ite Except.ok]

theorem base_aligned (elf : LoadFile) (aligned : addr.toNat % 4096 = 0)
    : (elf.base addr).toNat % 4096 = 0 := by
  unfold base
  split
  · exact aligned
  · rfl

/-- An ELF file whose segments are well formed and share no page. -/
structure WellFormed (elf : LoadFile) (addr : Usize) : Prop where
  magic : elf.magic = [0x7f, 0x45, 0x4c, 0x46]
  segments : ∀ ph ∈ elf.loads, ph.WellFormed (elf.base addr) elf.input
  disjoint
    : elf.loads.Pairwise fun a b =>
        ∀ n, a.OnPage (elf.base addr) n → ¬ b.OnPage (elf.base addr) n

/-- The segments of a well-formed file in user memory. -/
theorem getElfSegments_eq (wellFormed : elf.WellFormed addr) (aligned : addr.toNat % 4096 = 0)
    (lower : ∀ ph ∈ elf.loads, ph.Lower (elf.base addr))
    : elf.getElfSegments (some addr)
      = .ok (elf.loads.map fun ph => ph.paged (elf.base addr) elf.input) := by
  have aligned' := elf.base_aligned aligned
  rw [getElfSegments, if_neg (not_not.mpr wellFormed.magic), baseAddr_given]
  refine mapM_ok fun ph member => ?_
  exact LoadHeader.segment_eq (wellFormed.segments ph member) (lower ph member) aligned' elf.bounded

variable {PTE σ : Type} [GenericPTE PTE] [LawfulPTE PTE] [GlobalAllocator σ]
variable [LawfulGlobalAllocator σ] {s : MemorySet PTE σ}

/-- The segments of a well-formed file that lie in user memory are loaded as they should into any
memory set that has no area on their pages, unless memory runs out.
-/
theorem segments_loaded (reachable : Reachable Created Step s) (wellFormed : elf.WellFormed addr)
    (aligned : addr.toNat % 4096 = 0) (lower : ∀ ph ∈ elf.loads, ph.Lower (elf.base addr))
    (cleared
      : ∀ ph ∈ elf.loads, ∀ va, ph.OnPage (elf.base addr) (va / 4096)
        → ∀ mapping, ¬ s.Maps va mapping)
    : Ends (· = .outOfMemory)
        (fun s' => ∀ ph ∈ elf.loads, ph.Loaded (elf.base addr) elf.input s')
        (elf.loadSegments (some addr) s) := by
  have aligned' := elf.base_aligned aligned
  rw [loadSegments, getElfSegments_eq wellFormed aligned lower]
  have agrees := MemorySet.agrees_reachable reachable
  refine (newSegments_load agrees ?_ ?_ ?_).imp ?_
  · intro segment member
    obtain ⟨ph, isLoad, rfl⟩ := List.mem_map.mp member
    exact LoadHeader.paged_placeable (wellFormed.segments ph isLoad) (lower ph isLoad) aligned'
  · refine List.pairwise_map.mpr (wellFormed.disjoint.imp_of_mem fun {a b} isA isB disjoint => ?_)
    exact LoadHeader.paged_apart (wellFormed.segments a isA).nonempty
      (wellFormed.segments b isB).nonempty disjoint
  · intro segment member area inMap
    obtain ⟨ph, isLoad, rfl⟩ := List.mem_map.mp member
    have nonempty := (wellFormed.segments ph isLoad).nonempty
    obtain ⟨start, stop⟩ := LoadHeader.paged_extent (elf.base addr) elf.input nonempty
    have extent := (agrees.tidy.placed area inMap).lt_stop
    have pageAligned := (agrees.tidy.placed area inMap).aligned
    by_contra overlap
    unfold MapArea.Away at overlap
    rw [start, stop] at overlap
    refine cleared ph isLoad (max area.vaddr (4096 * (ph.address (elf.base addr) 0 / 4096))) ?_
      (area.mapping _) ⟨area, inMap, by omega, by omega, rfl⟩
    exact (LoadHeader.onPage_iff nonempty).mpr ⟨by omega, by omega⟩
  · rintro s' ⟨agrees', loaded, -⟩ ph isLoad
    exact (wellFormed.segments ph isLoad).loaded aligned' agrees'
      (loaded _ (List.mem_map_of_mem isLoad))

end LoadFile

/-- A header and two segments of four bytes, of which the second starts inside its page and is
longer in memory.
-/
def twoSegments (first second : Usize) : LoadFile where
  magic := [0x7f, 0x45, 0x4c, 0x46]
  entryPoint := first
  programHeaders := [
    { isLoad := true, virtualAddr := first, offset := 0, fileSize := 4, memSize := 4
      isRead := true, isWrite := false, isExecute := true },
    { isLoad := true, virtualAddr := second, offset := 4, fileSize := 4, memSize := 0x1000
      isRead := true, isWrite := true, isExecute := false }]
  sections := []
  input := [0x7f, 0x45, 0x4c, 0x46, 1, 2, 3, 4]
  bounded := by decide

/-- The segments are well formed where they do not share a page. -/
theorem twoSegments_wellFormed {first second : Usize} (alignedFirst : first.toNat % 4096 = 0)
    (alignedSecond : second.toNat % 4096 = 4) {addr : Usize} (aligned : addr.toNat % 4096 = 0)
    (apart : first.toNat + 4096 ≤ second.toNat)
    : (twoSegments first second).WellFormed addr := by
  have loads : (twoSegments first second).loads = (twoSegments first second).programHeaders := rfl
  refine ⟨rfl, ?_, ?_⟩
  · rw [loads]
    refine List.forall_mem_cons.mpr ⟨?_, List.forall_mem_cons.mpr ⟨?_, List.forall_mem_nil _⟩⟩
    · exact ⟨rfl, by simp, by simp, by simp [twoSegments], by simpa using alignedFirst.symm⟩
    · exact ⟨rfl, by simp, by simp, by simp [twoSegments], by simpa using alignedSecond.symm⟩
  · rw [loads]
    refine List.pairwise_pair.mpr ?_
    rintro n ⟨i, inside, rfl⟩ ⟨j, -, same⟩
    have aligned' := (twoSegments first second).base_aligned aligned
    simp only [LoadHeader.address, BitVec.reduceToNat] at inside same
    omega

/-- The segments in the memory of a new process. -/
def loadTwo (first second : Usize) : Except Crash (MemorySet Rv64PTE PagePool) := do
  let s ← MemorySet.newEmpty MemorySet.blank (fun _ => 0)
  (twoSegments first second).loadSegments (some 0x400_0000) s

/-- Witness: both segments are moved, as the first starts at 0. -/
theorem segments_loaded_two
    : ∃ s, loadTwo 0 0x1004 = .ok s
      ∧ s.load 0x400_1007 = some 4
      ∧ s.load 0x400_1008 = some 0
      ∧ ∀ ph ∈ (twoSegments 0 0x1004).loads,
        ph.Loaded ((twoSegments 0 0x1004).base 0x400_0000) (twoSegments 0 0x1004).input s := by
  have bytes : ((loadTwo 0 0x1004).map fun s => (s.load 0x400_1007, s.load 0x400_1008))
      = .ok (some 4, some 0) := by
    decide +kernel
  obtain ⟨s, run, values⟩ := map_eq_ok.mp bytes
  obtain ⟨start, created, load⟩ := bind_eq_ok.mp run
  obtain ⟨seven, eight⟩ := Prod.mk.inj values
  refine ⟨s, run, seven, eight, ?_⟩
  refine (LoadFile.segments_loaded (.start ⟨_, _, created⟩)
    (twoSegments_wellFormed (by decide) (by decide) (by decide) (by decide)) (by decide)
    (by decide) ?_).of_ok load
  rintro ph - va - mapping ⟨area, member, -⟩
  rw [MemorySet.newEmpty_areas created] at member
  cases member

/-- Segments 2^39 apart have the same page table entries: the second is mapped already. -/
theorem segments_far_panic
    : (twoSegments 0x1000 0x80_0000_1004).WellFormed 0x400_0000
      ∧ ∃ s, MemorySet.newEmpty MemorySet.blank (fun _ => 0) = .ok s
        ∧ s.ownedMem = .empty
        ∧ (twoSegments 0x1000 0x80_0000_1004).loadSegments (some 0x400_0000) s = .error .panic := by
  refine ⟨twoSegments_wellFormed (by decide) (by decide) (by decide) (by decide), ?_⟩
  obtain ⟨s, created⟩ := MemorySet.newEmpty_blank
  have run : ((loadTwo 0x1000 0x80_0000_1004).map fun _ => ()) = .error .panic := by
    decide +kernel
  rw [loadTwo, created, ok_bind] at run
  refine ⟨s, created, MemorySet.newEmpty_areas created, ?_⟩
  cases load : (twoSegments 0x1000 0x80_0000_1004).loadSegments (some 0x400_0000) s with
  | error crash =>
      rw [load] at run
      exact congrArg Except.error (Except.error.inj run)
  | ok s' =>
      rw [load] at run
      cases run

end RCoreOS.ElfParser
