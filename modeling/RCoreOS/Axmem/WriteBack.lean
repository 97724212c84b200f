import RCoreOS.Axmem.FilePosition

/-! Where loaded pages are written back. A page is read from the cursor of its area plus its
distance in the area, and it is written to this distance from the start of the file, or to the
end of a file in append mode.
-/

namespace RCoreOS.Axmem

open PageTable Outcome

/-- Writes to open files succeed and leave files open. -/
def WriteAt.Works (writeAt : WriteAt) : Prop :=
  ∀ fs node offset data, fs.Open →
    ∃ len fs', writeAt fs node offset data = (some len, fs') ∧ fs'.Open

/-- A loaded page of a file that can be written, and the bytes it has. -/
structure LoadedPage where
  file : File
  index : Nat
  data : List UInt8

namespace LoadedPage

/-- The offset from which a fault reads the page. -/
def loadOffset (page : LoadedPage) : Nat :=
  page.file.offset + page.index * PAGE_SIZE_4K

/-- The offset that the page is written to. -/
def storeOffset (fs : Vfs) (page : LoadedPage) : Nat :=
  if page.file.isAppend then (fs.getAttr page.file.node).getD 0
  else page.index * PAGE_SIZE_4K

/-- The file system after the page was written to where it is written, or to where it was read. -/
def store (writeAt : WriteAt) (fs : Vfs) (page : LoadedPage) : Vfs :=
  (writeAt fs page.file.node (page.storeOffset fs) page.data).2

def putBack (writeAt : WriteAt) (fs : Vfs) (page : LoadedPage) : Vfs :=
  (writeAt fs page.file.node page.loadOffset page.data).2

end LoadedPage

variable {writeAt : WriteAt} {fs : Vfs}

-----------------------------------------------------------------------------------------
-- One page
-----------------------------------------------------------------------------------------

/-- A write to a file is one write to the file system, at the cursor or at the end. -/
theorem File.write_opened (file : File) (works : writeAt.Works) (opened : fs.Open)
    (writable : file.writable = true) (data : List UInt8)
    : ∃ len offset fs', file.write writeAt fs data = (some len, { file with offset }, fs')
      ∧ writeAt fs file.node
          (if file.isAppend then (fs.getAttr file.node).getD 0 else file.offset) data
        = (some len, fs')
      ∧ fs'.Open := by
  obtain ⟨size, attr⟩ := Option.isSome_iff_exists.mp (opened file.node)
  obtain ⟨len, fs', written, opened'⟩ := works fs file.node
    (if file.isAppend then (fs.getAttr file.node).getD 0 else file.offset) data opened
  cases append : file.isAppend with
  | true =>
      rw [append, attr] at written
      refine ⟨len, size + len, fs', ?_, by rw [attr]; exact written, opened'⟩
      simp_all [File.write]
  | false =>
      rw [append] at written
      refine ⟨len, file.offset + len, fs', ?_, written, opened'⟩
      simp_all [File.write]

/-- A write to an offset within reach is one write to the file system. -/
theorem writeToSeek_opened {backend : MemBackend} (works : writeAt.Works) (opened : fs.Open)
    (fits : backend.file.offset < 2 ^ 64) (writable : backend.file.writable = true) (index : Nat)
    (data : List UInt8)
    : ∃ len, backend.writeToSeek writeAt fs (.start (index * PAGE_SIZE_4K)) data
        = .ok (some len, backend, LoadedPage.store writeAt fs ⟨backend.file, index, data⟩)
      ∧ (LoadedPage.store writeAt fs ⟨backend.file, index, data⟩).Open := by
  have here : backend.file.seek fs (.current 0) = some (backend.file.offset, backend.file) :=
    File.seek_current (d := 0) opened fits
  obtain ⟨len, offset, fs', run, written, opened'⟩ :=
    File.write_opened { backend.file with offset := index * PAGE_SIZE_4K } works opened writable
      data
  have stored : LoadedPage.store writeAt fs ⟨backend.file, index, data⟩ = fs' :=
    congrArg Prod.snd written
  refine ⟨len, ?_, stored ▸ opened'⟩
  rw [MemBackend.writeToSeek, here, stored]
  simp only [File.seek_start opened, run, File.seek_start opened']
  rfl

/-- The page at an index of an area, if it is in the range and can be written back. -/
def MapArea.loadedPage {PTE σ : Type} (area : MapArea) (start stop : Nat) (m : Machine PTE σ)
    (index : Nat) : Option LoadedPage :=
  match area.backend, area.pages[index]?.join with
  | some backend, some page =>
      if backend.file.writable ∧ start ≤ area.vaddr + index * PAGE_SIZE_4K
          ∧ area.vaddr + index * PAGE_SIZE_4K < stop then
        some ⟨backend.file, index, m.readBytes page.paddr PAGE_SIZE_4K⟩
      else none
  | _, _ => none

-----------------------------------------------------------------------------------------
-- All pages of the range
-----------------------------------------------------------------------------------------

section Loops

variable {PTE σ : Type} {m : Machine PTE σ} {area : MapArea} {start stop : Nat}

/-- The cursor of a file is a `u64`. -/
def MapArea.CursorFits (area : MapArea) : Prop :=
  ∀ backend ∈ area.backend, backend.file.offset < 2 ^ 64

/-- One turn over an area writes the page at its index, if it is one of those to write. -/
theorem syncPage_opened (start stop : Nat) (m : Machine PTE σ) (works : writeAt.Works)
    (opened : fs.Open) (placed : area.Placed)
    (fits : area.CursorFits) {index : Nat} (inside : index < area.pages.length)
    : ∃ fs', MemorySet.syncPage writeAt start stop m (area, fs) index = .ok (area, fs')
      ∧ fs' = (area.loadedPage start stop m index).toList.foldl (LoadedPage.store writeAt) fs
      ∧ fs'.Open := by
  have below := placed.below
  have inRange : wrapAdd area.vaddr (index * PAGE_SIZE_4K)
      = area.vaddr + index * PAGE_SIZE_4K := by
    apply wrapAdd_of_lt
    unfold MapArea.stop at below
    unfold USIZE_RANGE PAGE_SIZE_4K
    omega
  have slot : area.pages[index]? = some area.pages[index] := List.getElem?_eq_getElem inside
  by_cases within : start ≤ area.vaddr + index * PAGE_SIZE_4K
      ∧ area.vaddr + index * PAGE_SIZE_4K < stop
  · rw [MemorySet.syncPage, inRange, if_pos within, MapArea.syncPageWithBackend, slot,
      MapArea.loadedPage, slot, Option.join_some]
    cases loaded : area.pages[index] with
    | none =>
        refine ⟨fs, rfl, ?_, opened⟩
        cases area.backend <;> rfl
    | some page =>
        cases same : area.backend with
        | none => exact ⟨fs, rfl, rfl, opened⟩
        | some backend =>
            cases writable : backend.file.writable with
            | false => exact ⟨fs, by simp [writable], by simp [writable], opened⟩
            | true =>
                obtain ⟨len, run, opened'⟩ := writeToSeek_opened works opened
                  (fits backend same) writable index (m.readBytes page.paddr PAGE_SIZE_4K)
                refine ⟨_, ?_, by simp [writable, within], opened'⟩
                simp [writable, run, ← same]
  · rw [MemorySet.syncPage, inRange, if_neg within]
    refine ⟨fs, rfl, ?_, opened⟩
    unfold MapArea.loadedPage
    split
    · rw [if_neg fun all => within all.2]
      rfl
    · rfl

/-- The pages of an area that are written back, in their order. -/
def MapArea.loadedPages (area : MapArea) (start stop : Nat) (m : Machine PTE σ) : List LoadedPage :=
  (List.range area.pages.length).filterMap (area.loadedPage start stop m)

/-- The turns over some pages of an area, by induction on their indices. -/
theorem syncPages_opened (start stop : Nat) (m : Machine PTE σ) (works : writeAt.Works)
    (opened : fs.Open) (placed : area.Placed) (fits : area.CursorFits) {indices : List Nat}
    (inside : ∀ index ∈ indices, index < area.pages.length)
    : ∃ fs', indices.foldlM (MemorySet.syncPage writeAt start stop m) (area, fs) = .ok (area, fs')
      ∧ fs' = (indices.filterMap (area.loadedPage start stop m)).foldl
          (LoadedPage.store writeAt) fs
      ∧ fs'.Open := by
  induction indices generalizing fs with
  | nil => exact ⟨fs, rfl, rfl, opened⟩
  | cons index rest ih =>
      obtain ⟨here, later⟩ := List.forall_mem_cons.mp inside
      obtain ⟨fs₁, turn, isStored, opened₁⟩ :=
        syncPage_opened start stop m works opened placed fits here
      obtain ⟨fs', run, isRest, opened'⟩ := ih opened₁ later
      refine ⟨fs', ?_, ?_, opened'⟩
      · rw [List.foldlM_cons, turn, ok_bind, run]
      · rw [isRest, isStored, List.filterMap_cons]
        cases area.loadedPage start stop m index <;> rfl

/-- Only areas with a file that overlap the range have pages to write back. -/
theorem MapArea.Placed.syncs (placed : area.Placed)
    (none : (area.backend.isSome && area.overlapWith start stop) = false)
    : area.loadedPages start stop m = [] := by
  refine List.filterMap_eq_nil_iff.mpr fun index member => ?_
  have inside := List.mem_range.mp member
  unfold MapArea.loadedPage
  split
  · rename_i backend page same slot
    refine if_neg fun ⟨_, lower, upper⟩ => ?_
    have stop := placed.endVa
    simp only [same, Option.isSome_some, Bool.true_and, MapArea.overlapWith, stop,
      Bool.or_eq_false_iff, Bool.and_eq_false_iff, decide_eq_false_iff_not] at none
    unfold MapArea.stop PAGE_SIZE_4K at *
    omega
  · rfl

variable {s : MemorySet PTE σ}

/-- The pages that are written back, in the order of the areas. -/
def MemorySet.loadedPages (s : MemorySet PTE σ) (start stop : Nat) : List LoadedPage :=
  s.ownedMem.values.flatMap fun area => area.loadedPages start stop s.toMachine

/-- The loop over some areas, by induction on them. -/
theorem syncAreas_opened (start stop : Nat) (works : writeAt.Works) (opened : fs.Open)
    {entries : List (Nat × MapArea)} (known : ∀ entry ∈ entries, entry ∈ s.ownedMem.entries)
    (placed : ∀ entry ∈ entries, entry.2.Placed) (fits : ∀ entry ∈ entries, entry.2.CursorFits)
    : ∃ fs', entries.foldlM (MemorySet.syncArea writeAt start stop) (s, fs) = .ok (s, fs')
      ∧ fs' = (entries.flatMap fun entry => entry.2.loadedPages start stop s.toMachine).foldl
          (LoadedPage.store writeAt) fs := by
  induction entries generalizing fs with
  | nil => exact ⟨fs, rfl, rfl⟩
  | cons entry rest ih =>
      obtain ⟨key, area⟩ := entry
      obtain ⟨knownHere, knownLater⟩ := List.forall_mem_cons.mp known
      obtain ⟨placedHere, placedLater⟩ := List.forall_mem_cons.mp placed
      obtain ⟨fitsHere, fitsLater⟩ := List.forall_mem_cons.mp fits
      have turn : ∃ fs₁, MemorySet.syncArea writeAt start stop (s, fs) (key, area) = .ok (s, fs₁)
          ∧ fs₁ = (area.loadedPages start stop s.toMachine).foldl (LoadedPage.store writeAt) fs
          ∧ fs₁.Open := by
        unfold MemorySet.syncArea
        cases syncs : area.backend.isSome && area.overlapWith start stop with
        | false =>
            refine ⟨fs, by simp [syncs], ?_, opened⟩
            rw [placedHere.syncs syncs]
            rfl
        | true =>
            obtain ⟨fs₁, run, isStored, opened₁⟩ := syncPages_opened start stop s.toMachine works
              opened placedHere fitsHere (fun index member => List.mem_range.mp member)
            refine ⟨fs₁, ?_, isStored, opened₁⟩
            simp only [syncs, if_true, run, ok_bind, BTreeMap.insert_same knownHere, pure_eq_ok]
      obtain ⟨fs₁, first, isStored, opened₁⟩ := turn
      obtain ⟨fs', run, isRest⟩ := ih opened₁ knownLater placedLater fitsLater
      refine ⟨fs', ?_, ?_⟩
      · rw [List.foldlM_cons, first, ok_bind, run]
      · rw [isRest, isStored, List.flatMap_cons, List.foldl_append]

/-- `msync` stores exactly the loaded pages of the range. -/
theorem msync_stores (start size : Nat) (works : writeAt.Works) (opened : fs.Open)
    (tidy : MemorySet.Tidy s []) (fits : ∀ area ∈ s.ownedMem.values, area.CursorFits)
    : s.msync writeAt fs start size = .ok (s, (s.loadedPages start (wrapAdd start size)).foldl
        (LoadedPage.store writeAt) fs) := by
  obtain ⟨fs', run, isStored⟩ := syncAreas_opened (s := s) start (wrapAdd start size) works
    opened (fun _ member => member)
    (fun entry member => tidy.placed entry.2 (List.mem_map_of_mem member))
    (fun entry member => fits entry.2 (List.mem_map_of_mem member))
  rw [MemorySet.msync, run, isStored, MemorySet.loadedPages, BTreeMap.values, List.flatMap_map]

end Loops

-----------------------------------------------------------------------------------------
-- Offsets of reads and writes
-----------------------------------------------------------------------------------------

namespace LoadedPage

/-- The file is read from its start and written at its cursor. -/
def FromStart (page : LoadedPage) : Prop :=
  page.file.offset = 0 ∧ page.file.isAppend = false

theorem FromStart.store_eq {page : LoadedPage} (fromStart : page.FromStart)
    : page.store writeAt fs = page.putBack writeAt fs := by
  rw [LoadedPage.store, putBack, storeOffset, loadOffset, fromStart.1, fromStart.2,
    if_neg Bool.false_ne_true, Nat.zero_add]

/-- A file system that keeps the offsets of all writes, the last one first, where its reads return
bytes.
-/
def recorder : WriteAt := fun fs _ offset data =>
  (some data.length, {
    getAttr := fs.getAttr
    readAt := fun k node len =>
      match k with
      | 0 => some (List.replicate offset 0)
      | k + 1 => fs.readAt k node len })

theorem recorder_works : recorder.Works :=
  fun _ _ _ data opened => ⟨data.length, _, rfl, opened⟩

/-- Equal records are of equal offsets, by induction on the writes. -/
theorem recorder_offsets {pages : List LoadedPage} {fs fs' : Vfs} {size : Nat}
    (attr : fs.getAttr = fun _ => some size)
    (same : pages.foldl (store recorder) fs = pages.foldl (putBack recorder) fs')
    : fs.readAt = fs'.readAt ∧ ∀ page ∈ pages,
      (if page.file.isAppend then size else page.index * PAGE_SIZE_4K) = page.loadOffset := by
  induction pages generalizing fs fs' with
  | nil => exact ⟨congrArg Vfs.readAt same, fun _ member => absurd member List.not_mem_nil⟩
  | cons page rest ih =>
      have attr' : (page.store recorder fs).getAttr = fun _ => some size := attr
      obtain ⟨reads, later⟩ := ih attr' same
      have first := congrFun (congrFun (congrFun reads 0) 0) 0
      simp only [store, putBack, recorder, storeOffset, attr, Option.getD_some, Option.some.injEq]
        at first
      refine ⟨?_, List.forall_mem_cons.mpr ⟨?_, later⟩⟩
      · funext k node len
        exact congrFun (congrFun (congrFun reads (k + 1)) node) len
      · simpa using congrArg List.length first

end LoadedPage

namespace MemorySet

variable {PTE σ : Type} {s : MemorySet PTE σ} {start size : Nat}

/-- Writing back a range is to put each of its loaded pages back to where it is read, and nothing
else, whatever the writes do.
-/
def SyncsBack (s : MemorySet PTE σ) (start size : Nat) : Prop :=
  ∀ writeAt fs, WriteAt.Works writeAt → fs.Open →
    s.msync writeAt fs start size = .ok (s,
      (s.loadedPages start (wrapAdd start size)).foldl (LoadedPage.putBack writeAt) fs)

/-- Pages are written back to where they are read exactly if their files are read from the start. -/
theorem Tidy.syncsBack_iff (tidy : Tidy s []) (fits : ∀ area ∈ s.ownedMem.values, area.CursorFits)
    : s.SyncsBack start size
      ↔ ∀ page ∈ s.loadedPages start (wrapAdd start size), page.FromStart := by
  constructor
  · intro syncs page member
    -- what the recorder tells in a file system where all files have one size
    have told (end_ : Nat) : (if page.file.isAppend then end_ else page.index * PAGE_SIZE_4K)
        = page.loadOffset := by
      have opened : Vfs.Open ⟨fun _ => some end_, fun _ _ _ => none⟩ := fun _ => rfl
      have stored := msync_stores start size LoadedPage.recorder_works opened tidy fits
      rw [syncs _ _ LoadedPage.recorder_works opened] at stored
      have same := (Prod.mk.inj (Except.ok.inj stored)).2
      exact (LoadedPage.recorder_offsets rfl same.symm).2 page member
    cases append : page.file.isAppend with
    | true =>
        have other := told (page.loadOffset + 1)
        rw [append, if_pos rfl] at other
        omega
    | false =>
        have offset := told 0
        rw [append, if_neg Bool.false_ne_true, LoadedPage.loadOffset] at offset
        exact ⟨by omega, append⟩
  · intro fromStart writeAt fs works opened
    rw [msync_stores start size works opened tidy fits]
    congr 2
    refine List.foldl_ext _ _ _ fun fs page member => ?_
    exact (fromStart page member).store_eq

/-- In every state that requests reach, writing back a range puts its loaded pages back to where
they are read exactly if the files of these pages have their cursors at the start and are not in
append mode.
-/
theorem msync_writes_back_iff [GenericPTE PTE] [GlobalAllocator σ] {s₀ : MemorySet PTE σ}
    (fresh : s₀.ownedMem = .empty) (run : Relation.ReflTransGen (Change none) s₀ s)
    (fits : ∀ area ∈ s.ownedMem.values, area.CursorFits) (start size : Nat)
    : s.SyncsBack start size
      ↔ ∀ page ∈ s.loadedPages start (wrapAdd start size), page.FromStart :=
  (run_keeps run (.of_empty fresh)).1.syncsBack_iff fits

/-- The cursor of the area that a page of a mapping lies in: the area begins as far behind the start
of the mapping as its cursor is behind the offset of the mapping.
-/
theorem mapping_cursor [GenericPTE PTE] [GlobalAllocator σ] {s₀ s₁ s₂ : MemorySet PTE σ}
    {fs : Vfs} {a page : Nat} {flags : MappingFlags} {fixed : Bool} {backend : MemBackend}
    {area : MapArea} (fresh : s₀.ownedMem = .empty)
    (before : Relation.ReflTransGen (Change none) s₀ s) (range : MmapRange s start size fixed)
    (created : s.mmap fs start size flags fixed (some backend) = .ok ((a : Int), s₁))
    (lower : a ≤ page) (upper : page < a + alignUpSize size)
    (after : Relation.ReflTransGen (Change (some page)) s₁ s₂)
    (member : area ∈ s₂.ownedMem.values) (inside : area.vaddr ≤ page ∧ page < area.stop)
    : ∃ b, area.backend = some b
      ∧ b.file.offset + (page - area.vaddr) = backend.file.offset + (page - a)
      ∧ b.file.isAppend = backend.file.isAppend := by
  have tidy : Tidy s [] := (run_keeps before (.of_empty fresh)).1
  have mapped := (Keeping.mmap tidy range).of_ok created
  have backed := mapped.2 a rfl backend rfl page lower upper
  have tidy₁ : Tidy s₁ [] := by
    have keeping := mapped.1
    split at keeping <;> exact keeping.tidy
  obtain ⟨tidy₂, kept⟩ := run_keeps after tidy₁
  obtain ⟨area', member', lower', upper', position⟩ := kept page rfl _ backed
  obtain rfl := tidy₂.unique member' member ⟨lower', upper'⟩ inside
  obtain ⟨b, same, moved⟩ := Option.map_eq_some_iff.mp position
  have offset := congrArg (fun b => b.file.offset) moved
  have append := congrArg (fun b => b.file.isAppend) moved
  exact ⟨b, same, offset, append⟩

/-- A file system that accepts all writes. -/
def emptyFiles : Vfs where
  getAttr _ := some 0
  readAt _ _ _ := some []

/-- Two pages of a file are mapped from an offset on, and the first of them is touched. -/
def touchedRun (offset : Nat) : Except Crash (MemorySet Rv64PTE PagePool) := do
  let s ← newEmpty blank (fun _ => 0)
  let (_, s) ← s.mmap emptyFiles 0x1000 0x2000 { read := true, write := true } true
    (some ⟨⟨0, true, true, false, offset⟩⟩)
  let (_, s) ← s.handlePageFault emptyFiles 0x1000 { write := true }
  return s

/-- The set of such a run is reached by requests. -/
theorem touchedRun_reached {offset : Nat} {s : MemorySet Rv64PTE PagePool}
    (run : touchedRun offset = .ok s)
    : ∃ s₀ : MemorySet Rv64PTE PagePool, s₀.ownedMem = .empty
      ∧ Relation.ReflTransGen (Change none) s₀ s := by
  obtain ⟨s₀, created, more⟩ := bind_eq_ok.mp run
  obtain ⟨⟨addr, s₁⟩, mapped, rest⟩ := bind_eq_ok.mp more
  obtain ⟨⟨result, s₂⟩, touched, same⟩ := bind_eq_ok.mp rest
  cases same
  have fresh : s₀.ownedMem = .empty := newEmpty_areas created
  have first : Change none s₀ s₁ :=
    .mmap ⟨by decide, by decide, by decide, by simp⟩ (by simp) mapped
  exact ⟨s₀, fresh, (Relation.ReflTransGen.single first).tail (.handlePageFault touched)⟩

/-- Witness: a page at the start of its file is written back to where it is read. -/
theorem msync_writes_back_iff_start
    : ∃ s, touchedRun 0 = .ok s
      ∧ (s.loadedPages 0x1000 0x3000).map (·.loadOffset) = [0]
      ∧ s.SyncsBack 0x1000 0x2000 := by
  have shape : (touchedRun 0).map (fun s =>
      ((s.loadedPages 0x1000 0x3000).map fun page =>
          (page.loadOffset, page.file.offset, page.file.isAppend),
        s.ownedMem.values.map fun area => area.backend.map (·.file.offset)))
      = .ok ([(0, 0, false)], [some 0]) := by
    decide +kernel
  obtain ⟨s, run, found⟩ := map_eq_ok.mp shape
  obtain ⟨s₀, fresh, reached⟩ := touchedRun_reached run
  obtain ⟨pages, areas⟩ := Prod.mk.inj found
  obtain ⟨page, isPage, loaded⟩ := List.map_eq_singleton_iff.mp pages
  have fits : ∀ area ∈ s.ownedMem.values, area.CursorFits := by
    intro area member backend same
    obtain ⟨only, isOnly, offset⟩ := List.map_eq_singleton_iff.mp areas
    rw [isOnly, List.mem_singleton] at member
    rw [member] at same
    rw [same, Option.map_some, Option.some.injEq] at offset
    omega
  refine ⟨s, run, by rw [isPage, List.map_singleton, (Prod.mk.inj loaded).1],
    (msync_writes_back_iff fresh reached fits 0x1000 0x2000).mpr fun other member => ?_⟩
  rw [show wrapAdd 0x1000 0x2000 = 0x3000 from rfl, isPage, List.mem_singleton] at member
  obtain ⟨-, offset⟩ := Prod.mk.inj loaded
  exact member ▸ ⟨(Prod.mk.inj offset).1, (Prod.mk.inj offset).2⟩

/-- A page at offset `0x5000` of its file is written back to the start of the file: this is the
offset of the only write.
-/
theorem msync_writes_elsewhere
    : (touchedRun 0x5000).map (fun s => (s.loadedPages 0x1000 0x3000).map (·.loadOffset))
        = .ok [0x5000]
      ∧ ((touchedRun 0x5000).bind fun s =>
          (s.msync LoadedPage.recorder noFiles 0x1000 0x2000).map fun (_, fs) =>
            ((fs.readAt 0 0 0).map List.length, fs.readAt 1 0 0))
        = .ok (some 0, none) := by
  constructor
  · decide +kernel
  · decide +kernel

end MemorySet

end RCoreOS.Axmem
