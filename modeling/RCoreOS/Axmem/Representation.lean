import RCoreOS.Axmem.SetOperations
import RCoreOS.Axmem.PagePool
import RCoreOS.Lib.Transition

/-! The representation invariant of memory sets: over every run of requests the areas and the
page table tell the same story, and no request panics.
-/

namespace RCoreOS.Axmem

open PageTable GenericPTE Outcome
open PageTable.Paging (SameTables)
open Transition (Reachable)

/-- A file position from which no page of user memory is out of reach. -/
def MemBackend.Bounded (vaddr : Nat) (backend : Option MemBackend) : Prop :=
  ∀ b ∈ backend, b.file.offset ≤ 2 ^ 63 + vaddr

theorem MemBackend.bounded_none {vaddr : Nat} : MemBackend.Bounded vaddr none :=
  nofun

/-- The areas that requests make: they can be read, and their files reach all their pages. -/
def Accessible (vaddr : Nat) (flags : MappingFlags) (backend : Option MemBackend) : Prop :=
  flags.read = true ∧ MemBackend.Bounded vaddr backend

/-- Open files serve areas of this kind and make them fail for memory only. -/
theorem Vfs.Open.serves {fs : Vfs} (opened : fs.Open)
    : Serves fs (· = .outOfMemory) Accessible where
  memory := rfl
  behind := by
    rintro area addr placed cuts ⟨readable, bounded⟩
    refine ⟨readable, fun b member => ?_⟩
    obtain ⟨backend, here, rfl⟩ := Option.map_eq_some_iff.mp member
    have bound := bounded backend here
    have lower := cuts.lower
    simp only [MemBackend.forward]
    omega
  seek := by
    rintro area addr shaped cuts ⟨-, bounded⟩
    have lower := cuts.lower
    have upper := cuts.upper.trans_le shaped.below
    refine .of_eq (seekBackend_opened opened (by omega) fun b member => ?_) rfl
    have bound := bounded b member
    omega
  fill := by
    rintro PTE σ area i page m shaped inside ⟨-, bounded⟩
    have below := shaped.below
    have distance : i * PAGE_SIZE_4K < 2 ^ 38 - area.vaddr := by
      unfold MapArea.stop at below
      unfold PAGE_SIZE_4K
      omega
    have word : i * PAGE_SIZE_4K < 2 ^ 63 := by omega
    obtain ⟨r, run⟩ := fillPage_opened (m := m) page opened word fun b member => by
      have bound := bounded b member
      omega
    exact .of_eq run ((fillPage_returns page word).of_ok run)

/-- The requests to a memory set. -/
inductive Request where
  | mmap (start size : Nat) (flags : MappingFlags) (fixed : Bool) (backend : Option MemBackend)
  | munmap (start size : Nat)
  | mprotect (start size : Nat) (flags : MappingFlags)
  | handlePageFault (addr : Nat) (flags : MappingFlags)
  | manualAllocForLazy (addr : Nat)
  | unmapUserAreas

/-- Ranges start at a page and lie in user memory, new flags can be read, and a protected range
has whole pages. Page faults are arbitrary.
-/
def Request.Allowed : Request → Prop
  | .mmap start size flags fixed backend =>
      start % 4096 = 0
      ∧ 0 < size
      ∧ start ≤ 2 ^ 38
      ∧ size ≤ 2 ^ 38
      ∧ (fixed = true → start + size ≤ 2 ^ 38)
      ∧ flags.read = true
      ∧ MemBackend.Bounded 0 backend
  | .munmap start size => start % 4096 = 0 ∧ 0 < size ∧ start + size ≤ 2 ^ 38
  | .mprotect start size flags =>
      start % 4096 = 0
      ∧ 0 < size
      ∧ size % 4096 = 0
      ∧ start + size ≤ 2 ^ 38
      ∧ flags.read = true
  | .handlePageFault .. | .manualAllocForLazy _ | .unmapUserAreas => True

namespace MemorySet

/-- The files of the areas are in reach of all their pages. -/
def Bounded {PTE σ : Type} (s : MemorySet PTE σ) : Prop :=
  ∀ area ∈ s.ownedMem.values, MemBackend.Bounded area.vaddr area.backend

variable {PTE σ : Type} [GenericPTE PTE] [GlobalAllocator σ]

def serve (fs : Vfs) (s : MemorySet PTE σ) : Request → Except Crash (MemorySet PTE σ)
  | .mmap start size flags fixed backend => do
      let (_, s) ← s.mmap fs start size flags fixed backend
      return s
  | .munmap start size => s.munmap fs start size
  | .mprotect start size flags => s.mprotect fs start size flags
  | .handlePageFault addr flags => do
      let (_, s) ← s.handlePageFault fs addr flags
      return s
  | .manualAllocForLazy addr => do
      let (_, s) ← s.manualAllocForLazy fs addr
      return s
  | .unmapUserAreas => s.unmapUserAreas

variable [LawfulGlobalAllocator σ]

/-- What others do, the user program included: they leave the page table alone and do not
release the frames of the areas.
-/
structure Others (s s' : MemorySet PTE σ) : Prop where
  areas : s'.ownedMem = s.ownedMem
  attached : s'.attachedMem = s.attachedMem
  tables : SameTables s.toPaging s'.toPaging
  frames : ∀ area ∈ s.ownedMem.values, ∀ f ∈ area.frames, f ∈ s'.toPaging.used

/-- A new memory set in any memory. -/
def Created (s : MemorySet PTE σ) : Prop :=
  ∃ memory bytes, newEmpty memory bytes = .ok s

inductive Step (s s' : MemorySet PTE σ) : Prop
  | request {fs : Vfs} {r : Request} (opened : fs.Open) (allowed : r.Allowed)
    (run : s.serve fs r = .ok s')
  | others (others : Others s s')

/-- The areas and the page table tell the same story. -/
structure Represents (s : MemorySet PTE σ) : Prop where
  keys : ∀ entry ∈ s.ownedMem.entries, entry.1 = entry.2.vaddr
  nonempty : ∀ area ∈ s.ownedMem.values, area.pages ≠ []
  disjoint
    : s.ownedMem.values.Pairwise (fun a b =>
        a.vaddr + a.size ≤ b.vaddr ∨ b.vaddr + b.size ≤ a.vaddr)
  slots
    : ∀ area ∈ s.ownedMem.values, ∀ i slot,
        area.pages[i]? = some slot
        → ∃ pte,
          s.getEntryMut (area.vaddr + i * PAGE_SIZE_4K) = .ok (pte, .size4K)
          ∧ (∀ page : PhysPage,
              page.startVaddr < USIZE_RANGE
              → (slot = some page
                  ↔ isPresent (s.entry pte) = true
                    ∧ paddr (s.entry pte) = page.paddr
                    ∧ flags (s.entry pte) = area.flags.access))
          ∧ (slot = none
              ↔ isPresent (s.entry pte) = false
                ∧ ∃ f, s.entry pte = newFaultPage f false)
  outside
    : ∀ va,
        va < 2 ^ 38
        → (∀ area ∈ s.ownedMem.values, va < area.vaddr ∨ area.vaddr + area.size ≤ va)
        → s.view va = .unused

variable [LawfulPTE PTE] {s s' : MemorySet PTE σ} {fs : Vfs}

theorem agrees_newEmpty {memory : PhysMemory PTE σ} {bytes : Nat → UInt8}
    (run : newEmpty memory bytes = .ok s)
    : Agrees Accessible s [] := by
  rcases created : PageTable64.tryNew memory with ⟨e | table, memory'⟩
  · simp [newEmpty, created] at run
  · simp only [newEmpty, created, Except.ok.injEq] at run
    subst run
    have table := Paging.tryNew_ok True created
    have laid : Laid _ [] :=
      ⟨table.wellFormed, List.forall_mem_nil _, .nil, List.forall_mem_nil _,
        fun va _ _ => table.view va⟩
    exact {
      keyed := List.forall_mem_nil _
      sound := ⟨laid, .nil, List.forall_mem_nil _, List.forall_mem_nil _⟩
      detached := rfl
      kinds := List.forall_mem_nil _ }

/-- A request ends in a set that agrees, or runs out of memory. -/
theorem Agrees.serve (agrees : Agrees Accessible s []) (opened : fs.Open) {r : Request}
    (allowed : r.Allowed)
    : Ends (· = .outOfMemory) (fun s' => Agrees Accessible s' []) (s.serve fs r) := by
  have serves := opened.serves
  cases r with
  | mmap start size flags fixed backend =>
      obtain ⟨aligned, positive, low, small, below, readable, bounded⟩ := allowed
      refine (agrees.mmap serves aligned positive low small below fun vaddr => ?_).bind
        fun r agrees' => agrees'
      exact ⟨readable, fun b member => (bounded b member).trans (by omega)⟩
  | munmap start size =>
      obtain ⟨aligned, positive, below⟩ := allowed
      exact agrees.munmap serves aligned positive below
  | mprotect start size flags =>
      obtain ⟨aligned, positive, alignedSize, below, readable⟩ := allowed
      exact agrees.mprotect serves (fun old => ⟨readable, old.2⟩) aligned alignedSize positive below
  | handlePageFault addr flags =>
      exact (agrees.handlePageFault serves addr flags).bind fun r agrees' => agrees'
  | manualAllocForLazy addr =>
      exact (agrees.manualAllocForLazy serves addr).bind fun r agrees' => agrees'
  | unmapUserAreas => exact agrees.unmapUserAreas

theorem Agrees.others {kind : Nat → MappingFlags → Option MemBackend → Prop}
    (agrees : Agrees kind s []) (others : Others s s')
    : Agrees kind s' [] := by
  obtain ⟨areas, attached, tables, frames⟩ := others
  refine ⟨areas ▸ agrees.keyed, areas ▸ ⟨agrees.sound.laid.elsewhere tables, ?_⟩,
    attached.trans agrees.detached, areas ▸ agrees.kinds⟩
  refine agrees.sound.framed.elsewhere (congrArg PageTable64.intrmTables tables.object) ?_
  intro f member
  obtain ⟨area, inMap, owned⟩ := List.mem_flatMap.mp member
  exact frames area inMap f owned

theorem Agrees.step (agrees : Agrees Accessible s []) (step : Step s s')
    : Agrees Accessible s' [] := by
  cases step with
  | request opened allowed run => exact (agrees.serve opened allowed).of_ok run
  | others others => exact agrees.others others

/-- The entry of a slot tells whether the slot is loaded, with which page and flags. -/
theorem slot_entry {flags' : MappingFlags} {slot : Option PhysPage} {e : PTE}
    (shown : SlotShown flags' slot (.page e .size4K)) (readable : flags'.read = true)
    (linear : ∀ page, slot = some page → Linear page.startVaddr)
    : (∀ page : PhysPage,
        page.startVaddr < USIZE_RANGE
        → (slot = some page
            ↔ isPresent e = true ∧ paddr e = page.paddr ∧ flags e = flags'.access))
      ∧ (slot = none ↔ isPresent e = false ∧ ∃ f, e = newFaultPage f false) := by
  cases slot with
  | none =>
      obtain ⟨f, fault⟩ := shown
      cases fault
      refine ⟨fun page bound => by simp [LawfulPTE.fault_absent], ?_⟩
      exact ⟨fun _ => ⟨LawfulPTE.fault_absent .., f, rfl⟩, fun _ => rfl⟩
  | some loaded =>
      cases shown
      have linear := linear loaded rfl
      have frame := PhysPage.frameAddr linear
      have present : isPresent (newPage loaded.paddr flags' false : PTE) = true :=
        LawfulPTE.page_present loaded.paddr false (MappingFlags.isLeaf_of_read readable)
      simp only [LawfulPTE.page_paddr _ _ frame.1, LawfulPTE.page_flags, present]
      refine ⟨fun page bound => ⟨?_, fun ⟨_, same, _⟩ => ?_⟩, by simp⟩
      · rintro ⟨⟩
        exact ⟨trivial, rfl, trivial⟩
      · have sameStart := virtToPhys_inj linear.2.2 bound same
        cases loaded
        cases page
        cases sameStart
        rfl

/-- Agreement read off the entries. -/
theorem Agrees.represents (agrees : Agrees Accessible s []) : Represents s := by
  have laid : Laid s.toPaging s.ownedMem.values := agrees.sound.laid
  refine ⟨agrees.keyed, fun area member => (laid.shaped area member).nonempty, ?_, ?_, ?_⟩
  · refine laid.apart.imp fun {a b} apart => ?_
    rw [← a.stop_eq, ← b.stop_eq]
    exact apart
  · intro area member i slot found
    have shaped := laid.shaped area member
    have shown := laid.shown area member i slot found (area.vaddr + i * PAGE_SIZE_4K)
      (by unfold PAGE_SIZE_4K; omega) (by unfold PAGE_SIZE_4K; omega)
    obtain ⟨e, page⟩ := shown.page
    obtain ⟨pte, entry, rfl, -⟩ := Paging.getEntryMut_of_page page
    rw [page] at shown
    refine ⟨pte, entry, slot_entry shown (agrees.kinds area member).1 ?_⟩
    rintro loaded rfl
    exact shaped.linear loaded (List.mem_of_getElem? found)
  · intro va below away
    refine laid.free va below fun area member => ?_
    have away := away area member
    rw [← area.stop_eq] at away
    unfold MapArea.Away
    omega

/-- Every reachable set agrees, by the lemma of each step. -/
theorem agrees_reachable (reachable : Reachable Created Step s) : Agrees Accessible s [] := by
  refine reachable.invariant (Agrees Accessible · []) ?_ fun s s' agrees step => agrees.step step
  rintro s ⟨memory, bytes, run⟩
  exact agrees_newEmpty run

/-- In every run the areas and the page table tell the same story, and the only way a request
can fail is that memory runs out.
-/
theorem areas_represent_table (reachable : Reachable Created Step s)
    : Represents s
      ∧ ∀ fs r, fs.Open → r.Allowed → ∀ crash, s.serve fs r = .error crash
          → crash = .outOfMemory := by
  have agrees := agrees_reachable reachable
  exact ⟨agrees.represents, fun fs r opened allowed crash run =>
    (agrees.serve opened allowed).of_error run⟩

omit [LawfulPTE PTE] in
/-- Requests served one after the other lead to reachable sets, by induction on the list. -/
theorem reachable_requests {requests : List Request} (opened : fs.Open)
    (allowed : ∀ r ∈ requests, r.Allowed) (reachable : Reachable Created Step s)
    (run : requests.foldlM (serve fs) s = .ok s')
    : Reachable Created Step s' := by
  induction requests generalizing s with
  | nil =>
      cases run
      exact reachable
  | cons r requests ih =>
      obtain ⟨first, later⟩ := List.forall_mem_cons.mp allowed
      rw [List.foldlM_cons] at run
      cases served : s.serve fs r with
      | error crash => simp [served] at run
      | ok s₁ =>
          rw [served, ok_bind] at run
          exact ih later (reachable.next (.request opened first served)) run

/-- Memory of zero-filled frames. -/
def blank : PhysMemory Rv64PTE PagePool where
  frames _ _ := zeroed
  allocator := .empty

/-- A memory set can be made in it. -/
theorem newEmpty_blank
    : ∃ s : MemorySet Rv64PTE PagePool, newEmpty blank (fun _ => 0) = .ok s := by
  have start : ((newEmpty blank (fun _ => 0) : Except Crash (MemorySet Rv64PTE PagePool)).map
      fun _ => ()) = .ok () := by
    decide +kernel
  obtain ⟨s, created, -⟩ := map_eq_ok.mp start
  exact ⟨s, created⟩

def noFiles : Vfs where
  getAttr _ := some 0
  readAt _ _ _ := none

/-- Three pages are mapped, the middle one is loaded, the first is unmapped and the second
protected.
-/
def splitRequests : List Request :=
  [.mmap 0x1000 0x3000 { read := true, write := true } true none,
    .handlePageFault 0x2345 { read := true },
    .munmap 0x1000 0x1000,
    .mprotect 0x2000 0x1000 { read := true }]

def splitRun : Except Crash (MemorySet Rv64PTE PagePool) := do
  let s ← newEmpty blank (fun _ => 0)
  splitRequests.foldlM (serve noFiles) s

/-- Witness: two areas are left, the first of them loaded. -/
theorem areas_represent_table_split
    : ∃ s, splitRun = .ok s
      ∧ s.ownedMem.entries.map (fun entry => (entry.1, entry.2.pages.map Option.isSome))
        = [(0x2000, [true]), (0x3000, [false])]
      ∧ s.Represents := by
  have shape : (splitRun.map fun s => s.ownedMem.entries.map fun entry =>
      (entry.1, entry.2.pages.map Option.isSome)) = .ok [(0x2000, [true]), (0x3000, [false])] := by
    decide +kernel
  obtain ⟨s, run, entries⟩ := map_eq_ok.mp shape
  obtain ⟨start, created, requests⟩ := bind_eq_ok.mp run
  refine ⟨s, run, entries, ?_⟩
  refine (areas_represent_table (reachable_requests (fun _ => rfl) ?_ (.start ⟨_, _, created⟩)
    requests)).1
  simp [splitRequests, Request.Allowed, MemBackend.bounded_none]

end MemorySet

end RCoreOS.Axmem
