import RCoreOS.PageTable.SmallPages
import RCoreOS.Lib.Outcome
import Mathlib.Data.List.ReduceOption

/-! Physical pages of user areas. They come from the global page allocator, which names a
page by its address in the linear mapping of physical memory; page table frames come from the
same allocator.
-/

namespace RCoreOS.Axmem

open PageTable Outcome

def PHYS_VIRT_OFFSET : Nat := 0xffff_ffc0_0000_0000

/-- `usize` subtraction, which wraps in a release build. -/
def wrapSub (a b : Nat) : Nat :=
  (a + (USIZE_RANGE - b)) % USIZE_RANGE

def virtToPhys (vaddr : Nat) : Nat :=
  wrapSub vaddr PHYS_VIRT_OFFSET

def physToVirt (paddr : Nat) : Nat :=
  wrapAdd paddr PHYS_VIRT_OFFSET

/-- The error type used for allocation. -/
inductive AllocError where
  | invalidParam
  | memoryOverlap
  | noMemory
  | notAllocated
deriving DecidableEq, Repr

/-- The errors that memory sets return. -/
inductive AxError where
  | badAddress
  | invalidInput
  | noMemory
deriving DecidableEq, Repr

abbrev AxResult := Except AxError

def allocErrToAxErr : AllocError → AxError
  | .invalidParam | .memoryOverlap | .notAllocated => .invalidInput
  | .noMemory => .noMemory

/-- The page allocator; `σ` is its state. -/
class GlobalAllocator (σ : Type) where
  allocPages : σ → Nat → Nat → Except AllocError Nat × σ
  deallocPages : σ → Nat → Nat → σ

/-- `PagingIfImpl`. -/
instance {σ : Type} [GlobalAllocator σ] : PagingIf σ where
  allocFrame a :=
    match GlobalAllocator.allocPages a 1 PAGE_SIZE_4K with
    | (.ok vaddr, a) => (some (virtToPhys vaddr), a)
    | (.error _, a) => (none, a)
  deallocFrame a paddr := GlobalAllocator.deallocPages a (physToVirt paddr) 1

theorem allocFrame_eq {σ : Type} [GlobalAllocator σ] (a : σ)
    : PagingIf.allocFrame a
      = match GlobalAllocator.allocPages a 1 PAGE_SIZE_4K with
        | (.ok vaddr, a) => (some (virtToPhys vaddr), a)
        | (.error _, a) => (none, a) :=
  rfl

theorem deallocFrame_eq {σ : Type} [GlobalAllocator σ] (a : σ) (paddr : Nat)
    : PagingIf.deallocFrame a paddr = GlobalAllocator.deallocPages a (physToVirt paddr) 1 :=
  rfl

/-- The addresses of pages in the linear mapping, that of physical address 0 excepted. -/
def Linear (vaddr : Nat) : Prop :=
  vaddr % 4096 = 0 ∧ PHYS_VIRT_OFFSET < vaddr ∧ vaddr < USIZE_RANGE

/-- What the users of the allocator rely on: pages that are handed out lie in the linear
mapping and are not in use, and a page that is returned is the only one released.
-/
class LawfulGlobalAllocator (σ : Type) [GlobalAllocator σ] where
  inUse : σ → Set Nat
  linear : ∀ {a : σ} {f : Nat}, f ∈ inUse a → ∃ vaddr, Linear vaddr ∧ f = virtToPhys vaddr
  alloc_ok
    : ∀ {a a' : σ} {num vaddr : Nat},
        GlobalAllocator.allocPages a num PAGE_SIZE_4K = (.ok vaddr, a')
        → (∀ i, i < num → Linear (vaddr + i * 4096) ∧ virtToPhys (vaddr + i * 4096) ∉ inUse a)
          ∧ ∀ f, f ∈ inUse a' ↔ f ∈ inUse a ∨ ∃ i, i < num ∧ f = virtToPhys (vaddr + i * 4096)
  alloc_error
    : ∀ {a a' : σ} {num : Nat} {e : AllocError},
        GlobalAllocator.allocPages a num PAGE_SIZE_4K = (.error e, a') → inUse a' = inUse a
  dealloc
    : ∀ {a : σ} {vaddr : Nat},
        Linear vaddr
        → virtToPhys vaddr ∈ inUse a
        → inUse (GlobalAllocator.deallocPages a vaddr 1) = inUse a \ {virtToPhys vaddr}

-----------------------------------------------------------------------------------------
-- The linear mapping
-----------------------------------------------------------------------------------------

theorem wrapSub_of_le {a b : Nat} (le : b ≤ a) (lt : a < USIZE_RANGE) : wrapSub a b = a - b := by
  unfold wrapSub USIZE_RANGE at *
  omega

theorem virtToPhys_of_linear {vaddr : Nat} (linear : Linear vaddr)
    : virtToPhys vaddr = vaddr - PHYS_VIRT_OFFSET :=
  wrapSub_of_le linear.2.1.le linear.2.2

/-- A linear page has a frame address that is not 0. -/
theorem Linear.frame {vaddr : Nat} (linear : Linear vaddr)
    : FrameAddr (virtToPhys vaddr) ∧ virtToPhys vaddr ≠ 0 := by
  rw [virtToPhys_of_linear linear]
  obtain ⟨aligned, above, below⟩ := linear
  unfold FrameAddr PHYS_VIRT_OFFSET USIZE_RANGE at *
  omega

theorem Linear.physToVirt {vaddr : Nat} (linear : Linear vaddr)
    : physToVirt (virtToPhys vaddr) = vaddr := by
  rw [virtToPhys_of_linear linear]
  obtain ⟨aligned, above, below⟩ := linear
  unfold Axmem.physToVirt wrapAdd PHYS_VIRT_OFFSET USIZE_RANGE at *
  omega

/-- Different machine addresses have different physical addresses. -/
theorem virtToPhys_inj {v w : Nat} (boundV : v < USIZE_RANGE) (boundW : w < USIZE_RANGE)
    (same : virtToPhys v = virtToPhys w)
    : v = w := by
  unfold virtToPhys wrapSub PHYS_VIRT_OFFSET USIZE_RANGE at *
  omega

/-- Releasing a page table frame releases its page. -/
theorem inUse_deallocFrame {σ : Type} [GlobalAllocator σ] [LawfulGlobalAllocator σ] {a : σ}
    {p : Nat} (member : p ∈ LawfulGlobalAllocator.inUse a)
    : LawfulGlobalAllocator.inUse (PagingIf.deallocFrame a p)
      = LawfulGlobalAllocator.inUse a \ {p} := by
  obtain ⟨vaddr, linear, eq⟩ := LawfulGlobalAllocator.linear member
  rw [eq] at member ⊢
  rw [deallocFrame_eq, linear.physToVirt]
  exact LawfulGlobalAllocator.dealloc linear member

/-- Page table frames inherit the laws of the allocator. -/
instance {σ : Type} [GlobalAllocator σ] [LawfulGlobalAllocator σ] : LawfulPagingIf σ where
  inUse := LawfulGlobalAllocator.inUse
  alloc_some := by
    intro a a' p run
    rw [allocFrame_eq] at run
    rcases alloc : GlobalAllocator.allocPages a 1 PAGE_SIZE_4K with ⟨_ | vaddr, a₁⟩
    · simp [alloc] at run
    · simp only [alloc, Prod.mk.injEq, Option.some.injEq] at run
      obtain ⟨rfl, rfl⟩ := run
      obtain ⟨fresh, used⟩ := LawfulGlobalAllocator.alloc_ok alloc
      have page := fresh 0 (by omega)
      simp only [Nat.zero_mul, Nat.add_zero] at page
      refine ⟨page.2, page.1.frame.1, ?_⟩
      ext f
      rw [used, Set.mem_insert_iff, or_comm]
      simp
  alloc_none := by
    intro a a' run
    rw [allocFrame_eq] at run
    rcases alloc : GlobalAllocator.allocPages a 1 PAGE_SIZE_4K with ⟨e | vaddr, a₁⟩
    · simp only [alloc, Prod.mk.injEq, true_and] at run
      subst run
      exact LawfulGlobalAllocator.alloc_error alloc
    · simp [alloc] at run
  dealloc := inUse_deallocFrame

-----------------------------------------------------------------------------------------
-- The machine
-----------------------------------------------------------------------------------------

/-- A page table with the memory it lives in, and the bytes of all other frames by physical
address.
-/
structure Machine (PTE σ : Type) extends Paging PTE σ where
  bytes : Nat → UInt8

/-- Why an operation does not return: the allocator has no page, an `unwrap`, `expect` or
assertion fails, or a loop does not end.
-/
inductive Crash where
  | outOfMemory
  | panic
  | endless
deriving DecidableEq, Repr

/-- A wrapper of a single 4K page; it holds its address in the linear mapping. -/
structure PhysPage where
  startVaddr : Nat
deriving DecidableEq, Repr

namespace Machine

variable {PTE σ : Type}

/-- `unwrap` of a page table operation. -/
def unwrap {α : Type} (m : Machine PTE σ) (call : PagingResult α × Paging PTE σ)
    : Except Crash (Machine PTE σ) :=
  match call with
  | (.ok _, paging) => .ok { m with toPaging := paging }
  | (.error .noMemory, _) => .error .outOfMemory
  | (.error _, _) => .error .panic

variable [GenericPTE PTE] [GlobalAllocator σ]

def map (m : Machine PTE σ) (vaddr target : Nat) (flags : MappingFlags)
    : Except Crash (Machine PTE σ) :=
  m.unwrap (m.toPaging.map vaddr target .size4K flags)

def mapOverwrite (m : Machine PTE σ) (vaddr target : Nat) (flags : MappingFlags)
    : Except Crash (Machine PTE σ) :=
  m.unwrap (m.toPaging.mapOverwrite vaddr target .size4K flags)

def mapFault (m : Machine PTE σ) (vaddr : Nat) (flags : MappingFlags)
    : Except Crash (Machine PTE σ) :=
  m.unwrap (m.toPaging.mapFault vaddr .size4K flags)

def mapRegion (m : Machine PTE σ) (vaddr paddr size : Nat) (flags : MappingFlags)
    (allowHuge : Bool) : Except Crash (Machine PTE σ) :=
  m.unwrap (m.toPaging.mapRegion vaddr paddr size flags allowHuge)

def mapFaultRegion (m : Machine PTE σ) (vaddr size : Nat) (flags : MappingFlags)
    : Except Crash (Machine PTE σ) :=
  m.unwrap (m.toPaging.mapFaultRegion vaddr size flags)

def unmapRegion (m : Machine PTE σ) (vaddr size : Nat) : Except Crash (Machine PTE σ) :=
  match m.toPaging.unmapRegion vaddr size with
  | (.ok (), paging) => .ok { m with toPaging := paging }
  | (.error _, _) => .error .panic

def updateRegion (m : Machine PTE σ) (vaddr size : Nat) (flags : MappingFlags)
    : Except Crash (Machine PTE σ) :=
  match m.toPaging.updateRegion vaddr size flags with
  | some call => m.unwrap call
  | none => .error .endless

/-- Writes bytes to consecutive physical addresses. -/
def writeBytes (m : Machine PTE σ) (paddr : Nat) (data : List UInt8) : Machine PTE σ :=
  { m with
    bytes := fun a =>
      if paddr ≤ a then (data[a - paddr]?).getD (m.bytes a) else m.bytes a }

/-- The bytes of `len` consecutive physical addresses. -/
def readBytes (m : Machine PTE σ) (paddr len : Nat) : List UInt8 :=
  (List.range len).map (fun i => m.bytes (paddr + i))

def withAllocator (m : Machine PTE σ) (allocator : σ) : Machine PTE σ :=
  { m with allocator }

end Machine

namespace PhysPage

variable {PTE σ : Type} [GlobalAllocator σ]

def paddr (page : PhysPage) : Nat :=
  virtToPhys page.startVaddr

/-- Allocates one page; its bytes are left as they are. -/
def alloc (m : Machine PTE σ) : AxResult PhysPage × Machine PTE σ :=
  match GlobalAllocator.allocPages m.allocator 1 PAGE_SIZE_4K with
  | (.ok vaddr, allocator) => (.ok ⟨vaddr⟩, m.withAllocator allocator)
  | (.error e, allocator) => (.error (allocErrToAxErr e), m.withAllocator allocator)

/-- Allocates some contiguous pages, filled with zero and then with the data; more data than
fits is a slice index out of bounds.
-/
def allocContiguous (numPages alignPow2 : Nat) (data : Option (List UInt8))
    (m : Machine PTE σ) : Except Crash (AxResult (List (Option PhysPage)) × Machine PTE σ) :=
  match GlobalAllocator.allocPages m.allocator numPages alignPow2 with
  | (.error e, allocator) => .ok (.error (allocErrToAxErr e), m.withAllocator allocator)
  | (.ok vaddr, allocator) =>
      let m := (m.withAllocator allocator).writeBytes (virtToPhys vaddr)
        (List.replicate (numPages * PAGE_SIZE_4K) 0)
      let pages := (List.range numPages).map (fun i => some ⟨vaddr + i * PAGE_SIZE_4K⟩)
      match data with
      | none => .ok (.ok pages, m)
      | some data =>
          if numPages * PAGE_SIZE_4K < data.length then .error .panic
          else .ok (.ok pages, m.writeBytes (virtToPhys vaddr) data)

def fill (page : PhysPage) (byte : UInt8) (m : Machine PTE σ) : Machine PTE σ :=
  m.writeBytes page.paddr (List.replicate PAGE_SIZE_4K byte)

/-- `Drop`: the page is returned. -/
def drop (m : Machine PTE σ) (page : PhysPage) : Machine PTE σ :=
  m.withAllocator (GlobalAllocator.deallocPages m.allocator page.startVaddr 1)

end PhysPage

/-- Drops the loaded pages of a list of slots. -/
def dropPages {PTE σ : Type} [GlobalAllocator σ] (pages : List (Option PhysPage))
    (m : Machine PTE σ) : Machine PTE σ :=
  pages.reduceOption.foldl PhysPage.drop m

end RCoreOS.Axmem
