import RCoreOS.Lib.Extent
import RCoreOS.Lib.Transition
import Mathlib.Algebra.BigOperators.Group.List.Basic
import Mathlib.Algebra.BigOperators.Ring.List
import Mathlib.Algebra.Ring.Nat
import Mathlib.Data.Finset.Card

/-! The page allocator over a bitmap. Blocks of several pages are taken from the bitmap as a
whole, while a release gives back the one bit of the first page.
-/

namespace RCoreOS.Allocator

inductive AllocError where
  | invalidParam
  | noMemory
deriving DecidableEq, Repr

/-- The operations of the `bitmap-allocator` crate that the page allocator uses; `test` tells
whether a bit is free.
-/
structure BitAlloc (Bits : Type) where
  cap : Nat
  default : Bits
  insert : Bits → Nat → Bits
  alloc : Bits → Option (Nat × Bits)
  allocContiguous : Bits → Nat → Nat → Option (Nat × Bits)
  dealloc : Bits → Nat → Bits
  test : Bits → Nat → Bool

/-- What the crate documents: allocations take free bits, a release frees the one bit it is
given, which was taken.
-/
structure BitAlloc.Lawful {Bits : Type} (ba : BitAlloc Bits) : Prop where
  test_default (i : Nat) : ba.test ba.default i = false
  test_insert (bits : Bits) (num i : Nat) (fits : num ≤ ba.cap)
    : ba.test (ba.insert bits num) i = true ↔ i < num ∨ ba.test bits i = true
  alloc_some {bits bits' : Bits} {idx : Nat} (taken : ba.alloc bits = some (idx, bits'))
    : ba.test bits idx = true
      ∧ ∀ i, ba.test bits' i = true ↔ ba.test bits i = true ∧ i ≠ idx
  allocContiguous_some {bits bits' : Bits} {num align idx : Nat}
    (taken : ba.allocContiguous bits num align = some (idx, bits'))
    : (∀ i, idx ≤ i → i < idx + num → ba.test bits i = true)
      ∧ ∀ i, ba.test bits' i = true ↔ ba.test bits i = true ∧ ¬ (idx ≤ i ∧ i < idx + num)
  dealloc_test {bits : Bits} {idx : Nat} (taken : ba.test bits idx = false) (i : Nat)
    : ba.test (ba.dealloc bits idx) i = true ↔ ba.test bits i = true ∨ i = idx

/-- `pos & !(align - 1)` for a power of two. -/
def alignDown (pos align : Nat) : Nat :=
  pos - pos % align

def alignUp (pos align : Nat) : Nat :=
  alignDown (pos + align - 1) align

def isPowerOfTwo (n : Nat) : Bool :=
  n != 0 && n &&& (n - 1) == 0

structure BitmapPageAllocator (Bits : Type) where
  base : Nat
  totalPages : Nat
  usedPages : Nat
  inner : Bits
deriving DecidableEq

namespace BitmapPageAllocator

variable {Bits : Type} (ba : BitAlloc Bits) (pageSize : Nat)

def new : BitmapPageAllocator Bits where
  base := 0
  totalPages := 0
  usedPages := 0
  inner := ba.default

/-- `none` is a panic: of the assertion on `PAGE_SIZE`, of the subtraction, or of a bitmap that
is too small.
-/
def init (a : BitmapPageAllocator Bits) (start size : Nat)
    : Option (BitmapPageAllocator Bits) :=
  let stop := alignDown (start + size) pageSize
  let start := alignUp start pageSize
  let totalPages := (stop - start) / pageSize
  if isPowerOfTwo pageSize ∧ start ≤ stop ∧ totalPages ≤ ba.cap then
    some { a with base := start, totalPages, inner := ba.insert a.inner totalPages }
  else none

def allocPages (a : BitmapPageAllocator Bits) (numPages alignPow2 : Nat)
    : Except AllocError (Nat × BitmapPageAllocator Bits) :=
  if alignPow2 % pageSize ≠ 0 then .error .invalidParam
  else if !isPowerOfTwo (alignPow2 / pageSize) then .error .invalidParam
  else if numPages = 0 then .error .invalidParam
  else
    let alignLog2 := (alignPow2 / pageSize).log2
    let taken :=
      if numPages = 1 then ba.alloc a.inner
      else ba.allocContiguous a.inner numPages alignLog2
    match taken with
    | none => .error .noMemory
    | some (idx, inner) =>
        .ok (pageSize * idx + a.base, { a with usedPages := a.usedPages + numPages, inner })

/-- `none` is a panic of one of the subtractions. -/
def deallocPages (a : BitmapPageAllocator Bits) (pos numPages : Nat)
    : Option (BitmapPageAllocator Bits) :=
  if numPages ≤ a.usedPages ∧ a.base ≤ pos then
    some { a with
      usedPages := a.usedPages - numPages
      inner := ba.dealloc a.inner ((pos - a.base) / pageSize) }
  else none

end BitmapPageAllocator

-----------------------------------------------------------------------------------------
-- Runs of allocations and releases
-----------------------------------------------------------------------------------------

/-- A block as its owner knows it. -/
structure Block where
  pos : Nat
  numPages : Nat
deriving DecidableEq, Repr

def Block.extent (pageSize : Nat) (block : Block) : Extent where
  start := block.pos
  size := pageSize * block.numPages

/-- The allocator and the blocks that have been returned and not released. -/
structure Pages (Bits : Type) where
  allocator : BitmapPageAllocator Bits
  live : List Block

namespace Pages

variable {Bits : Type} (ba : BitAlloc Bits) (pageSize : Nat)

/-- An allocator right after `init`. -/
def Started (s : Pages Bits) : Prop :=
  s.live = [] ∧ ∃ start size,
    (BitmapPageAllocator.new ba).init ba pageSize start size = some s.allocator

/-- One call; released blocks were returned with the same number of pages, and satisfy a
condition.
-/
inductive Step (released : Block → Prop) (s : Pages Bits) : Pages Bits → Prop
  | alloc (numPages alignPow2 pos : Nat) (a : BitmapPageAllocator Bits)
    : s.allocator.allocPages ba pageSize numPages alignPow2 = .ok (pos, a)
      → Step released s ⟨a, ⟨pos, numPages⟩ :: s.live⟩
  | refused (numPages alignPow2 : Nat) (error : AllocError)
    : s.allocator.allocPages ba pageSize numPages alignPow2 = .error error
      → Step released s s
  | dealloc (block : Block) (live : List Block) (a : BitmapPageAllocator Bits)
    : s.live.Perm (block :: live) → released block
      → s.allocator.deallocPages ba pageSize block.pos block.numPages = some a
      → Step released s ⟨a, live⟩

abbrev Reachable (released : Block → Prop) (s : Pages Bits) : Prop :=
  Transition.Reachable (Started ba pageSize) (Step ba pageSize released) s

/-- The address of a page. -/
def page (s : Pages Bits) (i : Nat) : Nat :=
  pageSize * i + s.allocator.base

/-- Live blocks start at pages, are not empty, lie in the region and do not overlap, and every
free bit stands for a page outside of them.
-/
structure Safe (s : Pages Bits) : Prop where
  positive : 0 < pageSize
  shaped : ∀ block ∈ s.live, 0 < block.numPages
    ∧ ∃ idx, block.pos = s.page pageSize idx ∧ idx + block.numPages ≤ s.allocator.totalPages
  apart : (s.live.map (Block.extent pageSize)).Pairwise Extent.Apart
  used : s.allocator.usedPages = (s.live.map Block.numPages).sum
  free : ∀ i, ba.test s.allocator.inner i = true
    → i < s.allocator.totalPages ∧ ∀ block ∈ s.live, s.page pageSize i ∉ block.extent pageSize

/-- Pages of the region that no live block covers have their bits free. -/
def Complete (s : Pages Bits) : Prop :=
  ∀ i, i < s.allocator.totalPages
    → (∀ block ∈ s.live, s.page pageSize i ∉ block.extent pageSize)
    → ba.test s.allocator.inner i = true

variable {ba pageSize} {s : Pages Bits}

/-- A page lies in a block exactly when its number is one of the block's. -/
theorem page_mem_extent (positive : 0 < pageSize) {block : Block} {idx i : Nat}
    (start : block.pos = s.page pageSize idx)
    : s.page pageSize i ∈ block.extent pageSize ↔ idx ≤ i ∧ i < idx + block.numPages := by
  have less (x y : Nat) : pageSize * x ≤ pageSize * y ↔ x ≤ y := Nat.mul_le_mul_left_iff positive
  have lt (x y : Nat) : pageSize * x < pageSize * y ↔ x < y := Nat.mul_lt_mul_left positive
  rw [Extent.mem_iff]
  simp only [Block.extent, Extent.stop, start, page]
  rw [← less idx i, ← lt i (idx + block.numPages), Nat.mul_add]
  omega

/-- What a successful allocation returns: a run of free bits, taken out of the bitmap. -/
theorem allocPages_ok (lawful : ba.Lawful) {a a' : BitmapPageAllocator Bits}
    {numPages alignPow2 pos : Nat}
    (allocated : a.allocPages ba pageSize numPages alignPow2 = .ok (pos, a'))
    : 0 < numPages ∧ ∃ idx inner, pos = pageSize * idx + a.base
      ∧ a' = { a with usedPages := a.usedPages + numPages, inner }
      ∧ (∀ i, idx ≤ i → i < idx + numPages → ba.test a.inner i = true)
      ∧ ∀ i, ba.test inner i = true
        ↔ ba.test a.inner i = true ∧ ¬ (idx ≤ i ∧ i < idx + numPages) := by
  unfold BitmapPageAllocator.allocPages at allocated
  split at allocated
  · cases allocated
  split at allocated
  · cases allocated
  split at allocated
  · cases allocated
  rename_i nonzero
  refine ⟨Nat.pos_of_ne_zero nonzero, ?_⟩
  dsimp only at allocated
  split at allocated
  · cases allocated
  · rename_i idx inner taken
    cases allocated
    refine ⟨idx, inner, rfl, rfl, ?_⟩
    split at taken
    · -- a single page takes one bit
      rename_i single
      obtain ⟨free, left⟩ := lawful.alloc_some taken
      subst single
      refine ⟨fun i low high => ?_, fun i => ?_⟩
      · rwa [show i = idx by omega]
      · rw [left]
        refine and_congr_right fun _ => ?_
        omega
    · exact lawful.allocContiguous_some taken

/-- An allocation keeps the accounts: its pages were free, so no live block covered them. -/
theorem Safe.alloc (safe : s.Safe ba pageSize) (lawful : ba.Lawful)
    {numPages alignPow2 pos : Nat} {a : BitmapPageAllocator Bits}
    (allocated : s.allocator.allocPages ba pageSize numPages alignPow2 = .ok (pos, a))
    : (Pages.mk a (⟨pos, numPages⟩ :: s.live)).Safe ba pageSize
      ∧ (s.Complete ba pageSize
        → (Pages.mk a (⟨pos, numPages⟩ :: s.live)).Complete ba pageSize) := by
  obtain ⟨nonzero, idx, inner, rfl, rfl, free, left⟩ := allocPages_ok lawful allocated
  have inside (i : Nat)
      : s.page pageSize i ∈ (Block.mk (pageSize * idx + s.allocator.base) numPages).extent pageSize
        ↔ idx ≤ i ∧ i < idx + numPages :=
    page_mem_extent safe.positive rfl
  have bounded : idx + numPages ≤ s.allocator.totalPages := by
    have last := (safe.free (idx + numPages - 1) (free _ (by omega) (by omega))).1
    omega
  refine ⟨⟨safe.positive, ?_, ?_, ?_, ?_⟩, ?_⟩
  · intro block member
    rcases List.mem_cons.mp member with rfl | older
    · exact ⟨nonzero, idx, rfl, bounded⟩
    · exact safe.shaped block older
  · refine List.pairwise_cons.mpr ⟨fun other member => ?_, safe.apart⟩
    obtain ⟨block, older, rfl⟩ := List.mem_map.mp member
    obtain ⟨positive, first, start, -⟩ := safe.shaped block older
    have covers := fun i => page_mem_extent (i := i) safe.positive start
    -- a block that begins inside the other one would cover a free page
    have notFirst : ¬ (idx ≤ first ∧ first < idx + numPages) := fun within =>
      (safe.free first (free first within.1 within.2)).2 block older
        ((covers first).mpr ⟨Nat.le_refl _, by omega⟩)
    have notIdx : ¬ (first ≤ idx ∧ idx < first + block.numPages) := fun within =>
      (safe.free idx (free idx (Nat.le_refl _) (by omega))).2 block older
        ((covers idx).mpr within)
    simp only [Extent.Apart, Extent.stop, Block.extent, start, page]
    rcases Nat.lt_or_ge idx first with less | ge
    · left
      have := Nat.mul_le_mul_left pageSize (show idx + numPages ≤ first by omega)
      rw [Nat.mul_add] at this
      omega
    · right
      have := Nat.mul_le_mul_left pageSize (show first + block.numPages ≤ idx by omega)
      rw [Nat.mul_add] at this
      omega
  · simp only [List.map_cons, List.sum_cons, safe.used]
    omega
  · intro i stillFree
    obtain ⟨wasFree, outside⟩ := (left i).mp stillFree
    obtain ⟨below, uncovered⟩ := safe.free i wasFree
    refine ⟨below, fun block member => ?_⟩
    rcases List.mem_cons.mp member with rfl | older
    · exact fun covered => outside ((inside i).mp covered)
    · exact uncovered block older
  · intro complete i below uncovered
    refine (left i).mpr ⟨complete i below fun block older => ?_, fun within => ?_⟩
    · exact uncovered block (List.mem_cons_of_mem _ older)
    · exact uncovered _ (List.mem_cons_self ..) ((inside i).mpr within)

/-- The release of a live block does not underflow and keeps the accounts, except that the
bits of all pages but the first stay taken.
-/
theorem Safe.dealloc (safe : s.Safe ba pageSize) (lawful : ba.Lawful) {block : Block}
    {live : List Block} (perm : s.live.Perm (block :: live))
    : ∃ a, s.allocator.deallocPages ba pageSize block.pos block.numPages = some a
      ∧ (Pages.mk a live).Safe ba pageSize
      ∧ (s.Complete ba pageSize
        → ((Pages.mk a live).Complete ba pageSize ↔ block.numPages = 1)) := by
  have known : block ∈ s.live := perm.mem_iff.mpr (List.mem_cons_self ..)
  have kept (other : Block) (member : other ∈ live) : other ∈ s.live :=
    perm.mem_iff.mpr (List.mem_cons_of_mem _ member)
  obtain ⟨nonzero, idx, start, bounded⟩ := safe.shaped block known
  have covers := fun i => page_mem_extent (i := i) safe.positive start
  have used : s.allocator.usedPages = block.numPages + (live.map Block.numPages).sum := by
    rw [safe.used, (perm.map Block.numPages).sum_eq, List.map_cons, List.sum_cons]
  obtain ⟨aparts, apart⟩ := List.pairwise_cons.mp
    ((Extent.apart_perm (perm.map (Block.extent pageSize))).mp safe.apart)
  -- pages of a live block are taken
  have taken (i : Nat) (within : idx ≤ i ∧ i < idx + block.numPages)
      : ba.test s.allocator.inner i = false := by
    rw [← Bool.not_eq_true]
    exact fun free => (safe.free i free).2 block known ((covers i).mpr within)
  have index : (block.pos - s.allocator.base) / pageSize = idx := by
    rw [start, page, Nat.add_sub_cancel, Nat.mul_div_cancel_left idx safe.positive]
  have first : idx ≤ idx ∧ idx < idx + block.numPages := ⟨Nat.le_refl _, by omega⟩
  have bits := lawful.dealloc_test (taken idx first)
  have others (i : Nat) (within : idx ≤ i ∧ i < idx + block.numPages) (other : Block)
      (member : other ∈ live) : s.page pageSize i ∉ other.extent pageSize :=
    (aparts _ (List.mem_map_of_mem member)).not_mem ((covers i).mpr within)
  refine ⟨_, if_pos ⟨by omega, by rw [start, page]; omega⟩, ⟨safe.positive,
    fun other member => safe.shaped other (kept other member), apart, ?_, ?_⟩, ?_⟩
  · change s.allocator.usedPages - block.numPages = (live.map Block.numPages).sum
    rw [used, Nat.add_sub_cancel_left]
  · intro i free
    rw [index] at free
    rcases (bits i).mp free with before | rfl
    · obtain ⟨below, uncovered⟩ := safe.free i before
      exact ⟨below, fun other member => uncovered other (kept other member)⟩
    · exact ⟨by change i < s.allocator.totalPages; omega, others i first⟩
  · intro complete
    have freeIff (i : Nat) : ba.test (ba.dealloc s.allocator.inner
        ((block.pos - s.allocator.base) / pageSize)) i = true
        ↔ ba.test s.allocator.inner i = true ∨ i = idx := index ▸ bits i
    constructor
    · intro exact
      by_contra several
      -- the second page is outside of all blocks, but its bit is taken
      have second : idx ≤ idx + 1 ∧ idx + 1 < idx + block.numPages := by omega
      have free := (freeIff _).mp (exact (idx + 1)
        (by change idx + 1 < s.allocator.totalPages; omega) (others _ second))
      rw [taken _ second] at free
      simp at free
    · intro single i below uncovered
      refine (freeIff i).mpr ?_
      by_cases here : i = idx
      · exact .inr here
      · refine .inl (complete i below fun other member => ?_)
        rcases List.mem_cons.mp (perm.mem_iff.mp member) with rfl | still
        · intro covered
          have := (covers i).mp covered
          omega
        · exact uncovered other still

/-- The accounts do not depend on the order of the live blocks. -/
theorem Safe.perm (safe : s.Safe ba pageSize) {live : List Block} (perm : s.live.Perm live)
    : Pages.Safe ba pageSize ⟨s.allocator, live⟩ where
  positive := safe.positive
  shaped := fun block member => safe.shaped block (perm.mem_iff.mpr member)
  apart := (Extent.apart_perm (perm.map (Block.extent pageSize))).mp safe.apart
  used := safe.used.trans (perm.map Block.numPages).sum_eq
  free := by
    intro i free
    obtain ⟨below, uncovered⟩ := safe.free i free
    exact ⟨below, fun block member => uncovered block (perm.mem_iff.mpr member)⟩

/-- The number of free pages of the region. -/
def freePages (ba : BitAlloc Bits) (a : BitmapPageAllocator Bits) : Nat :=
  ((Finset.range a.totalPages).filter fun i => ba.test a.inner i = true).card

/-- Every allocation leaves fewer free pages. -/
theorem freePages_lt (lawful : ba.Lawful) (safe : s.Safe ba pageSize)
    {numPages alignPow2 pos : Nat} {a : BitmapPageAllocator Bits}
    (allocated : s.allocator.allocPages ba pageSize numPages alignPow2 = .ok (pos, a))
    : freePages ba a < freePages ba s.allocator := by
  obtain ⟨nonzero, idx, inner, -, rfl, free, left⟩ := allocPages_ok lawful allocated
  have taken := free idx (Nat.le_refl _) (by omega)
  refine Finset.card_lt_card (Finset.ssubset_iff_of_subset ?_ |>.mpr ⟨idx, ?_, ?_⟩)
  · intro i member
    rw [Finset.mem_filter] at member ⊢
    exact ⟨member.1, ((left i).mp member.2).1⟩
  · exact Finset.mem_filter.mpr ⟨Finset.mem_range.mpr (safe.free idx taken).1, taken⟩
  · intro member
    exact ((left idx).mp (Finset.mem_filter.mp member).2).2 ⟨Nat.le_refl _, by omega⟩

/-- The pages of an allocator lie in the range that it was initialised with. -/
theorem init_within {a a' : BitmapPageAllocator Bits} {start size : Nat}
    (run : a.init ba pageSize start size = some a')
    : Extent.Within ⟨a'.base, pageSize * a'.totalPages⟩ ⟨start, size⟩ := by
  unfold BitmapPageAllocator.init at run
  dsimp only at run
  split at run
  · rename_i valid
    obtain ⟨power, ordered, -⟩ := valid
    cases run
    have positive : 0 < pageSize := Nat.pos_of_ne_zero fun zero => by
      subst zero
      cases power
    have rest := Nat.mod_lt (start + pageSize - 1) positive
    have whole := Nat.mul_div_le
      (alignDown (start + size) pageSize - alignUp start pageSize) pageSize
    refine ⟨?_, ?_⟩
    · change start ≤ alignUp start pageSize
      simp only [alignUp, alignDown]
      omega
    · have rounded : alignDown (start + size) pageSize ≤ start + size := Nat.sub_le ..
      simp only [Extent.stop]
      omega
  · cases run

/-- A new allocator has all pages of its region free. -/
theorem safe_started (lawful : ba.Lawful) (started : Started ba pageSize s)
    : s.Safe ba pageSize ∧ s.Complete ba pageSize := by
  obtain ⟨empty, start, size, run⟩ := started
  unfold BitmapPageAllocator.init at run
  dsimp only at run
  split at run
  · rename_i valid
    obtain ⟨power, -, fits⟩ := valid
    cases allocator : s.allocator
    rw [allocator] at run
    cases run
    have free (i : Nat) : ba.test s.allocator.inner i = true ↔ i < s.allocator.totalPages := by
      rw [allocator, lawful.test_insert _ _ _ fits]
      simp [BitmapPageAllocator.new, lawful.test_default]
    have positive : 0 < pageSize := by
      refine Nat.pos_of_ne_zero fun zero => ?_
      subst zero
      cases power
    refine ⟨⟨positive, by simp [empty], by simp [empty], ?_, fun i isFree => ?_⟩,
      fun i below _ => (free i).mpr below⟩
    · rw [allocator, empty]
      rfl
    · exact ⟨(free i).mp isFree, by simp [empty]⟩
  · cases run

/-- The accounts are kept in every run, whatever is released. -/
theorem safe_reachable (lawful : ba.Lawful) {released : Block → Prop}
    (reachable : Reachable ba pageSize released s)
    : s.Safe ba pageSize := by
  refine reachable.invariant (fun s => s.Safe ba pageSize) ?_ ?_
  · exact fun s started => (safe_started lawful started).1
  · intro s s' safe stepped
    cases stepped with
    | alloc numPages alignPow2 pos a allocated => exact (safe.alloc lawful allocated).1
    | refused numPages alignPow2 error refused => exact safe
    | dealloc block live a perm _ run =>
        obtain ⟨a', run', kept, -⟩ := safe.dealloc lawful perm
        cases run.symm.trans run'
        exact kept

/-- In runs that release single pages only, no free page is lost. -/
theorem complete_reachable (lawful : ba.Lawful)
    (reachable : Reachable ba pageSize (fun block => block.numPages = 1) s)
    : s.Complete ba pageSize := by
  have both := reachable.invariant (fun s => s.Safe ba pageSize ∧ s.Complete ba pageSize)
    (fun s started => safe_started lawful started) ?_
  · exact both.2
  · rintro s s' ⟨safe, complete⟩ stepped
    cases stepped with
    | alloc numPages alignPow2 pos a allocated =>
        obtain ⟨safe', complete'⟩ := safe.alloc lawful allocated
        exact ⟨safe', complete' complete⟩
    | refused numPages alignPow2 error refused => exact ⟨safe, complete⟩
    | dealloc block live a perm single run =>
        obtain ⟨a', run', safe', complete'⟩ := safe.dealloc lawful perm
        cases run.symm.trans run'
        exact ⟨safe', (complete' complete).mpr single⟩

/-- Free bits, counters and live blocks agree: the free bits are the pages that no live block
covers, `used_pages` counts the pages of live blocks, these do not overlap and lie in the
region, and no release underflows.
-/
structure Accounted (ba : BitAlloc Bits) (pageSize : Nat) (s : Pages Bits) : Prop where
  free : ∀ i, ba.test s.allocator.inner i = true
    ↔ i < s.allocator.totalPages ∧ ∀ block ∈ s.live, s.page pageSize i ∉ block.extent pageSize
  used : s.allocator.usedPages = (s.live.map Block.numPages).sum
  apart : (s.live.map (Block.extent pageSize)).Pairwise Extent.Apart
  inside : ∀ block ∈ s.live, (block.extent pageSize).Within
    ⟨s.allocator.base, pageSize * s.allocator.totalPages⟩
  release : ∀ block ∈ s.live, ∃ a,
    s.allocator.deallocPages ba pageSize block.pos block.numPages = some a

/-- Live blocks lie in the region. -/
theorem Safe.inside (safe : s.Safe ba pageSize) {block : Block} (live : block ∈ s.live)
    : (block.extent pageSize).Within
        ⟨s.allocator.base, pageSize * s.allocator.totalPages⟩ := by
  obtain ⟨-, idx, start, bounded⟩ := safe.shaped block live
  have scaled := Nat.mul_le_mul_left pageSize bounded
  rw [Nat.mul_add] at scaled
  simp only [Extent.Within, Block.extent, Extent.stop, start, page]
  omega

/-- No more pages are used than there are. -/
theorem Safe.used_le (safe : s.Safe ba pageSize)
    : s.allocator.usedPages ≤ s.allocator.totalPages := by
  have sizes : ((s.live.map (Block.extent pageSize)).map Extent.size).sum
      = pageSize * (s.live.map Block.numPages).sum := by
    rw [List.map_map, ← List.sum_map_mul_left]
    rfl
  have within := Extent.sum_size_le safe.apart (fun extent member => by
    obtain ⟨block, live, rfl⟩ := List.mem_map.mp member
    exact safe.inside live)
  rw [sizes, ← safe.used, Extent.stop, Nat.add_sub_cancel_left] at within
  exact Nat.le_of_mul_le_mul_left within safe.positive

theorem Safe.accounted (safe : s.Safe ba pageSize) (lawful : ba.Lawful)
    (complete : s.Complete ba pageSize)
    : Accounted ba pageSize s where
  free i := ⟨safe.free i, fun uncovered => complete i uncovered.1 uncovered.2⟩
  used := safe.used
  apart := safe.apart
  inside := fun _ => safe.inside
  release := by
    intro block member
    obtain ⟨a, run, -⟩ := safe.dealloc lawful (List.perm_cons_erase member)
    exact ⟨a, run⟩

/-- In every run that releases single pages only, the allocator keeps its accounts; and the
next release of a live block keeps them exactly when the block is a single page.
-/
theorem page_accounting (lawful : ba.Lawful)
    (reachable : Reachable ba pageSize (fun block => block.numPages = 1) s)
    : Accounted ba pageSize s
      ∧ ∀ block live, s.live.Perm (block :: live)
        → ∃ a, s.allocator.deallocPages ba pageSize block.pos block.numPages = some a
          ∧ (Accounted ba pageSize ⟨a, live⟩ ↔ block.numPages = 1) := by
  have safe := safe_reachable lawful reachable
  have complete := complete_reachable lawful reachable
  refine ⟨safe.accounted lawful complete, fun block live perm => ?_⟩
  obtain ⟨a, run, safe', complete'⟩ := safe.dealloc lawful perm
  refine ⟨a, run, ?_⟩
  rw [← complete' complete]
  exact ⟨fun accounted i below uncovered => (accounted.free i).mpr ⟨below, uncovered⟩,
    safe'.accounted lawful⟩

end Pages

-----------------------------------------------------------------------------------------
-- A bitmap that satisfies the laws
-----------------------------------------------------------------------------------------

/-- A bitmap of 16 bits as the list of its free bits, lowest first; allocations take the first
bits that fit.
-/
def firstFit : BitAlloc (List Nat) where
  cap := 16
  default := []
  insert bits num := List.range num ++ bits.filter (num ≤ ·)
  alloc bits := bits.head?.map fun idx => (idx, bits.filter (· ≠ idx))
  allocContiguous bits num align :=
    (bits.find? fun idx => idx % 2 ^ align = 0 ∧ (List.range num).all fun i => idx + i ∈ bits).map
      fun idx => (idx, bits.filter fun i => ¬ (idx ≤ i ∧ i < idx + num))
  dealloc bits idx := bits.filter (· < idx) ++ idx :: bits.filter (idx < ·)
  test bits i := i ∈ bits

theorem firstFit_lawful : firstFit.Lawful where
  test_default i := by simp [firstFit]
  test_insert bits num i _ := by
    simp only [firstFit, decide_eq_true_eq, List.mem_append, List.mem_range, List.mem_filter]
    by_cases below : i < num
    · simp [below]
    · simp [below, Nat.le_of_not_lt below]
  alloc_some := by
    intro bits bits' idx taken
    obtain ⟨first, head, made⟩ := Option.map_eq_some_iff.mp taken
    cases made
    refine ⟨decide_eq_true (List.mem_of_head? head), fun i => ?_⟩
    simp [firstFit]
  allocContiguous_some := by
    intro bits bits' num align idx taken
    obtain ⟨first, found, made⟩ := Option.map_eq_some_iff.mp taken
    cases made
    have fits := List.find?_some found
    rw [decide_eq_true_eq] at fits
    refine ⟨fun i low high => ?_, fun i => ?_⟩
    · have member := List.all_eq_true.mp fits.2 (i - idx) (List.mem_range.mpr (by omega))
      rwa [Nat.add_sub_cancel' low] at member
    · simp only [firstFit, decide_eq_true_eq, List.mem_filter]
  dealloc_test := by
    intro bits idx taken i
    have missing : idx ∉ bits := of_decide_eq_false taken
    simp only [firstFit, decide_eq_true_eq, List.mem_append, List.mem_cons, List.mem_filter]
    rcases Nat.lt_trichotomy i idx with less | rfl | more
    · simp [less, Nat.ne_of_lt less, Nat.not_lt.mpr (Nat.le_of_lt less)]
    · simp
    · simp [more, Nat.ne_of_gt more, Nat.not_lt.mpr (Nat.le_of_lt more)]

/-- Four pages at `0x80000000` after one block has been taken. -/
def fourPages (block : Block) (free : List Nat) : Pages (List Nat) where
  allocator := ⟨0x80000000, 4, block.numPages, free⟩
  live := [block]

theorem fourPages_started : Pages.Started firstFit 4096 ⟨⟨0x80000000, 4, 0, [0, 1, 2, 3]⟩, []⟩ :=
  ⟨rfl, 0x80000000, 0x4000, by decide⟩

theorem page_accounting_fourPages
    : Pages.Accounted firstFit 4096 (fourPages ⟨0x80000000, 1⟩ [1, 2, 3]) :=
  (Pages.page_accounting firstFit_lawful
    (.next (.start fourPages_started) (.alloc 1 4096 0x80000000 _ (by decide)))).1

/-- After two pages have been taken and released, the second one is lost: no live block covers
it, and its bit is not free.
-/
theorem two_pages_lose_one
    : ∃ s, Pages.Reachable firstFit 4096 (fun _ => True) s ∧ s.live = []
      ∧ 1 < s.allocator.totalPages ∧ firstFit.test s.allocator.inner 1 = false
      ∧ ¬ Pages.Accounted firstFit 4096 s := by
  have two : Pages.Reachable firstFit 4096 (fun _ => True) (fourPages ⟨0x80000000, 2⟩ [2, 3]) :=
    .next (.start fourPages_started) (.alloc 2 4096 0x80000000 _ (by decide))
  refine ⟨⟨⟨0x80000000, 4, 0, [0, 2, 3]⟩, []⟩,
    two.next (.dealloc ⟨0x80000000, 2⟩ [] _ (.refl _) trivial (by decide)), rfl, by decide,
    by decide, fun accounted => ?_⟩
  have free := (accounted.free 1).mpr ⟨by decide, by simp⟩
  revert free
  decide

end RCoreOS.Allocator
