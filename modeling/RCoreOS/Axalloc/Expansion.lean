import RCoreOS.Allocator.Alignment
import RCoreOS.SlabAllocator.Heap

/-! The global allocator: a byte allocator that is expanded with blocks of the page allocator
for as long as it refuses a layout.
-/

namespace RCoreOS.Axalloc

open Allocator
open SlabAllocator (Layout)

def PAGE_SIZE : Nat := 0x1000

def MIN_HEAP_SIZE : Nat := 0x8000

/-- The operations of the byte allocator that the features select. -/
structure ByteAllocator (B : Type) where
  new : B
  /-- `none` is a panic. -/
  init : B → Nat → Nat → Option B
  addMemory : B → Nat → Nat → Except AllocError B
  alloc : B → Layout → Except AllocError (Nat × B)
  dealloc : B → Nat → Layout → B
  totalBytes : B → Nat

/-- The bytes that a byte allocator was given, which are what it reports, except that the slab
allocator counts what its slabs have taken from the buddy allocator twice.
-/
structure ByteAllocator.Accounting {B : Type} (bytes : ByteAllocator B) where
  managed : B → Nat
  managed_init {b b' : B} {start size : Nat} (done : bytes.init b start size = some b')
    : managed b' = size
  managed_add {b b' : B} {start size : Nat} (added : bytes.addMemory b start size = .ok b')
    : managed b' = managed b + size
  managed_alloc {b b' : B} {layout : Layout} {ptr : Nat}
    (allocated : bytes.alloc b layout = .ok (ptr, b'))
    : managed b' = managed b
  managed_dealloc (b : B) (ptr : Nat) (layout : Layout)
    : managed (bytes.dealloc b ptr layout) = managed b
  total_le (b : B) : bytes.totalBytes b ≤ 2 * managed b

structure GlobalAllocator (Bits B : Type) where
  balloc : B
  palloc : BitmapPageAllocator Bits

def blockBytes (blocks : List Block) : Nat :=
  ((blocks.map (Block.extent PAGE_SIZE)).map Extent.size).sum

-----------------------------------------------------------------------------------------
-- The expansion loop
-----------------------------------------------------------------------------------------

/-- `old_size.max(size).next_power_of_two().max(PAGE_SIZE)`; `none` is an overflow. -/
def expandSize (oldSize size : Nat) : Option Nat :=
  if max oldSize size ≤ 2 ^ 63 then some (max (max oldSize size).nextPowerOfTwo PAGE_SIZE)
  else none

theorem expandSize_some {oldSize size : Nat} (small : max oldSize size ≤ 2 ^ 63)
    : ∃ numPages, expandSize oldSize size = some (PAGE_SIZE * numPages) := by
  obtain ⟨k, power⟩ := Nat.isPowerOfTwo_nextPowerOfTwo (max oldSize size)
  rw [expandSize, if_pos small, power, show PAGE_SIZE = 2 ^ 12 from rfl]
  rcases Nat.le_total k 12 with low | high
  · exact ⟨1, by rw [Nat.max_eq_right (Nat.pow_le_pow_right (by decide) low), Nat.mul_one]⟩
  · refine ⟨2 ^ (k - 12), ?_⟩
    rw [Nat.max_eq_left (Nat.pow_le_pow_right (by decide) high), ← Nat.pow_add,
      Nat.add_sub_cancel' high]

/-- The size of an expansion is a number of pages. -/
theorem expandSize_pages {oldSize size expanded : Nat}
    (expands : expandSize oldSize size = some expanded)
    : ∃ numPages, expanded = PAGE_SIZE * numPages := by
  by_cases small : max oldSize size ≤ 2 ^ 63
  · obtain ⟨numPages, same⟩ := expandSize_some small
    exact ⟨numPages, Option.some_inj.mp (expands.symm.trans same)⟩
  · rw [expandSize, if_neg small] at expands
    cases expands

/-- How one turn of the loop ends: with a result, with an overflow, with a block that
`add_memory` refuses, or with one that it takes.
-/
inductive Turn (Bits B : Type) where
  | returned (result : Except AllocError Nat) (g : GlobalAllocator Bits B)
  | overflow
  | refused (e : AllocError) (block : Block) (g : GlobalAllocator Bits B)
  | expanded (block : Block) (g : GlobalAllocator Bits B)

/-- The end of a call: its result, or none for an overflow, the blocks it took from the page
allocator and those that it added to the byte allocator, and the state it leaves.
-/
structure Run (Bits B : Type) where
  result : Option (Except AllocError Nat)
  taken : List Block
  added : List Block
  state : GlobalAllocator Bits B

namespace GlobalAllocator

variable {Bits B : Type} (ba : BitAlloc Bits) (bytes : ByteAllocator B)

def new : GlobalAllocator Bits B where
  balloc := bytes.new
  palloc := BitmapPageAllocator.new ba

/-- With the address of the first heap; `none` is a panic. -/
def init (g : GlobalAllocator Bits B) (startVaddr size : Nat)
    : Option (Nat × GlobalAllocator Bits B) :=
  if size ≤ MIN_HEAP_SIZE then none
  else do
    let palloc ← g.palloc.init ba PAGE_SIZE startVaddr size
    match palloc.allocPages ba PAGE_SIZE (MIN_HEAP_SIZE / PAGE_SIZE) PAGE_SIZE with
    | .error _ => none
    | .ok (heapPtr, palloc) =>
        let balloc ← bytes.init g.balloc heapPtr MIN_HEAP_SIZE
        return (heapPtr, { balloc, palloc })

/-- One turn of the loop in `alloc`. The address and the counter of the page allocator are
checked for an overflow with the end of the block, which the debug message computes.
-/
def turn (g : GlobalAllocator Bits B) (layout : Layout) : Turn Bits B :=
  match bytes.alloc g.balloc layout with
  | .ok (ptr, balloc) => .returned (.ok ptr) { g with balloc }
  | .error _ =>
      match expandSize (bytes.totalBytes g.balloc) layout.size with
      | none => .overflow
      | some expandSize =>
          let numPages := expandSize / PAGE_SIZE
          match g.palloc.allocPages ba PAGE_SIZE numPages PAGE_SIZE with
          | .error e => .returned (.error e) g
          | .ok (heapPtr, palloc) =>
              if heapPtr + expandSize < 2 ^ 64 ∧ palloc.usedPages < 2 ^ 64 then
                match bytes.addMemory g.balloc heapPtr expandSize with
                | .error e => .refused e ⟨heapPtr, numPages⟩ { g with palloc }
                | .ok balloc => .expanded ⟨heapPtr, numPages⟩ { balloc, palloc }
              else .overflow

/-- `alloc`, for at most so many turns. -/
def alloc (g : GlobalAllocator Bits B) (layout : Layout) : Nat → Option (Run Bits B)
  | 0 => none
  | fuel + 1 =>
      match g.turn ba bytes layout with
      | .returned result g => some ⟨some result, [], [], g⟩
      | .overflow => some ⟨none, [], [], g⟩
      | .refused e block g => some ⟨some (.error e), [block], [], g⟩
      | .expanded block g =>
          (g.alloc layout fuel).map fun run =>
            { run with taken := block :: run.taken, added := block :: run.added }

/-- The sizes and addresses that a turn computes fit into words. -/
def Bounded (g : GlobalAllocator Bits B) (layout : Layout) : Prop :=
  max (bytes.totalBytes g.balloc) layout.size ≤ 2 ^ 63
  ∧ ∀ (block : Block) palloc,
    g.palloc.allocPages ba PAGE_SIZE block.numPages PAGE_SIZE = .ok (block.pos, palloc)
    → block.pos + PAGE_SIZE * block.numPages < 2 ^ 64 ∧ palloc.usedPages < 2 ^ 64

/-- How a turn ends: with a block or without any change, with an overflow if something is too
large for a word, or after taking pages, which the byte allocator refuses or gets.
-/
theorem turn_cases (g : GlobalAllocator Bits B) (layout : Layout)
    : (∃ ptr balloc, bytes.alloc g.balloc layout = .ok (ptr, balloc)
        ∧ g.turn ba bytes layout = .returned (.ok ptr) { g with balloc })
      ∨ (g.turn ba bytes layout = .overflow ∧ ¬ g.Bounded ba bytes layout)
      ∨ (∃ e, g.turn ba bytes layout = .returned (.error e) g)
      ∨ ∃ block palloc,
        g.palloc.allocPages ba PAGE_SIZE block.numPages PAGE_SIZE = .ok (block.pos, palloc)
        ∧ ((∃ e, bytes.addMemory g.balloc block.pos (PAGE_SIZE * block.numPages) = .error e
            ∧ g.turn ba bytes layout = .refused e block { g with palloc })
          ∨ ∃ balloc,
            bytes.addMemory g.balloc block.pos (PAGE_SIZE * block.numPages) = .ok balloc
            ∧ g.turn ba bytes layout = .expanded block ⟨balloc, palloc⟩) := by
  unfold turn
  cases allocated : bytes.alloc g.balloc layout with
  | ok found => exact .inl ⟨found.1, found.2, rfl, rfl⟩
  | error refused =>
      refine .inr ?_
      cases size : expandSize (bytes.totalBytes g.balloc) layout.size with
      | none =>
          refine .inl ⟨rfl, fun bounded => ?_⟩
          rw [expandSize, if_pos bounded.1] at size
          cases size
      | some expanded =>
          obtain ⟨numPages, rfl⟩ := expandSize_pages size
          simp only [Nat.mul_div_cancel_left numPages (show 0 < PAGE_SIZE by decide)]
          cases granted : g.palloc.allocPages ba PAGE_SIZE numPages PAGE_SIZE with
          | error e => exact .inr (.inl ⟨e, rfl⟩)
          | ok found =>
              obtain ⟨pos, palloc⟩ := found
              by_cases small
                : pos + PAGE_SIZE * numPages < 2 ^ 64 ∧ palloc.usedPages < 2 ^ 64
              · simp only [if_pos small]
                refine .inr (.inr ⟨⟨pos, numPages⟩, palloc, granted, ?_⟩)
                cases added : bytes.addMemory g.balloc pos (PAGE_SIZE * numPages) with
                | error e => exact .inl ⟨e, rfl, rfl⟩
                | ok balloc => exact .inr ⟨balloc, rfl, rfl⟩
              · exact .inl ⟨if_neg small, fun bounded =>
                  small (bounded.2 ⟨pos, numPages⟩ palloc granted)⟩

variable {ba bytes}

/-- How a call that has ended went: its first turn ended it, or took pages for the byte allocator
and the rest of the call ended it.
-/
theorem alloc_cases {g : GlobalAllocator Bits B} {layout : Layout} {fuel : Nat}
    {run : Run Bits B} (done : g.alloc ba bytes layout (fuel + 1) = some run)
    : (∃ ptr balloc, bytes.alloc g.balloc layout = .ok (ptr, balloc)
        ∧ run = ⟨some (.ok ptr), [], [], { g with balloc }⟩)
      ∨ (run = ⟨none, [], [], g⟩ ∧ ¬ g.Bounded ba bytes layout)
      ∨ (∃ e, run = ⟨some (.error e), [], [], g⟩)
      ∨ ∃ block palloc,
        g.palloc.allocPages ba PAGE_SIZE block.numPages PAGE_SIZE = .ok (block.pos, palloc)
        ∧ ((∃ e, bytes.addMemory g.balloc block.pos (PAGE_SIZE * block.numPages) = .error e
            ∧ run = ⟨some (.error e), [block], [], { g with palloc }⟩)
          ∨ ∃ balloc rest,
            bytes.addMemory g.balloc block.pos (PAGE_SIZE * block.numPages) = .ok balloc
            ∧ alloc ba bytes ⟨balloc, palloc⟩ layout fuel = some rest
            ∧ run = { rest with
                taken := block :: rest.taken
                added := block :: rest.added }) := by
  rw [alloc] at done
  rcases turn_cases ba bytes g layout with
    ⟨ptr, balloc, allocated, turned⟩ | ⟨turned, unbounded⟩ | ⟨e, turned⟩
      | ⟨block, palloc, granted, ⟨e, refused, turned⟩ | ⟨balloc, added, turned⟩⟩
  all_goals rw [turned] at done
  · exact .inl ⟨ptr, balloc, allocated, (Option.some.inj done).symm⟩
  · exact .inr (.inl ⟨(Option.some.inj done).symm, unbounded⟩)
  · exact .inr (.inr (.inl ⟨e, (Option.some.inj done).symm⟩))
  · refine .inr (.inr (.inr ⟨block, palloc, granted, .inl ⟨e, refused, ?_⟩⟩))
    exact (Option.some.inj done).symm
  · obtain ⟨rest, finished, same⟩ := Option.map_eq_some_iff.mp done
    exact .inr (.inr (.inr ⟨block, palloc, granted, .inr ⟨balloc, rest, added, finished,
      same.symm⟩⟩))

/-- More turns than there are free pages end a call, by induction on these: every expansion
takes some.
-/
theorem alloc_ends (lawful : ba.Lawful) (layout : Layout) {g : GlobalAllocator Bits B}
    {live : List Block} (safe : Pages.Safe ba PAGE_SIZE ⟨g.palloc, live⟩)
    : ∃ run, ∀ fuel, Pages.freePages ba g.palloc < fuel
      → g.alloc ba bytes layout fuel = some run := by
  induction free : Pages.freePages ba g.palloc using Nat.strong_induction_on
    generalizing g live with
  | h free ih =>
      subst free
      -- a call that its first turn ends needs one unit of fuel
      have ends {run : Run Bits B}
          (first : ∀ fuel, g.alloc ba bytes layout (fuel + 1) = some run)
          : ∃ run, ∀ fuel, Pages.freePages ba g.palloc < fuel
            → g.alloc ba bytes layout fuel = some run := by
        refine ⟨run, fun fuel enough => ?_⟩
        rw [← Nat.succ_pred_eq_of_pos (Nat.zero_lt_of_lt enough)]
        exact first _
      rcases turn_cases ba bytes g layout with
        ⟨ptr, balloc, -, turned⟩ | ⟨turned, -⟩ | ⟨e, turned⟩
          | ⟨block, palloc, granted, ⟨e, -, turned⟩ | ⟨balloc, -, turned⟩⟩
      · exact ends fun fuel => by rw [alloc, turned]
      · exact ends fun fuel => by rw [alloc, turned]
      · exact ends fun fuel => by rw [alloc, turned]
      · exact ends fun fuel => by rw [alloc, turned]
      · have fewer : Pages.freePages ba palloc < Pages.freePages ba g.palloc :=
          Pages.freePages_lt lawful safe granted
        obtain ⟨rest, finished⟩ :=
          ih _ fewer (g := ⟨balloc, palloc⟩) (safe.alloc lawful granted).1 rfl
        refine ⟨{ rest with taken := block :: rest.taken, added := block :: rest.added },
          fun fuel enough => ?_⟩
        rw [← Nat.succ_pred_eq_of_pos (Nat.zero_lt_of_lt enough), alloc, turned]
        simp only [finished fuel.pred (Nat.lt_of_lt_of_le fewer (Nat.le_pred_of_lt enough)),
          Option.map_some]

end GlobalAllocator

-----------------------------------------------------------------------------------------
-- Histories
-----------------------------------------------------------------------------------------

/-- The linear mapping of the physical memory, from `axconfig::PHYS_VIRT_OFFSET` on. It takes
no more than a quarter of the address space on any platform.
-/
structure LinearMapping where
  range : Extent
  below : range.stop < 2 ^ 64
  quarter : range.size ≤ 2 ^ 62

/-- A page allocator in the linear mapping counts and addresses its pages with words. -/
theorem LinearMapping.words {Bits : Type} {ba : BitAlloc Bits} {pages : Pages Bits}
    (mapping : LinearMapping) (safe : pages.Safe ba PAGE_SIZE)
    (mapped : Extent.Within ⟨pages.allocator.base, PAGE_SIZE * pages.allocator.totalPages⟩
      mapping.range)
    : pages.allocator.usedPages < 2 ^ 64
      ∧ ∀ block ∈ pages.live, block.pos + PAGE_SIZE * block.numPages < 2 ^ 64 := by
  refine ⟨?_, fun block live => ?_⟩
  · have used := safe.used_le
    have stop := Nat.lt_of_le_of_lt mapped.2 mapping.below
    simp only [Extent.stop, PAGE_SIZE] at stop
    omega
  · exact Nat.lt_of_le_of_lt ((safe.inside live).trans mapped).2 mapping.below

/-- The allocator with the blocks that the byte allocator has, the other live blocks of the
page allocator, and the regions that were added.
-/
structure World (Bits B : Type) where
  allocator : GlobalAllocator Bits B
  heap : List Block
  others : List Block
  regions : List Extent

namespace World

variable {Bits B : Type} (ba : BitAlloc Bits) (bytes : ByteAllocator B)
  (mapping : LinearMapping)

/-- The page allocator with its live blocks. -/
def pages (w : World Bits B) : Pages Bits where
  allocator := w.allocator.palloc
  live := w.heap ++ w.others

/-- The region of the page allocator. -/
def region (w : World Bits B) : Extent where
  start := w.allocator.palloc.base
  size := PAGE_SIZE * w.allocator.palloc.totalPages

/-- The state that a call of `alloc` leaves. A block that was not added has no owner, and stays
with the other live ones.
-/
def after (w : World Bits B) (run : Run Bits B) : World Bits B where
  allocator := run.state
  heap := run.added.reverse ++ w.heap
  others := run.taken.drop run.added.length ++ w.others
  regions := w.regions

/-- Right after `init` with a region of the linear mapping. -/
def Started (w : World Bits B) : Prop :=
  w.others = [] ∧ w.regions = [] ∧ ∃ start size heapPtr,
    Extent.Within ⟨start, size⟩ mapping.range
    ∧ (GlobalAllocator.new ba bytes).init ba bytes start size = some (heapPtr, w.allocator)
    ∧ w.heap = [⟨heapPtr, MIN_HEAP_SIZE / PAGE_SIZE⟩]

/-- One call. Regions that are added are parts of the linear mapping that are not in use, and
released blocks were returned with the same number of pages.
-/
inductive Step (w : World Bits B) : World Bits B → Prop
  | alloc (layout : Layout) (fuel : Nat) (run : Run Bits B)
    : layout.size < 2 ^ 63 → w.allocator.alloc ba bytes layout fuel = some run
      → Step w (w.after run)
  | dealloc (ptr : Nat) (layout : Layout)
    : Step w { w with
        allocator.balloc := bytes.dealloc w.allocator.balloc ptr layout }
  | addMemory (region : Extent) (balloc : B)
    : region.Within mapping.range → region.Apart w.region
      → (∀ other ∈ w.regions, region.Apart other)
      → bytes.addMemory w.allocator.balloc region.start region.size = .ok balloc
      → Step w { w with
          allocator.balloc := balloc
          regions := region :: w.regions }
  | allocPages (numPages alignPow2 pos : Nat) (palloc : BitmapPageAllocator Bits)
    : w.allocator.palloc.allocPages ba PAGE_SIZE numPages alignPow2 = .ok (pos, palloc)
      → Step w { w with
          allocator.palloc := palloc
          others := ⟨pos, numPages⟩ :: w.others }
  | deallocPages (block : Block) (others : List Block) (palloc : BitmapPageAllocator Bits)
    : w.others.Perm (block :: others)
      → w.allocator.palloc.deallocPages ba PAGE_SIZE block.pos block.numPages = some palloc
      → Step w { w with
          allocator.palloc := palloc
          others }

/-- The states of any history; calls that fail leave them as they are. -/
abbrev Reachable (w : World Bits B) : Prop :=
  Transition.Reachable (Started ba bytes mapping) (Step ba bytes mapping) w

/-- The accounts of both allocators: live blocks and added regions are disjoint parts of the
linear mapping, and what the byte allocator was given are its blocks and the added regions.
-/
structure Sound (acc : bytes.Accounting) (w : World Bits B) : Prop where
  safe : w.pages.Safe ba PAGE_SIZE
  mapped : w.region.Within mapping.range
  added : ∀ region ∈ w.regions, region.Within mapping.range ∧ region.Apart w.region
  apart : w.regions.Pairwise Extent.Apart
  managed : acc.managed w.allocator.balloc
    = (w.regions.map Extent.size).sum + blockBytes w.heap

variable {ba bytes mapping} {acc : bytes.Accounting} {w : World Bits B}

/-- Disjoint parts of the linear mapping are together no larger than the mapping. -/
theorem Sound.managed_le (sound : w.Sound ba bytes mapping acc)
    : acc.managed w.allocator.balloc ≤ 2 ^ 62 := by
  have inside (block : Block) (live : block ∈ w.heap)
      : (block.extent PAGE_SIZE).Within w.region :=
    sound.safe.inside (List.mem_append_left _ live)
  have heapApart := (List.pairwise_append.mp (List.map_append ▸ sound.safe.apart)).1
  have apart : (w.regions ++ w.heap.map (Block.extent PAGE_SIZE)).Pairwise Extent.Apart := by
    refine List.pairwise_append.mpr ⟨sound.apart, heapApart, fun region member extent owned => ?_⟩
    obtain ⟨block, live, rfl⟩ := List.mem_map.mp owned
    exact (sound.added region member).2.mono (.refl _) (inside block live)
  have within := Extent.sum_size_le apart fun extent member => by
    rcases List.mem_append.mp member with region | owned
    · exact (sound.added extent region).1
    · obtain ⟨block, live, rfl⟩ := List.mem_map.mp owned
      exact (inside block live).trans sound.mapped
  rw [List.map_append, List.sum_append, Extent.stop, Nat.add_sub_cancel_left] at within
  rw [sound.managed]
  exact within.trans mapping.quarter

-----------------------------------------------------------------------------------------
-- One turn
-----------------------------------------------------------------------------------------

/-- The accounts do not depend on what the byte allocator does with the memory it has. -/
theorem Sound.withBytes (sound : w.Sound ba bytes mapping acc) {balloc : B}
    (same : acc.managed balloc = acc.managed w.allocator.balloc)
    : Sound ba bytes mapping acc { w with allocator.balloc := balloc } where
  safe := sound.safe
  mapped := sound.mapped
  added := sound.added
  apart := sound.apart
  managed := same.trans sound.managed

/-- An allocation of pages for someone else than the byte allocator. -/
theorem Sound.withPages (sound : w.Sound ba bytes mapping acc) (lawful : ba.Lawful)
    {numPages alignPow2 pos : Nat} {palloc : BitmapPageAllocator Bits}
    (granted : w.allocator.palloc.allocPages ba PAGE_SIZE numPages alignPow2 = .ok (pos, palloc))
    : Sound ba bytes mapping acc { w with
        allocator.palloc := palloc
        others := ⟨pos, numPages⟩ :: w.others } := by
  have safe := (sound.safe.alloc lawful granted).1.perm List.perm_middle.symm
  obtain ⟨-, idx, inner, -, rfl, -⟩ := Pages.allocPages_ok lawful granted
  exact ⟨safe, sound.mapped, sound.added, sound.apart, sound.managed⟩

/-- A block of pages that the byte allocator takes. -/
theorem Sound.expanded (sound : w.Sound ba bytes mapping acc) (lawful : ba.Lawful)
    {block : Block} {alignPow2 : Nat} {balloc : B} {palloc : BitmapPageAllocator Bits}
    (granted : w.allocator.palloc.allocPages ba PAGE_SIZE block.numPages alignPow2
      = .ok (block.pos, palloc))
    (added : bytes.addMemory w.allocator.balloc block.pos (PAGE_SIZE * block.numPages)
      = .ok balloc)
    : Sound ba bytes mapping acc { w with
        allocator := ⟨balloc, palloc⟩
        heap := block :: w.heap } := by
  have safe := (sound.safe.alloc lawful granted).1
  obtain ⟨-, idx, inner, -, rfl, -⟩ := Pages.allocPages_ok lawful granted
  refine ⟨safe, sound.mapped, sound.added, sound.apart, ?_⟩
  rw [acc.managed_add added, sound.managed, Nat.add_assoc, Nat.add_comm (blockBytes w.heap)]
  rfl

/-- The sizes of both allocators are bounded by the linear mapping, in which a new block lies as
well.
-/
theorem Sound.bounded (sound : w.Sound ba bytes mapping acc) (lawful : ba.Lawful)
    {layout : Layout} (fits : layout.size < 2 ^ 63)
    : w.allocator.Bounded ba bytes layout := by
  have total := acc.total_le w.allocator.balloc
  have managed := sound.managed_le
  refine ⟨by omega, fun block palloc granted => ?_⟩
  have after := sound.withPages lawful granted
  obtain ⟨used, stops⟩ := mapping.words after.safe after.mapped
  exact ⟨stops _ (List.mem_append_right _ (List.mem_cons_self ..)), used⟩

-----------------------------------------------------------------------------------------
-- Whole calls
-----------------------------------------------------------------------------------------

/-- What a call takes and adds is what the two allocators count, and a block that was taken and
not added is the last one, whose `add_memory` failed with the error that the call returns.
-/
structure Accounted (acc : bytes.Accounting) (g : GlobalAllocator Bits B) (run : Run Bits B)
    : Prop where
  taken : run.state.palloc.usedPages
    = g.palloc.usedPages + (run.taken.map Block.numPages).sum
  added : acc.managed run.state.balloc = acc.managed g.balloc + blockBytes run.added
  rest : run.taken = run.added ∨ ∃ e block, run.taken = run.added ++ [block]
    ∧ run.result = some (.error e)
    ∧ bytes.addMemory run.state.balloc block.pos (PAGE_SIZE * block.numPages) = .error e

/-- A call that ends has a result, and keeps the accounts, by induction on the turns. -/
theorem Sound.alloc (lawful : ba.Lawful) {layout : Layout} (fits : layout.size < 2 ^ 63)
    {fuel : Nat} {run : Run Bits B} (sound : w.Sound ba bytes mapping acc)
    (done : w.allocator.alloc ba bytes layout fuel = some run)
    : (∃ result, run.result = some result) ∧ Accounted acc w.allocator run
      ∧ (w.after run).Sound ba bytes mapping acc := by
  induction fuel generalizing w run with
  | zero => cases done
  | succ fuel ih =>
      rcases GlobalAllocator.alloc_cases done with
        ⟨ptr, balloc, allocated, rfl⟩ | ⟨-, unbounded⟩ | ⟨e, rfl⟩
          | ⟨block, palloc, granted, ⟨e, refused, rfl⟩ | ⟨balloc, rest, added, finished, rfl⟩⟩
      · have same := acc.managed_alloc allocated
        exact ⟨⟨.ok ptr, rfl⟩, ⟨rfl, same, .inl rfl⟩, sound.withBytes same⟩
      · exact absurd (sound.bounded lawful fits) unbounded
      · exact ⟨⟨.error e, rfl⟩, ⟨rfl, rfl, .inl rfl⟩, sound⟩
      · obtain ⟨-, idx, inner, -, made, -⟩ := Pages.allocPages_ok lawful granted
        refine ⟨⟨_, rfl⟩, ⟨?_, rfl, .inr ⟨e, block, rfl, rfl, refused⟩⟩,
          sound.withPages lawful granted⟩
        simp [made]
      · have onward := sound.expanded lawful granted added
        obtain ⟨result, accounted, kept⟩ := ih onward finished
        obtain ⟨-, idx, inner, -, made, -⟩ := Pages.allocPages_ok lawful granted
        refine ⟨result, ⟨?_, ?_, ?_⟩, ?_⟩
        · rw [accounted.taken]
          simp [made, Nat.add_assoc]
        · rw [accounted.added, acc.managed_add added, Nat.add_assoc]
          rfl
        · rcases accounted.rest with all | ⟨e, last, others, ended⟩
          · exact .inl (congrArg (block :: ·) all)
          · exact .inr ⟨e, last, congrArg (block :: ·) others, ended⟩
        · simpa [World.after] using kept

/-- A new allocator keeps its accounts: the first heap is the only block. -/
theorem sound_started (lawful : ba.Lawful) (started : Started ba bytes mapping w)
    : Sound ba bytes mapping acc w := by
  obtain ⟨others, regions, start, size, heapPtr, mapped, run, heap⟩ := started
  unfold GlobalAllocator.init at run
  split at run
  · cases run
  · obtain ⟨fresh, began, run⟩ := Option.bind_eq_some_iff.mp run
    split at run
    · cases run
    · rename_i large ptr palloc granted
      obtain ⟨balloc, given, made⟩ := Option.bind_eq_some_iff.mp run
      have pages : Pages.Started ba PAGE_SIZE ⟨fresh, []⟩ := ⟨rfl, start, size, began⟩
      have safe := ((Pages.safe_started lawful pages).1.alloc lawful granted).1
      have inside := Pages.init_within began
      obtain ⟨-, idx, inner, -, rfl, -⟩ := Pages.allocPages_ok lawful granted
      obtain ⟨allocator, heap', others', regions'⟩ := w
      cases others
      cases regions
      cases heap
      cases made
      refine ⟨safe, inside.trans mapped, by simp, .nil, ?_⟩
      rw [acc.managed_init given]
      simp [blockBytes, Block.extent, MIN_HEAP_SIZE, PAGE_SIZE]

theorem sound_reachable (lawful : ba.Lawful) (reachable : Reachable ba bytes mapping w)
    : Sound ba bytes mapping acc w := by
  refine reachable.invariant (fun w => w.Sound ba bytes mapping acc) ?_ ?_
  · exact fun w started => sound_started lawful started
  · intro w w' sound stepped
    cases stepped with
    | alloc layout fuel run fits done => exact (sound.alloc lawful fits done).2.2
    | dealloc ptr layout => exact sound.withBytes (acc.managed_dealloc ..)
    | addMemory region balloc mapped outside others added =>
        refine ⟨sound.safe, sound.mapped, ?_, ?_, ?_⟩
        · exact List.forall_mem_cons.mpr ⟨⟨mapped, outside⟩, sound.added⟩
        · exact List.pairwise_cons.mpr ⟨others, sound.apart⟩
        · rw [acc.managed_add added, sound.managed, List.map_cons, List.sum_cons,
            Nat.add_right_comm, Nat.add_comm region.size]
    | allocPages numPages alignPow2 pos palloc granted => exact sound.withPages lawful granted
    | deallocPages block others palloc perm released =>
        have live : w.pages.live.Perm (block :: (w.heap ++ others)) :=
          (perm.append_left w.heap).trans List.perm_middle
        obtain ⟨palloc', released', safe, -⟩ := sound.safe.dealloc lawful live
        cases released.symm.trans released'
        unfold BitmapPageAllocator.deallocPages at released
        split at released
        · cases released
          exact ⟨safe, sound.mapped, sound.added, sound.apart, sound.managed⟩
        · cases released

/-- In every state of every history, a call of `alloc` ends after no more turns than there are
free pages and one, with a block or an error, without an overflow; and all pages that it took
were added to the byte allocator, except for a last block that `add_memory` refused.
-/
theorem alloc_terminates (lawful : ba.Lawful) (acc : bytes.Accounting)
    (reachable : Reachable ba bytes mapping w) (layout : Layout) (fits : layout.size < 2 ^ 63)
    : ∃ run result,
        (∀ fuel, Pages.freePages ba w.allocator.palloc < fuel
          → w.allocator.alloc ba bytes layout fuel = some run)
        ∧ run.result = some result ∧ Accounted acc w.allocator run := by
  have sound : Sound ba bytes mapping acc w := sound_reachable lawful reachable
  obtain ⟨run, finished⟩ := GlobalAllocator.alloc_ends lawful layout sound.safe
  obtain ⟨⟨result, returned⟩, accounted, -⟩ :=
    sound.alloc lawful fits (finished _ (Nat.lt_succ_self _))
  exact ⟨run, result, finished, returned, accounted⟩

end World

-----------------------------------------------------------------------------------------
-- A byte allocator that satisfies the laws
-----------------------------------------------------------------------------------------

/-- The size of a heap and its free ranges. -/
structure Pool where
  total : Nat
  free : List Extent

/-- Requests are served from the start of the newest range. -/
def newestRange : ByteAllocator Pool where
  new := ⟨0, []⟩
  init _ start size := some ⟨size, [⟨start, size⟩]⟩
  addMemory pool start size := .ok ⟨pool.total + size, ⟨start, size⟩ :: pool.free⟩
  alloc pool layout :=
    match pool.free with
    | [] => .error .noMemory
    | range :: rest =>
        let ptr := alignUp range.start layout.align
        let next := ptr + layout.size
        if next ≤ range.stop then .ok (ptr, ⟨pool.total, ⟨next, range.stop - next⟩ :: rest⟩)
        else .error .noMemory
  dealloc pool ptr layout := ⟨pool.total, pool.free ++ [⟨ptr, layout.size⟩]⟩
  totalBytes pool := pool.total

def newestRangeAccounting : newestRange.Accounting where
  managed := Pool.total
  managed_init := by
    intro pool pool' start size done
    cases done
    rfl
  managed_add := by
    intro pool pool' start size added
    cases added
    rfl
  managed_alloc := by
    intro pool pool' layout ptr allocated
    simp only [newestRange] at allocated
    split at allocated
    · cases allocated
    split at allocated
    · cases allocated
      rfl
    · cases allocated
  managed_dealloc pool ptr layout := rfl
  total_le pool := Nat.le_mul_of_pos_left pool.total (by decide)

def sv39 : LinearMapping where
  range := ⟨0xffffffc000000000, 0x3fffffffff⟩
  below := by decide
  quarter := by decide

/-- Sixteen pages, of which the byte allocator has eight, after some of its bytes were used. -/
def sixteenPages (usedBytes : Nat) : World (List Nat) Pool where
  allocator :=
    { balloc := ⟨0x8000, [⟨0xffffffc080000000 + usedBytes, 0x8000 - usedBytes⟩]⟩
      palloc := ⟨0xffffffc080000000, 16, 8, [8, 9, 10, 11, 12, 13, 14, 15]⟩ }
  heap := [⟨0xffffffc080000000, 8⟩]
  others := []
  regions := []

theorem sixteenPages_reachable
    : World.Reachable firstFit newestRange sv39 (sixteenPages 0x100) := by
  have started : World.Started firstFit newestRange sv39 (sixteenPages 0) :=
    ⟨rfl, rfl, 0xffffffc080000000, 0x10000, 0xffffffc080000000, by decide, rfl, rfl⟩
  exact .next (.start started) (.alloc ⟨0x100, 8⟩ 1
    ⟨some (.ok 0xffffffc080000000), [], [], (sixteenPages 0x100).allocator⟩ (by decide) rfl)

/-- The other eight pages are what it takes to serve 32 KB. -/
example
    : ((sixteenPages 0x100).allocator.alloc firstFit newestRange ⟨0x8000, 8⟩ 9).map Run.taken
      = some [⟨0xffffffc080008000, 8⟩] := by
  decide +kernel

theorem alloc_terminates_sixteenPages
    : ∃ run result,
        (∀ fuel, 8 < fuel → (sixteenPages 0x100).allocator.alloc firstFit newestRange
          ⟨0x8000, 8⟩ fuel = some run)
        ∧ run.result = some result
        ∧ World.Accounted newestRangeAccounting (sixteenPages 0x100).allocator run :=
  World.alloc_terminates firstFit_lawful newestRangeAccounting sixteenPages_reachable ⟨0x8000, 8⟩
    (by decide)

end RCoreOS.Axalloc
