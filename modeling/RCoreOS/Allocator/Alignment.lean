import RCoreOS.Allocator.Bitmap

/-! The alignment of allocated pages. The bitmap aligns the number of a block's first page in
the region, and a single page is taken without regard to the alignment, while the caller asks
for an aligned address.
-/

namespace RCoreOS.Allocator

open Relation

/-- What the crate does to find free bits: a single bit is found when there is one, and a
block at a multiple of the alignment when a free one exists, unless the alignment is larger
than the bitmap.
-/
structure BitAlloc.Finds {Bits : Type} (ba : BitAlloc Bits) : Prop extends ba.Lawful where
  alloc_none {bits : Bits} (refused : ba.alloc bits = none) (i : Nat) : ba.test bits i = false
  allocContiguous_aligned {bits bits' : Bits} {num align idx : Nat}
    (taken : ba.allocContiguous bits num align = some (idx, bits'))
    : 2 ^ align ∣ idx
  allocContiguous_none {bits : Bits} {num align idx : Nat} (positive : 0 < num)
    (refused : ba.allocContiguous bits num align = none) (narrow : 2 ^ align ≤ ba.cap)
    (aligned : 2 ^ align ∣ idx)
    : ∃ i, idx ≤ i ∧ i < idx + num ∧ ba.test bits i = false
  allocContiguous_wide {align : Nat} (wide : ba.cap < 2 ^ align) (bits : Bits) (num : Nat)
    : ba.allocContiguous bits num align = none

theorem isPowerOfTwo_two_pow (k : Nat) : isPowerOfTwo (2 ^ k) = true := by
  have positive := Nat.two_pow_pos k
  rw [isPowerOfTwo, Nat.and_two_pow_sub_one_eq_mod, Nat.mod_self, Bool.and_eq_true]
  exact ⟨bne_iff_ne.mpr (by omega), rfl⟩

theorem dvd_alignUp (pos align : Nat) : align ∣ alignUp pos align :=
  Nat.dvd_sub_mod _

namespace Pages

variable {Bits : Type} {ba : BitAlloc Bits} {pageSize : Nat} {first : BitmapPageAllocator Bits}
  {s : Pages Bits}

-----------------------------------------------------------------------------------------
-- Requests with a valid alignment
-----------------------------------------------------------------------------------------

/-- The part of the bitmap's work that a request asks for. -/
def takeBits (ba : BitAlloc Bits) (bits : Bits) (numPages k : Nat) : Option (Nat × Bits) :=
  if numPages = 1 then ba.alloc bits else ba.allocContiguous bits numPages k

/-- A request whose alignment is a power-of-two multiple of the page size is not refused for
its parameters.
-/
theorem allocPages_request (positive : 0 < pageSize) (a : BitmapPageAllocator Bits)
    {numPages : Nat} (nonzero : 0 < numPages) (k : Nat)
    : a.allocPages ba pageSize numPages (pageSize * 2 ^ k)
      = match takeBits ba a.inner numPages k with
        | none => .error .noMemory
        | some (idx, inner) =>
            .ok (pageSize * idx + a.base,
              { a with usedPages := a.usedPages + numPages, inner }) := by
  rw [BitmapPageAllocator.allocPages, if_neg (by rw [Nat.mul_mod_right]; exact fun h => h rfl),
    Nat.mul_div_cancel_left _ positive, if_neg (by rw [isPowerOfTwo_two_pow]; decide),
    if_neg (by omega), Nat.log2_two_pow]
  rfl

/-- What such a request is answered with, from the free bits it took. -/
theorem request_ok (finds : ba.Finds) (positive : 0 < pageSize) {a a' : BitmapPageAllocator Bits}
    {numPages k pos : Nat} (nonzero : 0 < numPages)
    (allocated : a.allocPages ba pageSize numPages (pageSize * 2 ^ k) = .ok (pos, a'))
    : ∃ idx, pos = pageSize * idx + a.base
      ∧ (∀ i, idx ≤ i → i < idx + numPages → ba.test a.inner i = true)
      ∧ (numPages ≠ 1 → 2 ^ k ∣ idx ∧ 2 ^ k ≤ ba.cap) := by
  obtain ⟨-, idx', inner', rfl, -, free, -⟩ := allocPages_ok finds.toLawful allocated
  refine ⟨idx', rfl, free, fun several => ?_⟩
  rw [allocPages_request positive a nonzero, takeBits, if_neg several] at allocated
  split at allocated
  · cases allocated
  · rename_i idx inner taken
    simp only [Except.ok.injEq, Prod.mk.injEq, Nat.add_right_cancel_iff] at allocated
    rw [← Nat.eq_of_mul_eq_mul_left positive allocated.1]
    refine ⟨finds.allocContiguous_aligned taken, Nat.le_of_not_lt fun wide => ?_⟩
    rw [finds.allocContiguous_wide wide] at taken
    cases taken

-----------------------------------------------------------------------------------------
-- Histories
-----------------------------------------------------------------------------------------

/-- A history of allocations and releases from an allocator with no live blocks. -/
def History (ba : BitAlloc Bits) (pageSize : Nat) (first : BitmapPageAllocator Bits)
    (s : Pages Bits)
    : Prop :=
  ReflTransGen (Step ba pageSize fun _ => True) ⟨first, []⟩ s

/-- Whatever the history, a block for the request starts at a multiple of the alignment. -/
def AlwaysAligned (ba : BitAlloc Bits) (pageSize : Nat) (first : BitmapPageAllocator Bits)
    (numPages alignPow2 : Nat)
    : Prop :=
  ∀ s, History ba pageSize first s → ∀ pos a,
    s.allocator.allocPages ba pageSize numPages alignPow2 = .ok (pos, a) → alignPow2 ∣ pos

/-- A region and a request to which the two differences do not matter: a single page with
the alignment of pages, or of a region with at most one page; a block of a region that is
itself aligned, or one that is never found.
-/
def AlignmentServed (ba : BitAlloc Bits) (pageSize : Nat) (first : BitmapPageAllocator Bits)
    (numPages k : Nat)
    : Prop :=
  if numPages = 1 then
    k = 0 ∨ first.totalPages = 0 ∨ first.totalPages = 1 ∧ pageSize * 2 ^ k ∣ first.base
  else pageSize * 2 ^ k ∣ first.base ∨ first.totalPages < numPages ∨ ba.cap < 2 ^ k

/-- No step moves the region. -/
theorem Step.region {released : Block → Prop} {s' : Pages Bits} (lawful : ba.Lawful)
    (step : Step ba pageSize released s s')
    : s'.allocator.base = s.allocator.base ∧ s'.allocator.totalPages = s.allocator.totalPages := by
  cases step with
  | alloc numPages alignPow2 pos a allocated =>
      obtain ⟨-, idx, inner, -, rfl, -⟩ := allocPages_ok lawful allocated
      exact ⟨rfl, rfl⟩
  | refused numPages alignPow2 error refused => exact ⟨rfl, rfl⟩
  | dealloc block live a perm _ run =>
      unfold BitmapPageAllocator.deallocPages at run
      split at run
      · cases run
        exact ⟨rfl, rfl⟩
      · cases run

theorem History.region (lawful : ba.Lawful) (history : History ba pageSize first s)
    : s.allocator.base = first.base ∧ s.allocator.totalPages = first.totalPages := by
  induction history with
  | refl => exact ⟨rfl, rfl⟩
  | tail _ step ih =>
      obtain ⟨base, total⟩ := step.region lawful
      exact ⟨base.trans ih.1, total.trans ih.2⟩

section Region

variable (finds : ba.Finds) {start size : Nat}
  (begun : (BitmapPageAllocator.new ba).init ba pageSize start size = some first)

include begun

/-- The region begins at a page. -/
theorem base_aligned : pageSize ∣ first.base := by
  unfold BitmapPageAllocator.init at begun
  dsimp only at begun
  split at begun
  · cases begun
    exact dvd_alignUp start pageSize
  · cases begun

include finds

theorem History.safe (history : History ba pageSize first s) : s.Safe ba pageSize :=
  safe_reachable finds.toLawful ⟨⟨first, []⟩, ⟨rfl, start, size, begun⟩, history⟩

theorem page_positive : 0 < pageSize :=
  (History.safe (s := ⟨first, []⟩) finds begun .refl).positive

/-- Right after `init` all pages of the region are free. -/
theorem fresh_free {i : Nat} (below : i < first.totalPages) : ba.test first.inner i = true :=
  (safe_started (s := ⟨first, []⟩) finds.toLawful ⟨rfl, start, size, begun⟩).2 i below
    (by simp)

/-- A free page is returned by a request for a single page in some continuation of the
history, by induction on the number of free pages: each request takes one of them.
-/
theorem single_granted {i : Nat} (k : Nat) (history : History ba pageSize first s)
    (free : ba.test s.allocator.inner i = true)
    : ∃ s', History ba pageSize first s'
      ∧ ∃ a, s'.allocator.allocPages ba pageSize 1 (pageSize * 2 ^ k)
        = .ok (pageSize * i + first.base, a) := by
  induction count : freePages ba s.allocator using Nat.strong_induction_on generalizing s with
  | _ n ih =>
      have safe := history.safe finds begun
      cases taken : ba.alloc s.allocator.inner with
      | none => exact absurd free (by simp [finds.alloc_none taken i])
      | some found =>
          obtain ⟨idx, inner⟩ := found
          obtain ⟨-, left⟩ := finds.alloc_some taken
          have granted := @allocPages_request _ ba _ safe.positive s.allocator _ Nat.one_pos k
          simp only [takeBits, if_pos, taken, (history.region finds.toLawful).1] at granted
          by_cases here : idx = i
          · subst here
            exact ⟨s, history, _, granted⟩
          · refine ih _ ?_ (history.tail (.alloc 1 _ _ _ granted)) ?_ rfl
            · rw [← count]
              exact freePages_lt finds.toLawful safe granted
            · exact (left i).mpr ⟨free, Ne.symm here⟩

/-- Every page of the region is returned by such a request in some history. -/
theorem page_granted {i : Nat} (k : Nat) (below : i < first.totalPages)
    : ∃ s', History ba pageSize first s'
      ∧ ∃ a, s'.allocator.allocPages ba pageSize 1 (pageSize * 2 ^ k)
        = .ok (pageSize * i + first.base, a) :=
  single_granted finds begun k .refl (fresh_free finds begun below)

/-- A request for one page is always answered with an aligned address exactly when pages are
all it asks for, or when the region has no other page than an aligned first one.
-/
theorem alwaysAligned_single_iff (k : Nat)
    : AlwaysAligned ba pageSize first 1 (pageSize * 2 ^ k)
      ↔ AlignmentServed ba pageSize first 1 k := by
  have positive := page_positive finds begun
  rw [AlignmentServed, if_pos rfl]
  constructor
  · intro always
    by_cases none_at_all : first.totalPages = 0
    · exact .inr (.inl none_at_all)
    obtain ⟨s₀, history₀, a₀, granted₀⟩ :=
      page_granted finds begun k (Nat.pos_of_ne_zero none_at_all)
    have first_aligned := always s₀ history₀ _ a₀ granted₀
    rw [Nat.mul_zero, Nat.zero_add] at first_aligned
    by_cases single : first.totalPages = 1
    · exact .inr (.inr ⟨single, first_aligned⟩)
    · -- the first two pages are both aligned, so that the alignment is at most a page
      obtain ⟨s₁, history₁, a₁, granted₁⟩ :=
        page_granted finds begun k (show 1 < first.totalPages by omega)
      have second_aligned := always s₁ history₁ _ a₁ granted₁
      have page := (Nat.dvd_add_left first_aligned).mp second_aligned
      have unit : 2 ^ k ∣ 1 := Nat.dvd_of_mul_dvd_mul_left positive page
      refine .inl (Nat.eq_zero_of_not_pos fun more => ?_)
      have := Nat.one_lt_two_pow (Nat.ne_of_gt more)
      have := Nat.le_of_dvd Nat.one_pos unit
      omega
  · intro served s history pos a granted
    obtain ⟨idx, rfl, free, -⟩ := request_ok finds positive Nat.one_pos granted
    have below := ((history.safe finds begun).free idx (free idx (Nat.le_refl _) (by omega))).1
    obtain ⟨base, total⟩ := history.region finds.toLawful
    rw [total] at below
    rw [base]
    rcases served with rfl | empty | ⟨single, aligned⟩
    · rw [Nat.pow_zero, Nat.mul_one]
      exact Nat.dvd_add (Nat.dvd_mul_right _ _) (base_aligned begun)
    · omega
    · rw [show idx = 0 by omega, Nat.mul_zero, Nat.zero_add]
      exact aligned

/-- A request for a block is always answered with an aligned address exactly when the region
is aligned or no block for it is ever found.
-/
theorem alwaysAligned_block_iff {numPages : Nat} (k : Nat) (several : 1 < numPages)
    : AlwaysAligned ba pageSize first numPages (pageSize * 2 ^ k)
      ↔ AlignmentServed ba pageSize first numPages k := by
  have positive := page_positive finds begun
  have nonzero : 0 < numPages := by omega
  rw [AlignmentServed, if_neg (by omega)]
  constructor
  · intro always
    by_cases few : first.totalPages < numPages
    · exact .inr (.inl few)
    by_cases wide : ba.cap < 2 ^ k
    · exact .inr (.inr wide)
    have request := @allocPages_request _ ba _ positive first _ nonzero k
    rw [takeBits, if_neg (by omega)] at request
    cases taken : ba.allocContiguous first.inner numPages k with
    | none =>
        -- the first pages of a fresh region are free
        obtain ⟨i, -, below, used⟩ := finds.allocContiguous_none nonzero taken
          (Nat.le_of_not_lt wide) (Nat.dvd_zero _)
        have free := fresh_free finds begun (show i < first.totalPages by omega)
        exact absurd (used.symm.trans free) Bool.false_ne_true
    | some found =>
        obtain ⟨idx, inner⟩ := found
        rw [taken] at request
        have aligned := always _ .refl _ _ request
        have offset : pageSize * 2 ^ k ∣ pageSize * idx :=
          Nat.mul_dvd_mul_left _ (finds.allocContiguous_aligned taken)
        exact .inl ((Nat.dvd_add_right offset).mp aligned)
  · intro served s history pos a granted
    obtain ⟨idx, rfl, free, block⟩ := request_ok finds positive nonzero granted
    obtain ⟨offset, narrow⟩ := block (by omega)
    have last := ((history.safe finds begun).free (idx + numPages - 1)
      (free _ (by omega) (by omega))).1
    obtain ⟨base, total⟩ := history.region finds.toLawful
    rw [total] at last
    rw [base]
    rcases served with aligned | few | wide
    · exact Nat.dvd_add (Nat.mul_dvd_mul_left _ offset) aligned
    · omega
    · omega

end Region

/-- In every history from a region, every block that is returned for the request starts at a
multiple of the alignment, exactly when the region and the request are served.
-/
theorem alwaysAligned_iff (finds : ba.Finds) {start size : Nat}
    (begun : (BitmapPageAllocator.new ba).init ba pageSize start size = some first)
    {numPages : Nat} (nonzero : 0 < numPages) (k : Nat)
    : AlwaysAligned ba pageSize first numPages (pageSize * 2 ^ k)
      ↔ AlignmentServed ba pageSize first numPages k := by
  by_cases single : numPages = 1
  · subst single
    exact alwaysAligned_single_iff finds begun k
  · exact alwaysAligned_block_iff finds begun k (by omega)

end Pages

-----------------------------------------------------------------------------------------
-- A bitmap that finds free bits
-----------------------------------------------------------------------------------------

/-- The first fit, which refuses alignments beyond its 16 bits. -/
def narrowFit : BitAlloc (List Nat) :=
  { firstFit with
    allocContiguous := fun bits num align =>
      if firstFit.cap < 2 ^ align then none else firstFit.allocContiguous bits num align }

theorem narrowFit_eq {bits : List Nat} {num align : Nat} {found : Nat × List Nat}
    (taken : narrowFit.allocContiguous bits num align = some found)
    : firstFit.allocContiguous bits num align = some found := by
  simp only [narrowFit] at taken
  split at taken
  · cases taken
  · exact taken

theorem narrowFit_finds : narrowFit.Finds where
  test_default := firstFit_lawful.test_default
  test_insert := firstFit_lawful.test_insert
  alloc_some := firstFit_lawful.alloc_some
  allocContiguous_some taken := firstFit_lawful.allocContiguous_some (narrowFit_eq taken)
  dealloc_test := firstFit_lawful.dealloc_test
  alloc_none := by
    intro bits refused i
    have empty : bits = [] := List.head?_eq_none_iff.mp (Option.map_eq_none_iff.mp refused)
    simp [narrowFit, firstFit, empty]
  allocContiguous_aligned := by
    intro bits bits' num align idx taken
    obtain ⟨first, found, made⟩ := Option.map_eq_some_iff.mp (narrowFit_eq taken)
    cases made
    have fits := List.find?_some found
    rw [decide_eq_true_eq] at fits
    exact Nat.dvd_of_mod_eq_zero fits.1
  allocContiguous_none := by
    intro bits num align idx positive refused narrow aligned
    simp only [narrowFit] at refused narrow
    rw [if_neg (Nat.not_lt.mpr narrow)] at refused
    have unfound := List.find?_eq_none.mp (Option.map_eq_none_iff.mp refused)
    by_contra all_free
    simp only [not_exists, not_and, Bool.not_eq_false] at all_free
    have free (i : Nat) (low : idx ≤ i) (high : i < idx + num) : i ∈ bits :=
      of_decide_eq_true (all_free i low high)
    refine unfound idx (free idx (Nat.le_refl _) (by omega)) (decide_eq_true
      ⟨Nat.mod_eq_zero_of_dvd aligned, List.all_eq_true.mpr fun i member => ?_⟩)
    rw [List.mem_range] at member
    exact decide_eq_true (free (idx + i) (by omega) (by omega))
  allocContiguous_wide wide bits num := if_pos wide

/-- Four pages from the given address on. -/
def fourFresh (base : Nat) : BitmapPageAllocator (List Nat) :=
  ⟨base, 4, 0, [0, 1, 2, 3]⟩

theorem alwaysAligned_iff_fourFresh
    : Pages.AlwaysAligned narrowFit 4096 (fourFresh 0x80000000) 2 (4096 * 2 ^ 1) :=
  (Pages.alwaysAligned_iff narrowFit_finds
    (show (BitmapPageAllocator.new narrowFit).init narrowFit 4096 0x80000000 0x4000 = some _
      by decide) (by decide) 1).mpr (by unfold Pages.AlignmentServed; decide)

/-- From a region of four pages at `0x80001000`, two pages with an alignment of `0x2000` are
taken at its start; from one at `0x80000000`, a single page with that alignment is taken at
`0x80001000` as the second allocation.
-/
theorem fourFresh_unaligned
    : ¬ Pages.AlwaysAligned narrowFit 4096 (fourFresh 0x80001000) 2 0x2000
      ∧ ¬ Pages.AlwaysAligned narrowFit 4096 (fourFresh 0x80000000) 1 0x2000
      ∧ (BitmapPageAllocator.new narrowFit).init narrowFit 4096 0x80001000 0x4000
          = some (fourFresh 0x80001000)
      ∧ (BitmapPageAllocator.new narrowFit).init narrowFit 4096 0x80000000 0x4000
          = some (fourFresh 0x80000000) := by
  refine ⟨fun always => ?_, fun always => ?_, by decide, by decide⟩
  · have aligned := always _ .refl 0x80001000 ⟨0x80001000, 4, 2, [2, 3]⟩ (by decide)
    revert aligned
    decide
  · have second : Pages.History narrowFit 4096 (fourFresh 0x80000000)
        ⟨⟨0x80000000, 4, 1, [1, 2, 3]⟩, [⟨0x80000000, 1⟩]⟩ :=
      .single (.alloc 1 0x2000 0x80000000 _ (by decide))
    have aligned := always _ second 0x80001000 ⟨0x80000000, 4, 2, [2, 3]⟩ (by decide)
    revert aligned
    decide

end RCoreOS.Allocator
