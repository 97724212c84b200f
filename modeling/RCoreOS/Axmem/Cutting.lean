import RCoreOS.Axmem.Agreement
import RCoreOS.Axmem.FileCursor

/-! Cutting areas at page addresses. Whatever cuts an area moves the cursor of the part behind
the cut by the distance of the starts, so that every page keeps its position in the file.
-/

namespace RCoreOS.Axmem

open PageTable GenericPTE Outcome

variable {fs : Vfs} {allowed : Crash → Prop}

namespace MapArea

variable {area : MapArea} {addr stop : Nat}

/-- The part of the area before an address. -/
def left (area : MapArea) (addr : Nat) : MapArea :=
  { area with pages := area.pages.take ((addr - area.vaddr) / 4096) }

/-- The part of the area from an address on, with a file of its own. -/
def right (area : MapArea) (addr : Nat) (backend : Option MemBackend) : MapArea :=
  { area with
    pages := area.pages.drop ((addr - area.vaddr) / 4096)
    vaddr := addr
    backend }

/-- An aligned address strictly inside the area. -/
structure Cuts (area : MapArea) (addr : Nat) : Prop where
  aligned : addr % 4096 = 0
  lower : area.vaddr < addr
  upper : addr < area.stop

/-- An address that cuts the area is the start of one of its pages, but not of the first. -/
theorem Cuts.page (cuts : area.Cuts addr) (placed : area.Placed)
    : ∃ k, 0 < k ∧ k < area.pages.length ∧ addr = area.vaddr + 4096 * k := by
  obtain ⟨aligned, lower, upper⟩ := cuts
  have := placed.aligned
  unfold stop at upper
  exact ⟨(addr - area.vaddr) / 4096, by omega, by omega, by omega⟩

theorem Cuts.stop_left (cuts : area.Cuts addr) (placed : area.Placed)
    : (area.left addr).stop = addr := by
  obtain ⟨k, -, inside, rfl⟩ := cuts.page placed
  simp only [left, stop, List.length_take]
  omega

theorem Cuts.stop_right (cuts : area.Cuts addr) (placed : area.Placed)
    (backend : Option MemBackend)
    : (area.right addr backend).stop = area.stop := by
  obtain ⟨k, -, inside, rfl⟩ := cuts.page placed
  simp only [right, stop, List.length_drop]
  omega

theorem Cuts.size_left (cuts : area.Cuts addr) (placed : area.Placed)
    : (area.left addr).size = addr - area.vaddr := by
  have stop := cuts.stop_left placed
  rw [stop_eq] at stop
  have : (area.left addr).vaddr = area.vaddr := rfl
  omega

theorem Cuts.size_right (cuts : area.Cuts addr) (placed : area.Placed)
    (backend : Option MemBackend)
    : (area.right addr backend).size = area.stop - addr := by
  have stop := cuts.stop_right placed backend
  rw [stop_eq] at stop
  have : (area.right addr backend).vaddr = addr := rfl
  omega

theorem Cuts.inside (cuts : area.Cuts addr) : (addr - area.vaddr) / 4096 ≤ area.pages.length := by
  have := cuts.upper
  unfold stop at this
  omega

theorem Cuts.below (cuts : area.Cuts addr) (placed : area.Placed) : addr < 2 ^ 63 :=
  cuts.upper.trans placed.below

theorem Cuts.distance (cuts : area.Cuts addr) (placed : area.Placed)
    : wrapSub addr area.vaddr = addr - area.vaddr := by
  have := cuts.below placed
  exact wrapSub_of_le cuts.lower.le (by unfold USIZE_RANGE; omega)

theorem Cuts.distance_end (cuts : area.Cuts addr) (placed : area.Placed)
    : wrapSub area.endVa addr = area.stop - addr := by
  have := placed.below
  rw [placed.endVa]
  exact wrapSub_of_le cuts.upper.le (by unfold USIZE_RANGE; omega)

/-- Counting the pages from the end gives the index of the page at the cut. -/
theorem Cuts.index (cuts : area.Cuts addr) (placed : area.Placed)
    : wrapSub area.pages.length (wrapSub area.endVa addr / PAGE_SIZE_4K)
      = (addr - area.vaddr) / 4096 := by
  rw [cuts.distance_end placed]
  obtain ⟨k, -, inside, rfl⟩ := cuts.page placed
  have length : area.stop - (area.vaddr + 4096 * k) = 4096 * (area.pages.length - k) := by
    unfold stop
    omega
  have below := placed.below
  unfold stop at below
  rw [length, PAGE_SIZE_4K, Nat.mul_div_cancel_left _ (by decide),
    wrapSub_of_le (Nat.sub_le ..) (by unfold USIZE_RANGE; omega)]
  omega

theorem div_page (n : Nat) : n / PAGE_SIZE_4K = n / 4096 :=
  rfl

theorem drain_ok {α : Type} {xs : List α} {start stop : Nat} (order : start ≤ stop)
    (inside : stop ≤ xs.length)
    : drain xs start stop = .ok ((xs.take stop).drop start, xs.take start ++ xs.drop stop) :=
  if_pos ⟨order, inside⟩

theorem drain_tail {α : Type} {xs : List α} {start : Nat} (inside : start ≤ xs.length)
    : drain xs start xs.length = .ok (xs.drop start, xs.take start) := by
  rw [drain_ok inside (Nat.le_refl _), List.take_length, List.drop_length, List.append_nil]

/-- The pages from a cut on are taken by their number. -/
theorem Cuts.drain (cuts : area.Cuts addr) (placed : area.Placed)
    : Axmem.drain area.pages
        (wrapSub area.pages.length (wrapSub area.endVa addr / PAGE_SIZE_4K)) area.pages.length
      = .ok (area.pages.drop ((addr - area.vaddr) / 4096),
          area.pages.take ((addr - area.vaddr) / 4096)) := by
  rw [cuts.index placed, drain_tail cuts.inside]

/-- A cut behind another one cuts the part before it, too. -/
theorem Cuts.left (cuts : area.Cuts addr) (cuts' : area.Cuts stop)
    (placed : area.Placed) (before : addr < stop)
    : (area.left stop).Cuts addr :=
  ⟨cuts.aligned, cuts.lower, (cuts'.stop_left placed).symm ▸ before⟩

theorem Cuts.placed_left (cuts : area.Cuts addr) (placed : area.Placed)
    : (area.left addr).Placed where
  aligned := placed.aligned
  nonempty := by
    obtain ⟨k, positive, inside, rfl⟩ := cuts.page placed
    apply List.ne_nil_of_length_pos
    simp only [MapArea.left, List.length_take]
    omega
  below := (cuts.stop_left placed).trans_lt (cuts.below placed)

theorem Cuts.placed_right (cuts : area.Cuts addr) (placed : area.Placed)
    (backend : Option MemBackend)
    : (area.right addr backend).Placed where
  aligned := cuts.aligned
  nonempty := by
    obtain ⟨k, positive, inside, rfl⟩ := cuts.page placed
    apply List.ne_nil_of_length_pos
    simp only [MapArea.right, List.length_drop]
    omega
  below := (cuts.stop_right placed backend).trans_lt placed.below

-----------------------------------------------------------------------------------------
-- The file behind a cut
-----------------------------------------------------------------------------------------

/-- The part of the area from an address on, with its part of the file. -/
def behind (area : MapArea) (addr : Nat) : MapArea :=
  area.right addr (area.backend.map (·.forward (addr - area.vaddr)))

/-- Where the file of the area is read for an address. -/
def position (area : MapArea) (va : Nat) : Option MemBackend :=
  area.backend.map (·.forward (va - area.vaddr))

theorem Cuts.seek_returns (cuts : area.Cuts addr) (placed : area.Placed)
    : Returns (· = (area.behind addr).backend)
        (seekBackend fs area.backend (addr - area.vaddr)) :=
  seekBackend_returns ((Nat.sub_le ..).trans_lt (cuts.below placed))

/-- The two parts of an area that is split, if the cursor can be moved. -/
theorem split_ends (placed : area.Placed) (cuts : area.Cuts addr)
    (seek : Ends allowed (· = (area.behind addr).backend)
      (seekBackend fs area.backend (addr - area.vaddr)))
    : Ends allowed (· = (area.left addr, area.behind addr)) (area.split fs addr) := by
  simp only [split, assert, isAligned_4k, cuts.aligned, if_true, ok_bind,
    cuts.drain placed, cuts.distance placed]
  refine seek.bind ?_
  rintro _ rfl
  exact rfl

theorem split3_ends (placed : area.Placed) (cuts : area.Cuts addr) (cuts' : area.Cuts stop)
    (before : addr < stop)
    (seek : Ends allowed (· = (area.behind addr).backend)
      (seekBackend fs area.backend (addr - area.vaddr)))
    (seek' : Ends allowed (· = (area.behind stop).backend)
      (seekBackend fs area.backend (stop - area.vaddr)))
    : Ends allowed
        (· = ((area.left stop).left addr, (area.left stop).behind addr, area.behind stop))
        (area.split3 fs addr stop) := by
  have drained := (cuts.left cuts' placed before).drain (cuts'.placed_left placed)
  have upper := cuts'.upper
  rw [← placed.endVa] at upper
  simp only [MapArea.left] at drained ⊢
  simp only [split3, assert, isAligned_4k, cuts.aligned, cuts'.aligned, before, cuts.lower,
    upper, decide_true, if_true, ok_bind, cuts'.drain placed, drained, cuts.distance placed,
    cuts'.distance placed]
  refine seek.bind ?_
  rintro _ rfl
  refine seek'.bind ?_
  rintro _ rfl
  exact rfl

theorem forward_forward (backend : MemBackend) (d e : Nat)
    : (backend.forward d).forward e = backend.forward (d + e) := by
  simp only [MemBackend.forward, Nat.add_assoc]

/-- Cutting an area does not change where its file is read for an address. -/
theorem Cuts.position_behind {va : Nat} (cuts : area.Cuts addr) (inside : addr ≤ va)
    : (area.behind addr).position va = area.position va := by
  have lower := cuts.lower
  simp only [position, behind, right, Option.map_map]
  congr 1
  funext backend
  dsimp only [Function.comp]
  rw [forward_forward]
  congr 1
  omega

-----------------------------------------------------------------------------------------
-- The areas that operations return
-----------------------------------------------------------------------------------------

section Machine

variable {PTE σ : Type} [GenericPTE PTE] [GlobalAllocator σ] {m : Machine PTE σ}

theorem shrinkLeft_returns (placed : area.Placed) (cuts : area.Cuts addr)
    : Returns (·.1 = area.behind addr) (area.shrinkLeft fs addr m) := by
  simp only [shrinkLeft, assert, isAligned_4k, cuts.aligned, if_true, ok_bind,
    cuts.distance placed, div_page, drain_ok (Nat.zero_le _) cuts.inside]
  refine (cuts.seek_returns placed).bind ?_
  rintro _ rfl
  exact (Returns.self _).bind fun _ _ => rfl

theorem shrinkRight_returns (placed : area.Placed) (cuts : area.Cuts addr)
    : Returns (·.1 = area.left addr) (area.shrinkRight addr m) := by
  simp only [shrinkRight, assert, isAligned_4k, cuts.aligned, if_true, ok_bind,
    cuts.drain placed]
  exact (Returns.self _).bind fun _ _ => rfl

theorem removeMid_returns (placed : area.Placed) (cuts : area.Cuts addr)
    (cuts' : area.Cuts stop) (before : addr < stop)
    : Returns (fun r => r.1 = (area.left stop).left addr ∧ r.2.1 = area.behind stop)
        (area.removeMid fs addr stop m) := by
  have drained := drain_tail (cuts.left cuts' placed before).inside
  simp only [MapArea.left] at drained ⊢
  rw [List.length_take_of_le cuts'.inside] at drained
  simp only [removeMid, assert, isAligned_4k, cuts.aligned, cuts'.aligned, before.le,
    decide_true, if_true, ok_bind, cuts.distance placed, cuts'.distance placed, div_page,
    drain_tail cuts'.inside, drained]
  refine (cuts'.seek_returns placed).bind ?_
  rintro _ rfl
  exact (Returns.self _).bind fun _ _ => ⟨rfl, rfl⟩

omit [GlobalAllocator σ] in
theorem updateFlags_returns (flags : MappingFlags)
    : Returns (·.1 = { area with flags }) (area.updateFlags flags m) :=
  (Returns.self _).bind fun _ _ => rfl

/-- A page fault is refused, or it loads the page of the address from its position. -/
theorem handlePageFault_returns (placed : area.Placed) (lower : area.vaddr ≤ addr)
    (upper : addr < area.stop) (flags : MappingFlags)
    : Returns (fun r => r.1 = false ∧ r.2.1 = area
        ∨ r.1 = true ∧ ∃ page : PhysPage,
          (PhysPage.alloc m).1 = .ok page
          ∧ area.pages[(addr - area.vaddr) / 4096]? = some none
          ∧ r.2.1 = { area with
              pages := area.pages.set ((addr - area.vaddr) / 4096) (some page) }
          ∧ ∀ i, i < PAGE_SIZE_4K → r.2.2.bytes (page.paddr + i) = loadedByte fs
              (area.position (addr - addr % 4096)) (m.bytes (page.paddr + i)) i)
        (area.handlePageFault fs addr flags m) := by
  have below := placed.below
  have distance : wrapSub addr area.vaddr = addr - area.vaddr :=
    wrapSub_of_le lower (by unfold USIZE_RANGE; omega)
  rw [handlePageFault, placed.endVa, distance, div_page]
  simp only [assert, lower, upper, decide_true, Bool.and_self, if_true, ok_bind]
  split
  · exact .inl ⟨rfl, rfl⟩
  simp only [pure_eq_ok]
  split
  · exact .inl ⟨rfl, rfl⟩
  · exact .inl ⟨rfl, rfl⟩
  rename_i empty
  split
  · trivial
  rename_i page m₁ alloc
  have position : area.position (addr - addr % 4096)
      = area.backend.map (·.forward ((addr - area.vaddr) / 4096 * PAGE_SIZE_4K)) := by
    have aligned := placed.aligned
    have : addr - addr % 4096 - area.vaddr = (addr - area.vaddr) / 4096 * PAGE_SIZE_4K := by
      unfold PAGE_SIZE_4K
      omega
    rw [MapArea.position, this]
  have word : (addr - area.vaddr) / 4096 * PAGE_SIZE_4K < 2 ^ 63 := by
    unfold PAGE_SIZE_4K
    omega
  have bytes : m₁.bytes = m.bytes := by
    unfold PhysPage.alloc at alloc
    split at alloc <;> cases alloc
    rfl
  refine (fillPage_returns page word).bind ?_
  rintro _ rfl
  refine (unwrap_bytes _).bind fun m₃ same =>
    .inr ⟨rfl, page, by rw [alloc], empty, rfl, fun i inside => ?_⟩
  rw [same, Machine.fillFrame_inside inside, position, bytes]

end Machine

end MapArea

end RCoreOS.Axmem
