import RCoreOS.Axmem.Contents
import RCoreOS.Axmem.Representation

/-! Requests with empty ranges. Unmapping nothing is harmless inside of an area, where it cuts the
area in two, but at the start of an area it takes the whole area away; protecting nothing panics
wherever there is an area.
-/

namespace RCoreOS.Axmem

open PageTable GenericPTE Outcome

variable {fs : Vfs} {area : MapArea} {start addr va : Nat}

-----------------------------------------------------------------------------------------
-- Areas at a point
-----------------------------------------------------------------------------------------

namespace MapArea

/-- An area overlaps an empty range when it has the address. -/
theorem Placed.overlapWith_point (placed : area.Placed)
    : area.overlapWith start start = area.overlapWith start (start + 1) := by
  have nonempty := placed.lt_stop
  simp only [overlapWith, placed.endVa]
  rw [Bool.eq_iff_iff]
  simp only [Bool.or_eq_true, Bool.and_eq_true, decide_eq_true_eq]
  omega

theorem Placed.away_point (placed : area.Placed)
    : ¬ area.Away start (start + 1) ↔ area.vaddr ≤ start ∧ start < area.stop := by
  have nonempty := placed.lt_stop
  unfold Away
  omega

/-- No area with an address at or behind its start is contained in an empty range. -/
theorem Placed.containedIn_point (placed : area.Placed) (upper : start < area.stop)
    : area.containedIn start start = false := by
  simp only [containedIn, placed.endVa, Bool.and_eq_false_imp, decide_eq_true_eq,
    decide_eq_false_iff_not]
  omega

theorem Placed.strictContain_point (placed : area.Placed) (upper : start < area.stop)
    : area.strictContain start start = decide (area.vaddr < start) := by
  simp [strictContain, placed.endVa, upper]

/-- An area cut at an address has the same values at all its addresses. -/
theorem Steady.has_cut {γ : Type} {look : MapArea → Nat → γ} {value : γ} {areas : List MapArea}
    (steady : Steady look) (placed : area.Placed) (cuts : area.Cuts addr)
    : MemorySet.Has look (area.left addr :: area.behind addr :: areas) va value
      ↔ MemorySet.Has look (area :: areas) va value := by
  have stopLeft := cuts.stop_left placed
  have stopRight : (area.behind addr).stop = area.stop := cuts.stop_right placed _
  have lowerLeft : (area.left addr).vaddr = area.vaddr := rfl
  have lowerRight : (area.behind addr).vaddr = addr := rfl
  have lower := cuts.lower
  have upper := cuts.upper
  unfold MemorySet.Has
  simp only [List.mem_cons, exists_eq_or_imp, stopLeft, stopRight, lowerLeft, lowerRight]
  rw [← or_assoc]
  refine or_congr_left ⟨?_, ?_⟩
  · rintro (⟨low, high, same⟩ | ⟨low, high, same⟩)
    · exact ⟨low, high.trans upper, (steady.left placed cuts low high).symm.trans same⟩
    · exact ⟨lower.le.trans low, high, (steady.behind placed cuts low high).symm.trans same⟩
  · rintro ⟨low, high, same⟩
    rcases Nat.lt_or_ge va addr with before | behind
    · exact .inl ⟨low, before, (steady.left placed cuts low before).trans same⟩
    · exact .inr ⟨behind, high, (steady.behind placed cuts behind high).trans same⟩

section Machine

variable {PTE σ : Type} [GenericPTE PTE] [GlobalAllocator σ] {m : Machine PTE σ}

omit [GlobalAllocator σ] in
theorem unmapRegion_empty : m.unmapRegion start 0 = .ok m := by
  rw [Machine.unmapRegion, Paging.unmapRegion, if_pos rfl]

/-- Removing nothing from the middle of an area cuts it in two. -/
theorem removeMid_empty (placed : area.Placed) (cuts : area.Cuts addr)
    (seek : seekBackend fs area.backend (addr - area.vaddr) = .ok (area.behind addr).backend)
    : area.removeMid fs addr addr m = .ok (area.left addr, area.behind addr, m) := by
  have length : (area.pages.take ((addr - area.vaddr) / 4096)).length
      = (addr - area.vaddr) / 4096 :=
    List.length_take_of_le cuts.inside
  have nothing : wrapSub addr addr = 0 := by
    have below := cuts.below placed
    rw [wrapSub_of_le (Nat.le_refl _) (by unfold USIZE_RANGE; omega), Nat.sub_self]
  have drained : drain (area.pages.take ((addr - area.vaddr) / 4096))
      ((addr - area.vaddr) / 4096) ((addr - area.vaddr) / 4096)
        = .ok ([], area.pages.take ((addr - area.vaddr) / 4096)) := by
    rw [drain_ok (Nat.le_refl _) length.ge, List.take_of_length_le length.le,
      List.drop_eq_nil_of_le length.le, List.append_nil]
  simp only [removeMid, assert, isAligned_4k, cuts.aligned, Nat.le_refl, decide_true, if_true,
    ok_bind, cuts.distance placed, div_page, drain_tail cuts.inside, seek, drained, nothing,
    dropPages, List.reduceOption_nil, List.foldl_nil, unmapRegion_empty]
  rfl

/-- Shrinking an area to its start leaves no page. -/
theorem shrinkRight_start (placed : area.Placed)
    : Returns (·.1 = { area with pages := [] }) (area.shrinkRight area.vaddr m) := by
  have below := placed.below
  have distance : wrapSub area.endVa area.vaddr / PAGE_SIZE_4K = area.pages.length := by
    rw [placed.endVa, wrapSub_of_le placed.lt_stop.le (by unfold USIZE_RANGE; omega), stop,
      Nat.add_sub_cancel_left, PAGE_SIZE_4K, Nat.mul_div_cancel_left _ (by decide)]
  have nothing : wrapSub area.pages.length area.pages.length = 0 := by
    unfold stop at below
    rw [wrapSub_of_le (Nat.le_refl _) (by unfold USIZE_RANGE; omega), Nat.sub_self]
  simp only [shrinkRight, assert, isAligned_4k, placed.aligned, if_true, ok_bind, distance,
    nothing, drain_tail (Nat.zero_le _), List.take_zero]
  exact (Returns.self _).bind fun m' _ => rfl

/-- Splitting an area at its start moves all of it into the part behind. -/
theorem split_start
    : Returns (fun r => r.1.vaddr = area.vaddr ∧ r.2.vaddr = area.vaddr)
        (area.split fs area.vaddr) :=
  (Returns.self _).bind fun _ _ => (Returns.self _).bind fun _ _ =>
    (Returns.self _).bind fun _ _ => ⟨rfl, rfl⟩

end Machine

end MapArea

namespace MemorySet

variable {PTE σ : Type} [GenericPTE PTE] [GlobalAllocator σ] {s s' : MemorySet PTE σ}
variable {areas : List MapArea}

/-- How the areas lie around an address: none has it, or one that can be taken out. -/
inductive Located (s : MemorySet PTE σ) (start : Nat) : Prop
  | outside {ownedMem : BTreeMap Nat MapArea} (run : s.takeOverlapped start start = ([], ownedMem))
    (away : ∀ area ∈ s.ownedMem.values, area.Away start (start + 1))
    (perm : s.ownedMem.values.Perm ownedMem.values)
  | inside {area : MapArea} {ownedMem : BTreeMap Nat MapArea}
    (run : s.takeOverlapped start start = ([area], ownedMem))
    (tidy : Tidy { s with ownedMem } [area]) (lower : area.vaddr ≤ start)
    (upper : start < area.stop) (others : Cleared { s with ownedMem } start (start + 1))
    (perm : s.ownedMem.values.Perm (area :: ownedMem.values))

omit [GenericPTE PTE] [GlobalAllocator σ] in
theorem Tidy.takeOverlapped_point (tidy : Tidy s [])
    : s.takeOverlapped start start = s.takeOverlapped start (start + 1) := by
  unfold MemorySet.takeOverlapped
  refine List.foldl_ext _ _ _ fun state entry member => ?_
  have placed : entry.2.Placed := tidy.placed entry.2 (List.mem_map_of_mem member)
  dsimp only
  rw [placed.overlapWith_point]

omit [GenericPTE PTE] [GlobalAllocator σ] in
/-- At most one area has an address. -/
theorem Tidy.located (tidy : Tidy s []) (start : Nat) : Located s start := by
  obtain ⟨overlapped, ownedMem, run, tidy', cleared, perm, overlaps⟩ :=
    tidy.takeOverlapped (Nat.lt_succ_self start)
  rw [← tidy.takeOverlapped_point] at run
  have covers : ∀ area ∈ overlapped, area.vaddr ≤ start ∧ start < area.stop := by
    intro area member
    have placed : area.Placed := tidy'.placed area (List.mem_append_left _ member)
    rw [← placed.away_point, ← placed.overlapWith_iff (Nat.lt_succ_self start)]
    exact overlaps area member
  cases overlapped with
  | nil =>
      refine .outside run (fun area member => cleared area ?_) perm
      exact perm.mem_iff.mp member
  | cons area rest =>
      obtain ⟨⟨lower, upper⟩, others⟩ := List.forall_mem_cons.mp covers
      cases rest with
      | nil => exact .inside run tidy' lower upper cleared perm
      | cons other rest =>
          have apart := (List.pairwise_cons.mp tidy'.apart).1 other (List.mem_cons_self ..)
          have second := others other (List.mem_cons_self ..)
          unfold MapArea.Apart MapArea.Away at apart
          omega

-----------------------------------------------------------------------------------------
-- Requests
-----------------------------------------------------------------------------------------

/-- The request returns; page table, memory and frames are as before, and every address has the
mapping that it had.
-/
def Harmless (s : MemorySet PTE σ) (run : Except Crash (MemorySet PTE σ)) : Prop :=
  ∃ s', run = .ok s' ∧ s'.toMachine = s.toMachine
    ∧ ∀ va mapping, s'.Maps va mapping ↔ s.Maps va mapping

omit [GenericPTE PTE] [GlobalAllocator σ] in
/-- The areas that are mapped decide about the mappings. -/
theorem maps_perm (perm : s'.ownedMem.values.Perm areas)
    (same : ∀ va mapping, Has MapArea.mapping areas va mapping ↔ s.Maps va mapping) {va : Nat}
    {mapping : Mapping}
    : s'.Maps va mapping ↔ s.Maps va mapping :=
  (Iff.intro (·.perm perm) (·.perm perm.symm)).trans (same va mapping)

omit [GenericPTE PTE] [GlobalAllocator σ] in
theorem Bounded.seek (opened : fs.Open) (bounded : MemBackend.Bounded area.vaddr area.backend)
    (placed : area.Placed) (cuts : area.Cuts addr)
    : MapArea.seekBackend fs area.backend (addr - area.vaddr) = .ok (area.behind addr).backend := by
  have below := cuts.below placed
  have lower := cuts.lower
  refine seekBackend_opened opened (by omega) fun b member => ?_
  have reach := bounded b member
  omega

/-- An empty range inside of an area: the area is cut in two. -/
theorem splitArea_inside (tidy : Tidy s [area])
    (cuts : area.Cuts start) (opened : fs.Open)
    (bounded : MemBackend.Bounded area.vaddr area.backend)
    : ∃ s',
        splitArea fs start start s area = .ok s'
        ∧ s'.toMachine = s.toMachine
        ∧ s'.ownedMem.values.Perm
            (area.left start :: area.behind start :: s.ownedMem.values) := by
  have placed := tidy.placed area (.head _)
  have seek := Bounded.seek opened bounded placed cuts
  have pieces : Tidy s [area.behind start, area.left start] :=
    (tidy.cut cuts).perm tidy.keyed ((List.Perm.swap ..).append_right _)
  obtain ⟨first, insert₁, tidy₁, values₁⟩ := pieces.insertArea
  obtain ⟨second, insert₂, -, values₂⟩ := tidy₁.insertArea
  refine ⟨{ s with ownedMem := second }, ?_, rfl, values₂.trans (values₁.cons _)⟩
  rw [splitArea, placed.containedIn_point cuts.upper, placed.strictContain_point cuts.upper,
    if_neg Bool.false_ne_true, if_pos (decide_eq_true cuts.lower),
    MapArea.removeMid_empty placed cuts seek, ok_bind]
  dsimp only [withMachine]
  rw [insert₁, ok_bind, insert₂]

omit [GenericPTE PTE] [GlobalAllocator σ] in
/-- What is in the map after an insertion is the area or was there before. -/
theorem insertArea_members
    : Returns (fun s' => ∀ other ∈ s'.ownedMem.values, other = area ∨ other ∈ s.ownedMem.values)
        (s.insertArea area) := by
  refine (Returns.self _).bind fun _ _ other member => ?_
  obtain ⟨entry, inMap, rfl⟩ := List.mem_map.mp member
  rcases (BTreeMap.mem_insertEntry s.ownedMem.sorted entry).mp inMap with rfl | ⟨old, -⟩
  · exact .inl rfl
  · exact .inr (List.mem_map_of_mem old)

omit [GenericPTE PTE] [GlobalAllocator σ] in
/-- An area that was inserted cannot be inserted again. -/
theorem insertArea_again {right left : MapArea} (same : right.vaddr = left.vaddr)
    : ¬ ∃ s', (s.insertArea right >>= fun s => s.insertArea left) = .ok s' := by
  rintro ⟨s', run⟩
  obtain ⟨s₁, first, second⟩ := bind_eq_ok.mp run
  obtain ⟨_, -, inserted⟩ := bind_eq_ok.mp first
  cases inserted
  obtain ⟨_, passed, -⟩ := bind_eq_ok.mp second
  have known : (right.vaddr, right) ∈ (s.ownedMem.insert right.vaddr right).2.entries :=
    (BTreeMap.mem_insertEntry s.ownedMem.sorted _).mpr (.inl rfl)
  have again : ((s.ownedMem.insert right.vaddr right).2.insert left.vaddr left).1 = some right :=
    BTreeMap.insert_old (same ▸ known)
  have none : ((s.ownedMem.insert right.vaddr right).2.insert left.vaddr left).1.isNone = true :=
    assert_ok passed
  rw [again] at none
  cases none

/-- An empty range at the start of an area: nothing of the area is left. -/
theorem splitArea_start (tidy : Tidy s [area]) (others : s.Cleared area.vaddr (area.vaddr + 1))
    : Returns (fun s' => ∀ mapping, ¬ s'.Maps area.vaddr mapping)
        (splitArea fs area.vaddr area.vaddr s area) := by
  have placed := tidy.placed area (.head _)
  have upper := placed.lt_stop
  rw [splitArea, placed.containedIn_point upper, placed.strictContain_point upper,
    if_neg Bool.false_ne_true, if_neg (by simp), if_neg (by omega)]
  refine (MapArea.shrinkRight_start placed).bind ?_
  rintro ⟨_, m⟩ rfl
  refine insertArea_members.imp fun s' members mapping => ?_
  rintro ⟨other, member, lower, below, -⟩
  rcases members other member with rfl | old
  · exact Nat.lt_irrefl _ below
  · have away := others other old
    unfold MapArea.Away at away
    omega

omit [GlobalAllocator σ] in
/-- An empty range in an area is not protected: the area is cut at its start or at an empty
middle, and an assertion fails.
-/
theorem protectArea_fails {flags : MappingFlags} (placed : area.Placed)
    (lower : area.vaddr ≤ start) (upper : start < area.stop)
    : ¬ ∃ s', protectArea fs start start flags s area = .ok s' := by
  rw [protectArea, placed.containedIn_point upper, placed.strictContain_point upper,
    if_neg Bool.false_ne_true]
  rcases Nat.lt_or_eq_of_le lower with inside | rfl
  · rw [if_pos (decide_eq_true inside)]
    rintro ⟨s', run⟩
    obtain ⟨_, split, -⟩ := bind_eq_ok.mp run
    obtain ⟨_, -, split⟩ := bind_eq_ok.mp split
    obtain ⟨_, -, split⟩ := bind_eq_ok.mp split
    obtain ⟨_, nonempty, -⟩ := bind_eq_ok.mp split
    simpa using assert_ok nonempty
  · rw [if_neg (by simp), if_neg (by omega)]
    rintro ⟨s', run⟩
    obtain ⟨⟨left, right⟩, split, run⟩ := bind_eq_ok.mp run
    obtain ⟨same, same'⟩ := MapArea.split_start.of_ok split
    obtain ⟨⟨right', m⟩, flagged, run⟩ := bind_eq_ok.mp run
    have shape := (MapArea.updateFlags_returns flags).of_ok flagged
    dsimp only at shape same same' run
    subst shape
    refine insertArea_again ?_ ⟨s', run⟩
    exact same'.trans same.symm

-----------------------------------------------------------------------------------------
-- Empty ranges
-----------------------------------------------------------------------------------------

omit [GlobalAllocator σ] [GenericPTE PTE] in
/-- A map of the same areas is harmless. -/
theorem harmless_perm {ownedMem : BTreeMap Nat MapArea}
    (perm : s.ownedMem.values.Perm ownedMem.values)
    : s.Harmless (.ok { s with ownedMem }) :=
  ⟨_, rfl, rfl, fun _ _ => maps_perm perm.symm fun _ _ => Iff.rfl⟩

/-- Unmapping an empty range is harmless except at the start of an area. -/
theorem munmap_empty_iff (tidy : Tidy s []) (opened : fs.Open) (bounded : s.Bounded)
    (aligned : start % 4096 = 0) (word : start < USIZE_RANGE)
    : s.Harmless (s.munmap fs start 0) ↔ ∀ area ∈ s.ownedMem.values, area.vaddr ≠ start := by
  have stop : wrapAdd start (alignUpSize 0) = start := wrapAdd_of_lt word
  rw [munmap, splitForArea, stop]
  simp only [assert, isAligned_4k, aligned, if_true, ok_bind]
  cases tidy.located start with
  | outside run away perm =>
      rw [run]
      refine iff_of_true (harmless_perm perm) fun area member same => ?_
      have away := away area member
      have nonempty := (tidy.placed area member).lt_stop
      unfold MapArea.Away at away
      omega
  | @inside area ownedMem run tidy' lower upper others perm =>
      have member : area ∈ s.ownedMem.values := perm.mem_iff.mpr (List.mem_cons_self ..)
      have placed := tidy.placed area member
      simp only [run, List.foldlM_cons, List.foldlM_nil, bind_pure]
      rcases Nat.lt_or_eq_of_le lower with inside | rfl
      · have cuts : area.Cuts start := ⟨aligned, inside, upper⟩
        obtain ⟨s', split, machine, values⟩ :=
          splitArea_inside tidy' cuts opened (bounded area member)
        refine iff_of_true ⟨s', split, machine, fun va mapping => ?_⟩ fun other isOther same => ?_
        · refine maps_perm values fun va mapping => ?_
          exact (MapArea.mapping_steady.has_cut placed cuts).trans
            ⟨(·.perm perm.symm), (·.perm perm)⟩
        · have nonempty := (tidy.placed other isOther).lt_stop
          rcases List.mem_cons.mp (perm.mem_iff.mp isOther) with rfl | isRest
          · omega
          · have away := others other isRest
            unfold MapArea.Away at away
            omega
      · refine iff_of_false ?_ fun starts => starts area member rfl
        rintro ⟨s', split, -, same⟩
        refine (splitArea_start tidy' others).of_ok split (area.mapping area.vaddr) ?_
        exact (same ..).mpr ⟨area, member, Nat.le_refl _, upper, rfl⟩

omit [GlobalAllocator σ] in
/-- Protecting an empty range is harmless except at the addresses of areas. -/
theorem mprotect_empty_iff {flags : MappingFlags} (tidy : Tidy s []) (aligned : start % 4096 = 0)
    (word : start < USIZE_RANGE)
    : s.Harmless (s.mprotect fs start 0 flags)
      ↔ ∀ area ∈ s.ownedMem.values, area.Away start (start + 1) := by
  have stop : wrapAdd start 0 = start := wrapAdd_of_lt word
  rw [mprotect, stop]
  simp only [assert, isAligned_4k, aligned, if_true, ok_bind]
  cases tidy.located start with
  | outside run away perm =>
      rw [run]
      exact iff_of_true (harmless_perm perm) away
  | @inside area ownedMem run tidy' lower upper others perm =>
      have member : area ∈ s.ownedMem.values := perm.mem_iff.mpr (List.mem_cons_self ..)
      have placed := tidy.placed area member
      simp only [run, List.foldlM_cons, List.foldlM_nil, bind_pure]
      refine iff_of_false ?_ fun away => placed.away_point.mpr ⟨lower, upper⟩ (away area member)
      rintro ⟨s', protect, -⟩
      exact protectArea_fails placed lower upper ⟨s', protect⟩

/-- Empty ranges are harmless: unmapping one exactly if no area starts at its address, and
protecting one exactly if no area has the address.
-/
theorem empty_ranges_harmless_iff (flags : MappingFlags) (tidy : Tidy s []) (opened : fs.Open)
    (bounded : s.Bounded) (aligned : start % 4096 = 0) (word : start < USIZE_RANGE)
    : (s.Harmless (s.munmap fs start 0) ↔ ∀ area ∈ s.ownedMem.values, area.vaddr ≠ start)
      ∧ (s.Harmless (s.mprotect fs start 0 flags)
        ↔ ∀ area ∈ s.ownedMem.values, area.Away start (start + 1)) :=
  ⟨munmap_empty_iff tidy opened bounded aligned word, mprotect_empty_iff tidy aligned word⟩

/-- One area of two pages, the first of them loaded. -/
def loadedRun : Except Crash (MemorySet Rv64PTE PagePool) := do
  let s ← newEmpty blank (fun _ => 0)
  [Request.mmap 0x1000 0x2000 { read := true } true none,
    Request.handlePageFault 0x1000 { read := true }].foldlM (serve noFiles) s

/-- The areas in the end. -/
theorem loadedRun_areas
    : ∃ s, loadedRun = .ok s ∧ Tidy s [] ∧ s.Bounded
      ∧ s.ownedMem.values.map (fun area => (area.vaddr, area.stop)) = [(0x1000, 0x3000)] := by
  have shape : (loadedRun.map fun s => s.ownedMem.values.map fun area => (area.vaddr, area.stop))
      = .ok [(0x1000, 0x3000)] := by
    decide +kernel
  obtain ⟨s, run, areas⟩ := map_eq_ok.mp shape
  obtain ⟨start, created, requests⟩ := bind_eq_ok.mp run
  have allowed : ∀ r ∈ [Request.mmap 0x1000 0x2000 { read := true } true none,
      .handlePageFault 0x1000 { read := true }], r.Allowed := by
    simp [Request.Allowed, MemBackend.bounded_none]
  have agrees := agrees_reachable
    (reachable_requests (fun _ => rfl) allowed (.start ⟨_, _, created⟩) requests)
  exact ⟨s, run, agrees.tidy, fun area member => (agrees.kinds area member).2, areas⟩

/-- In the middle of the area nothing is unmapped. -/
theorem empty_ranges_harmless_middle
    : ∃ s, loadedRun = .ok s ∧ s.Harmless (s.munmap noFiles 0x2000 0)
      ∧ s.Harmless (s.mprotect noFiles 0x3000 0 { read := true }) := by
  obtain ⟨s, run, tidy, bounded, areas⟩ := loadedRun_areas
  have only : ∀ area ∈ s.ownedMem.values, area.vaddr = 0x1000 ∧ area.stop = 0x3000 := by
    intro area member
    have listed := List.mem_map_of_mem (f := fun area : MapArea => (area.vaddr, area.stop)) member
    rw [areas, List.mem_singleton] at listed
    exact Prod.mk.inj listed
  have opened : noFiles.Open := fun _ => rfl
  refine ⟨s, run, ?_, ?_⟩
  · refine (empty_ranges_harmless_iff {} tidy opened bounded (by decide) (by decide)).1.mpr
      fun area member => ?_
    rw [(only area member).1]
    decide
  · refine (empty_ranges_harmless_iff { read := true } tidy opened bounded (by decide)
      (by decide)).2.mpr
      fun area member => ?_
    exact .inl (only area member).2.le

/-- At the start of the area everything is unmapped, and both there and in the middle protecting
nothing panics.
-/
theorem empty_ranges_harm
    : ∃ s, loadedRun = .ok s ∧ ¬ s.Harmless (s.munmap noFiles 0x1000 0)
      ∧ ¬ s.Harmless (s.mprotect noFiles 0x1000 0 { read := true })
      ∧ ¬ s.Harmless (s.mprotect noFiles 0x2000 0 { read := true }) := by
  obtain ⟨s, run, tidy, bounded, areas⟩ := loadedRun_areas
  obtain ⟨area, member, bounds⟩ :=
    List.mem_map.mp (areas ▸ List.mem_singleton_self (0x1000, 0x3000))
  obtain ⟨lower, upper⟩ := Prod.mk.inj bounds
  have opened : noFiles.Open := fun _ => rfl
  refine ⟨s, run, fun harmless => ?_, fun harmless => ?_, fun harmless => ?_⟩
  · exact (munmap_empty_iff tidy opened bounded (by decide) (by decide)).mp harmless area member
      lower
  · have away := (mprotect_empty_iff tidy (by decide) (by decide)).mp harmless area member
    unfold MapArea.Away at away
    omega
  · have away := (mprotect_empty_iff tidy (by decide) (by decide)).mp harmless area member
    unfold MapArea.Away at away
    omega

end MemorySet

end RCoreOS.Axmem
