import RCoreOS.Axmem.Representation

/-! When the search for a free range is sound and complete. It compares the size with the gaps
between neighbours only: the hint counts for the first segment, and what lies behind the last one
is never tried.
-/

namespace RCoreOS.Axmem

open PageTable Outcome

namespace MemorySet

-----------------------------------------------------------------------------------------
-- Gaps between ordered segments
-----------------------------------------------------------------------------------------

/-- A range that no segment overlaps. -/
def Free (segments : List (Nat × Nat)) (start size : Nat) : Prop :=
  ∀ segment ∈ segments, segment.2 ≤ start ∨ start + size ≤ segment.1

/-- A free range with a segment behind it. -/
def FreeBefore (segments : List (Nat × Nat)) (start size : Nat) : Prop :=
  Free segments start size ∧ ∃ segment ∈ segments, start + size ≤ segment.1

/-- Segments that are each before the next, and whose sums with the size do not wrap. -/
structure Lined (size : Nat) (segments : List (Nat × Nat)) : Prop where
  ordered : segments.Pairwise (fun a b => a.2 ≤ b.1)
  inside : ∀ segment ∈ segments, segment.1 ≤ segment.2 ∧ segment.2 + size < USIZE_RANGE

variable {size lastEnd hint gap : Nat} {segment : Nat × Nat} {segments rest : List (Nat × Nat)}

theorem Lined.tail (lined : Lined size (segment :: rest)) : Lined size rest where
  ordered := (List.pairwise_cons.mp lined.ordered).2
  inside other member := lined.inside other (List.mem_cons_of_mem _ member)

/-- Behind the first segment. -/
theorem Lined.behind (lined : Lined size (segment :: rest))
    : ∀ other ∈ rest, segment.2 ≤ other.1 :=
  (List.pairwise_cons.mp lined.ordered).1

/-- Ranges behind the first segment are free of it. -/
theorem FreeBefore.cons (before : FreeBefore rest gap size) (behind : segment.2 ≤ gap)
    : FreeBefore (segment :: rest) gap size := by
  obtain ⟨free, other, member, le⟩ := before
  exact ⟨List.forall_mem_cons.mpr ⟨.inl behind, free⟩, other, List.mem_cons_of_mem _ member, le⟩

/-- A free range behind the first segment is before one of the others. -/
theorem FreeBefore.tail (before : FreeBefore (segment :: rest) gap size)
    (lined : Lined size (segment :: rest)) (positive : 0 < size) (behind : segment.2 ≤ gap)
    : FreeBefore rest gap size := by
  obtain ⟨free, other, member, le⟩ := before
  refine ⟨(List.forall_mem_cons.mp free).2, other, ?_, le⟩
  rcases List.mem_cons.mp member with rfl | later
  · have := (lined.inside other (List.mem_cons_self ..)).1
    omega
  · exact later

/-- A gap that is found from a place before all segments is the first one, by induction on the
segments.
-/
theorem firstGap_least (lined : Lined size segments) (positive : 0 < size)
    (low : lastEnd + size < USIZE_RANGE) (behind : ∀ segment ∈ segments, lastEnd ≤ segment.1)
    (found : firstGap size lastEnd segments = some gap)
    : lastEnd ≤ gap ∧ (gap = lastEnd ∨ ∃ segment ∈ segments, segment.2 = gap)
      ∧ FreeBefore segments gap size
      ∧ ∀ other, lastEnd ≤ other → FreeBefore segments other size → gap ≤ other := by
  induction segments generalizing lastEnd with
  | nil => cases found
  | cons segment rest ih =>
      have here := lined.inside segment (List.mem_cons_self ..)
      have start := behind segment (List.mem_cons_self ..)
      rw [firstGap, wrapAdd_of_lt low] at found
      split at found
      · rename_i fits
        cases found
        refine ⟨Nat.le_refl _, .inl rfl, ⟨List.forall_mem_cons.mpr ⟨.inr fits, ?_⟩, segment,
          List.mem_cons_self .., fits⟩, fun other le _ => le⟩
        intro other member
        have := lined.behind other member
        omega
      · rename_i narrow
        obtain ⟨le, isEnd, before, least⟩ := ih lined.tail here.2 lined.behind found
        refine ⟨Nat.le_trans (Nat.le_trans start here.1) le, .inr ?_, before.cons le, ?_⟩
        · rcases isEnd with first | ⟨other, member, same⟩
          · exact ⟨segment, List.mem_cons_self .., first.symm⟩
          · exact ⟨other, List.mem_cons_of_mem _ member, same⟩
        · intro other low' before'
          have past : segment.2 ≤ other := by
            have := before'.1 segment (List.mem_cons_self ..)
            omega
          exact least other past (before'.tail lined positive past)

/-- A search that finds nothing leaves no gap between segments, by induction on the segments. -/
theorem firstGap_none (lined : Lined size segments) (positive : 0 < size)
    (low : lastEnd + size < USIZE_RANGE) (behind : ∀ segment ∈ segments, lastEnd ≤ segment.1)
    (failed : firstGap size lastEnd segments = none)
    : ∀ other, lastEnd ≤ other → ¬ FreeBefore segments other size := by
  induction segments generalizing lastEnd with
  | nil =>
      intro other _ before
      obtain ⟨-, segment, member, -⟩ := before
      exact absurd member List.not_mem_nil
  | cons segment rest ih =>
      have here := lined.inside segment (List.mem_cons_self ..)
      rw [firstGap, wrapAdd_of_lt low] at failed
      split at failed
      · cases failed
      · rename_i narrow
        intro other low' before
        have past : segment.2 ≤ other := by
          have := before.1 segment (List.mem_cons_self ..)
          omega
        exact ih lined.tail here.2 lined.behind failed other past
          (before.tail lined positive past)

-----------------------------------------------------------------------------------------
-- The search from a hint
-----------------------------------------------------------------------------------------

/-- What a search should return: a free range from the hint on, or nothing if there is none below
the limit.
-/
def Searched (limit size hint : Nat) (segments : List (Nat × Nat)) : Option Nat → Prop
  | some found => hint ≤ found ∧ Free segments found size
  | none => ¬ ∃ start, hint ≤ start ∧ start + size ≤ limit ∧ Free segments start size

/-- No segment that ends below the hint has a gap behind it, and if any range is free then one
with a segment behind it.
-/
def Searchable (limit size hint : Nat) (segments : List (Nat × Nat)) : Prop :=
  (∀ segment ∈ segments, segment.2 < hint → ¬ FreeBefore segments segment.2 size)
    ∧ ((∃ start, hint ≤ start ∧ start + size ≤ limit ∧ Free segments start size)
      → ∃ start, hint ≤ start ∧ FreeBefore segments start size)

/-- A hint that lies before the first segment with room for the size. -/
theorem searchable_of_fits (limit : Nat) (lined : Lined size (segment :: rest))
    (positive : 0 < size)
    (fits : hint + size ≤ segment.1)
    : Free (segment :: rest) hint size ∧ Searchable limit size hint (segment :: rest) := by
  have here := (lined.inside segment (List.mem_cons_self ..)).1
  have all : ∀ other ∈ segment :: rest, hint + size ≤ other.1 ∧ hint < other.2 := by
    intro other member
    have order := (lined.inside other member).1
    rcases List.mem_cons.mp member with rfl | later
    · omega
    · have := lined.behind other later
      omega
  have free : Free (segment :: rest) hint size := fun other member => .inr (all other member).1
  refine ⟨free, fun other member below => ?_, fun _ => ⟨hint, Nat.le_refl _, free, segment,
    List.mem_cons_self .., fits⟩⟩
  exact absurd below (Nat.not_lt_of_lt (all other member).2)

/-- The search is right exactly for searchable segments, by what is found behind the first of
them.
-/
theorem firstGap_iff (limit : Nat) (lined : Lined size segments) (positive : 0 < size)
    (low : hint + size < USIZE_RANGE)
    : Searched limit size hint segments (firstGap size hint segments)
      ↔ Searchable limit size hint segments := by
  cases segments with
  | nil => simp [Searched, Searchable, firstGap, FreeBefore]
  | cons segment rest =>
      have here := lined.inside segment (List.mem_cons_self ..)
      rw [firstGap, wrapAdd_of_lt low]
      split
      · rename_i fits
        obtain ⟨free, searchable⟩ := searchable_of_fits limit lined positive fits
        exact iff_of_true ⟨Nat.le_refl _, free⟩ searchable
      · rename_i narrow
        -- the end of every segment is at or behind the end of the first one
        have ends : ∀ other ∈ segment :: rest, segment.2 ≤ other.2 := by
          intro other member
          have order := (lined.inside other member).1
          rcases List.mem_cons.mp member with rfl | later
          · exact Nat.le_refl _
          · exact Nat.le_trans (lined.behind other later) order
        have past {start : Nat} (le : hint ≤ start) (free : Free (segment :: rest) start size)
            : segment.2 ≤ start := by
          have := free segment (List.mem_cons_self ..)
          omega
        cases found : firstGap size segment.2 rest with
        | some gap =>
            obtain ⟨le, isEnd, before, least⟩ :=
              firstGap_least lined.tail positive here.2 lined.behind found
            constructor
            · intro searched
              obtain ⟨above, free⟩ := searched
              refine ⟨fun other member below before' => ?_, fun _ => ⟨gap, above, before.cons le⟩⟩
              have first := least other.2 (ends other member)
                (before'.tail lined positive (ends other member))
              omega
            · intro searchable
              refine ⟨?_, (before.cons le).1⟩
              apply Nat.le_of_not_lt
              intro below
              have quiet := searchable.1
              rcases isEnd with rfl | ⟨other, member, rfl⟩
              · exact quiet segment (List.mem_cons_self ..) below (before.cons le)
              · exact quiet other (List.mem_cons_of_mem _ member) below (before.cons le)
        | none =>
            have gaps := firstGap_none lined.tail positive here.2 lined.behind found
            constructor
            · intro nothing
              refine ⟨fun other member _ before => ?_, fun exists_ => absurd exists_ nothing⟩
              exact gaps other.2 (ends other member)
                (before.tail lined positive (ends other member))
            · intro searchable exists_
              obtain ⟨start, above, before⟩ := searchable.2 exists_
              have behind := past above before.1
              exact gaps start behind (before.tail lined positive behind)

-----------------------------------------------------------------------------------------
-- Areas and attached segments
-----------------------------------------------------------------------------------------

variable {PTE σ : Type} {s : MemorySet PTE σ}

/-- Start and end of all owned areas and attached segments. -/
def occupied (s : MemorySet PTE σ) : List (Nat × Nat) :=
  s.ownedMem.entries.map (fun entry : Nat × MapArea => (entry.1, entry.1 + entry.2.size))
    ++ s.attachedMem.map (fun entry : Nat × MappingFlags × SharedMem =>
      (entry.1, entry.1 + entry.2.2.size))

theorem segments_perm (s : MemorySet PTE σ) : s.segments.Perm s.occupied :=
  List.mergeSort_perm ..

theorem occupied_le {segment : Nat × Nat} (member : segment ∈ s.occupied)
    : segment.1 ≤ segment.2 := by
  rcases List.mem_append.mp member with owned | attached
  · obtain ⟨entry, -, rfl⟩ := List.mem_map.mp owned
    exact Nat.le_add_right ..
  · obtain ⟨entry, -, rfl⟩ := List.mem_map.mp attached
    exact Nat.le_add_right ..

/-- Areas and segments do not overlap, and their ends plus the size are addresses. -/
structure Scattered (size : Nat) (s : MemorySet PTE σ) : Prop where
  disjoint : s.occupied.Pairwise fun a b => a.2 ≤ b.1 ∨ b.2 ≤ a.1
  below : ∀ segment ∈ s.occupied, segment.2 + size < USIZE_RANGE

/-- Sorted segments are each before the next. -/
theorem Scattered.lined (scattered : Scattered size s) : Lined size s.segments where
  ordered := by
    refine segments_ordered ((s.segments_perm.pairwise_iff Or.symm).mpr scattered.disjoint) ?_
    intro segment member
    exact occupied_le (s.segments_perm.mem_iff.mp member)
  inside segment member := by
    have inList := s.segments_perm.mem_iff.mp member
    exact ⟨occupied_le inList, scattered.below segment inList⟩

/-- The search finds a free range from the hint on, and fails only if there is none, exactly if no
area that ends below the hint has a gap before the next one, and some area lies behind a free range
if there is a free range.
-/
theorem findFreeArea_iff (limit : Nat) (scattered : Scattered size s) (positive : 0 < size)
    (low : max hint USER_MEMORY_START + size < USIZE_RANGE)
    : Searched limit size (max hint USER_MEMORY_START) s.occupied (s.findFreeArea hint size)
      ↔ Searchable limit size (max hint USER_MEMORY_START) s.occupied := by
  have search := firstGap_iff limit scattered.lined positive low
  rw [findFreeArea]
  cases found : firstGap size (max hint USER_MEMORY_START) s.segments with
  | some gap =>
      rw [found] at search
      simpa only [Searched, Searchable, FreeBefore, Free, s.segments_perm.mem_iff] using search
  | none =>
      rw [found] at search
      simpa only [Searched, Searchable, FreeBefore, Free, s.segments_perm.mem_iff] using search

/-- Two areas with three pages between them. -/
def twoAreasRun : Except Crash (MemorySet Rv64PTE PagePool) := do
  let s ← newEmpty blank (fun _ => 0)
  [Request.mmap 0x1000 0x1000 { read := true } true none,
    Request.mmap 0x5000 0x1000 { read := true } true none].foldlM (serve noFiles) s

/-- What is occupied in the end. -/
theorem twoAreasRun_occupied
    : ∃ s, twoAreasRun = .ok s ∧ s.occupied = [(0x1000, 0x2000), (0x5000, 0x6000)] := by
  have areas : twoAreasRun.map occupied = .ok [(0x1000, 0x2000), (0x5000, 0x6000)] := by
    decide +kernel
  cases run : twoAreasRun with
  | error crash => simp [run, Except.map] at areas
  | ok s =>
      rw [run] at areas
      exact ⟨s, rfl, Except.ok.inj areas⟩

/-- What is occupied in order is searched as it is. -/
theorem findFreeArea_of_occupied {areas : List (Nat × Nat)} (isAreas : s.occupied = areas)
    (sorted : areas.Pairwise fun a b => segmentLe a b)
    : s.findFreeArea hint size = firstGap size (max hint USER_MEMORY_START) areas := by
  rw [findFreeArea, segments, ← occupied, isAreas, List.mergeSort_of_pairwise sorted]

/-- From a hint below both areas the search is right: it finds the gap between them. -/
theorem findFreeArea_iff_twoAreas
    : ∃ s, twoAreasRun = .ok s ∧ s.findFreeArea 0x1000 0x2000 = some 0x2000
      ∧ Searchable 0x6000 0x2000 0x1000 s.occupied := by
  obtain ⟨s, run, areas⟩ := twoAreasRun_occupied
  have search : s.findFreeArea 0x1000 0x2000 = some 0x2000 :=
    (findFreeArea_of_occupied areas (by decide)).trans (by decide)
  have scattered : Scattered 0x2000 s := ⟨by rw [areas]; decide, by rw [areas]; decide⟩
  have low : max 0x1000 USER_MEMORY_START + 0x2000 < USIZE_RANGE := by decide
  refine ⟨s, run, search, (findFreeArea_iff 0x6000 scattered (by decide) low).mp ?_⟩
  rw [search, areas]
  exact ⟨by decide, fun segment member => by revert segment; decide⟩

/-- From a hint behind both areas the same gap is found, and from a hint below them nothing, when
the size only fits in behind them.
-/
theorem findFreeArea_misses
    : ∃ s, twoAreasRun = .ok s ∧ s.findFreeArea 0x8000 0x1000 = some 0x2000
      ∧ s.findFreeArea 0x1000 0x4000 = none ∧ Free s.occupied 0x6000 0x4000 := by
  obtain ⟨s, run, areas⟩ := twoAreasRun_occupied
  refine ⟨s, run, ?_, ?_, ?_⟩
  · exact (findFreeArea_of_occupied areas (by decide)).trans (by decide)
  · exact (findFreeArea_of_occupied areas (by decide)).trans (by decide)
  · rw [areas]
    exact fun segment member => by revert segment; decide

end MemorySet

end RCoreOS.Axmem
