import RCoreOS.Axmem.AreaOperations
import RCoreOS.Axmem.MemorySet
import Mathlib.Data.List.Pairwise

/-! The areas of a memory set, whatever its page table says. Those in the map and those that
are taken out of it for a while stay apart, and each is in the map under its own start.
-/

namespace RCoreOS.Axmem

open PageTable GenericPTE Outcome

section Fragments

variable {start stop : Nat} {area : MapArea}

/-- Overlap with a range is the opposite of being away from it. -/
theorem MapArea.Placed.overlapWith_iff (placed : area.Placed) (range : start < stop)
    : area.overlapWith start stop = true ↔ ¬ area.Away start stop := by
  have := placed.lt_stop
  simp only [MapArea.overlapWith, placed.endVa, MapArea.Away, Bool.or_eq_true, Bool.and_eq_true,
    decide_eq_true_eq]
  omega

/-- How an area that overlaps a range lies to it, in the order in which the code asks. -/
inductive Overlap (area : MapArea) (start stop : Nat) : Prop
  | contained (holds : area.containedIn start stop = true)
  | strict (no : area.containedIn start stop = false)
    (holds : area.strictContain start stop = true) (first : area.Cuts start)
    (second : area.Cuts stop) (range : start < stop)
  | left (no : area.containedIn start stop = false)
    (no' : area.strictContain start stop = false) (holds : start ≤ area.vaddr ∧ area.vaddr < stop)
    (cuts : area.Cuts stop)
  | right (no : area.containedIn start stop = false)
    (no' : area.strictContain start stop = false)
    (fails : ¬ (start ≤ area.vaddr ∧ area.vaddr < stop)) (cuts : area.Cuts start)

/-- The four cases, by comparing the ends. -/
theorem MapArea.Placed.overlap (placed : area.Placed) (alignedStart : start % 4096 = 0)
    (alignedStop : stop % 4096 = 0) (range : start < stop)
    (overlap : area.overlapWith start stop = true)
    : Overlap area start stop := by
  rw [placed.overlapWith_iff range, MapArea.Away, not_or, not_le, not_le] at overlap
  obtain ⟨before, behind⟩ := overlap
  have contained : area.containedIn start stop
      = (decide (start ≤ area.vaddr) && decide (area.stop ≤ stop)) := by
    rw [MapArea.containedIn, placed.endVa]
  have strict : area.strictContain start stop
      = (decide (area.vaddr < start) && decide (stop < area.stop)) := by
    rw [MapArea.strictContain, placed.endVa]
  rcases Nat.lt_or_ge area.vaddr start with low | low <;>
    rcases Nat.lt_or_ge stop area.stop with high | high
  · refine .strict ?_ ?_ ⟨alignedStart, low, before⟩ ⟨alignedStop, low.trans range, high⟩ range
    · simp [contained, low]
    · simp [strict, low, high]
  · refine .right ?_ ?_ (by omega) ⟨alignedStart, low, before⟩
    · simp [contained, low]
    · simp [strict, high]
  · refine .left ?_ ?_ ⟨low, behind⟩ ⟨alignedStop, behind, high⟩
    · simp [contained, high]
    · simp [strict, low]
  · exact .contained (by simp [contained, low, high])

end Fragments

namespace MemorySet

variable {PTE σ : Type} {s : MemorySet PTE σ} {area : MapArea} {areas : List MapArea}
variable {start stop : Nat}

/-- The areas of the map and those that are pending are apart, and the map has each of its
areas under its start.
-/
structure Tidy (s : MemorySet PTE σ) (pending : List MapArea) : Prop where
  keyed : ∀ entry ∈ s.ownedMem.entries, entry.1 = entry.2.vaddr
  placed : ∀ area ∈ pending ++ s.ownedMem.values, area.Placed
  apart : (pending ++ s.ownedMem.values).Pairwise MapArea.Apart

/-- No area of the map has an address in the range. -/
def Cleared (s : MemorySet PTE σ) (start stop : Nat) : Prop :=
  ∀ area ∈ s.ownedMem.values, area.Away start stop

/-- The same areas, in the map or pending. -/
theorem Tidy.perm {ownedMem : BTreeMap Nat MapArea} (tidy : Tidy s areas)
    (keyed : ∀ entry ∈ ownedMem.entries, entry.1 = entry.2.vaddr) {pending : List MapArea}
    (perm : (areas ++ s.ownedMem.values).Perm (pending ++ ownedMem.values))
    : Tidy { s with ownedMem } pending where
  keyed := keyed
  placed area member := tidy.placed area (perm.mem_iff.mpr member)
  apart := (perm.pairwise_iff MapArea.Apart.symm).mp tidy.apart

/-- A pending area can be inserted: its start is no key. -/
theorem Tidy.insertArea (tidy : Tidy s (area :: areas))
    : ∃ ownedMem,
        s.insertArea area = .ok { s with ownedMem }
        ∧ Tidy { s with ownedMem } areas
        ∧ ownedMem.values.Perm (area :: s.ownedMem.values) := by
  have fresh : area.vaddr ∉ s.ownedMem.entries.map Prod.fst := by
    intro member
    obtain ⟨entry, inMap, same⟩ := List.mem_map.mp member
    have other : entry.2 ∈ areas ++ s.ownedMem.values :=
      List.mem_append_right areas (List.mem_map_of_mem inMap)
    have apart := (List.pairwise_cons.mp tidy.apart).1 entry.2 other
    refine apart.vaddr_ne (tidy.placed _ (.head _)) (tidy.placed _ (.tail _ other)) ?_
    rw [← tidy.keyed entry inMap, same]
  obtain ⟨none, perm⟩ := BTreeMap.insert_fresh fresh area
  have values : (s.ownedMem.insert area.vaddr area).2.values.Perm (area :: s.ownedMem.values) :=
    perm.map Prod.snd
  refine ⟨(s.ownedMem.insert area.vaddr area).2, ?_, tidy.perm (fun entry member => ?_) ?_, values⟩
  · simp [MemorySet.insertArea, assert, none]
  · rcases List.mem_cons.mp (perm.mem_iff.mp member) with new | old
    · rw [new]
    · exact tidy.keyed entry old
  · exact List.perm_middle.symm.trans (values.symm.append_left areas)

theorem Cleared.insert {s' : MemorySet PTE σ} (cleared : s.Cleared start stop)
    (values : s'.ownedMem.values.Perm (area :: s.ownedMem.values))
    (away : area.Away start stop)
    : s'.Cleared start stop := by
  intro a member
  rcases List.mem_cons.mp (values.mem_iff.mp member) with rfl | old
  · exact away
  · exact cleared a old

/-- The overlapped areas and the map of the others, by induction on the entries that are left:
they do not occur in the map yet.
-/
theorem takeOverlapped_fold (start stop : Nat) (entries : List (Nat × MapArea))
    (overlapped : List MapArea)
    (prev : BTreeMap Nat MapArea)
    (nodup : (prev.entries.map Prod.fst ++ entries.map Prod.fst).Nodup)
    : ∃ rest,
        entries.foldl
            (fun (overlapped, prev) (idx, area) =>
              if area.overlapWith start stop then (overlapped ++ [area], prev)
              else (overlapped, (prev.insert idx area).2))
            (overlapped, prev)
          = (overlapped ++ (entries.filter (·.2.overlapWith start stop)).map Prod.snd, rest)
        ∧ rest.entries.Perm (prev.entries ++ entries.filter (!·.2.overlapWith start stop)) := by
  induction entries generalizing overlapped prev with
  | nil => exact ⟨prev, by simp, by simp⟩
  | cons entry entries ih =>
      rw [List.foldl_cons]
      by_cases overlap : entry.2.overlapWith start stop
      · obtain ⟨rest, run, perm⟩ := ih (overlapped ++ [entry.2]) prev
          (nodup.sublist (by simp))
        exact ⟨rest, by simp [overlap, run], by simpa [overlap] using perm⟩
      · have fresh : entry.1 ∉ prev.entries.map Prod.fst := fun member =>
          (List.nodup_append.mp nodup).2.2 _ member _ (by simp) rfl
        obtain ⟨-, added⟩ := BTreeMap.insert_fresh fresh entry.2
        obtain ⟨rest, run, perm⟩ := ih overlapped (prev.insert entry.1 entry.2).2
          (((added.map Prod.fst).append_right _).nodup_iff.mpr (List.perm_middle.nodup nodup))
        refine ⟨rest, by simp [overlap, run], perm.trans ((added.append_right _).trans ?_)⟩
        rw [List.filter_cons_of_pos (by simpa using overlap)]
        exact List.perm_middle.symm

/-- Taking the overlapped areas out of the map leaves those that are away from the range. -/
theorem Tidy.takeOverlapped (tidy : Tidy s []) (range : start < stop)
    : ∃ overlapped ownedMem,
        s.takeOverlapped start stop = (overlapped, ownedMem)
        ∧ Tidy { s with ownedMem } overlapped
        ∧ Cleared { s with ownedMem } start stop
        ∧ s.ownedMem.values.Perm (overlapped ++ ownedMem.values)
        ∧ ∀ area ∈ overlapped, area.overlapWith start stop = true := by
  obtain ⟨rest, run, perm⟩ := takeOverlapped_fold start stop
    s.ownedMem.entries [] .empty (by simpa [BTreeMap.empty] using s.ownedMem.keys_nodup)
  rw [BTreeMap.empty, List.nil_append] at perm
  have values : rest.values.Perm
      ((s.ownedMem.entries.filter (!·.2.overlapWith start stop)).map Prod.snd) :=
    perm.map Prod.snd
  have parts : s.ownedMem.values.Perm
      ((s.ownedMem.entries.filter (·.2.overlapWith start stop)).map Prod.snd ++ rest.values) := by
    refine .trans ?_ (values.symm.append_left _)
    rw [← List.map_append]
    exact (List.filter_append_perm _ _).symm.map Prod.snd
  refine ⟨_, rest, run, tidy.perm (fun entry member => ?_) parts, fun area member => ?_, parts,
    fun area member => ?_⟩
  · exact tidy.keyed entry (List.mem_of_mem_filter (perm.mem_iff.mp member))
  · obtain ⟨entry, kept, rfl⟩ := List.mem_map.mp (values.mem_iff.mp member)
    obtain ⟨inMap, notOverlap⟩ := List.mem_filter.mp kept
    have placed := tidy.placed entry.2 (List.mem_map_of_mem inMap)
    by_contra near
    simp [(placed.overlapWith_iff range).mpr near] at notOverlap
  · obtain ⟨entry, kept, rfl⟩ := List.mem_map.mp member
    exact (List.mem_filter.mp kept).2

/-- An area that is found is one of the entries, and it has the address. -/
theorem Tidy.findArea (tidy : Tidy s []) {addr key : Nat}
    (found : s.findArea addr = some (key, area))
    : ∃ pre post,
        s.ownedMem.entries = pre ++ (key, area) :: post
        ∧ area.vaddr ≤ addr
        ∧ addr < area.stop := by
  obtain ⟨holds, pre, post, split, -⟩ := List.find?_eq_some_iff_append.mp found
  have placed : area.Placed := tidy.placed area
    (List.mem_map_of_mem (f := Prod.snd) (split ▸ List.mem_append_right pre (.head post)))
  dsimp only at holds
  rw [placed.endVa, Bool.and_eq_true, decide_eq_true_eq, decide_eq_true_eq] at holds
  exact ⟨pre, post, split, holds⟩

/-- An area that is found can be replaced in its place. -/
theorem Tidy.replaceFound (tidy : Tidy s []) {addr key : Nat}
    (found : s.findArea addr = some (key, area))
    : (s.ownedMem.insert key area).2 = s.ownedMem
      ∧ ∃ rest,
        s.ownedMem.values.Perm (area :: rest)
        ∧ ∀ a : MapArea,
          a.vaddr = area.vaddr
          → (s.ownedMem.insert key a).2.values.Perm (a :: rest)
            ∧ ∀ entry ∈ (s.ownedMem.insert key a).2.entries, entry.1 = entry.2.vaddr := by
  obtain ⟨pre, post, split, -, -⟩ := tidy.findArea found
  have values (a : MapArea) : ((pre ++ (key, a) :: post).map Prod.snd).Perm
      (a :: (pre ++ post).map Prod.snd) :=
    (List.perm_middle (a := (key, a))).map Prod.snd
  have keyed := tidy.keyed
  rw [split, List.forall_mem_append, List.forall_mem_cons] at keyed
  have same : (key, area) ∈ s.ownedMem.entries := split ▸ List.mem_append_right pre (.head post)
  refine ⟨BTreeMap.insert_same same, (pre ++ post).map Prod.snd, ?_, ?_⟩
  · rw [BTreeMap.values, split]
    exact values area
  · intro a same
    rw [BTreeMap.values, BTreeMap.insert_known split a, List.forall_mem_append,
      List.forall_mem_cons]
    exact ⟨values a, keyed.1, keyed.2.1.trans same.symm, keyed.2.2⟩

/-- An area that is found can be changed in place, but for its start and its length. -/
theorem Tidy.update (tidy : Tidy s []) {addr key : Nat} (found : s.findArea addr = some (key, area))
    (area' : MapArea) (sameStart : area'.vaddr = area.vaddr)
    (sameLength : area'.pages.length = area.pages.length) {s' : MemorySet PTE σ}
    (updated : s'.ownedMem = (s.ownedMem.insert key area').2)
    : Tidy s' [] := by
  have sameStop : area'.stop = area.stop := by
    rw [MapArea.stop, sameStart, sameLength, MapArea.stop]
  obtain ⟨-, rest, before, replaced⟩ := tidy.replaceFound found
  obtain ⟨after, keyed⟩ := replaced area' sameStart
  have placed : ∀ a ∈ area :: rest, a.Placed :=
    fun a member => tidy.placed a (before.mem_iff.mpr member)
  obtain ⟨placedHere, placedOthers⟩ := List.forall_mem_cons.mp placed
  obtain ⟨apartHere, apartOthers⟩ := List.pairwise_cons.mp
    ((before.pairwise_iff MapArea.Apart.symm).mp tidy.apart)
  rw [← updated] at keyed after
  refine ⟨keyed, fun a member => ?_, ?_⟩
  · rcases List.mem_cons.mp (after.mem_iff.mp member) with rfl | other
    · refine ⟨sameStart ▸ placedHere.aligned, ?_, sameStop ▸ placedHere.below⟩
      exact List.ne_nil_of_length_pos (sameLength ▸ List.length_pos_of_ne_nil placedHere.nonempty)
    · exact placedOthers a other
  · refine (after.pairwise_iff MapArea.Apart.symm).mpr (List.pairwise_cons.mpr ⟨?_, apartOthers⟩)
    intro other member
    have away := apartHere other member
    unfold MapArea.Apart MapArea.Away at *
    rw [sameStart, sameStop]
    exact away

/-- Only one area has an address. -/
theorem Tidy.unique (tidy : Tidy s []) {va : Nat} {a b : MapArea}
    (memberA : a ∈ s.ownedMem.values) (memberB : b ∈ s.ownedMem.values)
    (insideA : a.vaddr ≤ va ∧ va < a.stop) (insideB : b.vaddr ≤ va ∧ va < b.stop)
    : a = b := by
  by_contra different
  have symmetric : Std.Symm MapArea.Apart := ⟨fun _ _ => MapArea.Apart.symm⟩
  have apart := tidy.apart.forall memberA memberB different
  unfold MapArea.Apart MapArea.Away at apart
  omega

-----------------------------------------------------------------------------------------
-- Finding a free range
-----------------------------------------------------------------------------------------

/-- Segments of whole pages up to a bound, each before the next. -/
structure Segments (bound : Nat) (segments : List (Nat × Nat)) : Prop where
  ordered : segments.Pairwise (fun a b => a.2 ≤ b.1)
  inside : ∀ segment ∈ segments,
    segment.1 ≤ segment.2 ∧ segment.2 ≤ bound ∧ segment.2 % 4096 = 0

/-- A gap that is large enough, before one segment and away from all. -/
structure Gap (bound size gap : Nat) (segments : List (Nat × Nat)) : Prop where
  aligned : gap % 4096 = 0
  below : gap + size ≤ bound
  away : ∀ segment ∈ segments, segment.2 ≤ gap ∨ gap + size ≤ segment.1

/-- The search from the end of a segment finds a gap behind it, by induction on the segments
that are left.
-/
theorem firstGap_behind {bound size lastEnd gap : Nat} {segments : List (Nat × Nat)}
    (word : bound < 2 ^ 63) (small : size ≤ bound) (aligned : lastEnd % 4096 = 0)
    (sorted : Segments bound segments) (behind : ∀ segment ∈ segments, lastEnd ≤ segment.1)
    (found : firstGap size lastEnd segments = some gap)
    : lastEnd ≤ gap ∧ Gap bound size gap segments := by
  induction segments generalizing lastEnd with
  | nil => cases found
  | cons segment rest ih =>
      obtain ⟨ordered, sortedRest⟩ := List.pairwise_cons.mp sorted.ordered
      obtain ⟨here, later⟩ := List.forall_mem_cons.mp sorted.inside
      have start := behind segment (List.mem_cons_self ..)
      rw [firstGap, wrapAdd_of_lt (by unfold USIZE_RANGE; omega)] at found
      split at found
      · cases found
        refine ⟨Nat.le_refl _, aligned, by omega, List.forall_mem_cons.mpr ⟨by omega, ?_⟩⟩
        intro other member
        have := ordered other member
        omega
      · obtain ⟨le, gap⟩ := ih here.2.2 ⟨sortedRest, later⟩ ordered found
        refine ⟨by omega, gap.aligned, gap.below, List.forall_mem_cons.mpr ⟨.inl le, gap.away⟩⟩

/-- The search from any hint finds a gap. -/
theorem firstGap_spec {bound size hint gap : Nat} {segments : List (Nat × Nat)}
    (word : bound < 2 ^ 63) (small : size ≤ bound) (low : hint ≤ bound) (aligned : hint % 4096 = 0)
    (sorted : Segments bound segments) (found : firstGap size hint segments = some gap)
    : Gap bound size gap segments := by
  cases segments with
  | nil => cases found
  | cons segment rest =>
      obtain ⟨ordered, sortedRest⟩ := List.pairwise_cons.mp sorted.ordered
      obtain ⟨here, later⟩ := List.forall_mem_cons.mp sorted.inside
      rw [firstGap, wrapAdd_of_lt (by unfold USIZE_RANGE; omega)] at found
      split at found
      · cases found
        refine ⟨aligned, by omega, List.forall_mem_cons.mpr ⟨by omega, fun other member => ?_⟩⟩
        have := ordered other member
        omega
      · obtain ⟨le, gap⟩ := firstGap_behind word small here.2.2 ⟨sortedRest, later⟩ ordered found
        exact ⟨gap.aligned, gap.below, List.forall_mem_cons.mpr ⟨.inl le, gap.away⟩⟩

/-- The search returns the hint or the end of a segment, where the size fits in before the next one
unless their sum wraps; by induction on the segments.
-/
theorem firstGap_fits {bound size hint gap : Nat} {segments : List (Nat × Nat)}
    (low : hint ≤ bound) (aligned : hint % 4096 = 0)
    (inside : ∀ segment ∈ segments,
      segment.1 ≤ segment.2 ∧ segment.2 ≤ bound ∧ segment.2 % 4096 = 0)
    (found : firstGap size hint segments = some gap)
    : gap ≤ bound ∧ gap % 4096 = 0 ∧ wrapAdd gap size ≤ bound := by
  induction segments generalizing hint with
  | nil => cases found
  | cons segment rest ih =>
      obtain ⟨here, later⟩ := List.forall_mem_cons.mp inside
      rw [firstGap] at found
      split at found
      · cases found
        exact ⟨low, aligned, by omega⟩
      · exact ih here.2.1 here.2.2 later found

/-- Areas and attached memory up to a bound do not overlap. -/
structure Spread (bound : Nat) (s : MemorySet PTE σ) : Prop where
  disjoint : s.segments.Pairwise (fun a b => a.2 ≤ b.1 ∨ b.2 ≤ a.1)
  inside : ∀ segment ∈ s.segments,
    segment.1 < segment.2 ∧ segment.2 ≤ bound ∧ segment.2 % 4096 = 0

/-- Sorted segments that do not overlap are each before the next. -/
theorem segments_ordered
    (disjoint : s.segments.Pairwise (fun a b => a.2 ≤ b.1 ∨ b.2 ≤ a.1))
    (inside : ∀ segment ∈ s.segments, segment.1 ≤ segment.2)
    : s.segments.Pairwise (fun a b => a.2 ≤ b.1) := by
  have sorted : s.segments.Pairwise (fun a b => segmentLe a b = true) := by
    apply List.pairwise_mergeSort
    · intro a b c first second
      simp only [segmentLe, Bool.or_eq_true, Bool.and_eq_true, decide_eq_true_eq, beq_iff_eq]
        at first second ⊢
      omega
    · intro a b
      simp only [segmentLe, Bool.or_eq_true, Bool.and_eq_true, decide_eq_true_eq, beq_iff_eq]
      omega
  refine (sorted.and disjoint).imp_of_mem fun {a b} memberA memberB both => ?_
  obtain ⟨le, apart⟩ := both
  have := inside a memberA
  have := inside b memberB
  simp only [segmentLe, Bool.or_eq_true, Bool.and_eq_true, decide_eq_true_eq, beq_iff_eq] at le
  omega

theorem Spread.sorted {bound : Nat} (spread : Spread bound s) : Segments bound s.segments where
  ordered := by
    apply segments_ordered spread.disjoint
    intro segment member
    exact (spread.inside segment member).1.le
  inside segment member := by
    have := spread.inside segment member
    omega

/-- Without attached memory the segments are the areas. -/
theorem Tidy.spread {bound : Nat} (tidy : Tidy s []) (detached : s.attachedMem = [])
    (below : ∀ area ∈ s.ownedMem.values, area.stop ≤ bound)
    : Spread bound s := by
  have perm : s.segments.Perm
      (s.ownedMem.entries.map (fun entry => (entry.1, entry.1 + entry.2.size))) := by
    rw [segments, detached, List.map_nil, List.append_nil]
    exact List.mergeSort_perm ..
  have placed {entry : Nat × MapArea} (member : entry ∈ s.ownedMem.entries)
      : entry.2.Placed :=
    tidy.placed entry.2 (List.mem_map_of_mem member)
  constructor
  · refine (perm.pairwise_iff Or.symm).mpr (List.pairwise_map.mpr ?_)
    refine (List.pairwise_map.mp tidy.apart).imp_of_mem fun {a b} memberA memberB apart => ?_
    rw [tidy.keyed a memberA, tidy.keyed b memberB, ← MapArea.stop_eq, ← MapArea.stop_eq]
    exact apart
  · intro segment member
    obtain ⟨entry, inMap, rfl⟩ := List.mem_map.mp (perm.mem_iff.mp member)
    have aligned := (placed inMap).aligned
    have nonempty := (placed inMap).lt_stop
    have below := below entry.2 (List.mem_map_of_mem inMap)
    dsimp only
    rw [tidy.keyed entry inMap, ← MapArea.stop_eq]
    refine ⟨nonempty, below, ?_⟩
    unfold MapArea.stop
    omega

/-- A free range that is found has no address of an area. -/
theorem Tidy.findFreeArea {bound size : Nat} (tidy : Tidy s []) (spread : Spread bound s)
    (word : bound < 2 ^ 63) (user : USER_MEMORY_START ≤ bound) (small : size ≤ bound)
    (low : start ≤ bound) (aligned : start % 4096 = 0) {found : Nat}
    (run : s.findFreeArea start size = some found)
    : found % 4096 = 0 ∧ found + size ≤ bound ∧ s.Cleared found (found + size) := by
  have hint : max start USER_MEMORY_START ≤ bound ∧ max start USER_MEMORY_START % 4096 = 0 := by
    unfold USER_MEMORY_START at *
    omega
  have gap := firstGap_spec word small hint.1 hint.2 spread.sorted run
  refine ⟨gap.aligned, gap.below, fun area member => ?_⟩
  obtain ⟨entry, inMap, rfl⟩ := List.mem_map.mp member
  have segment : (entry.1, entry.1 + entry.2.size) ∈ s.segments := by
    refine (List.mergeSort_perm ..).mem_iff.mpr (List.mem_append_left _ ?_)
    exact List.mem_map_of_mem (f := fun entry : Nat × MapArea => (entry.1, entry.1 + entry.2.size))
      inMap
  have away := gap.away _ segment
  rwa [tidy.keyed entry inMap, ← MapArea.stop_eq] at away

end MemorySet

end RCoreOS.Axmem
