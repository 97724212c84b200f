import RCoreOS.Axmem.AreaMap

/-! What cutting areas leaves as it was. Something that an area has at an address, such as the
position in its file, is still there when the areas around it have been cut, given up or taken out
of the map and inserted again.
-/

namespace RCoreOS.Axmem

open PageTable GenericPTE Outcome

variable {fs : Vfs} {γ : Type}

/-- What cutting an area does not change at the addresses of its parts. -/
structure MapArea.Steady (look : MapArea → Nat → γ) : Prop where
  left
    : ∀ {area : MapArea} {addr va : Nat},
        area.Placed
        → area.Cuts addr
        → area.vaddr ≤ va
        → va < addr
        → look (area.left addr) va = look area va
  behind
    : ∀ {area : MapArea} {addr va : Nat},
        area.Placed
        → area.Cuts addr
        → addr ≤ va
        → va < area.stop
        → look (area.behind addr) va = look area va

namespace MemorySet

variable {PTE σ : Type} {s s' : MemorySet PTE σ} {area : MapArea} {areas pieces : List MapArea}
variable {start stop va : Nat} {look : MapArea → Nat → γ} {value : γ}

/-- One of the areas has the address, and it has the value there. -/
def Has (look : MapArea → Nat → γ) (areas : List MapArea) (va : Nat) (value : γ) : Prop :=
  ∃ area ∈ areas, area.vaddr ≤ va ∧ va < area.stop ∧ look area va = value

theorem Has.perm {areas' : List MapArea} (has : Has look areas va value)
    (perm : areas.Perm areas')
    : Has look areas' va value := by
  obtain ⟨area, member, holds⟩ := has
  exact ⟨area, perm.mem_iff.mp member, holds⟩

/-- A pending area is given up or replaced by pieces that lie in it. -/
theorem Tidy.replace (tidy : Tidy s (area :: areas)) (pieces : List MapArea)
    (placed : ∀ piece ∈ pieces, piece.Placed)
    (inside : ∀ piece ∈ pieces, area.vaddr ≤ piece.vaddr ∧ piece.stop ≤ area.stop)
    (apart : pieces.Pairwise MapArea.Apart)
    : Tidy s (pieces ++ areas) := by
  have others := List.pairwise_cons.mp tidy.apart
  refine ⟨tidy.keyed, fun a member => ?_, ?_⟩
  · rw [List.append_assoc] at member
    rcases List.mem_append.mp member with isPiece | other
    · exact placed a isPiece
    · exact tidy.placed a (.tail _ other)
  · rw [List.append_assoc]
    refine List.pairwise_append.mpr ⟨apart, others.2, fun piece isPiece other member => ?_⟩
    have within := inside piece isPiece
    have away := others.1 other member
    unfold MapArea.Apart MapArea.Away at *
    omega

/-- A pending area is cut in two pieces, which are apart. -/
theorem Tidy.cut {addr : Nat} (tidy : Tidy s (area :: areas)) (cuts : area.Cuts addr)
    : Tidy s (area.left addr :: area.behind addr :: areas) := by
  have placed := tidy.placed area (.head _)
  have stopLeft := cuts.stop_left placed
  have stopRight : (area.behind addr).stop = area.stop := cuts.stop_right placed _
  refine tidy.replace [_, _] ?_ ?_ ?_
  · exact List.forall_mem_cons.mpr ⟨cuts.placed_left placed,
      List.forall_mem_singleton.mpr (cuts.placed_right placed _)⟩
  · refine List.forall_mem_cons.mpr ⟨⟨Nat.le_refl _, ?_⟩, List.forall_mem_singleton.mpr
      ⟨cuts.lower.le, stopRight.le⟩⟩
    exact stopLeft.trans_le cuts.upper.le
  · exact List.pairwise_pair.mpr (.inl stopLeft.le)

/-- The areas are tidy, and what was at an address outside of the range in the areas that were
mapped before is still there.
-/
structure Keeping (look : MapArea → Nat → γ) (start stop : Nat) (mapped : List MapArea)
    (s : MemorySet PTE σ) (pending : List MapArea) : Prop where
  tidy : Tidy s pending
  kept : ∀ va value,
    va < start ∨ stop ≤ va → Has look mapped va value
      → Has look (pending ++ s.ownedMem.values) va value

variable {mapped : List MapArea}

theorem Keeping.perm (keeping : Keeping look start stop mapped s areas)
    (perm : areas.Perm pieces)
    : Keeping look start stop mapped s pieces where
  tidy := keeping.tidy.perm keeping.tidy.keyed (perm.append_right _)
  kept va value outside has :=
    (keeping.kept va value outside has).perm (perm.append_right _)

theorem Keeping.withMachine (keeping : Keeping look start stop mapped s areas) (m : Machine PTE σ)
    : Keeping look start stop mapped (s.withMachine m) areas :=
  ⟨⟨keeping.tidy.keyed, keeping.tidy.placed, keeping.tidy.apart⟩, keeping.kept⟩

theorem Keeping.insertArea (keeping : Keeping look start stop mapped s (area :: areas))
    : ∃ s', s.insertArea area = .ok s' ∧ Keeping look start stop mapped s' areas
        ∧ s'.ownedMem.values.Perm (area :: s.ownedMem.values) := by
  obtain ⟨ownedMem, run, tidy, values⟩ := keeping.tidy.insertArea
  refine ⟨{ s with ownedMem }, run, ⟨tidy, fun va value outside has => ?_⟩, values⟩
  refine (keeping.kept va value outside has).perm ?_
  exact List.perm_middle.symm.trans (values.symm.append_left areas)

/-- The insertion of a pending area, as a step of a longer computation. -/
theorem Keeping.inserts (keeping : Keeping look start stop mapped s (area :: areas))
    : Returns (fun s' => Keeping look start stop mapped s' areas
        ∧ s'.ownedMem.values.Perm (area :: s.ownedMem.values)) (s.insertArea area) := by
  obtain ⟨s', insert, holds⟩ := keeping.insertArea
  exact .of_eq insert holds

/-- Replacing a pending area by pieces of it that have the same values. -/
theorem Keeping.replace (keeping : Keeping look start stop mapped s (area :: areas))
    (parts : List MapArea)
    (tidy : Tidy s (parts ++ areas))
    (covers : ∀ va, va < start ∨ stop ≤ va → area.vaddr ≤ va → va < area.stop →
      ∃ piece ∈ parts, piece.vaddr ≤ va ∧ va < piece.stop ∧ look piece va = look area va)
    : Keeping look start stop mapped s (parts ++ areas) where
  tidy := tidy
  kept va value outside has := by
    obtain ⟨a, member, lower, upper, holds⟩ := keeping.kept va value outside has
    rw [List.append_assoc]
    rcases List.mem_cons.mp member with rfl | other
    · obtain ⟨piece, isPiece, lower', upper', same⟩ := covers va outside lower upper
      exact ⟨piece, List.mem_append_left _ isPiece, lower', upper', same.trans holds⟩
    · exact ⟨a, List.mem_append_right parts other, lower, upper, holds⟩

/-- A pending area is cut in two. -/
theorem Keeping.cut {addr : Nat} (steady : MapArea.Steady look)
    (keeping : Keeping look start stop mapped s (area :: areas)) (cuts : area.Cuts addr)
    : Keeping look start stop mapped s (area.left addr :: area.behind addr :: areas) := by
  have placed := keeping.tidy.placed area (.head _)
  have stopLeft := cuts.stop_left placed
  have stopRight : (area.behind addr).stop = area.stop := cuts.stop_right placed _
  refine keeping.replace [_, _] (keeping.tidy.cut cuts) fun va outside lower upper => ?_
  rcases Nat.lt_or_ge va addr with before | behind
  · exact ⟨_, List.mem_cons_self .., lower, stopLeft.symm ▸ before,
      steady.left placed cuts lower before⟩
  · exact ⟨_, List.mem_cons_of_mem _ (List.mem_cons_self ..), behind, stopRight.symm ▸ upper,
      steady.behind placed cuts behind upper⟩

/-- A pending area in the range is given up. -/
theorem Keeping.drop (keeping : Keeping look start stop mapped s (area :: areas))
    (lower : start ≤ area.vaddr) (upper : area.stop ≤ stop)
    : Keeping look start stop mapped s areas :=
  keeping.replace [] (keeping.tidy.replace [] (by simp) (by simp) .nil)
    fun va outside above below => by omega

/-- An area that only begins before the range ends in it. -/
theorem overlap_right_upper (placed : area.Placed) (no' : area.strictContain start stop = false)
    (cuts : area.Cuts start)
    : area.stop ≤ stop := by
  have lower := cuts.lower
  simp only [MapArea.strictContain, placed.endVa, Bool.and_eq_false_imp, decide_eq_true_eq,
    decide_eq_false_iff_not] at no'
  exact Nat.le_of_not_lt (no' lower)

theorem assert_ok {holds : Bool} (passed : assert holds = .ok ()) : holds = true := by
  cases holds
  · cases passed
  · rfl

section Loops

variable [GenericPTE PTE] [GlobalAllocator σ]

/-- What an overlapped area has in the range is given up, and the rest keeps its values. -/
theorem Keeping.splitArea (steady : MapArea.Steady look)
    (keeping : Keeping look start stop mapped s (area :: areas)) (cleared : s.Cleared start stop)
    (overlap : Overlap area start stop)
    : Returns (fun s' => Keeping look start stop mapped s' areas ∧ s'.Cleared start stop)
        (splitArea fs start stop s area) := by
  have placed := keeping.tidy.placed area (.head _)
  cases overlap with
  | contained holds =>
      have within := holds
      rw [MapArea.containedIn, placed.endVa, Bool.and_eq_true, decide_eq_true_eq,
        decide_eq_true_eq] at within
      rw [MemorySet.splitArea, if_pos holds]
      exact (Returns.self _).bind fun r _ =>
        ⟨(keeping.drop within.1 within.2).withMachine r.2, cleared⟩
  | strict no holds first second range =>
      have firstLeft := first.left second placed range
      have stopMid : ((area.left stop).behind start).stop = stop :=
        (firstLeft.stop_right (second.placed_left placed) _).trans (second.stop_left placed)
      have keeping' : Keeping look start stop mapped s
          (area.behind stop :: (area.left stop).left start :: areas) :=
        ((((keeping.cut steady second).cut steady firstLeft).perm (.swap ..)).drop
          (Nat.le_refl _) stopMid.le).perm (.swap ..)
      rw [MemorySet.splitArea, no, if_neg Bool.false_ne_true, if_pos holds]
      refine (MapArea.removeMid_returns placed first second range).bind ?_
      rintro ⟨_, _, m⟩ ⟨rfl, rfl⟩
      refine (keeping'.withMachine m).inserts.bind fun s₁ holds₁ => ?_
      refine holds₁.1.inserts.imp fun s₂ holds₂ => ⟨holds₂.1, ?_⟩
      refine (Cleared.insert (s := s.withMachine m) cleared holds₁.2 ?_).insert holds₂.2 ?_
      · exact .inr (Nat.le_refl _)
      · exact .inl (firstLeft.stop_left (second.placed_left placed)).le
  | left no no' holds cuts =>
      rw [MemorySet.splitArea, no, no', if_neg Bool.false_ne_true, if_neg Bool.false_ne_true,
        if_pos holds]
      refine (MapArea.shrinkLeft_returns placed cuts).bind ?_
      rintro ⟨_, m⟩ rfl
      have keeping' :=
        ((keeping.cut steady cuts).drop holds.1 (cuts.stop_left placed).le).withMachine m
      refine keeping'.inserts.imp fun s₁ holds₁ => ⟨holds₁.1, ?_⟩
      exact Cleared.insert (s := s.withMachine m) cleared holds₁.2 (.inr (Nat.le_refl _))
  | right no no' fails cuts =>
      rw [MemorySet.splitArea, no, no', if_neg Bool.false_ne_true, if_neg Bool.false_ne_true,
        if_neg fails]
      refine (MapArea.shrinkRight_returns placed cuts).bind ?_
      rintro ⟨_, m⟩ rfl
      have upper := overlap_right_upper placed no' cuts
      have keeping' := ((((keeping.cut steady cuts).perm (.swap ..)).drop (Nat.le_refl _)
        ((cuts.stop_right placed _).trans_le upper))).withMachine m
      refine keeping'.inserts.imp fun s₁ holds₁ => ⟨holds₁.1, ?_⟩
      exact Cleared.insert (s := s.withMachine m) cleared holds₁.2 (.inl (cuts.stop_left placed).le)

/-- A range can be made free without changing what is around it. -/
theorem Keeping.splitForArea {size : Nat} (steady : MapArea.Steady look) (tidy : Tidy s [])
    (alignedStart : start % 4096 = 0)
    (alignedSize : size % 4096 = 0) (positive : 0 < size) (below : start + size < 2 ^ 63)
    : Returns (fun s' => Keeping look start (start + size) s.ownedMem.values s' []
          ∧ s'.Cleared start (start + size))
        (s.splitForArea fs start size) := by
  have stop : wrapAdd start size = start + size := wrapAdd_of_lt (by unfold USIZE_RANGE; omega)
  have aligned : (start + size) % 4096 = 0 := by omega
  have range : start < start + size := Nat.lt_add_of_pos_right positive
  obtain ⟨overlapped, ownedMem, run, tidy', cleared, perm, overlaps⟩ := tidy.takeOverlapped range
  simp only [MemorySet.splitForArea, stop, assert, isAligned_4k, aligned, if_true, ok_bind, run]
  have keeping
      : Keeping look start (start + size) s.ownedMem.values { s with ownedMem } overlapped :=
    ⟨tidy', fun va value _ has => has.perm perm⟩
  refine (Ends.foldlM (fun areas s' =>
      Keeping look start (start + size) s.ownedMem.values s' areas
      ∧ s'.Cleared start (start + size)
      ∧ ∀ area ∈ areas, area.overlapWith start (start + size) = true) ?_
    ⟨keeping, cleared, overlaps⟩).imp fun s' holds => ⟨holds.1, holds.2.1⟩
  rintro area areas s' ⟨keeping, cleared, overlaps⟩
  obtain ⟨overlap, overlaps⟩ := List.forall_mem_cons.mp overlaps
  have placed := keeping.tidy.placed area (.head _)
  exact (keeping.splitArea steady cleared (placed.overlap alignedStart aligned range overlap)).imp
    fun s'' holds => ⟨holds.1, holds.2, overlaps⟩

end Loops

end MemorySet

end RCoreOS.Axmem
