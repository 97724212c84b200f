import RCoreOS.PageTable.WellFormed
import Mathlib.Data.List.Nodup

/-! A frame allocator that satisfies the laws: the free frames are kept in a list. -/

namespace RCoreOS.PageTable

/-- Free frames, the head is handed out next. -/
structure FreeList where
  free : List Nat
  nodup : free.Nodup
  frames : ∀ p ∈ free, FrameAddr p

namespace FreeList

def allocFrame : FreeList → Option Nat × FreeList
  | ⟨[], nodup, frames⟩ => (none, ⟨[], nodup, frames⟩)
  | ⟨p :: rest, nodup, frames⟩ =>
      (some p, ⟨rest, nodup.of_cons, fun q member => frames q (List.mem_cons_of_mem p member)⟩)

/-- Only a frame that is not free already is taken back. -/
def deallocFrame (a : FreeList) (p : Nat) : FreeList :=
  if valid : FrameAddr p ∧ p ∉ a.free then
    { free := p :: a.free
      nodup := List.nodup_cons.mpr ⟨valid.2, a.nodup⟩
      frames := List.forall_mem_cons.mpr ⟨valid.1, a.frames⟩ }
  else a

instance : PagingIf FreeList where
  allocFrame := allocFrame
  deallocFrame := deallocFrame

instance : LawfulPagingIf FreeList where
  inUse a := {p | FrameAddr p ∧ p ∉ a.free}
  alloc_some := by
    rintro ⟨_ | ⟨q, rest⟩, nodup, frames⟩ a' p run
    · cases run
    · cases run
      refine ⟨fun inUse => inUse.2 (List.mem_cons_self ..), frames _ (List.mem_cons_self ..), ?_⟩
      ext r
      simp only [Set.mem_ofPred_eq, Set.mem_insert_iff, List.mem_cons, not_or]
      have notLater := (List.nodup_cons.mp nodup).1
      constructor
      · rintro ⟨frame, absent⟩
        by_cases same : r = q
        · exact .inl same
        · exact .inr ⟨frame, same, absent⟩
      · rintro (rfl | ⟨frame, -, absent⟩)
        · exact ⟨frames r (List.mem_cons_self ..), notLater⟩
        · exact ⟨frame, absent⟩
  alloc_none := by
    rintro ⟨_ | ⟨q, rest⟩, nodup, frames⟩ a' run
    · cases run
      rfl
    · cases run
  dealloc := by
    intro a p inUse
    change {r | FrameAddr r ∧ r ∉ (a.deallocFrame p).free} = _
    have valid : FrameAddr p ∧ p ∉ a.free := inUse
    rw [deallocFrame, dif_pos valid]
    ext r
    simp only [Set.mem_ofPred_eq, List.mem_cons, not_or, Set.mem_sdiff, Set.mem_singleton_iff]
    tauto

end FreeList

end RCoreOS.PageTable
