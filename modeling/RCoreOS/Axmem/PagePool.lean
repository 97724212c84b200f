import RCoreOS.Axmem.PhysPage

/-! A page allocator that satisfies the laws: it hands out pages of the linear mapping in order
and never the same one twice.
-/

namespace RCoreOS.Axmem

open PageTable

/-- Pages up to number `next` have been handed out, and some of them released again. -/
structure PagePool where
  next : Nat
  released : List Nat
  bounded : 4096 * (next + 1) ≤ 2 ^ 38
  handedOut : ∀ f ∈ released, f ≤ 4096 * next

namespace PagePool

def empty : PagePool where
  next := 0
  released := []
  bounded := by decide
  handedOut := nofun

def allocPages (a : PagePool) (num : Nat) : Except AllocError Nat × PagePool :=
  if bounded : 4096 * (a.next + num + 1) ≤ 2 ^ 38 then
    (.ok (PHYS_VIRT_OFFSET + 4096 * (a.next + 1)), {
      next := a.next + num
      released := a.released
      bounded
      handedOut := fun f member => by
        have := a.handedOut f member
        omega })
  else (.error .noMemory, a)

/-- Only pages that have been handed out are taken back. -/
def deallocPages (a : PagePool) (vaddr num : Nat) : PagePool :=
  { a with
    released := ((List.range num).map (fun i => virtToPhys vaddr + 4096 * i)).filter
      (· ≤ 4096 * a.next) ++ a.released
    handedOut := fun f member => by
      rcases List.mem_append.mp member with new | old
      · exact of_decide_eq_true (List.mem_filter.mp new).2
      · exact a.handedOut f old }

instance : GlobalAllocator PagePool where
  allocPages a num _ := allocPages a num
  deallocPages := deallocPages

/-- Pages are handed out as long as there are enough. -/
theorem allocPages_ok {a : PagePool} {num : Nat}
    (bounded : 4096 * (a.next + num + 1) ≤ 2 ^ 38) (align : Nat)
    : ∃ vaddr a', GlobalAllocator.allocPages a num align = (.ok vaddr, a')
        ∧ a'.next = a.next + num := by
  show ∃ vaddr a', allocPages a num = (.ok vaddr, a') ∧ a'.next = a.next + num
  rw [allocPages, dif_pos bounded]
  exact ⟨_, _, rfl, rfl⟩

theorem allocPages_error {a : PagePool} {num : Nat}
    (full : ¬ 4096 * (a.next + num + 1) ≤ 2 ^ 38) (align : Nat)
    : GlobalAllocator.allocPages a num align = (.error .noMemory, a) := by
  show allocPages a num = (.error .noMemory, a)
  rw [allocPages, dif_neg full]

/-- The frames that are handed out and not released. -/
def inUse (a : PagePool) : Set Nat :=
  {f | (∃ i, i < a.next ∧ f = 4096 * (i + 1)) ∧ f ∉ a.released}

theorem virtToPhys_add (n : Nat) (bound : n < 2 ^ 38) : virtToPhys (PHYS_VIRT_OFFSET + n) = n := by
  rw [virtToPhys, wrapSub_of_le (Nat.le_add_right ..) (by
    unfold PHYS_VIRT_OFFSET USIZE_RANGE
    omega), Nat.add_sub_cancel_left]

theorem linear_add {n : Nat} (aligned : n % 4096 = 0) (positive : 0 < n) (bound : n < 2 ^ 38)
    : Linear (PHYS_VIRT_OFFSET + n) := by
  unfold Linear PHYS_VIRT_OFFSET USIZE_RANGE
  omega

theorem released_one {a : PagePool} {vaddr : Nat} (early : virtToPhys vaddr ≤ 4096 * a.next)
    : (deallocPages a vaddr 1).released = virtToPhys vaddr :: a.released := by
  simp [deallocPages, early]

theorem mem_inUse_dealloc {a : PagePool} {vaddr : Nat}
    (early : virtToPhys vaddr ≤ 4096 * a.next) (f : Nat)
    : f ∈ inUse (deallocPages a vaddr 1) ↔ f ∈ inUse a ∧ f ≠ virtToPhys vaddr := by
  have next : (deallocPages a vaddr 1).next = a.next := by rw [deallocPages]
  simp only [inUse, Set.mem_ofPred_eq, released_one early, List.mem_cons, not_or, next]
  constructor
  · rintro ⟨out, other, kept⟩
    exact ⟨⟨out, kept⟩, other⟩
  · rintro ⟨⟨out, kept⟩, other⟩
    exact ⟨out, other, kept⟩

instance : LawfulGlobalAllocator PagePool where
  inUse := inUse
  linear := by
    rintro a f ⟨⟨i, handed, rfl⟩, -⟩
    have := a.bounded
    exact ⟨_, linear_add (by omega) (by omega) (by omega), (virtToPhys_add _ (by omega)).symm⟩
  alloc_ok := by
    intro a a' num vaddr run
    change allocPages a num = _ at run
    unfold allocPages at run
    split at run
    · rename_i fits
      cases run
      have address (i : Nat) : PHYS_VIRT_OFFSET + 4096 * (a.next + 1) + i * 4096
          = PHYS_VIRT_OFFSET + 4096 * (a.next + i + 1) := by
        rw [Nat.mul_comm i, Nat.add_assoc, ← Nat.mul_add, Nat.add_right_comm]
      have physical {i : Nat} (inside : i < num)
          : virtToPhys (PHYS_VIRT_OFFSET + 4096 * (a.next + 1) + i * 4096)
            = 4096 * (a.next + i + 1) := by
        rw [address]
        exact virtToPhys_add _ (by omega)
      refine ⟨fun i inside => ⟨?_, ?_⟩, fun f => ⟨?_, ?_⟩⟩
      · rw [address]
        exact linear_add (by omega) (by omega) (by omega)
      · rw [physical inside]
        rintro ⟨⟨j, handed, same⟩, -⟩
        omega
      · rintro ⟨⟨j, handed, rfl⟩, kept⟩
        by_cases old : j < a.next
        · exact .inl ⟨⟨j, old, rfl⟩, kept⟩
        · have handed : j < a.next + num := handed
          have inside : j - a.next < num :=
            Nat.sub_lt_left_of_lt_add (Nat.le_of_not_lt old) handed
          refine .inr ⟨j - a.next, inside, ?_⟩
          rw [physical inside, Nat.add_sub_cancel' (Nat.le_of_not_lt old)]
      · rintro (⟨⟨j, handed, rfl⟩, kept⟩ | ⟨i, inside, same⟩)
        · exact ⟨⟨j, Nat.lt_add_right num handed, rfl⟩, kept⟩
        · rw [same, physical inside]
          refine ⟨⟨a.next + i, Nat.add_lt_add_left inside _, rfl⟩, fun released => ?_⟩
          have := a.handedOut _ released
          omega
    · cases run
  alloc_error := by
    intro a a' num e run
    change allocPages a num = _ at run
    unfold allocPages at run
    split at run
    · cases run
    · cases run
      rfl
  dealloc := by
    rintro a vaddr - ⟨⟨i, handed, same⟩, kept⟩
    have early : virtToPhys vaddr ≤ 4096 * a.next := same ▸ Nat.mul_le_mul_left 4096 handed
    ext f
    rw [Set.mem_sdiff, Set.mem_singleton_iff]
    exact mem_inUse_dealloc early f

end PagePool

end RCoreOS.Axmem
