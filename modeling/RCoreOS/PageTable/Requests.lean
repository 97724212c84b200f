import RCoreOS.PageTable.RegionEffects

/-! Runs of one page table: any sequence of its public operations, whatever their outcome,
while other users of physical memory allocate, release and write frames of their own.
-/

namespace RCoreOS.PageTable

open LawfulPagingIf (inUse)

/-- A call of a public operation that changes the page table. -/
inductive Request where
  | map (vaddr target : Nat) (size : PageSize) (flags : MappingFlags)
  | mapOverwrite (vaddr target : Nat) (size : PageSize) (flags : MappingFlags)
  | unmap (vaddr : Nat)
  | mapFault (vaddr : Nat) (size : PageSize) (flags : MappingFlags)
  | update (vaddr : Nat) (paddr : Option Nat) (flags : Option MappingFlags)
  | mapRegion (vaddr paddr size : Nat) (flags : MappingFlags) (allowHuge : Bool)
  | mapFaultRegion (vaddr size : Nat) (flags : MappingFlags)
  | unmapRegion (vaddr size : Nat)
  | updateRegion (vaddr size : Nat) (flags : MappingFlags)

namespace Paging

variable {PTE σ : Type} [GenericPTE PTE] [PagingIf σ]

/-- The state a request leaves, also when it fails; `none` when it does not return. -/
def serve (s : Paging PTE σ) : Request → Option (Paging PTE σ)
  | .map vaddr target size flags => some (s.map vaddr target size flags).2
  | .mapOverwrite vaddr target size flags => some (s.mapOverwrite vaddr target size flags).2
  | .unmap vaddr => some (s.unmap vaddr).2
  | .mapFault vaddr size flags => some (s.mapFault vaddr size flags).2
  | .update vaddr paddr flags => some (s.update vaddr paddr flags).2
  | .mapRegion vaddr paddr size flags allowHuge =>
      some (s.mapRegion vaddr paddr size flags allowHuge).2
  | .mapFaultRegion vaddr size flags => some (s.mapFaultRegion vaddr size flags).2
  | .unmapRegion vaddr size => some (s.unmapRegion vaddr size).2
  | .updateRegion vaddr size flags => (s.updateRegion vaddr size flags).map (·.2)

/-- No huge page is given flags without READ and EXECUTE. -/
def LeafFlags (s : Paging PTE σ) : Request → Prop
  | .map _ _ size flags | .mapOverwrite _ _ size flags => size = .size4K ∨ flags.isLeaf = true
  | .update vaddr _ flags => ∀ e page, s.view vaddr = .page e page → UpdateFlags page flags
  | .mapRegion _ _ _ flags allowHuge => RegionFlags flags allowHuge
  | .updateRegion vaddr size flags => flags.isLeaf = true ∨ s.SmallPages vaddr size
  | .unmap _ | .mapFault _ _ _ | .mapFaultRegion _ _ _ | .unmapRegion _ _ => True

/-- No inner entry is overwritten by force. -/
def KeepsTables : Request → Prop
  | .mapOverwrite _ _ size _ => size = .size4K
  | _ => True

variable [LawfulPagingIf σ]

/-- Reachable page tables, with the frames in use that are not tables of this one. -/
inductive Reachable (allowed : Paging PTE σ → Request → Prop) : Set Nat → Paging PTE σ → Prop
  | new {m m' : PhysMemory PTE σ} {t : PageTable64} :
      PageTable64.tryNew m = (.ok t, m')
      → Reachable allowed (inUse m.allocator) { toPageTable64 := t, toPhysMemory := m' }
  | request {others : Set Nat} {s s' : Paging PTE σ} (r : Request) :
      Reachable allowed others s
      → allowed s r
      → s.serve r = some s'
      → Reachable allowed others s'
  | environment {others others' : Set Nat} {s : Paging PTE σ} {m : PhysMemory PTE σ} :
      Reachable allowed others s
      → (∀ f ∈ s.intrmTables, m.frames f = s.frames f ∧ f ∉ others')
      → (∀ f, f ∈ inUse m.allocator ↔ f ∈ others' ∨ f ∈ s.intrmTables)
      → Reachable allowed others' { toPageTable64 := s.toPageTable64, toPhysMemory := m }

-----------------------------------------------------------------------------------------
-- The invariant of every run
-----------------------------------------------------------------------------------------

variable [LawfulPTE PTE] {tight : Prop} {s s' : Paging PTE σ}

/-- Every allowed request keeps the invariant. -/
theorem serve_keeps (wf : s.WellFormed tight) {r : Request} (leaf : s.LeafFlags r)
    (kept : tight → KeepsTables r) (served : s.serve r = some s')
    : Keeps tight s s' := by
  cases r with
  | map vaddr target size flags =>
      cases served
      rcases mapped : s.map vaddr target size flags with ⟨_ | _, t⟩
      · exact ⟨_, map_effect wf leaf mapped⟩
      · exact ⟨_, (map_effect wf leaf mapped).2⟩
  | mapOverwrite vaddr target size flags =>
      cases served
      rcases mapped : s.mapOverwrite vaddr target size flags with ⟨_ | _, t⟩
      · exact ⟨_, mapOverwrite_effect wf leaf kept mapped⟩
      · exact ⟨_, mapOverwrite_effect wf leaf kept mapped⟩
  | unmap vaddr =>
      cases served
      rcases unmapped : s.unmap vaddr with ⟨_ | _, t⟩
      · rw [(unmap_effect wf unmapped).1]
        exact .refl wf
      · obtain ⟨_, -, -, effect⟩ := unmap_effect wf unmapped
        exact ⟨_, effect⟩
  | mapFault vaddr size flags =>
      cases served
      rcases mapped : s.mapFault vaddr size flags with ⟨_ | _, t⟩
      · exact ⟨_, mapFault_effect wf mapped⟩
      · exact ⟨_, (mapFault_effect wf mapped).2⟩
  | update vaddr paddr flags =>
      cases served
      exact (update_keeps wf leaf rfl).1
  | mapRegion vaddr paddr size flags allowHuge =>
      cases served
      exact mapRegion_keeps wf leaf rfl
  | mapFaultRegion vaddr size flags =>
      cases served
      exact mapFaultRegion_keeps wf rfl
  | unmapRegion vaddr size =>
      cases served
      exact unmapRegion_keeps wf rfl
  | updateRegion vaddr size flags =>
      obtain ⟨⟨result, t⟩, run, rfl⟩ := Option.map_eq_some_iff.mp served
      exact updateRegion_keeps wf leaf run

/-- Every reachable page table is well formed, by induction on the run, and the allocator
has handed out its tables and the frames of others, which are different frames.
-/
theorem Reachable.wellFormed (tight : Prop) {allowed : Paging PTE σ → Request → Prop}
    (leaf : ∀ s r, allowed s r → s.LeafFlags r)
    (kept : tight → ∀ s r, allowed s r → KeepsTables r)
    {others : Set Nat} (reachable : Reachable allowed others s)
    : s.WellFormed tight
      ∧ (∀ f, f ∈ s.used ↔ f ∈ others ∨ f ∈ s.intrmTables)
      ∧ ∀ f ∈ s.intrmTables, f ∉ others := by
  induction reachable with
  | @new m m' t created =>
      have new := tryNew_ok tight created
      refine ⟨new.wellFormed, fun f => ?_, fun f member => ?_⟩
      · simp only [used, new.used, new.single, List.mem_singleton]
      · simp only [new.single, List.mem_singleton] at member
        exact member ▸ new.fresh
  | @request others s s' r _ isAllowed served ih =>
      obtain ⟨wf, accounted, disjoint⟩ := ih
      obtain ⟨_, effect⟩ :=
        serve_keeps wf (leaf s r isAllowed) (fun isTight => kept isTight s r isAllowed) served
      obtain ⟨fresh, tables, used, new⟩ := effect.footprint.tables
      refine ⟨effect.wellFormed, fun f => ?_, fun f member => ?_⟩
      · rw [used, accounted, tables, List.mem_append, or_assoc]
      · rw [tables] at member
        rcases List.mem_append.mp member with old | added
        · exact disjoint f old
        · exact fun other => new f added ((accounted f).mpr (.inl other))
  | @environment others others' s m _ same accounted' ih =>
      obtain ⟨wf, accounted, disjoint⟩ := ih
      have sameTables : SameTables s { toPageTable64 := s.toPageTable64, toPhysMemory := m } := by
        refine ⟨rfl, fun f member => (same f member).1, fun f member => ?_⟩
        exact (accounted' f).mpr (.inr member)
      exact ⟨sameTables.wellFormed wf, accounted', fun f member => (same f member).2⟩

end Paging

end RCoreOS.PageTable
