import RCoreOS.PageTable.Walk

/-! The invariant of a page table in memory: its table frames form one tree, the side list
names each of them once, and the allocator considers all of them in use. Writing a leaf
entry and linking a fresh table both keep it, with a known effect on the view.
-/

namespace RCoreOS.PageTable

open GenericPTE RadixTree

/-- What the page table code relies on: a frame handed out is not in use, and releasing a
frame makes exactly that frame available again.
-/
class LawfulPagingIf (σ : Type) [PagingIf σ] where
  inUse : σ → Set Nat
  alloc_some
    : ∀ {a a' : σ} {p : Nat},
        PagingIf.allocFrame a = (some p, a')
        → p ∉ inUse a ∧ FrameAddr p ∧ inUse a' = insert p (inUse a)
  alloc_none
    : ∀ {a a' : σ}, PagingIf.allocFrame a = (none, a') → inUse a' = inUse a
  dealloc
    : ∀ {a : σ} {p : Nat}, p ∈ inUse a → inUse (PagingIf.deallocFrame a p) = inUse a \ {p}

open LawfulPagingIf (inUse)

variable {PTE σ : Type} [GenericPTE PTE] [PagingIf σ] [LawfulPagingIf σ]

namespace Paging

/-- The frames that the allocator of `s` has handed out. -/
def used (s : Paging PTE σ) : Set Nat :=
  inUse s.allocator

/-- The table frames have places in one tree, and the side list is the set of placed frames. -/
structure Layout (s : Paging PTE σ) (place : Nat → Option (Nat × Nat)) : Prop where
  placed : Placed 512 s.links s.rootPaddr 2 place
  listed : ∀ f, f ∈ s.intrmTables ↔ (place f).isSome
  nodup : s.intrmTables.Nodup
  owned : ∀ f ∈ s.intrmTables, f ∈ s.used

/-- The invariant of a page table. When it is `tight`, no table frame has been cut loose. -/
def WellFormed (tight : Prop) (s : Paging PTE σ) : Prop :=
  ∃ place, s.Layout place ∧ (tight → Hanging 512 s.links s.rootPaddr place)

/-- What an operation may touch: its own tables and frames that nobody used before. -/
structure Footprint (s s' : Paging PTE σ) : Prop where
  root : s'.rootPaddr = s.rootPaddr
  tables
    : ∃ fresh,
        s'.intrmTables = s.intrmTables ++ fresh
        ∧ (∀ f, f ∈ s'.used ↔ f ∈ s.used ∨ f ∈ fresh)
        ∧ ∀ f ∈ fresh, f ∉ s.used
  frames : ∀ f, f ∉ s'.intrmTables → s'.frames f = s.frames f

/-- An operation that keeps the invariant and turns the view into `after`. -/
structure Effect (tight : Prop) (s s' : Paging PTE σ)
    (after : Nat → View PTE)
    : Prop where
  wellFormed : s'.WellFormed tight
  footprint : Footprint s s'
  view : ∀ vaddr, s'.view vaddr = after vaddr

/-- The view in which one block of addresses is replaced. -/
def overwrite (size : PageSize) (vaddr : Nat) (inside : View PTE) (outside : Nat → View PTE)
    : Nat → View PTE :=
  fun other => if block size other = block size vaddr then inside else outside other

-----------------------------------------------------------------------------------------
-- Composition
-----------------------------------------------------------------------------------------

omit [GenericPTE PTE] in
theorem Footprint.refl (s : Paging PTE σ) : Footprint s s where
  root := rfl
  tables := ⟨[], by simp⟩
  frames := fun _ _ => rfl

omit [GenericPTE PTE] in
/-- Footprints compose: the fresh frames of both parts are fresh. -/
theorem Footprint.trans {s t u : Paging PTE σ} (first : Footprint s t)
    (second : Footprint t u) : Footprint s u := by
  obtain ⟨fresh, list, used, new⟩ := first.tables
  obtain ⟨fresh', list', used', new'⟩ := second.tables
  refine ⟨second.root.trans first.root, ⟨fresh ++ fresh', ?_, ?_, ?_⟩, ?_⟩
  · rw [list', list, List.append_assoc]
  · intro f
    rw [used', used, List.mem_append, or_assoc]
  · intro f member
    rcases List.mem_append.mp member with old | later
    · exact new f old
    · exact fun inUse => new' f later ((used f).mpr (.inl inUse))
  · intro f absent
    rw [second.frames f absent]
    apply first.frames
    intro member
    exact absent (by rw [list']; exact List.mem_append_left _ member)

theorem Effect.refl {tight : Prop} {s : Paging PTE σ} (wf : s.WellFormed tight)
    : Effect tight s s s.view :=
  ⟨wf, .refl s, fun _ => rfl⟩

theorem Effect.view_eq {tight : Prop} {s s' : Paging PTE σ} {after : _}
    (effect : Effect tight s s' after) : s'.view = after :=
  funext effect.view

/-- Effects compose. -/
theorem Effect.trans {tight : Prop} {s t u : Paging PTE σ} {middle after : _}
    (first : Effect tight s t middle) (second : Effect tight t u after)
    : Effect tight s u after :=
  ⟨second.wellFormed, first.footprint.trans second.footprint, second.view⟩

-----------------------------------------------------------------------------------------
-- Writing a leaf entry
-----------------------------------------------------------------------------------------

section Write

variable {tight : Prop} {s : Paging PTE σ} {vaddr table : Nat} {size : PageSize} {e : PTE}
variable {place : Nat → Option (Nat × Nat)}

/-- A walked table has its place in the layout. -/
theorem Layout.walks (layout : s.Layout place) (walks : s.Walks vaddr size table)
    : place table = some (size.height, vpn vaddr / 512 ^ (size.height + 1)) :=
  layout.placed.visits (by decide) (vpn_lt vaddr) walks

theorem Layout.walks_listed (layout : s.Layout place) (walks : s.Walks vaddr size table)
    : table ∈ s.intrmTables :=
  (layout.listed table).mpr (by rw [layout.walks walks]; rfl)

/-- Two walks that select one slot are walks inside one block of its page size. -/
theorem Layout.same_slot (layout : s.Layout place) {other table' : Nat} {size' : PageSize}
    (walks : s.Walks vaddr size table) (walks' : s.Walks other size' table')
    (same : slotAt size' other table' = slotAt size vaddr table)
    : size' = size ∧ block size other = block size vaddr := by
  obtain ⟨rfl, index⟩ := Slot.mk.inj same
  obtain ⟨height, above⟩ := layout.placed.meet (by decide) (vpn_lt _) (vpn_lt _) walks' walks
  have sizes : size' = size := by
    cases size <;> cases size' <;> simp_all [PageSize.height]
  subst sizes
  refine ⟨rfl, ?_⟩
  unfold block
  rw [← prefix_step 512 _ (vpn other), ← prefix_step 512 _ (vpn vaddr), above, index]

/-- Writing a leaf entry keeps the tree: the slot links nothing afterwards, and a slot of a
table of 4K pages is never followed.
-/
theorem Layout.setEntry (layout : s.Layout place) (walks : s.Walks vaddr size table)
    (leaf : size = .size4K ∨ isTable e = false)
    : (s.setEntry (slotAt size vaddr table) e).Layout place where
  placed := by
    have agree := s.links_setEntry_agree (slotAt size vaddr table) e
    rcases leaf with rfl | leaf
    · exact layout.placed.leaf agree (layout.walks walks)
    · exact layout.placed.cut agree (s.links_setEntry_self _ leaf)
  listed := layout.listed
  nodup := layout.nodup
  owned := layout.owned

/-- Writing a leaf entry cuts nothing loose when it does not replace a table. -/
theorem Layout.hanging_setEntry (layout : s.Layout place)
    (hanging : Hanging 512 s.links s.rootPaddr place) (walks : s.Walks vaddr size table)
    (kept : size = .size4K ∨ isTable (s.entry (slotAt size vaddr table)) = false)
    : Hanging 512 (s.setEntry (slotAt size vaddr table) e).links s.rootPaddr place := by
  have agree := s.links_setEntry_agree (slotAt size vaddr table) e
  rcases kept with rfl | kept
  · exact hanging.leaf agree (layout.walks walks)
  · exact hanging.write agree (links_eq_none.mpr kept)

/-- After a leaf entry is written, its block has the view of that entry and every other
address the view it had: its walk ends where it ended, in another slot.
-/
theorem Layout.view_setEntry [LawfulPTE PTE] (layout : s.Layout place)
    (walks : s.Walks vaddr size table) (leaf : size = .size4K ∨ isTable e = false)
    (other : Nat)
    : (s.setEntry (slotAt size vaddr table) e).view other
      = if block size other = block size vaddr then leafView e size else s.view other := by
  have agree := s.links_setEntry_agree (slotAt size vaddr table) e
  have here := layout.walks walks
  split
  · rename_i same
    obtain ⟨walks', slot⟩ := walks.same_block same
    have ends : (s.setEntry (slotAt size vaddr table) e).Ends other size table := by
      refine ⟨walks'.agree_above layout.placed (by decide) agree here (vpn_lt _) le_rfl, ?_⟩
      rw [slot, entry_setEntry]
      exact leaf
    rw [ends.view_eq, slot, entry_setEntry]
  · rename_i away
    obtain ⟨size', table', ends⟩ := s.exists_ends other
    have apart : slotAt size' other table' ≠ slotAt size vaddr table :=
      fun same => away (layout.same_slot walks ends.walks same).2
    have ends' : (s.setEntry (slotAt size vaddr table) e).Ends other size' table' := by
      refine ⟨ends.walks.agree_off layout.placed (by decide) agree here (vpn_lt _) ?_, ?_⟩
      · rw [slotAt, prefix_step]
        exact away
      · rw [entry_setEntry_of_ne _ _ apart]
        exact ends.last
    rw [ends'.view_eq, ends.view_eq, entry_setEntry_of_ne _ _ apart]

/-- The effect of writing a leaf entry into the slot a walk selects. -/
theorem setEntry_effect [LawfulPTE PTE] (wf : s.WellFormed tight)
    (walks : s.Walks vaddr size table) (leaf : size = .size4K ∨ isTable e = false)
    (kept : tight → size = .size4K ∨ isTable (s.entry (slotAt size vaddr table)) = false)
    : Effect tight s (s.setEntry (slotAt size vaddr table) e)
        (overwrite size vaddr (leafView e size) s.view) := by
  obtain ⟨place, layout, hanging⟩ := wf
  refine ⟨⟨place, layout.setEntry walks leaf, ?_⟩, ?_, layout.view_setEntry walks leaf⟩
  · exact fun isTight => layout.hanging_setEntry (hanging isTight) walks (kept isTight)
  · refine ⟨rfl, ⟨[], by simp [used, setEntry]⟩, ?_⟩
    intro f absent
    have other : f ≠ table := by
      rintro rfl
      exact absent (layout.walks_listed walks)
    funext i
    simp [setEntry, slotAt, other]

end Write

-----------------------------------------------------------------------------------------
-- Changes elsewhere in memory
-----------------------------------------------------------------------------------------

/-- The same page table in a memory that may differ outside its own frames. -/
structure SameTables (s s' : Paging PTE σ) : Prop where
  object : s'.toPageTable64 = s.toPageTable64
  frames : ∀ f ∈ s.intrmTables, s'.frames f = s.frames f
  owned : ∀ f ∈ s.intrmTables, f ∈ s'.used

section Elsewhere

variable {tight : Prop} {s s' : Paging PTE σ} {place : Nat → Option (Nat × Nat)}

theorem SameTables.agree (same : SameTables s s') (layout : s.Layout place)
    : AgreeOn s.links s'.links place := by
  intro a i placed
  unfold links
  rw [same.frames a ((layout.listed a).mpr placed)]

/-- The invariant only concerns the frames of the page table. -/
theorem SameTables.wellFormed (same : SameTables s s') (wf : s.WellFormed tight)
    : s'.WellFormed tight := by
  obtain ⟨place, layout, hanging⟩ := wf
  have root : s'.rootPaddr = s.rootPaddr := congrArg PageTable64.rootPaddr same.object
  have list : s'.intrmTables = s.intrmTables := congrArg PageTable64.intrmTables same.object
  have agree := same.agree layout
  refine ⟨place, ⟨?_, ?_, ?_, ?_⟩, fun isTight => ?_⟩
  · rw [root]
    exact layout.placed.agree_on agree
  · rw [list]
    exact layout.listed
  · rw [list]
    exact layout.nodup
  · rw [list]
    exact same.owned
  · rw [root]
    exact (hanging isTight).agree_on agree

/-- The view only depends on the frames of the page table. -/
theorem SameTables.view [LawfulPTE PTE] (same : SameTables s s') (wf : s.WellFormed tight)
    (vaddr : Nat) : s'.view vaddr = s.view vaddr := by
  obtain ⟨place, layout, -⟩ := wf
  have root : s'.rootPaddr = s.rootPaddr := congrArg PageTable64.rootPaddr same.object
  obtain ⟨size, table, ends⟩ := s.exists_ends vaddr
  have entry : s'.entry (slotAt size vaddr table) = s.entry (slotAt size vaddr table) := by
    simp [Paging.entry, slotAt, same.frames table (layout.walks_listed ends.walks)]
  have ends' : s'.Ends vaddr size table := by
    refine ⟨?_, by rw [entry]; exact ends.last⟩
    unfold Walks
    rw [root]
    exact ends.walks.agree_on layout.placed (by decide) (same.agree layout) (vpn_lt _)
  rw [ends'.view_eq, ends.view_eq, entry]

end Elsewhere

-----------------------------------------------------------------------------------------
-- Linking a fresh table
-----------------------------------------------------------------------------------------

section Link

variable [LawfulPTE PTE]
variable {tight : Prop} {s s' : Paging PTE σ} {vaddr table : Nat} {size lower : PageSize}
variable {place : Nat → Option (Nat × Nat)}

/-- The state after a frame of zeroed entries is linked into a slot. -/
def linkTable (s : Paging PTE σ) (slot : Slot) (p : Nat) (allocator : σ) : Paging PTE σ :=
  { rootPaddr := s.rootPaddr
    intrmTables := s.intrmTables ++ [p]
    frames := fun f i =>
      if f = slot.table ∧ i = slot.index then newTable p
      else if f = p then zeroed else s.frames f i
    allocator }

omit [LawfulPagingIf σ] [LawfulPTE PTE] in
/-- What `nextTableMutOrCreate` does to an unused slot: it links a table or runs out. -/
theorem nextTableMutOrCreate_unused {slot : Slot} (unused : isUnused (s.entry slot) = true)
    : (∃ p allocator,
        PagingIf.allocFrame s.allocator = (some p, allocator)
        ∧ s.nextTableMutOrCreate slot = (.ok p, s.linkTable slot p allocator))
      ∨ ∃ allocator,
        PagingIf.allocFrame s.allocator = (none, allocator)
        ∧ s.nextTableMutOrCreate slot = (.error .noMemory, { s with allocator }) := by
  rcases alloc : PagingIf.allocFrame s.allocator with ⟨_ | p, allocator⟩
  · exact .inr ⟨allocator, rfl, by
      simp [nextTableMutOrCreate, unused, PhysMemory.allocTable, alloc]⟩
  · refine .inl ⟨p, allocator, rfl, ?_⟩
    simp only [nextTableMutOrCreate, unused, PhysMemory.allocTable, alloc, if_true, linkTable,
      setEntry, Prod.mk.injEq, true_and, Paging.mk.injEq, PhysMemory.mk.injEq, and_true]
    funext f i
    split
    · rfl
    · split <;> rfl

/-- Linking a fresh zeroed table into an unused slot grafts it onto the tree. -/
theorem Layout.linkTable_graft (layout : s.Layout place) {p : Nat} (allocator : σ)
    (slot : Slot) (listed : slot.table ∈ s.intrmTables)
    (unused : isUnused (s.entry slot) = true) (frame : FrameAddr p) (fresh : p ∉ s.used)
    : Graft s.links (s.linkTable slot p allocator).links place slot.table slot.index p := by
  have absent : isTable (zeroed : PTE) = false := by
    simp [isTable, LawfulPTE.absent_of_unused LawfulPTE.unused_zeroed]
  have apart : p ≠ slot.table := by
    rintro rfl
    exact fresh (layout.owned _ listed)
  refine ⟨?_, ?_, ?_, ?_, ?_⟩
  · intro a j other off
    have elsewhere : ¬ (a = slot.table ∧ j = slot.index) := by tauto
    simp [links, linkTable, elsewhere, other]
  · rw [links_eq_none]
    exact by simp [isTable, LawfulPTE.absent_of_unused (e := s.frames _ _) unused]
  · simp [links, linkTable, isTable, LawfulPTE.table_present, LawfulPTE.table_small,
      LawfulPTE.table_paddr frame]
  · by_contra placed
    exact fresh (layout.owned p ((layout.listed p).mpr (Option.isSome_iff_ne_none.mpr placed)))
  · intro j
    simp [links, linkTable, apart, absent]

omit [PagingIf σ] [LawfulPagingIf σ] [LawfulPTE PTE] in
/-- Off its own frame and its slot, linking a table changes no entry. -/
theorem entry_linkTable {slot other : Slot} {p : Nat} (allocator : σ) (ne : other ≠ slot)
    (old : other.table ≠ p) : (s.linkTable slot p allocator).entry other = s.entry other := by
  have apart : ¬ (other.table = slot.table ∧ other.index = slot.index) := by
    intro same
    exact ne (by cases other; cases slot; simp_all)
  simp [entry, linkTable, apart, old]

/-- A fresh table shows nothing: the slot had no view, and the zeroed entries have none. -/
theorem Layout.view_linkTable (layout : s.Layout place) {p : Nat} {allocator : σ}
    (walks : s.Walks vaddr size table) (step : size.height = lower.height + 1)
    (graft : Graft s.links (s.linkTable (slotAt size vaddr table) p allocator).links place
      table (slotAt size vaddr table).index p)
    (unused : isUnused (s.entry (slotAt size vaddr table)) = true) (other : Nat)
    : (s.linkTable (slotAt size vaddr table) p allocator).view other = s.view other := by
  have huge : size ≠ .size4K := by
    rintro rfl
    simp [PageSize.height] at step
  have known {t} (listed : t ∈ s.intrmTables) : t ≠ p := by
    rintro rfl
    have := (layout.listed t).mp listed
    rw [graft.unplaced] at this
    cases this
  obtain ⟨size', table', ends⟩ := s.exists_ends other
  have kept := ends.walks.graft layout.placed (by decide) graft (vpn_lt _)
  by_cases same : slotAt size' other table' = slotAt size vaddr table
  · obtain ⟨rfl, -⟩ := layout.same_slot walks ends.walks same
    obtain ⟨rfl, index⟩ := Slot.mk.inj same
    have zero : (s.linkTable (slotAt size' vaddr table') p allocator).entry
        (slotAt lower other p) = zeroed := by
      have apart := known (layout.walks_listed walks)
      simp [entry, linkTable, slotAt, Ne.symm apart]
    have below : (s.linkTable (slotAt size' vaddr table') p allocator).Ends other lower p := by
      refine ⟨Walks.step kept lower step ?_, .inr ?_⟩
      · rw [same]
        exact graft.linked
      · rw [zero]
        simp [isTable, LawfulPTE.absent_of_unused LawfulPTE.unused_zeroed]
    rw [below.view_eq, ends.view_eq, zero, same]
    simp [leafView, unused, LawfulPTE.unused_zeroed]
  · have entry := entry_linkTable (s := s) (p := p) allocator same
      (known (layout.walks_listed ends.walks))
    have ends' : (s.linkTable (slotAt size vaddr table) p allocator).Ends other size' table' :=
      ⟨kept, by rw [entry]; exact ends.last⟩
    rw [ends'.view_eq, ends.view_eq, entry]

/-- Asking for the next table keeps the invariant and the view, whatever the outcome; all
walks go on as before, and a table that is returned is walked from the slot.
-/
theorem nextTableMutOrCreate_effect (wf : s.WellFormed tight)
    (walks : s.Walks vaddr size table) (lower : PageSize) (step : size.height = lower.height + 1)
    {result : PagingResult Nat}
    (run : s.nextTableMutOrCreate (slotAt size vaddr table) = (result, s'))
    : Effect tight s s' s.view ∧ ∀ p, result = .ok p → s'.Walks vaddr lower p := by
  cases unused : isUnused (s.entry (slotAt size vaddr table)) with
  | false =>
      simp only [nextTableMutOrCreate, unused, Bool.false_eq_true, if_false, Prod.mk.injEq] at run
      obtain ⟨rfl, rfl⟩ := run
      refine ⟨.refl wf, fun p next => ?_⟩
      exact walks.step lower step (links_eq_some.mpr (nextTableMut_ok.mp next))
  | true =>
      rcases nextTableMutOrCreate_unused unused with
        ⟨p, allocator, alloc, ran⟩ | ⟨allocator, alloc, ran⟩
      · obtain ⟨rfl, rfl⟩ := Prod.mk.inj (run.symm.trans ran)
        obtain ⟨place, layout, hanging⟩ := wf
        obtain ⟨fresh, frame, inUse'⟩ := LawfulPagingIf.alloc_some alloc
        have listed := layout.walks_listed walks
        have graft := layout.linkTable_graft allocator
          (slotAt size vaddr table) listed unused frame fresh
        have at_t := step ▸ layout.walks walks
        have notListed : p ∉ s.intrmTables := fun member => fresh (layout.owned p member)
        refine ⟨⟨⟨_, ⟨layout.placed.graft graft at_t, ?_, ?_, ?_⟩, ?_⟩, ⟨rfl, ?_, ?_⟩, ?_⟩, ?_⟩
        · intro f
          by_cases new : f = p
          · simp [linkTable, new]
          · simp [linkTable, new, layout.listed f]
        · exact List.nodup_append.mpr ⟨layout.nodup, by simp, by
            rintro a old b new rfl
            exact notListed (List.mem_singleton.mp new ▸ old)⟩
        · intro f member
          change f ∈ inUse allocator
          rw [inUse']
          rcases List.mem_append.mp member with old | new
          · exact .inr (layout.owned f old)
          · exact .inl (List.mem_singleton.mp new)
        · exact fun isTight =>
            (hanging isTight).graft graft at_t (digit_lt (by decide) _ _)
        · refine ⟨[p], rfl, ?_, ?_⟩
          · intro f
            change f ∈ inUse allocator ↔ _
            rw [inUse', Set.mem_insert_iff, List.mem_singleton, or_comm]
            rfl
          · rintro f new
            exact List.mem_singleton.mp new ▸ fresh
        · intro f absent
          simp only [linkTable, List.mem_append, List.mem_singleton, not_or] at absent
          have other : f ≠ table := fun same => absent.1 (same ▸ listed)
          funext i
          simp [linkTable, slotAt, other, absent.2]
        · exact layout.view_linkTable walks step graft unused
        · intro q eq
          obtain rfl := Except.ok.inj eq
          have kept := walks.graft layout.placed (by decide) graft (vpn_lt _)
          exact Walks.step kept lower step graft.linked
      · obtain ⟨rfl, rfl⟩ := Prod.mk.inj (run.symm.trans ran)
        have same := LawfulPagingIf.alloc_none alloc
        refine ⟨⟨?_, ⟨rfl, ⟨[], ?_⟩, fun _ _ => rfl⟩, fun _ => rfl⟩, by simp⟩
        · obtain ⟨place, layout, hanging⟩ := wf
          refine ⟨place, ⟨layout.placed, layout.listed, layout.nodup, ?_⟩, hanging⟩
          intro f member
          change f ∈ inUse allocator
          rw [same]
          exact layout.owned f member
        · simp [used, same]

end Link

end Paging

end RCoreOS.PageTable
