import RCoreOS.PageTable.Translation

/-! Table frames are neither leaked nor freed twice: over every run, the frames reachable
through table entries are the side list, each at one place, and dropping the page table
releases each of them once.
-/

namespace RCoreOS.PageTable.Paging

open GenericPTE RadixTree
open LawfulPagingIf (inUse)

section Paths

variable {PTE σ : Type} [GenericPTE PTE] {s : Paging PTE σ}

/-- A table frame and the entries that lead to it from the root, the last entry first. -/
inductive TableAt (s : Paging PTE σ) : List Nat → Nat → Prop
  | root : TableAt s [] s.rootPaddr
  | entry {path : List Nat} {f : Nat} (i : Nat)
    (above : TableAt s path f)
    (inner : path.length < 2)
    (index : i < ENTRY_COUNT)
    (linked : isTable (s.entry ⟨f, i⟩) = true)
    : TableAt s (i :: path) (paddr (s.entry ⟨f, i⟩))

/-- The key prefix that a path spells out. -/
def spelled : List Nat → Nat
  | [] => 0
  | i :: path => spelled path * 512 + i

/-- Paths of one length that spell the same prefix are equal. -/
theorem TableAt.path_unique {path path' : List Nat} {f f' : Nat} (first : s.TableAt path f)
    (second : s.TableAt path' f') (long : path.length = path'.length)
    (same : spelled path = spelled path') : path = path' := by
  induction first generalizing path' f' with
  | root =>
      cases second with
      | root => rfl
      | entry => cases long
  | entry i above inner index linked ih =>
      cases second with
      | root => cases long
      | entry j above' inner' index' linked' =>
          unfold ENTRY_COUNT at *
          simp only [spelled] at same
          rw [ih above' (by simpa using long) (by omega), show i = j by omega]

/-- A table frame is placed at the distance of its path under the prefix of its path. -/
theorem TableAt.placed {place : Nat → Option (Nat × Nat)}
    (placed : Placed 512 s.links s.rootPaddr 2 place) {path : List Nat} {f : Nat}
    (found : s.TableAt path f)
    : path.length ≤ 2 ∧ place f = some (2 - path.length, spelled path) := by
  induction found with
  | root => exact ⟨by simp, placed.root⟩
  | @entry path f i above inner index linked ih =>
      refine ⟨inner, placed.down (a := f) (i := i) ?_ index (links_eq_some.mpr ⟨linked, rfl⟩)⟩
      rw [ih.2, List.length_cons]
      congr 2
      omega

/-- Every table that a lookup visits is found by following entries. -/
theorem exists_tableAt {key h f : Nat} (visit : Visits 512 s.links s.rootPaddr 2 key h f)
    : ∃ path, path.length + h = 2 ∧ s.TableAt path f := by
  induction visit with
  | root => exact ⟨[], rfl, .root⟩
  | @down h a b above linked ih =>
      obtain ⟨path, length, found⟩ := ih
      obtain ⟨isTab, rfl⟩ := links_eq_some.mp linked
      exact ⟨_ :: path, by simp only [List.length_cons]; omega,
        .entry _ found (by omega) (digit_lt (by decide) _ _) isTab⟩

end Paths

variable {PTE σ : Type} [GenericPTE PTE] [LawfulPTE PTE] [PagingIf σ] [LawfulPagingIf σ]
variable {s : Paging PTE σ}

/-- Releasing frames that are in use, each once, leaves the others in use. -/
theorem inUse_dealloc_all (frames : List Nat) (a : σ) (nodup : frames.Nodup)
    (owned : ∀ f ∈ frames, f ∈ inUse a)
    : (∀ freed f later,
        frames = freed ++ f :: later → f ∈ inUse (freed.foldl PagingIf.deallocFrame a))
      ∧ ∀ f, f ∈ inUse (frames.foldl PagingIf.deallocFrame a) ↔ f ∈ inUse a ∧ f ∉ frames := by
  induction frames generalizing a with
  | nil => simp
  | cons g rest ih =>
      obtain ⟨notLater, nodup⟩ := List.nodup_cons.mp nodup
      have released := LawfulPagingIf.dealloc (owned g (List.mem_cons_self ..))
      obtain ⟨each, remaining⟩ := ih (PagingIf.deallocFrame a g) nodup fun f member => by
        rw [released]
        refine ⟨owned f (List.mem_cons_of_mem g member), ?_⟩
        rintro rfl
        exact notLater member
      refine ⟨fun freed f later split => ?_, fun f => ?_⟩
      · cases freed with
        | nil =>
            cases split
            exact owned _ (List.mem_cons_self ..)
        | cons g' freed =>
            obtain ⟨rfl, tail⟩ := List.cons.inj split
            exact each freed f later tail
      · rw [List.foldl_cons, remaining, released]
        simp only [Set.mem_sdiff, Set.mem_singleton_iff, List.mem_cons, not_or]
        tauto

/-- In every run that overwrites no inner entry by force, the side list holds each table
frame reachable from the root, at one place and once. So `drop` releases every frame while
it is in use and returns the allocator to the frames of others.
-/
theorem Reachable.tables_owned_once {others : Set Nat}
    (reachable : Reachable (fun s r => s.LeafFlags r ∧ KeepsTables r) others s)
    : (∀ f, f ∈ s.intrmTables ↔ ∃ path, s.TableAt path f)
      ∧ (∀ path path' f, s.TableAt path f → s.TableAt path' f → path = path')
      ∧ s.intrmTables.Nodup
      ∧ (∀ freed f later,
          s.intrmTables = freed ++ f :: later
          → f ∈ inUse (freed.foldl PagingIf.deallocFrame s.allocator))
      ∧ inUse s.drop = others := by
  obtain ⟨⟨place, layout, hanging⟩, accounted, disjoint⟩ :=
    reachable.wellFormed True (fun _ _ allowed => allowed.1)
      (fun _ _ _ allowed => allowed.2)
  obtain ⟨each, remaining⟩ := inUse_dealloc_all _ s.allocator layout.nodup layout.owned
  refine ⟨fun f => ⟨fun member => ?_, ?_⟩, ?_, layout.nodup, each, ?_⟩
  · obtain ⟨⟨h, pre⟩, at_f⟩ := Option.isSome_iff_exists.mp ((layout.listed f).mp member)
    obtain ⟨path, -, found⟩ :=
      exists_tableAt (layout.placed.visited (by decide) (hanging trivial) at_f)
    exact ⟨path, found⟩
  · rintro ⟨path, found⟩
    rw [layout.listed, (found.placed layout.placed).2]
    rfl
  · intro path path' f first second
    obtain ⟨short, at_f⟩ := first.placed layout.placed
    obtain ⟨short', at_f'⟩ := second.placed layout.placed
    rw [at_f, Option.some.injEq, Prod.mk.injEq] at at_f'
    exact first.path_unique second (by omega) at_f'.2
  · ext f
    rw [drop, remaining]
    change f ∈ s.used ∧ _ ↔ _
    rw [accounted]
    constructor
    · rintro ⟨other | table, notTable⟩
      · exact other
      · exact absurd table notTable
    · exact fun other => ⟨.inl other, fun table => disjoint f table other⟩

/-- Witness: the second mapping runs out of frames half way down its walk, and dropping the
page table still frees all four frames.
-/
theorem tables_owned_once_out_of_memory
    : ∃ s : Paging Rv64PTE FreeList,
        (empty.map 0 0 .size4K {}).2.map 0x40000000 0 .size4K {} = (.error .noMemory, s)
        ∧ s.intrmTables = [0x200000, 0x201000, 0x202000, 0x203000]
        ∧ inUse s.drop = inUse fourFrames := by
  have reachable := empty_reachable (fun s r => s.LeafFlags r ∧ KeepsTables r)
  have first := reachable.request (.map 0 0 .size4K {}) ⟨.inl rfl, trivial⟩ rfl
  have second := first.request (.map 0x40000000 0 .size4K {}) ⟨.inl rfl, trivial⟩ rfl
  refine ⟨((empty.map 0 0 .size4K {}).2.map 0x40000000 0 .size4K {}).2,
    Prod.ext (by decide +kernel) rfl, by decide +kernel, ?_⟩
  exact second.tables_owned_once.2.2.2.2

end RCoreOS.PageTable.Paging
