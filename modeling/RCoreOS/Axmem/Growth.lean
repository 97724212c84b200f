import RCoreOS.Axmem.AreaOperations
import RCoreOS.PageTable.Extension

/-! Growth of a machine. Pages and tables are taken from frames that nobody used before; what is in
use stays as it was, whichever page table or area it belongs to.
-/

namespace RCoreOS.Axmem

open PageTable GenericPTE Outcome
open PageTable.Paging (Extends SameTables)

section Growth

variable {PTE σ : Type} [GenericPTE PTE] [GlobalAllocator σ] [LawfulGlobalAllocator σ]
variable {m m' m'' : Machine PTE σ} {frames more : List Nat}

/-- Frames in use have the bytes that they had. -/
def SameBytes (m m' : Machine PTE σ) : Prop :=
  ∀ f ∈ m.toPaging.used, ∀ i, i < 4096 → m'.bytes (f + i) = m.bytes (f + i)

/-- The page table of the machine may get new tables and more pages. Other frames in use are as
they were.
-/
structure Grows (m m' : Machine PTE σ) : Prop where
  tables : m'.toPaging.WellFormed True
  listed
    : ∃ fresh,
        m'.intrmTables = m.intrmTables ++ fresh ∧ ∀ f ∈ fresh, f ∉ m.toPaging.used
  used : ∀ f ∈ m.toPaging.used, f ∈ m'.toPaging.used
  entries : ∀ f ∈ m.toPaging.used, f ∉ m.intrmTables → m'.frames f = m.frames f
  pages : ∀ {va e size}, m.view va = .page e size → m'.view va = .page e size
  bytes : SameBytes m m'

/-- Frames that have an owner in the second machine and were not in use in the first. -/
structure Taken (m m' : Machine PTE σ) (frames : List Nat) : Prop where
  framed : Framed m'.toPaging frames
  unused : ∀ f ∈ frames, f ∉ m.toPaging.used

theorem Grows.refl (tables : m.toPaging.WellFormed True) : Grows m m where
  tables := tables
  listed := ⟨[], by simp⟩
  used _ := id
  entries _ _ _ := rfl
  pages := id
  bytes _ _ _ _ := rfl

/-- A frame in use is no new table. -/
theorem Grows.not_table (grows : Grows m m') {f : Nat} (used : f ∈ m.toPaging.used)
    (other : f ∉ m.intrmTables)
    : f ∉ m'.intrmTables := by
  obtain ⟨fresh, list, new⟩ := grows.listed
  rw [list, List.mem_append, not_or]
  exact ⟨other, fun isFresh => new f isFresh used⟩

/-- Growth composes: what is fresh for the second part is fresh for both. -/
theorem Grows.trans (first : Grows m m') (second : Grows m' m'') : Grows m m'' where
  tables := second.tables
  listed := by
    obtain ⟨fresh, list, new⟩ := first.listed
    obtain ⟨fresh', list', new'⟩ := second.listed
    refine ⟨fresh ++ fresh', by rw [list', list, List.append_assoc], fun f member => ?_⟩
    rcases List.mem_append.mp member with isFresh | isFresh
    · exact new f isFresh
    · exact fun used => new' f isFresh (first.used f used)
  used f used := second.used f (first.used f used)
  entries f used other :=
    (second.entries f (first.used f used) (first.not_table used other)).trans
      (first.entries f used other)
  pages shown := second.pages (first.pages shown)
  bytes f used i inside :=
    (second.bytes f (first.used f used) i inside).trans (first.bytes f used i inside)

omit [GenericPTE PTE] in
theorem Taken.nil : Taken m m' [] :=
  ⟨⟨.nil, List.forall_mem_nil _, List.forall_mem_nil _⟩, List.forall_mem_nil _⟩

/-- Frames keep their owner while the machine grows. -/
theorem Grows.framed (grows : Grows m m') (framed : Framed m.toPaging frames)
    : Framed m'.toPaging frames where
  nodup := framed.nodup
  owned f member := grows.used f (framed.owned f member)
  apart f member := grows.not_table (framed.owned f member) (framed.apart f member)

theorem Taken.later (taken : Taken m m' frames) (grows : Grows m' m'') : Taken m m'' frames :=
  ⟨grows.framed taken.framed, taken.unused⟩

/-- Frames that are taken later are not those that were taken before. -/
theorem Taken.append (taken : Taken m m' frames) (grows : Grows m m')
    (later : Taken m' m'' more) (grows' : Grows m' m'')
    : Taken m m'' (frames ++ more) where
  framed := by
    have first := grows'.framed taken.framed
    refine ⟨List.nodup_append.mpr ⟨first.nodup, later.framed.nodup, ?_⟩, ?_, ?_⟩
    · rintro f before f' after rfl
      exact later.unused f after (taken.framed.owned f before)
    · exact List.forall_mem_append.mpr ⟨first.owned, later.framed.owned⟩
    · exact List.forall_mem_append.mpr ⟨first.apart, later.framed.apart⟩
  unused := List.forall_mem_append.mpr
    ⟨taken.unused, fun f member used => later.unused f member (grows.used f used)⟩

-----------------------------------------------------------------------------------------
-- Steps
-----------------------------------------------------------------------------------------

omit [GlobalAllocator σ] [LawfulGlobalAllocator σ] [GenericPTE PTE] in
/-- A page table operation that is unwrapped has returned. -/
theorem Machine.unwrap_eq_ok {α : Type} {call : PagingResult α × Paging PTE σ}
    (run : m.unwrap call = .ok m')
    : ∃ a s', call = (.ok a, s') ∧ m' = { m with toPaging := s' } := by
  unfold Machine.unwrap at run
  split at run
  · cases run
    exact ⟨_, _, rfl, rfl⟩
  · cases run
  · cases run

/-- A page table operation that keeps the pages lets the machine grow. -/
theorem grows_of_extends {s' : Paging PTE σ} (extends' : Extends True m.toPaging s')
    : Grows m { m with toPaging := s' } := by
  obtain ⟨after, effect⟩ := extends'.keeps
  obtain ⟨fresh, list, used, new⟩ := effect.footprint.tables
  refine ⟨effect.wellFormed, ⟨fresh, list, new⟩, fun f old => (used f).mpr (.inl old), ?_,
    extends'.pages, fun _ _ _ _ => rfl⟩
  intro f old other
  refine effect.footprint.frames f ?_
  rw [list, List.mem_append, not_or]
  exact ⟨other, fun isFresh => new f isFresh old⟩

section Mapping

variable [LawfulPTE PTE] {vaddr target size : Nat} {flags : MappingFlags}

/-- A page that is mapped is in view at all its addresses. -/
theorem Machine.map_grows (tables : m.toPaging.WellFormed True) (aligned : target % 4096 = 0)
    (run : m.map vaddr target flags = .ok m')
    : Grows m m'
      ∧ m'.bytes = m.bytes
      ∧ ∀ va, block .size4K va = block .size4K vaddr
        → m'.view va = .page (newPage target flags false) .size4K := by
  obtain ⟨_, s', call, rfl⟩ := Machine.unwrap_eq_ok run
  obtain ⟨extends', shown⟩ := Paging.map_extends tables (.inl rfl) call
  have down : alignDown target PageSize.size4K.toUsize = target := alignDown_of_aligned aligned
  rw [down] at shown
  exact ⟨grows_of_extends extends', rfl, shown⟩

/-- So is a fault page. -/
theorem Machine.mapFault_grows (tables : m.toPaging.WellFormed True)
    (run : m.mapFault vaddr flags = .ok m')
    : Grows m m'
      ∧ ∀ va, block .size4K va = block .size4K vaddr
        → m'.view va = .page (newFaultPage flags false) .size4K := by
  obtain ⟨_, s', call, rfl⟩ := Machine.unwrap_eq_ok run
  obtain ⟨extends', shown⟩ := Paging.mapFault_extends tables call
  exact ⟨grows_of_extends extends', shown⟩

theorem Machine.mapRegion_grows (tables : m.toPaging.WellFormed True) {allowHuge : Bool}
    (leaf : Paging.RegionFlags flags allowHuge)
    (run : m.mapRegion vaddr target size flags allowHuge = .ok m')
    : Grows m m' ∧ m'.bytes = m.bytes := by
  obtain ⟨_, s', call, rfl⟩ := Machine.unwrap_eq_ok run
  exact ⟨grows_of_extends (Paging.mapRegion_extends tables leaf call), rfl⟩

/-- The pages of consecutive frames, when a region is mapped to them. -/
theorem Machine.mapRegion_pages (tables : m.toPaging.WellFormed True)
    (word : target + size ≤ USIZE_RANGE)
    (run : m.mapRegion vaddr target size flags false = .ok m') {va i : Nat}
    (inside : 4096 * i < size) (lower : vaddr + 4096 * i ≤ va)
    (upper : va < vaddr + 4096 * (i + 1))
    : m'.view va = .page (newPage (target + 4096 * i) flags false) .size4K := by
  obtain ⟨_, s', call, rfl⟩ := Machine.unwrap_eq_ok run
  have shown := Paging.mapRegion_pages tables (by omega) call inside lower upper
  rwa [Nat.mod_eq_of_lt (by omega)] at shown

end Mapping

omit [GenericPTE PTE] in
/-- Frames that join all those that are owned were in use for nobody. -/
theorem taken_of_framed (same : SameTables m.toPaging m'.toPaging)
    (framed : ∀ frames, Framed m.toPaging frames → Framed m'.toPaging (more ++ frames))
    : Taken m m' more ∧ ∀ f ∈ m.toPaging.used, f ∈ m'.toPaging.used := by
  have list : m'.intrmTables = m.intrmTables := congrArg PageTable64.intrmTables same.object
  have single {f : Nat} (used : f ∈ m.toPaging.used) (other : f ∉ m.intrmTables)
      : Framed m'.toPaging (more ++ [f]) :=
    framed [f] ⟨List.nodup_singleton f, List.forall_mem_singleton.mpr used,
      List.forall_mem_singleton.mpr other⟩
  have own : Framed m'.toPaging more := by
    have both := framed [] ⟨.nil, List.forall_mem_nil _, List.forall_mem_nil _⟩
    rwa [List.append_nil] at both
  refine ⟨⟨own, fun f member used => ?_⟩, fun f used => ?_⟩
  · by_cases table : f ∈ m.intrmTables
    · exact own.apart f member (list ▸ table)
    · exact (List.nodup_append.mp (single used table).nodup).2.2 f member f
        (List.mem_singleton_self f) rfl
  · by_cases table : f ∈ m.intrmTables
    · exact same.owned f table
    · exact (single used table).owned f (List.mem_append_right _ (List.mem_singleton_self f))

/-- An allocation that leaves the memory of others alone lets the machine grow. -/
theorem grows_of_sameTables [LawfulPTE PTE] (tables : m.toPaging.WellFormed True)
    (same : SameTables m.toPaging m'.toPaging)
    (used : ∀ f ∈ m.toPaging.used, f ∈ m'.toPaging.used) (entries : m'.frames = m.frames)
    (bytes : SameBytes m m')
    : Grows m m' where
  tables := same.wellFormed tables
  listed := ⟨[], by simp [congrArg PageTable64.intrmTables same.object]⟩
  used := used
  entries f _ _ := congrFun entries f
  pages {va e size} shown := (same.view tables va).trans shown
  bytes := bytes

omit [GenericPTE PTE] in
/-- Frames in use are whole pages below the end of physical memory. -/
theorem frameAddr_of_used {f : Nat} (used : f ∈ m.toPaging.used) : FrameAddr f := by
  obtain ⟨vaddr, linear, same⟩ := LawfulGlobalAllocator.linear used
  exact same ▸ linear.frame.1

omit [GenericPTE PTE] in
/-- Different frames have no byte in common. -/
theorem frame_apart {f g i : Nat} (frame : FrameAddr f) (frame' : FrameAddr g) (ne : f ≠ g)
    (inside : i < 4096)
    : f + i < g ∨ g + 4096 ≤ f + i := by
  have aligned := frame.1
  have aligned' := frame'.1
  omega

end Growth

end RCoreOS.Axmem
