import RCoreOS.PageTable.RegionEffects

/-! Regions of 4K pages. Each region operation changes the view inside its region only, and
there page by page.
-/

namespace RCoreOS.PageTable

open GenericPTE

variable {PTE σ : Type} [GenericPTE PTE] [LawfulPTE PTE] [PagingIf σ] [LawfulPagingIf σ]

namespace Paging

variable {tight : Prop} {s s' t : Paging PTE σ} {vaddr size : Nat} {f : MappingFlags}
variable {inside : Nat → View PTE}

/-- An operation that keeps the invariant and changes the view only inside a region. -/
structure Rewrites (tight : Prop) (s s' : Paging PTE σ) (vaddr size : Nat)
    (inside : Nat → View PTE)
    : Prop where
  keeps : Keeps tight s s'
  inside : ∀ va, vaddr ≤ va → va < vaddr + size → s'.view va = inside va
  outside : ∀ va, Canonical va → va < vaddr ∨ vaddr + size ≤ va → s'.view va = s.view va

omit [LawfulPTE PTE] in
theorem Rewrites.nil (wf : s.WellFormed tight) (vaddr : Nat) (inside : Nat → View PTE)
    : Rewrites tight s s vaddr 0 inside :=
  ⟨.refl wf, fun _ _ _ => by omega, fun _ _ _ => rfl⟩

omit [LawfulPTE PTE] in
/-- Rewriting a region and then the one behind it rewrites both. -/
theorem Rewrites.append {n : Nat} (half : InHalf vaddr (n + size))
    (first : Rewrites tight s t vaddr n inside)
    (rest : Rewrites tight t s' (vaddr + n) size inside)
    : Rewrites tight s s' vaddr (n + size) inside := by
  refine ⟨first.keeps.trans rest.keeps, fun va lower upper => ?_, fun va canonical away => ?_⟩
  · by_cases before : va < vaddr + n
    · rw [rest.outside va (half.canonical lower upper) (.inl before)]
      exact first.inside va lower before
    · exact rest.inside va (by omega) (by omega)
  · rw [rest.outside va canonical (by omega)]
    exact first.outside va canonical (by omega)

omit [LawfulPTE PTE] in
theorem Rewrites.congr {inside' : Nat → View PTE}
    (rewrites : Rewrites tight s s' vaddr size inside)
    (same : ∀ va, vaddr ≤ va → va < vaddr + size → inside va = inside' va)
    : Rewrites tight s s' vaddr size inside' :=
  ⟨rewrites.keeps,
    fun va lower upper => (rewrites.inside va lower upper).trans (same va lower upper),
    rewrites.outside⟩

omit [LawfulPTE PTE] in
/-- What rewrites a region rewrites every region around it. -/
theorem Rewrites.widen {start length : Nat} (rewrites : Rewrites tight s s' vaddr size inside)
    (lower : start ≤ vaddr) (upper : vaddr + size ≤ start + length)
    : Rewrites tight s s' start length s'.view :=
  ⟨rewrites.keeps, fun _ _ _ => rfl, fun va canonical away =>
    rewrites.outside va canonical (by omega)⟩

omit [LawfulPTE PTE] in
/-- Overwriting one block rewrites its page. -/
theorem Effect.rewrites {v : View PTE} (alignedV : vaddr % 4096 = 0)
    (half : InHalf vaddr 4096) (effect : Effect tight s s' (overwrite .size4K vaddr v s.view))
    : Rewrites tight s s' vaddr 4096 (fun _ => v) := by
  have start := half.canonical (Nat.le_refl vaddr) (by omega)
  have isBlock {va} (canonical : Canonical va) :=
    block_eq_iff .size4K alignedV start canonical
  refine ⟨⟨_, effect⟩, fun va lower upper => ?_, fun va canonical away => ?_⟩
  · rw [effect.view, overwrite, if_pos ((isBlock (half.canonical lower upper)).mpr ⟨lower, upper⟩)]
  · rw [effect.view, overwrite, if_neg]
    rw [isBlock canonical]
    simp only [PageSize.toUsize]
    omega

omit [LawfulPTE PTE] [PagingIf σ] [LawfulPagingIf σ] in
/-- A 4K page is in view at all its addresses. -/
theorem view_page {e : PTE} (alignedV : vaddr % 4096 = 0) (half : InHalf vaddr 4096)
    (page : s.view vaddr = .page e .size4K) {va : Nat} (lower : vaddr ≤ va)
    (upper : va < vaddr + 4096)
    : s.view va = .page e .size4K := by
  have start := half.canonical (Nat.le_refl vaddr) (by omega)
  refine view_same_block page ?_
  exact (block_eq_iff .size4K alignedV start (half.canonical lower upper)).mpr
    ⟨lower, upper⟩

omit [PagingIf σ] [LawfulPagingIf σ] in
theorem leafView_newPage (p : Nat) (f : MappingFlags)
    : leafView (newPage p f false : PTE) .size4K = .page (newPage p f false) .size4K := by
  simp [leafView, LawfulPTE.page_used]

omit [PagingIf σ] [LawfulPagingIf σ] in
theorem leafView_newFaultPage (f : MappingFlags)
    : leafView (newFaultPage f false : PTE) .size4K = .page (newFaultPage f false) .size4K := by
  simp [leafView, LawfulPTE.fault_used]

-----------------------------------------------------------------------------------------
-- Single pages
-----------------------------------------------------------------------------------------

/-- A call ran out of memory, or returned with the given effect. -/
def OrNoMemory (result : PagingResult Unit) (effect : Prop) : Prop :=
  result = .error .noMemory ∨ (result = .ok () ∧ effect)

/-- A page can be mapped where nothing is in view, unless memory runs out. -/
theorem map_rewrites (wf : s.WellFormed tight) {target : Nat} (alignedV : vaddr % 4096 = 0)
    (alignedP : target % 4096 = 0) (half : InHalf vaddr 4096) (free : s.view vaddr = .unused)
    {result : PagingResult Unit} (run : s.map vaddr target .size4K f = (result, s'))
    : OrNoMemory result
        (Rewrites tight s s' vaddr 4096 (fun _ => .page (newPage target f false) .size4K)) := by
  cases result with
  | error e => exact .inl (congrArg _ (map_error wf free run))
  | ok =>
      refine .inr ⟨rfl, ?_⟩
      have effect := (map_effect wf (.inl rfl) run).2
      rw [alignDown_of_aligned alignedP] at effect
      exact effect.rewrites alignedV half

/-- A fault page can be mapped where nothing is in view, unless memory runs out. -/
theorem mapFault_rewrites (wf : s.WellFormed tight) (alignedV : vaddr % 4096 = 0)
    (half : InHalf vaddr 4096) (free : s.view vaddr = .unused)
    {result : PagingResult Unit} (run : s.mapFault vaddr .size4K f = (result, s'))
    : OrNoMemory result
        (Rewrites tight s s' vaddr 4096 (fun _ => .page (newFaultPage f false) .size4K)) := by
  cases result with
  | error e => exact .inl (congrArg _ (mapFault_error wf free run))
  | ok =>
      refine .inr ⟨rfl, ?_⟩
      have effect := (mapFault_effect wf run).2
      rw [show PageSize.size4K.isHuge = false from rfl, leafView_newFaultPage] at effect
      exact effect.rewrites alignedV half

/-- A 4K page in view can be overwritten, unless memory runs out. -/
theorem mapOverwrite_rewrites (wf : s.WellFormed tight) {target : Nat} {old : PTE}
    (alignedV : vaddr % 4096 = 0) (alignedP : target % 4096 = 0) (half : InHalf vaddr 4096)
    (page : s.view vaddr = .page old .size4K)
    {result : PagingResult Unit} (run : s.mapOverwrite vaddr target .size4K f = (result, s'))
    : OrNoMemory result
        (Rewrites tight s s' vaddr 4096 (fun _ => .page (newPage target f false) .size4K)) := by
  cases result with
  | error e => exact .inl (congrArg _ (mapOverwrite_error wf page run))
  | ok =>
      refine .inr ⟨rfl, ?_⟩
      have effect := mapOverwrite_effect wf (.inl rfl) (fun _ => rfl) run
      rw [alignDown_of_aligned alignedP] at effect
      exact effect.rewrites alignedV half

-----------------------------------------------------------------------------------------
-- Regions
-----------------------------------------------------------------------------------------

/-- A region of whole 4K pages inside one half. -/
structure Whole (vaddr size : Nat) : Prop where
  half : InHalf vaddr size
  start : vaddr % 4096 = 0
  length : size % 4096 = 0

/-- The first page of a region, and the region behind it. -/
theorem Whole.split (whole : Whole vaddr size) (more : size ≠ 0)
    : Whole vaddr 4096
      ∧ (size = 4096 ∨ wrapAdd vaddr 4096 = vaddr + 4096 ∧ Whole (vaddr + 4096) (size - 4096)) := by
  obtain ⟨half, start, length⟩ := whole
  refine ⟨⟨?_, start, by omega⟩, ?_⟩
  · unfold InHalf at *
    omega
  · by_cases last : size = 4096
    · exact .inl last
    · obtain ⟨inRange, half'⟩ := half.advance (n := 4096) (by omega)
      exact .inr ⟨inRange, half', by omega, by omega⟩

omit [LawfulPTE PTE] in
/-- One turn of a loop that maps page after page: the first page is mapped, and the rest of the
region still has nothing in view when the loop goes on.
-/
theorem OrNoMemory.turn (whole : Whole vaddr size) (more : size ≠ 0)
    (free : ∀ va, vaddr ≤ va → va < vaddr + size → s.view va = .unused)
    (first : Rewrites tight s t vaddr 4096 inside) {result : PagingResult Unit}
    (last : size = 4096 → result = .ok () ∧ s' = t)
    (rest
      : wrapAdd vaddr 4096 = vaddr + 4096
        → Whole (vaddr + 4096) (size - 4096)
        → (∀ va, vaddr + 4096 ≤ va → va < vaddr + 4096 + (size - 4096) → t.view va = .unused)
        → OrNoMemory result (Rewrites tight t s' (vaddr + 4096) (size - 4096) inside))
    : OrNoMemory result (Rewrites tight s s' vaddr size inside) := by
  obtain ⟨page, rfl | ⟨next, whole'⟩⟩ := whole.split more
  · obtain ⟨rfl, rfl⟩ := last rfl
    exact .inr ⟨rfl, first⟩
  · have length : 4096 + (size - 4096) = size := by
      have := whole.length
      omega
    refine (rest next whole' fun va lower upper => ?_).imp id fun ⟨ok, later⟩ => ⟨ok, ?_⟩
    · rw [first.outside va (whole'.half.canonical lower upper) (.inr lower)]
      exact free va (by omega) (by omega)
    · exact length ▸ first.append (length.symm ▸ whole.half) later

/-- Fault pages can be mapped where nothing is in view, unless memory runs out; by induction
on the turns of the loop.
-/
theorem mapFaultRegionLoop_rewrites (wf : s.WellFormed tight) (whole : Whole vaddr size)
    (free : ∀ va, vaddr ≤ va → va < vaddr + size → s.view va = .unused)
    {result : PagingResult Unit} (run : s.mapFaultRegionLoop vaddr size f = (result, s'))
    : OrNoMemory result
        (Rewrites tight s s' vaddr size (fun _ => .page (newFaultPage f false) .size4K)) := by
  fun_induction mapFaultRegionLoop s vaddr size f with
  | case1 s vaddr =>
      cases run
      exact .inr ⟨rfl, .nil wf vaddr _⟩
  | case2 s vaddr size more e t mapped =>
      cases run
      exact .inl (congrArg _ (mapFault_error wf (free vaddr (Nat.le_refl _) (by omega)) mapped))
  | case3 s vaddr size more t mapped ih =>
      obtain ⟨page, -⟩ := whole.split more
      obtain ⟨-, first⟩ := (mapFault_rewrites wf page.start page.half
        (free vaddr (Nat.le_refl _) (by omega)) mapped).resolve_left (by simp)
      rw [show PageSize.size4K.toUsize = 4096 from rfl] at ih run
      refine .turn whole more free first ?_ fun next whole' free' => ?_
      · rintro rfl
        rw [Nat.sub_self, mapFaultRegionLoop, if_pos rfl] at run
        cases run
        exact ⟨rfl, rfl⟩
      · rw [next] at ih run
        exact ih first.keeps.wellFormed whole' free' run

theorem mapFaultRegion_rewrites (wf : s.WellFormed tight) (whole : Whole vaddr size)
    (free : ∀ va, vaddr ≤ va → va < vaddr + size → s.view va = .unused)
    {result : PagingResult Unit} (run : s.mapFaultRegion vaddr size f = (result, s'))
    : OrNoMemory result
        (Rewrites tight s s' vaddr size (fun _ => .page (newFaultPage f false) .size4K)) := by
  rw [mapFaultRegion, if_neg (by simp [whole.start, whole.length])] at run
  exact mapFaultRegionLoop_rewrites wf whole free run

/-- The pages of a region that is mapped: the physical address is at a fixed distance, modulo 2^64,
from the virtual one.
-/
def regionPage (distance : Nat) (f : MappingFlags) (va : Nat) : View PTE :=
  .page (newPage ((va - va % 4096 + distance) % USIZE_RANGE) f false) .size4K

/-- Small pages can be mapped where nothing is in view, unless memory runs out; by induction on the
turns of the loop.
-/
theorem mapRegionLoop_rewrites (wf : s.WellFormed tight) (whole : Whole vaddr size)
    (free : ∀ va, vaddr ≤ va → va < vaddr + size → s.view va = .unused) {target distance : Nat}
    (aligned : target % 4096 = 0) (apart : (vaddr + distance) % USIZE_RANGE = target)
    {result : PagingResult Unit} (run : s.mapRegionLoop vaddr target size f false = (result, s'))
    : OrNoMemory result (Rewrites tight s s' vaddr size (regionPage distance f)) := by
  fun_induction mapRegionLoop s vaddr target size f false with
  | case1 s vaddr target =>
      cases run
      exact .inr ⟨rfl, .nil wf vaddr _⟩
  | case2 s vaddr target size more page e t mapped =>
      cases run
      exact .inl (congrArg _ (map_error wf (free vaddr (Nat.le_refl _) (by omega)) mapped))
  | case3 s vaddr target size more page t mapped ih =>
      obtain ⟨one, -⟩ := whole.split more
      obtain ⟨-, mapped⟩ := (map_rewrites wf one.start aligned one.half
        (free vaddr (Nat.le_refl _) (by omega)) mapped).resolve_left (by simp)
      have start := whole.start
      have first : Rewrites tight s t vaddr 4096 (regionPage distance f) := by
        refine mapped.congr fun va lower upper => ?_
        rw [regionPage, show va - va % 4096 = vaddr by omega, apart]
      rw [show page.toUsize = 4096 from rfl] at ih run
      refine .turn whole more free first ?_ fun next whole' free' => ?_
      · rintro rfl
        rw [Nat.sub_self, mapRegionLoop, if_pos rfl] at run
        cases run
        exact ⟨rfl, rfl⟩
      · rw [next] at ih run
        refine ih first.keeps.wellFormed whole' free' ?_ ?_ run
        · unfold wrapAdd USIZE_RANGE
          omega
        · rw [← apart, wrapAdd, Nat.mod_add_mod, Nat.add_right_comm]

theorem mapRegion_rewrites (wf : s.WellFormed tight) (whole : Whole vaddr size)
    (free : ∀ va, vaddr ≤ va → va < vaddr + size → s.view va = .unused) {target distance : Nat}
    (aligned : target % 4096 = 0) (apart : (vaddr + distance) % USIZE_RANGE = target)
    {result : PagingResult Unit} (run : s.mapRegion vaddr target size f false = (result, s'))
    : OrNoMemory result (Rewrites tight s s' vaddr size (regionPage distance f)) := by
  rw [mapRegion, if_neg (by simp [whole.start, whole.length, aligned])] at run
  exact mapRegionLoop_rewrites wf whole free aligned apart run

/-- Small pages are in view in the whole region. -/
def Small (s : Paging PTE σ) (vaddr size : Nat) : Prop :=
  ∀ va, vaddr ≤ va → va < vaddr + size → ∃ e, s.view va = .page e .size4K

omit [LawfulPTE PTE] [PagingIf σ] [LawfulPagingIf σ] in
/-- A region of small pages is tiled by them, by induction on their number. -/
theorem Small.tiled (small : s.Small vaddr size) (whole : Whole vaddr size)
    : Tiled s.view (fun _ _ _ => True) vaddr size := by
  obtain ⟨n, rfl⟩ : ∃ n, size = 4096 * n := ⟨size / 4096, by have := whole.length; omega⟩
  induction n generalizing vaddr with
  | zero => exact .nil
  | succ n ih =>
      obtain ⟨page, rest⟩ := whole.split (by omega)
      obtain ⟨e, shown⟩ := small vaddr (Nat.le_refl _) (by omega)
      have length : 4096 * (n + 1) - 4096 = 4096 * n := by omega
      refine .cons e .size4K whole.start (by simp only [PageSize.toUsize]; omega) trivial
        (fun va lower upper => view_page page.start page.half shown lower upper) ?_
      rw [show PageSize.size4K.toUsize = 4096 from rfl, length]
      rcases rest with last | ⟨-, rest⟩
      · rw [show n = 0 by omega]
        exact .nil
      · rw [length] at rest
        exact ih (fun va lower upper => small va (by omega) (by omega)) rest

/-- A region of small pages can be unmapped. -/
theorem unmapRegion_rewrites (wf : s.WellFormed tight) (whole : Whole vaddr size)
    (small : s.Small vaddr size)
    : ∃ s',
        s.unmapRegion vaddr size = (.ok (), s')
        ∧ Rewrites tight s s' vaddr size (fun _ => .unused) := by
  obtain ⟨s', run, keeps, fills⟩ :=
    unmapRegion_tiled wf whole.half (small.tiled whole) (fun _ _ _ => rfl)
  exact ⟨s', run, keeps, fills.free,
    fun va canonical away => (fills.outside va canonical away).symm⟩

/-- What an update of the flags makes of a small page. -/
def reflag (f : MappingFlags) : View PTE → View PTE
  | .page e .size4K =>
      if paddr e = 0 then .page e .size4K
      else leafView (updated e .size4K none (some f)) .size4K
  | v => v

/-- The flags of small pages can be updated; entries without an address keep theirs. By
induction on the number of pages.
-/
theorem updateRegionLoop_rewrites (n turns : Nat) (bound : n < turns) (wf : s.WellFormed tight)
    (whole : Whole vaddr (4096 * n)) (inRange : vaddr + 4096 * n < USIZE_RANGE)
    (small : s.Small vaddr (4096 * n))
    : ∃ s',
        updateRegionLoop turns s vaddr (vaddr + 4096 * n) f = some (.ok (), s')
        ∧ Rewrites tight s s' vaddr (4096 * n) (fun va => reflag f (s.view va)) := by
  induction n generalizing s vaddr turns with
  | zero =>
      obtain ⟨turns, rfl⟩ : ∃ m, turns = m + 1 := ⟨turns - 1, by omega⟩
      exact ⟨s, by simp [updateRegionLoop], .nil wf vaddr _⟩
  | succ n ih =>
      obtain ⟨turns, rfl⟩ : ∃ m, turns = m + 1 := ⟨turns - 1, by omega⟩
      obtain ⟨page, rest⟩ := whole.split (by omega)
      obtain ⟨e, shown⟩ := small vaddr (Nat.le_refl _) (by omega)
      have length : 4096 * (n + 1) - 4096 = 4096 * n := by omega
      have stop : vaddr + 4096 * (n + 1) = vaddr + 4096 + 4096 * n := by omega
      rcases updated : s.update vaddr none (some f) with ⟨result, t⟩
      obtain ⟨rfl, effect⟩ := update_effect wf shown (fun _ _ => .inl rfl) updated
      have here {va} (lower : vaddr ≤ va) (upper : va < vaddr + 4096) :=
        view_page page.start page.half shown lower upper
      have first : Rewrites tight s t vaddr 4096 (fun va => reflag f (s.view va)) := by
        split at effect
        · rename_i zero
          subst effect
          refine ⟨.refl wf, fun va lower upper => ?_, fun _ _ _ => rfl⟩
          rw [here lower upper, reflag, if_pos zero]
        · rename_i nonzero
          refine (effect.rewrites page.start page.half).congr fun va lower upper => ?_
          rw [here lower upper, reflag, if_neg nonzero]
      rw [updateRegionLoop, if_pos (by omega), updated]
      dsimp only
      rw [show PageSize.size4K.toUsize = 4096 from rfl, stop]
      rcases rest with last | ⟨next, rest⟩
      · obtain rfl : n = 0 := by omega
        obtain ⟨turns, rfl⟩ : ∃ m, turns = m + 1 := ⟨turns - 1, by omega⟩
        refine ⟨t, ?_, first⟩
        rw [wrapAdd_of_lt (by omega), updateRegionLoop, if_neg (by omega)]
      · rw [length] at rest
        rw [next]
        have same {va} (lower : vaddr + 4096 ≤ va) (upper : va < vaddr + 4096 + 4096 * n)
            : t.view va = s.view va :=
          first.outside va (rest.half.canonical lower upper) (.inr lower)
        obtain ⟨s', run, later⟩ := ih turns (by omega) first.keeps.wellFormed rest
          (by omega) (fun va lower upper => by
            rw [same lower upper]
            exact small va (by omega) (by omega))
        refine ⟨s', run, ?_⟩
        have sum : 4096 + 4096 * n = 4096 * (n + 1) := by omega
        exact sum ▸ first.append (sum.symm ▸ whole.half)
          (later.congr fun va lower upper => by rw [same lower upper])

theorem updateRegion_rewrites (wf : s.WellFormed tight) (whole : Whole vaddr size)
    (inRange : vaddr + size < USIZE_RANGE) (small : s.Small vaddr size)
    : ∃ s',
        s.updateRegion vaddr size f = some (.ok (), s')
        ∧ Rewrites tight s s' vaddr size (fun va => reflag f (s.view va)) := by
  obtain ⟨n, rfl⟩ : ∃ n, size = 4096 * n := ⟨size / 4096, by have := whole.length; omega⟩
  rw [updateRegion, wrapAdd_of_lt inRange]
  exact updateRegionLoop_rewrites n USIZE_RANGE (by omega) wf whole inRange small

end Paging

end RCoreOS.PageTable
