import RCoreOS.Axmem.Contents

/-! What `mremap` does to the contents of a memory set. It maps a new area without a file, copies
the loaded pages of the old range one after the other, and gives up the old range.
-/

namespace RCoreOS.Axmem

open PageTable GenericPTE Outcome

namespace MemorySet

variable {PTE σ : Type} {s s' s'' : MemorySet PTE σ} {va src dst : Nat} {fs : Vfs}
variable {source target mapping : Mapping}

-----------------------------------------------------------------------------------------
-- Loading the page that is written
-----------------------------------------------------------------------------------------

/-- There is a page at the address that the kernel gets to, or one can be loaded. -/
def Receives [GenericPTE PTE] (s : MemorySet PTE σ) (va : Nat) : Prop :=
  ∃ mapping, s.Maps va mapping ∧ (mapping.slot = none ∨ s.Valid va)

/-- The mapping of an address has a page with the bytes that another address had before. -/
def CopiedAt (fs : Vfs) (s s' : MemorySet PTE σ) (src dst : Nat) : Prop :=
  ∀ source target,
    s.Maps src source
    → s.Maps dst target
    → ∃ copy,
      s'.Maps dst copy
      ∧ copy.flags = target.flags
      ∧ copy.position = target.position
      ∧ ∀ b, copy.Byte fs s'.bytes dst b ↔ source.Byte fs s.bytes src b

section Pages

variable [GenericPTE PTE] [LawfulPTE PTE] [GlobalAllocator σ] [LawfulGlobalAllocator σ]
variable {kind : Nat → MappingFlags → Option MemBackend → Prop} {allowed : Crash → Prop}

/-- Every flag of none is set. -/
theorem contains_none (flags : MappingFlags) : flags.contains {} = true := by
  simp [MappingFlags.contains]

/-- A page is loaded exactly where there is one to write to or none yet. Elsewhere than on the
page nothing changes.
-/
theorem Agrees.loads (serves : Serves fs allowed kind) (agrees : Agrees kind s []) (addr : Nat)
    : Ends allowed
        (fun r =>
          Agrees kind r.2 []
          ∧ (¬ s.Receives addr ∧ r.1 ≠ .ok () ∧ r.2 = s
            ∨ s.Receives addr ∧ r.1 = .ok ()
              ∧ (∀ va, va / 4096 ≠ addr / 4096 → SameAt fs s r.2 va)
              ∧ ∃ page, ∀ va mapping,
                va / 4096 = addr / 4096
                → s.Maps va mapping
                → r.2.Maps va { mapping with slot := some page }))
        (s.manualAllocForLazy fs addr) := by
  unfold MemorySet.manualAllocForLazy
  cases found : s.findArea addr with
  | none =>
      refine ⟨agrees, .inl ⟨fun receives => ?_, by simp, rfl⟩⟩
      obtain ⟨mapping, maps, -⟩ := receives
      exact agrees.tidy.findArea_none found maps
  | some entry =>
      obtain ⟨key, area⟩ := entry
      have maps : s.Maps addr (area.mapping addr) := agrees.tidy.findArea_maps found
      obtain ⟨pre, post, split, lower, upper⟩ := agrees.tidy.findArea found
      dsimp only
      rcases agrees.furnished.validity maps with valid | notMapped
      · rw [valid]
        obtain ⟨page, loaded, -⟩ := (agrees.furnished.valid_iff maps).mp valid
        refine ⟨agrees, .inr ⟨⟨_, maps, .inr valid⟩, rfl, fun va _ => .refl fs s va, page, ?_⟩⟩
        intro va mapping here maps'
        obtain rfl : mapping = area.mapping addr :=
          agrees.tidy.maps_unique (agrees.tidy.maps_page maps' here.symm) maps
        rwa [← loaded]
      · obtain ⟨slot, run, entry⟩ := agrees.furnished.getEntry maps
        rw [notMapped, run]
        dsimp only
        refine (agrees.faultArea serves found _).imp ?_
        rintro r ⟨agrees', ⟨rfl, refused⟩ | ⟨ok, page, rest, faulted⟩⟩
        · refine ⟨agrees', .inl ⟨fun receives => ?_, by simp, rfl⟩⟩
          obtain ⟨mapping, maps', empty | valid⟩ := receives
          · -- the flags of a fault page are allowed everywhere
            obtain rfl := agrees.tidy.maps_unique maps' maps
            rw [empty] at entry
            obtain ⟨f, fault⟩ := entry
            rw [fault, LawfulPTE.fault_flags] at refused
            obtain ⟨page, loaded⟩ := refused (contains_none _)
            rw [MapArea.mapping_slot lower upper, empty] at loaded
            cases loaded
          · cases notMapped.symm.trans valid
        · have aligned := (agrees.tidy.placed area (List.mem_map_of_mem (f := Prod.snd)
            (split ▸ List.mem_append_right pre (.head post)))).aligned
          have start : (area.vaddr + 4096 * ((addr - area.vaddr) / 4096)) / 4096 = addr / 4096 := by
            omega
          obtain ⟨empty, -⟩ := faulted.loadedAt agrees.tidy start.symm maps
          refine ⟨agrees', .inr ⟨⟨_, maps, .inl empty⟩, ok, fun va elsewhere => ?_, page, ?_⟩⟩
          · exact faulted.sameAt agrees (start ▸ elsewhere)
          · intro va mapping here maps'
            exact (faulted.loadedAt agrees.tidy (here.trans start.symm) maps').2.1

-----------------------------------------------------------------------------------------
-- Copying a page
-----------------------------------------------------------------------------------------

omit [LawfulPTE PTE] in
/-- Writing bytes changes neither areas nor the page table. -/
theorem Agrees.writeBytes (agrees : Agrees kind s []) (q : Nat) (data : List UInt8)
    : Agrees kind (s.withMachine (s.toMachine.writeBytes q data)) [] :=
  agrees.withMachine [] ⟨agrees.sound.laid, agrees.sound.framed⟩ (List.forall_mem_nil _)

omit [LawfulPTE PTE] in
/-- When the bytes of one loaded page have become those of another, they are found there byte by
byte, and nothing changes elsewhere.
-/
theorem Agrees.copied (agrees : Agrees kind s []) {page page' : PhysPage}
    (maps : s.Maps src source) (maps' : s.Maps dst target) (loaded : source.slot = some page)
    (loaded' : target.slot = some page') (alignedSrc : src % 4096 = 0)
    (alignedDst : dst % 4096 = 0) {m : Machine PTE σ}
    (bytes : ∀ a, m.bytes a
      = if page'.paddr ≤ a ∧ a < page'.paddr + 4096 then s.bytes (page.paddr + (a - page'.paddr))
        else s.bytes a)
    : (∀ va, va / 4096 ≠ dst / 4096 → SameAt fs s (s.withMachine m) va)
      ∧ ∀ i, i < 4096 → CopiedAt fs s (s.withMachine m) (src + i) (dst + i) := by
  constructor
  · refine fun va elsewhere => ⟨fun _ => Iff.rfl, fun mapping here => ?_⟩
    refine Mapping.byte_congr fun other found => ?_
    have offset : va % 4096 < 4096 := Nat.mod_lt va (by decide)
    have different := agrees.bytes_apart here maps' found loaded' elsewhere offset
    exact (bytes _).trans (if_neg (by omega))
  · intro i inside source' target' fromSrc fromDst
    obtain rfl := agrees.tidy.maps_unique (agrees.tidy.maps_page fromSrc (by omega)) maps
    obtain rfl := agrees.tidy.maps_unique (agrees.tidy.maps_page fromDst (by omega)) maps'
    refine ⟨target', fromDst, rfl, rfl, fun b => ?_⟩
    have atSrc : (src + i) % 4096 = i := by omega
    have atDst : (dst + i) % 4096 = i := by omega
    have copied := bytes (page'.paddr + i)
    rw [if_pos (by omega), Nat.add_sub_cancel_left] at copied
    unfold Mapping.Byte
    rw [loaded, loaded', atSrc, atDst]
    exact Eq.congr_right copied

/-- A page is copied to another one. -/
theorem Agrees.copyPage (fs : Vfs) (agrees : Agrees kind s []) (maps : s.Maps src source)
    (maps' : s.Maps dst target) (alignedSrc : src % 4096 = 0) (alignedDst : dst % 4096 = 0)
    : Returns
        (fun s' =>
          Agrees kind s' []
          ∧ (∀ va, va / 4096 ≠ dst / 4096 → SameAt fs s s' va)
          ∧ ∀ i, i < 4096 → CopiedAt fs s s' (src + i) (dst + i))
        (s.copyPage src dst) := by
  unfold MemorySet.copyPage
  split
  case h_2 => trivial
  case h_1 p q accessSrc accessDst =>
    obtain ⟨page, loaded, rfl⟩ := agrees.access maps accessSrc
    obtain ⟨page', loaded', rfl⟩ := agrees.access maps' accessDst
    rw [alignedSrc, alignedDst, Nat.add_zero, Nat.add_zero]
    exact ⟨agrees.writeBytes _ _, agrees.copied maps maps' loaded loaded' alignedSrc alignedDst
      (copied_bytes s.toMachine page.paddr page'.paddr)⟩

/-- The turn for one page: it is copied where there is a page to write to. -/
theorem Agrees.remapPage (serves : Serves fs (fun _ => True) kind) (agrees : Agrees kind s [])
    (maps : s.Maps src source) (alignedSrc : src % 4096 = 0) (alignedDst : dst % 4096 = 0)
    (apart : src ≠ dst)
    : Returns
        (fun s' =>
          Agrees kind s' []
          ∧ (¬ s.Receives dst ∧ s' = s
            ∨ s.Receives dst
              ∧ (∀ va, va / 4096 ≠ dst / 4096 → SameAt fs s s' va)
              ∧ ∀ i, i < 4096 → CopiedAt fs s s' (src + i) (dst + i)))
        (remapPage fs src dst s) := by
  refine (agrees.loads serves dst).bind ?_
  rintro ⟨loaded, s₁⟩ ⟨agrees₁, ⟨refused, failed, rfl⟩ | ⟨receives, rfl, same, page, filled⟩⟩
  · cases loaded with
    | ok => exact absurd rfl failed
    | error e => exact ⟨agrees₁, .inl ⟨refused, rfl⟩⟩
  · have received := receives
    obtain ⟨target, maps', -⟩ := received
    have atSrc := same src (by omega)
    have maps₁ := (atSrc.maps source).mpr maps
    refine (agrees₁.copyPage fs maps₁ (filled dst target rfl maps') alignedSrc alignedDst).imp ?_
    rintro s' ⟨agrees', same', copied⟩
    refine ⟨agrees', .inr ⟨receives, fun va elsewhere =>
      (same va elsewhere).trans (same' va elsewhere), fun i inside => ?_⟩⟩
    intro source' target' fromSrc fromDst
    have here := same (src + i) (by omega)
    obtain ⟨copy, at', flags, position, bytes⟩ := copied i inside source' _
      ((here.maps source').mpr fromSrc) (filled (dst + i) target' (by omega) fromDst)
    exact ⟨copy, at', flags, position, fun b => (bytes b).trans (here.bytes source' fromSrc b)⟩

-----------------------------------------------------------------------------------------
-- The loop over the pages
-----------------------------------------------------------------------------------------

/-- Where nothing has changed, an entry is present if it was. -/
theorem SameAt.valid {s₁ : MemorySet PTE σ} (same : SameAt fs s₁ s va)
    (agrees₁ : Agrees kind s₁ []) (agrees : Agrees kind s []) (maps : s₁.Maps va mapping)
    : s.Valid va ↔ s₁.Valid va := by
  rw [agrees.furnished.valid_iff ((same.maps mapping).mpr maps), agrees₁.furnished.valid_iff maps]

theorem SameAt.receives {s₁ : MemorySet PTE σ} (same : SameAt fs s₁ s va)
    (agrees₁ : Agrees kind s₁ []) (agrees : Agrees kind s [])
    : s.Receives va ↔ s₁.Receives va := by
  refine exists_congr fun mapping => ?_
  rw [same.maps mapping]
  exact and_congr_right fun maps => or_congr_right (same.valid agrees₁ agrees maps)

omit [LawfulPTE PTE] [GlobalAllocator σ] [LawfulGlobalAllocator σ] in
/-- The page at an index is copied from the old range: it is loaded there, and there is a page
to write to.
-/
def Moves (s : MemorySet PTE σ) (start old i : Nat) : Prop :=
  s.Valid (old + 4096 * i) ∧ s.Receives (start + 4096 * i)

omit [LawfulPTE PTE] [GlobalAllocator σ] [LawfulGlobalAllocator σ] in
/-- The first pages of the old range have been copied, and nothing else has changed. -/
structure Remapped (fs : Vfs) (s₁ s : MemorySet PTE σ) (start old count : Nat) : Prop where
  same : ∀ va, (∀ i, i < count → s₁.Moves start old i → va / 4096 ≠ start / 4096 + i) →
    SameAt fs s₁ s va
  copied : ∀ i, i < count → s₁.Moves start old i → ∀ d, d < 4096 →
    CopiedAt fs s₁ s (old + 4096 * i + d) (start + 4096 * i + d)

/-- The loop copies page after page, by induction on the pages that are left. A page that is
still to be copied has not been written to.
-/
theorem Agrees.remapPages (serves : Serves fs (fun _ => True) kind) {s₁ : MemorySet PTE σ}
    {start old count : Nat} (agrees₁ : Agrees kind s₁ []) (alignedStart : start % 4096 = 0)
    (alignedOld : old % 4096 = 0)
    (mapped : ∀ i, i < count → ∃ mapping, s₁.Maps (old + 4096 * i) mapping)
    (apart : start < old ∨ old + 4096 * count ≤ start)
    (below : start + old + 4096 * count < USIZE_RANGE) (n j : Nat) (whole : j + n = count)
    (agrees : Agrees kind s []) (remapped : Remapped fs s₁ s start old j)
    : Returns
        (fun r => r.1 = true ∧ Agrees kind r.2 [] ∧ Remapped fs s₁ r.2 start old count)
        (MemorySet.remapPages fs start old
          ((List.range' j n).map (fun i => old + i * PAGE_SIZE_4K)) s) := by
  induction n generalizing j s with
  | zero =>
      obtain rfl : j = count := whole
      exact ⟨rfl, agrees, remapped⟩
  | succ n ih =>
      obtain ⟨mapping, maps₁⟩ := mapped j (by omega)
      have atSrc : SameAt fs s₁ s (old + 4096 * j) :=
        remapped.same _ fun i before _ => by omega
      have atDst : SameAt fs s₁ s (start + 4096 * j) :=
        remapped.same _ fun i before _ => by omega
      have maps := (atSrc.maps mapping).mpr maps₁
      have valid := atSrc.valid agrees₁ agrees maps₁
      have receives := atDst.receives agrees₁ agrees
      have page : old + j * PAGE_SIZE_4K = old + 4096 * j := by
        unfold PAGE_SIZE_4K
        omega
      have target : wrapSub (wrapAdd start (old + 4096 * j)) old = start + 4096 * j := by
        rw [wrapAdd_of_lt (by omega), wrapSub_of_le (by omega) (by omega)]
        omega
      rw [List.range'_succ, List.map_cons, page, MemorySet.remapPages]
      -- a page that is not copied leaves the state as it is
      have skips (unmoved : ¬ s₁.Moves start old j) : Remapped fs s₁ s start old (j + 1) := by
        refine ⟨fun va outside => remapped.same va fun i before => outside i (by omega),
          fun i before moves => remapped.copied i ?_ moves⟩
        have other : i ≠ j := by
          rintro rfl
          exact unmoved moves
        omega
      rcases agrees.furnished.validity maps with present | absent
      · have checked : checkPageTableEntryValidity s.toPaging (old + 4096 * j) = .ok () := present
        rw [checked, target]
        refine (agrees.remapPage serves maps (by omega) (by omega) (by omega)).bind ?_
        rintro s' ⟨agrees', ⟨refused, rfl⟩ | ⟨received, same, copied⟩⟩
        · exact ih (j + 1) (by omega) agrees' (skips fun moves => refused (receives.mpr moves.2))
        · have moves : s₁.Moves start old j := ⟨valid.mp present, receives.mp received⟩
          refine ih (j + 1) (by omega) agrees'
            ⟨fun va outside => ?_, fun i before moved d inside => ?_⟩
          · have here := outside j (by omega) moves
            exact (remapped.same va fun i before => outside i (by omega)).trans
              (same va (by omega))
          · rcases Nat.lt_succ_iff_lt_or_eq.mp before with earlier | rfl
            · intro source target fromSrc fromDst
              obtain ⟨copy, at', flags, position, bytes⟩ :=
                remapped.copied i earlier moved d inside source target fromSrc fromDst
              have kept := same (start + 4096 * i + d) (by omega)
              exact ⟨copy, (kept.maps copy).mpr at', flags, position,
                fun b => (kept.bytes copy at' b).trans (bytes b)⟩
            · intro source target fromSrc fromDst
              have here := remapped.same (old + 4096 * i + d) fun i before _ => by omega
              have there := remapped.same (start + 4096 * i + d) fun i before _ => by omega
              obtain ⟨copy, at', flags, position, bytes⟩ := copied d inside source target
                ((here.maps source).mpr fromSrc) ((there.maps target).mpr fromDst)
              exact ⟨copy, at', flags, position,
                fun b => (bytes b).trans (here.bytes source fromSrc b)⟩
      · rw [absent]
        refine ih (j + 1) (by omega) agrees (skips fun moves => ?_)
        have present := valid.mpr moves.1
        rw [Valid, absent] at present
        cases present

end Pages

end MemorySet

end RCoreOS.Axmem
