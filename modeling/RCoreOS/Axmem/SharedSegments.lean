import RCoreOS.Axmem.PagePool
import RCoreOS.Axmem.MemorySet
import RCoreOS.Lib.Transition
import Mathlib.Data.Finset.Dedup
import Mathlib.Data.Finset.Card

/-! The global tables of shared memory: segments by their id, and the ids of the keys they were
created with.
-/

namespace RCoreOS.Axmem

open PageTable Outcome Transition

structure SharedMemPermInfo where
  key : Int
  uid : Nat
  gid : Nat
  cuid : Nat
  cgid : Nat
  mode : Nat
deriving DecidableEq, Repr

structure SharedMemInfo where
  perm : SharedMemPermInfo
  size : Nat
  aTime : Nat
  dTime : Nat
  cTime : Nat
  cPid : Nat
  lPid : Nat
deriving DecidableEq, Repr

/-- The pages of a shared memory with the information about it. -/
structure SharedSegment extends SharedMem where
  info : SharedMemInfo
deriving DecidableEq, Repr

def IsI32 (n : Int) : Prop :=
  -2 ^ 31 ≤ n ∧ n < 2 ^ 31

/-- `i32` addition, which wraps in the atomic counter. -/
def wrapI32 (n : Int) : Int :=
  (n + 2 ^ 31) % 2 ^ 32 - 2 ^ 31

/-- The arguments of `create_shared_mem`, and the clock when it is called. -/
structure CreateRequest where
  key : Int
  size : Nat
  pid : Nat
  uid : Nat
  gid : Nat
  mode : Nat
  currentTime : Nat
  isI32 : IsI32 key

/-- `SHMID`, `SHARED_MEMS` and `KEY_TO_SHMID`, with the page allocator. -/
structure SharedMems (σ : Type) where
  shmid : Int
  sharedMems : BTreeMap Int SharedSegment
  keyToShmid : BTreeMap Int Int
  allocator : σ

namespace CreateRequest

variable {σ : Type} [GlobalAllocator σ]

/-- `SharedMemInfo::new`. -/
def newInfo (request : CreateRequest) (size : Nat) : SharedMemInfo where
  perm := {
    key := request.key
    uid := request.uid
    gid := request.gid
    cuid := request.uid
    cgid := request.gid
    mode := request.mode }
  size := size
  aTime := 0
  dTime := 0
  cTime := request.currentTime
  cPid := request.pid
  lPid := 0

def numPages (request : CreateRequest) : Nat :=
  wrapAdd request.size (PAGE_SIZE_4K - 1) / PAGE_SIZE_4K

/-- The segment in the given pages. -/
def segment (request : CreateRequest) (vaddr : Nat) : SharedSegment :=
  let pages : SharedMem := { startVaddr := vaddr, numPages := request.numPages }
  { pages with info := request.newInfo pages.size }

/-- `SharedMem::try_new`. -/
def tryNew (request : CreateRequest) (a : σ) : AxResult SharedSegment × σ :=
  match GlobalAllocator.allocPages a request.numPages PAGE_SIZE_4K with
  | (.error e, a) => (.error (allocErrToAxErr e), a)
  | (.ok vaddr, a) => (.ok (request.segment vaddr), a)

end CreateRequest

namespace SharedMems

variable {σ : Type} [GlobalAllocator σ]

def new (a : σ) : SharedMems σ where
  shmid := 1
  sharedMems := .empty
  keyToShmid := .empty
  allocator := a

def createSharedMem (s : SharedMems σ) (request : CreateRequest)
    : AxResult (Int × SharedSegment) × SharedMems σ :=
  let shmid := s.shmid
  let keyToShmid := (s.keyToShmid.insert request.key shmid).2
  let s := { s with shmid := wrapI32 (shmid + 1), keyToShmid := keyToShmid }
  match request.tryNew s.allocator with
  | (.error e, a) => (.error e, { s with allocator := a })
  | (.ok mem, a) => (.ok (shmid, mem), { s with allocator := a })

def addSharedMem (s : SharedMems σ) (shmid : Int) (mem : SharedSegment)
    : Except Crash (SharedMems σ) :=
  match s.sharedMems.insert shmid mem with
  | (some _, _) => .error .panic
  | (none, sharedMems) => .ok { s with sharedMems := sharedMems }

def getSharedMem (s : SharedMems σ) (shmid : Int) : Option SharedSegment :=
  s.sharedMems.get shmid

/-- A create whose segment is then added, as its documentation asks for. -/
def createAndAdd (s : SharedMems σ) (request : CreateRequest)
    : Except Crash (AxResult Int × SharedMems σ) :=
  match s.createSharedMem request with
  | (.error e, s) => .ok (.error e, s)
  | (.ok (shmid, mem), s) => do
      let s ← s.addSharedMem shmid mem
      return (.ok shmid, s)

-----------------------------------------------------------------------------------------
-- What a create keeps
-----------------------------------------------------------------------------------------

/-- Every key has the id of a segment that was created with it. -/
def Resolves (s : SharedMems σ) : Prop :=
  ∀ key shmid, s.keyToShmid.get key = some shmid →
    ∃ mem, s.getSharedMem shmid = some mem ∧ mem.info.perm.key = key

/-- A create that fails leaves the keys alone, and none makes a segment unreachable under the
key it is registered with.
-/
def Keeps (s : SharedMems σ) (answer : AxResult Int) (s' : SharedMems σ) : Prop :=
  (∀ e, answer = .error e → s'.keyToShmid = s.keyToShmid)
    ∧ ∀ key shmid mem, s.keyToShmid.get key = some shmid → s.getSharedMem shmid = some mem →
        s'.keyToShmid.get key = some shmid ∧ s'.getSharedMem shmid = some mem

/-- The pages can be allocated, and the key has no segment yet. -/
structure Meets (s : SharedMems σ) (request : CreateRequest) : Prop where
  unknown : s.keyToShmid.get request.key = none
  allocated : ∃ vaddr a,
    GlobalAllocator.allocPages s.allocator request.numPages PAGE_SIZE_4K = (.ok vaddr, a)

/-- The tables of a run in which `created` segments have been created: each has an id of its
own, one of the first that the counter gave, and a key of its own.
-/
structure Consistent (s : SharedMems σ) (created : Nat) : Prop where
  counter : s.shmid = wrapI32 (created + 1)
  keys : ∀ entry ∈ s.keyToShmid.entries, IsI32 entry.1
  many : s.keyToShmid.entries.length = created
  ids : ∀ shmid mem, s.getSharedMem shmid = some mem → ∃ k < created, shmid = wrapI32 (k + 1)
  resolves : s.Resolves

omit [GlobalAllocator σ] in
/-- There is a key for each segment, and one more that is not known. -/
theorem Consistent.few {s : SharedMems σ} {created : Nat} {key : Int}
    (consistent : s.Consistent created) (isI32 : IsI32 key)
    (unknown : s.keyToShmid.get key = none)
    : created < 2 ^ 32 := by
  have nodup : (key :: s.keyToShmid.entries.map Prod.fst).Nodup :=
    List.nodup_cons.mpr ⟨BTreeMap.get_eq_none.mp unknown, s.keyToShmid.keys_nodup⟩
  have inside : ∀ other ∈ key :: s.keyToShmid.entries.map Prod.fst, IsI32 other := by
    intro other member
    rcases List.mem_cons.mp member with rfl | known
    · exact isI32
    · obtain ⟨entry, found, rfl⟩ := List.mem_map.mp known
      exact consistent.keys entry found
  have offsets : ((key :: s.keyToShmid.entries.map Prod.fst).map
      (fun n => (n + 2 ^ 31).toNat)).Nodup := by
    refine nodup.map_on fun left leftMember right rightMember same => ?_
    have leftBound := inside left leftMember
    have rightBound := inside right rightMember
    unfold IsI32 at leftBound rightBound
    omega
  have bounded : ((key :: s.keyToShmid.entries.map Prod.fst).map
      (fun n => (n + 2 ^ 31).toNat)).toFinset ⊆ Finset.range (2 ^ 32) := by
    intro offset member
    obtain ⟨other, known, rfl⟩ := List.mem_map.mp (List.mem_toFinset.mp member)
    have bound := inside other known
    unfold IsI32 at bound
    rw [Finset.mem_range]
    omega
  have count := Finset.card_le_card bounded
  rw [List.toFinset_card_of_nodup offsets, List.length_map, List.length_cons, List.length_map,
    consistent.many, Finset.card_range] at count
  exact count

omit [GlobalAllocator σ] in
/-- The id that the counter gives next belongs to no segment. -/
theorem Consistent.fresh {s : SharedMems σ} {created : Nat} (consistent : s.Consistent created)
    (few : created < 2 ^ 32)
    : s.getSharedMem s.shmid = none := by
  cases found : s.getSharedMem s.shmid with
  | none => rfl
  | some mem =>
      obtain ⟨k, earlier, same⟩ := consistent.ids s.shmid mem found
      rw [consistent.counter] at same
      unfold wrapI32 at same
      omega

/-- The tables after a create has taken the next id for its key. -/
def register (s : SharedMems σ) (request : CreateRequest) (a : σ) : SharedMems σ :=
  { s with
    shmid := wrapI32 (s.shmid + 1),
    keyToShmid := (s.keyToShmid.insert request.key s.shmid).2,
    allocator := a }

theorem createSharedMem_ok {s : SharedMems σ} {request : CreateRequest} {vaddr : Nat} {a : σ}
    (allocated : GlobalAllocator.allocPages s.allocator request.numPages PAGE_SIZE_4K
      = (.ok vaddr, a))
    : s.createSharedMem request
      = (.ok (s.shmid, request.segment vaddr), s.register request a) := by
  simp only [createSharedMem, CreateRequest.tryNew, allocated]
  rfl

theorem createSharedMem_error {s : SharedMems σ} {request : CreateRequest} {e : AllocError}
    {a : σ}
    (failed : GlobalAllocator.allocPages s.allocator request.numPages PAGE_SIZE_4K
      = (.error e, a))
    : s.createSharedMem request = (.error (allocErrToAxErr e), s.register request a) := by
  simp only [createSharedMem, CreateRequest.tryNew, failed]
  rfl

omit [GlobalAllocator σ] in
/-- A segment under an unused id is added. -/
theorem addSharedMem_fresh {s : SharedMems σ} {shmid : Int}
    (fresh : s.sharedMems.get shmid = none) (mem : SharedSegment)
    : s.addSharedMem shmid mem
      = .ok { s with sharedMems := (s.sharedMems.insert shmid mem).2 } := by
  have none := (BTreeMap.insert_fresh (BTreeMap.get_eq_none.mp fresh) mem).1
  rw [addSharedMem]
  split
  · next inserted =>
      rw [inserted] at none
      cases none
  · next inserted => rw [inserted]

/-- The tables after a create has put its segment under the next id. -/
def registerAndAdd (s : SharedMems σ) (request : CreateRequest) (vaddr : Nat) (a : σ)
    : SharedMems σ :=
  { s.register request a with
    sharedMems := (s.sharedMems.insert s.shmid (request.segment vaddr)).2 }

omit [GlobalAllocator σ] in
theorem getSharedMem_registerAndAdd (s : SharedMems σ) (request : CreateRequest) (vaddr : Nat)
    (a : σ) (shmid : Int)
    : (s.registerAndAdd request vaddr a).getSharedMem shmid
      = if shmid = s.shmid then some (request.segment vaddr) else s.getSharedMem shmid :=
  BTreeMap.get_insert s.sharedMems s.shmid shmid (request.segment vaddr)

omit [GlobalAllocator σ] in
theorem get_registerAndAdd (s : SharedMems σ) (request : CreateRequest) (vaddr : Nat) (a : σ)
    (key : Int)
    : (s.registerAndAdd request vaddr a).keyToShmid.get key
      = if key = request.key then some s.shmid else s.keyToShmid.get key :=
  BTreeMap.get_insert s.keyToShmid request.key key s.shmid

/-- A create whose pages are allocated hands out the next id when no segment has it. -/
theorem createAndAdd_ok {s : SharedMems σ} {request : CreateRequest} {vaddr : Nat} {a : σ}
    (allocated : GlobalAllocator.allocPages s.allocator request.numPages PAGE_SIZE_4K
      = (.ok vaddr, a))
    (fresh : s.getSharedMem s.shmid = none)
    : s.createAndAdd request = .ok (.ok s.shmid, s.registerAndAdd request vaddr a) := by
  rw [createAndAdd, createSharedMem_ok allocated]
  have unused : (s.register request a).sharedMems.get s.shmid = none := fresh
  exact bind_eq_ok.mpr ⟨_, addSharedMem_fresh unused (request.segment vaddr), rfl⟩

/-- A create whose pages are not allocated keeps its key all the same. -/
theorem createAndAdd_error {s : SharedMems σ} {request : CreateRequest} {e : AllocError} {a : σ}
    (failed : GlobalAllocator.allocPages s.allocator request.numPages PAGE_SIZE_4K
      = (.error e, a))
    : s.createAndAdd request = .ok (.error (allocErrToAxErr e), s.register request a) := by
  rw [createAndAdd, createSharedMem_error failed]

omit [GlobalAllocator σ] in
/-- A segment under a fresh id and a fresh key leaves those that are registered. -/
theorem keeps_registerAndAdd {s : SharedMems σ} {request : CreateRequest}
    (unknown : s.keyToShmid.get request.key = none) (fresh : s.getSharedMem s.shmid = none)
    (vaddr : Nat) (a : σ)
    : s.Keeps (.ok s.shmid) (s.registerAndAdd request vaddr a) := by
  refine ⟨nofun, fun key shmid mem known registered => ⟨?_, ?_⟩⟩
  · rw [get_registerAndAdd, if_neg, known]
    rintro rfl
    rw [unknown] at known
    cases known
  · rw [getSharedMem_registerAndAdd, if_neg, registered]
    rintro rfl
    rw [fresh] at registered
    cases registered

omit [GlobalAllocator σ] in
/-- A segment under a fresh id and a fresh key keeps the tables consistent. -/
theorem Consistent.registerAndAdd {s : SharedMems σ} {created : Nat} {request : CreateRequest}
    (consistent : s.Consistent created) (unknown : s.keyToShmid.get request.key = none)
    (fresh : s.getSharedMem s.shmid = none) (vaddr : Nat) (a : σ)
    : (s.registerAndAdd request vaddr a).Consistent (created + 1) := by
  have perm := (BTreeMap.insert_fresh (BTreeMap.get_eq_none.mp unknown) s.shmid).2
  constructor
  case counter =>
    show wrapI32 (s.shmid + 1) = _
    rw [consistent.counter]
    unfold wrapI32
    omega
  case keys =>
    intro entry member
    rcases List.mem_cons.mp (perm.mem_iff.mp member) with rfl | known
    · exact request.isI32
    · exact consistent.keys entry known
  case many =>
    refine perm.length_eq.trans ?_
    rw [List.length_cons, consistent.many]
  case ids =>
    intro shmid mem found
    rw [getSharedMem_registerAndAdd] at found
    split at found
    · next same => exact ⟨created, by omega, same.trans consistent.counter⟩
    · obtain ⟨k, earlier, same⟩ := consistent.ids shmid mem found
      exact ⟨k, by omega, same⟩
  case resolves =>
    intro key shmid found
    rw [get_registerAndAdd] at found
    split at found
    · next same =>
        cases found
        exact ⟨_, by rw [getSharedMem_registerAndAdd, if_pos rfl], same.symm⟩
    · obtain ⟨mem, registered, named⟩ := consistent.resolves key shmid found
      refine ⟨mem, ?_, named⟩
      rw [getSharedMem_registerAndAdd, if_neg, registered]
      rintro rfl
      rw [fresh] at registered
      cases registered

-----------------------------------------------------------------------------------------
-- Runs
-----------------------------------------------------------------------------------------

/-- The tables with the ids that creates have handed out. -/
structure ShmRun (σ : Type) where
  mems : SharedMems σ
  handedOut : List Int

def Start (run : ShmRun σ) : Prop :=
  ∃ a, run = { mems := .new a, handedOut := [] }

/-- A create under the condition, or another user of the page allocator. -/
inductive Step : ShmRun σ → ShmRun σ → Prop
  | create {s s' : SharedMems σ} {ids : List Int} {request : CreateRequest}
    {answer : AxResult Int} (meets : s.Meets request)
    (created : s.createAndAdd request = .ok (answer, s'))
    : Step ⟨s, ids⟩ ⟨s', ids ++ answer.toOption.toList⟩
  | others {s : SharedMems σ} {ids : List Int} (a : σ)
    : Step ⟨s, ids⟩ ⟨{ s with allocator := a }, ids⟩

/-- The ids that were handed out are those of the segments, each of them once. -/
structure Tracks (run : ShmRun σ) : Prop where
  consistent : run.mems.Consistent run.handedOut.length
  nodup : run.handedOut.Nodup
  registered : ∀ shmid ∈ run.handedOut, ∃ mem, run.mems.getSharedMem shmid = some mem

omit [GlobalAllocator σ] in
theorem Tracks.start {run : ShmRun σ} (start : Start run) : Tracks run := by
  obtain ⟨a, rfl⟩ := start
  refine ⟨⟨?_, nofun, rfl, nofun, nofun⟩, List.nodup_nil, nofun⟩
  simp [new, wrapI32]

theorem Tracks.fresh {run : ShmRun σ} {request : CreateRequest} (tracks : Tracks run)
    (meets : run.mems.Meets request)
    : run.mems.getSharedMem run.mems.shmid = none :=
  tracks.consistent.fresh (tracks.consistent.few request.isI32 meets.unknown)

theorem Tracks.step {run run' : ShmRun σ} (tracks : Tracks run) (step : Step run run')
    : Tracks run' := by
  have fresh (request : CreateRequest) (meets : run.mems.Meets request) := tracks.fresh meets
  obtain ⟨consistent, nodup, registered⟩ := tracks
  cases step with
  | others a =>
      exact ⟨⟨consistent.counter, consistent.keys, consistent.many, consistent.ids,
        consistent.resolves⟩, nodup, registered⟩
  | @create s s' ids request answer meets created =>
      obtain ⟨vaddr, a, allocated⟩ := meets.allocated
      have fresh := fresh request meets
      cases created.symm.trans (createAndAdd_ok allocated fresh)
      have unused : s.shmid ∉ ids := by
        intro member
        obtain ⟨mem, found⟩ := registered s.shmid member
        cases fresh.symm.trans found
      constructor
      case consistent =>
        rw [Except.toOption, Option.toList_some, List.length_append]
        exact consistent.registerAndAdd meets.unknown fresh vaddr a
      case nodup =>
        refine List.nodup_append.mpr ⟨nodup, List.nodup_singleton s.shmid, ?_⟩
        intro shmid member last same
        cases List.mem_singleton.mp same
        rintro rfl
        exact unused member
      case registered =>
        intro shmid member
        show ∃ mem, (s.registerAndAdd request vaddr a).getSharedMem shmid = some mem
        rw [getSharedMem_registerAndAdd]
        split
        · exact ⟨_, rfl⟩
        · next other =>
            refine registered shmid ?_
            simpa [Except.toOption, other] using member

/-- In a run whose creates find their key unknown and get their pages, every key has the id of
a segment created with it, no id is handed out twice, and the next create under the condition
returns and keeps the segments reachable.
-/
theorem run_resolves {run : ShmRun σ} (reachable : Reachable Start Step run)
    : run.mems.Resolves ∧ run.handedOut.Nodup
      ∧ ∀ request, run.mems.Meets request →
          ∃ answer s', run.mems.createAndAdd request = .ok (answer, s')
            ∧ run.mems.Keeps answer s' := by
  have tracks : Tracks run :=
    reachable.invariant Tracks (fun _ => Tracks.start) fun _ _ => Tracks.step
  refine ⟨tracks.consistent.resolves, tracks.nodup, fun request meets => ?_⟩
  obtain ⟨vaddr, a, allocated⟩ := meets.allocated
  have fresh := tracks.fresh meets
  exact ⟨_, _, createAndAdd_ok allocated fresh, keeps_registerAndAdd meets.unknown fresh vaddr a⟩

/-- Only creates under the condition keep the tables, as long as the next id is unused. -/
theorem keeps_iff_meets {s : SharedMems σ} (resolves : s.Resolves)
    (fresh : s.getSharedMem s.shmid = none) (request : CreateRequest)
    : (∃ answer s', s.createAndAdd request = .ok (answer, s') ∧ s.Keeps answer s')
      ↔ s.Meets request := by
  constructor
  · rintro ⟨answer, s', created, unchanged, kept⟩
    cases allocated : GlobalAllocator.allocPages s.allocator request.numPages PAGE_SIZE_4K with
    | mk result a =>
        cases result with
        | error e =>
            cases created.symm.trans (createAndAdd_error allocated)
            have known : (s.register request a).keyToShmid.get request.key = some s.shmid :=
              (BTreeMap.get_insert ..).trans (if_pos rfl)
            rw [unchanged _ rfl] at known
            obtain ⟨mem, found, -⟩ := resolves _ _ known
            cases fresh.symm.trans found
        | ok vaddr =>
            refine ⟨?_, vaddr, a, allocated⟩
            cases known : s.keyToShmid.get request.key with
            | none => rfl
            | some shmid =>
                obtain ⟨mem, found, -⟩ := resolves _ _ known
                cases created.symm.trans (createAndAdd_ok allocated fresh)
                have still := (kept _ _ _ known found).1
                rw [get_registerAndAdd, if_pos rfl] at still
                cases still
                cases fresh.symm.trans found
  · intro meets
    obtain ⟨vaddr, a, allocated⟩ := meets.allocated
    exact ⟨_, _, createAndAdd_ok allocated fresh,
      keeps_registerAndAdd meets.unknown fresh vaddr a⟩

/-- The state that the kernel starts with, over an empty pool of pages. -/
def initial : SharedMems PagePool :=
  new PagePool.empty

def smallRequest : CreateRequest where
  key := 7
  size := 5000
  pid := 1
  uid := 0
  gid := 0
  mode := 0o600
  currentTime := 0
  isI32 := ⟨by decide, by decide⟩

def hugeRequest : CreateRequest :=
  { smallRequest with size := 2 ^ 40 }

theorem smallRequest_meets : initial.Meets smallRequest := by
  have bounded : 4096 * (PagePool.empty.next + smallRequest.numPages + 1) ≤ 2 ^ 38 := by decide
  obtain ⟨vaddr, a, allocated, -⟩ := PagePool.allocPages_ok bounded PAGE_SIZE_4K
  exact ⟨rfl, vaddr, a, allocated⟩

theorem run_resolves_small
    : ∃ run : ShmRun PagePool, run.handedOut = [1]
        ∧ run.mems.Resolves ∧ run.handedOut.Nodup
        ∧ ∀ request, run.mems.Meets request →
            ∃ answer s', run.mems.createAndAdd request = .ok (answer, s')
              ∧ run.mems.Keeps answer s' := by
  obtain ⟨vaddr, a, allocated⟩ := smallRequest_meets.allocated
  have step : Step ⟨initial, []⟩ ⟨initial.registerAndAdd smallRequest vaddr a, [1]⟩ :=
    .create smallRequest_meets (createAndAdd_ok allocated rfl)
  exact ⟨_, rfl, run_resolves (.next (.start ⟨PagePool.empty, rfl⟩) step)⟩

/-- A create that gets no pages leaves its key behind without a segment, and a second create
with a key takes it away from the segment of the first.
-/
theorem create_breaks_keys
    : (∃ s, initial.createAndAdd hugeRequest = .ok (.error .noMemory, s)
        ∧ initial.keyToShmid.get 7 = none
        ∧ s.keyToShmid.get 7 = some 1 ∧ s.getSharedMem 1 = none)
      ∧ ∃ s s', initial.createAndAdd smallRequest = .ok (.ok 1, s)
        ∧ s.createAndAdd smallRequest = .ok (.ok 2, s')
        ∧ s.keyToShmid.get 7 = some 1 ∧ s'.keyToShmid.get 7 = some 2 := by
  constructor
  · have failed : GlobalAllocator.allocPages initial.allocator hugeRequest.numPages PAGE_SIZE_4K
        = _ := PagePool.allocPages_error (by decide) PAGE_SIZE_4K
    exact ⟨_, createAndAdd_error failed, rfl, rfl, rfl⟩
  · have pages : smallRequest.numPages = 2 := by decide
    have bounded : 4096 * (PagePool.empty.next + smallRequest.numPages + 1) ≤ 2 ^ 38 := by decide
    obtain ⟨vaddr, a, allocated, next⟩ := PagePool.allocPages_ok bounded PAGE_SIZE_4K
    have bounded : 4096 * (a.next + smallRequest.numPages + 1) ≤ 2 ^ 38 := by
      rw [next, pages]
      decide
    obtain ⟨vaddr', a', again, -⟩ := PagePool.allocPages_ok bounded PAGE_SIZE_4K
    have created : initial.createAndAdd smallRequest = _ := createAndAdd_ok allocated rfl
    exact ⟨_, _, created, createAndAdd_ok again rfl, rfl, rfl⟩

end SharedMems

end RCoreOS.Axmem
