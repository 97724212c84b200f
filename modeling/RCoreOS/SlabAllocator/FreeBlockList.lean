import RCoreOS.Lib.Chain
import RCoreOS.Lib.Extent

/-! The free list of a slab, threaded through the free blocks themselves: the first word of a
free block is the link to the next one.
-/

namespace RCoreOS.SlabAllocator

/-- The words of memory read as `FreeBlock::next`. -/
abbrev Memory := Nat → Option Nat

structure FreeBlockList where
  len : Nat
  head : Option Nat
deriving DecidableEq, Repr

namespace FreeBlockList

def newEmpty : FreeBlockList where
  len := 0
  head := none

def pop (list : FreeBlockList) (memory : Memory) : Option Nat × FreeBlockList × Memory :=
  match list.head with
  | none => (none, list, memory)
  | some node =>
      (some node, { len := list.len - 1, head := memory node },
        Function.update memory node none)

def push (list : FreeBlockList) (memory : Memory) (freeBlock : Nat) : FreeBlockList × Memory :=
  ({ len := list.len + 1, head := some freeBlock },
    Function.update memory freeBlock list.head)

/-- Pushes blocks one after the other. -/
def pushAll (list : FreeBlockList) (memory : Memory) (blocks : List Nat)
    : FreeBlockList × Memory :=
  blocks.foldl (fun state block => state.1.push state.2 block) (list, memory)

/-- Blocks of one size side by side, pushed from the last one to the first. -/
def new (memory : Memory) (startAddr blockSize numOfBlocks : Nat) : FreeBlockList × Memory :=
  newEmpty.pushAll memory ((List.range numOfBlocks).reverse.map (startAddr + blockSize * ·))

/-- The loop of `Slab::grow` that moves all blocks of one list to another. `none` stands for a
loop that takes more turns than `fuel`.
-/
def drain : Nat → FreeBlockList → FreeBlockList → Memory → Option (FreeBlockList × Memory)
  | 0, _, _, _ => none
  | fuel + 1, blockList, target, memory =>
      match blockList.pop memory with
      | (none, _, memory) => some (target, memory)
      | (some block, blockList, memory) =>
          drain fuel blockList (target.push memory block).1 (target.push memory block).2

/-- The list threads the given blocks and its length is right. -/
structure Threads (list : FreeBlockList) (memory : Memory) (blocks : List Nat) : Prop where
  chain : Chain memory list.head blocks
  len : list.len = blocks.length

variable {list target : FreeBlockList} {memory memory' : Memory} {blocks targets : List Nat}
  {block : Nat}

theorem Threads.frame (threads : list.Threads memory blocks)
    (same : ∀ block ∈ blocks, memory' block = memory block)
    : list.Threads memory' blocks :=
  ⟨threads.chain.frame same, threads.len⟩

theorem Threads.push (threads : list.Threads memory blocks) (fresh : block ∉ blocks)
    : (list.push memory block).1.Threads (list.push memory block).2 (block :: blocks) :=
  ⟨threads.chain.push fresh, congrArg (· + 1) threads.len⟩

theorem pop_nil (threads : list.Threads memory []) : list.pop memory = (none, list, memory) := by
  rw [pop, threads.chain.head_eq]
  rfl

/-- Taking the first block. -/
theorem pop_cons (threads : list.Threads memory (block :: blocks))
    : list.pop memory = (some block, { len := list.len - 1, head := memory block },
      Function.update memory block none) := by
  rw [pop, threads.chain.1]

theorem Threads.pop (threads : list.Threads memory (block :: blocks)) (fresh : block ∉ blocks)
    : (FreeBlockList.mk (list.len - 1) (memory block)).Threads
        (Function.update memory block none) blocks := by
  refine ⟨threads.chain.2.update fresh none, ?_⟩
  rw [threads.len]
  rfl

/-- Pushed blocks end up in front in the reverse order, and only their words are written, by
induction on the blocks.
-/
theorem Threads.pushAll (threads : list.Threads memory targets)
    (fresh : (blocks ++ targets).Nodup)
    : (list.pushAll memory blocks).1.Threads (list.pushAll memory blocks).2
        (blocks.reverse ++ targets)
      ∧ ∀ word, word ∉ blocks → (list.pushAll memory blocks).2 word = memory word := by
  induction blocks generalizing list memory targets with
  | nil => exact ⟨threads, fun word _ => rfl⟩
  | cons block rest ih =>
      rw [List.cons_append, List.nodup_cons, List.mem_append, not_or] at fresh
      obtain ⟨outside, nodup⟩ := fresh
      have next := threads.push outside.2
      have moved : (rest ++ block :: targets).Nodup :=
        List.nodup_middle.mpr (List.nodup_cons.mpr ⟨by simp [outside], nodup⟩)
      obtain ⟨threads', kept⟩ := ih next moved
      refine ⟨?_, fun word other => ?_⟩
      · rw [List.reverse_cons, List.append_assoc]
        exact threads'
      · rw [List.mem_cons, not_or] at other
        exact (kept word other.2).trans (Function.update_of_ne other.1 ..)

/-- Draining moves all blocks, in the reverse order, and writes only their words, by induction
on the blocks.
-/
theorem Threads.drain {fuel : Nat} (threads : list.Threads memory blocks)
    (into : target.Threads memory targets) (fresh : (blocks ++ targets).Nodup)
    (enough : blocks.length < fuel)
    : ∃ target' memory', drain fuel list target memory = some (target', memory')
      ∧ target'.Threads memory' (blocks.reverse ++ targets)
      ∧ ∀ word, word ∉ blocks → memory' word = memory word := by
  induction blocks generalizing fuel list target memory targets with
  | nil =>
      obtain ⟨fuel, rfl⟩ := Nat.exists_eq_succ_of_ne_zero (Nat.ne_of_gt enough)
      refine ⟨target, memory, ?_, into, fun word _ => rfl⟩
      rw [FreeBlockList.drain, pop_nil threads]
  | cons block rest ih =>
      obtain ⟨fuel, rfl⟩ := Nat.exists_eq_succ_of_ne_zero (Nat.ne_zero_of_lt enough)
      rw [List.cons_append, List.nodup_cons, List.mem_append, not_or] at fresh
      obtain ⟨outside, nodup⟩ := fresh
      have emptied : target.Threads (Function.update memory block none) targets :=
        into.frame fun other member =>
          Function.update_of_ne (ne_of_mem_of_not_mem member outside.2) ..
      have left : (FreeBlockList.mk (list.len - 1) (memory block)).Threads
          (target.push (Function.update memory block none) block).2 rest :=
        (threads.pop outside.1).frame fun other member =>
          Function.update_of_ne (ne_of_mem_of_not_mem member outside.1) ..
      have moved : (rest ++ block :: targets).Nodup :=
        List.nodup_middle.mpr (List.nodup_cons.mpr ⟨by simp [outside], nodup⟩)
      obtain ⟨target', memory', run, threads', kept⟩ :=
        ih left (emptied.push outside.2) moved (Nat.lt_of_succ_lt_succ enough)
      refine ⟨target', memory', ?_, ?_, fun word other => ?_⟩
      · rw [FreeBlockList.drain, pop_cons threads]
        exact run
      · rw [List.reverse_cons, List.append_assoc]
        exact threads'
      · rw [List.mem_cons, not_or] at other
        rw [kept word other.2]
        exact (Function.update_of_ne other.1 ..).trans (Function.update_of_ne other.1 ..)

/-- The addresses of the tiles of a range. -/
def tileStarts (start size count : Nat) : List Nat :=
  (List.range count).map (start + size * ·)

theorem tileStarts_nodup (start count : Nat) {size : Nat} (positive : 0 < size)
    : (tileStarts start size count).Nodup := by
  refine List.Nodup.map_on ?_ List.nodup_range
  intro i _ j _ same
  exact Nat.eq_of_mul_eq_mul_left positive (Nat.add_left_cancel same)

/-- The last tile comes first in the reverse order. -/
theorem reverse_tileStarts_succ (start size count : Nat)
    : (tileStarts start size (count + 1)).reverse
      = (start + size * count) :: (tileStarts start size count).reverse := by
  simp [tileStarts, List.range_succ]

/-- A new list threads its blocks from the first one on and writes only their words. -/
theorem threads_new (memory : Memory) (start count : Nat) {size : Nat} (positive : 0 < size)
    : (new memory start size count).1.Threads (new memory start size count).2
        (tileStarts start size count)
      ∧ ∀ word, word ∉ tileStarts start size count
        → (new memory start size count).2 word = memory word := by
  have empty : newEmpty.Threads memory [] := ⟨rfl, rfl⟩
  have nodup := tileStarts_nodup start count positive
  have order : (List.range count).reverse.map (start + size * ·)
      = (tileStarts start size count).reverse := List.map_reverse
  have fresh : ((tileStarts start size count).reverse ++ []).Nodup := by
    rwa [List.append_nil, List.nodup_reverse]
  obtain ⟨threads, kept⟩ := empty.pushAll fresh
  rw [List.reverse_reverse, List.append_nil] at threads
  unfold new
  rw [order]
  exact ⟨threads, fun word outside => kept word (by rwa [List.mem_reverse])⟩

end FreeBlockList

end RCoreOS.SlabAllocator
