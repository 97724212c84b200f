import RCoreOS.ElfParser.UserStack

/-! The initial user stack, read back by the layout of the System V ABI: the argument count and
pointers, the environment pointers and the auxiliary vector from the stack pointer on, and the
strings at the pointers.
-/

namespace RCoreOS.ElfParser

-----------------------------------------------------------------------------------------
-- Reading the stack
-----------------------------------------------------------------------------------------

/-- Memory from an address on. -/
structure Image where
  start : Nat
  bytes : List UInt8

/-- The bytes from an address to the end of the image. -/
def Image.readFrom (image : Image) (pos : Nat) : List UInt8 :=
  if image.start ≤ pos then image.bytes.drop (pos - image.start) else []

/-- The string that ends with the next zero. -/
def Image.string (image : Image) (pos : Nat) : Option (List UInt8) :=
  let bytes := image.readFrom pos
  if 0 ∈ bytes then some (bytes.takeWhile (· ≠ 0)) else none

/-- The words before the next null, and those behind it. -/
def splitNull : List Nat → Option (List Nat × List Nat)
  | [] => none
  | word :: rest =>
      if word = 0 then some ([], rest)
      else (splitNull rest).map fun parts => (word :: parts.1, parts.2)

/-- The pairs of the auxiliary vector up to the key `AT_NULL`. -/
def auxvPairs : List Nat → Option (List (Nat × Nat))
  | key :: value :: rest =>
      if key = 0 then some [] else (auxvPairs rest).map ((key, value) :: ·)
  | _ => none

/-- What a program finds on its stack. -/
structure Arguments where
  args : List (List UInt8)
  envs : List (List UInt8)
  auxv : List (Nat × Nat)
deriving DecidableEq, Repr

def decode (image : Image) (sp : Nat) : Option Arguments :=
  let bytes := image.readFrom sp
  match LittleEndian.read 8 bytes.length bytes with
  | [] => none
  | argc :: words => do
      let (argv, words) ← splitNull words
      let (envp, words) ← splitNull words
      let auxv ← auxvPairs words
      let args ← argv.mapM image.string
      let envs ← envp.mapM image.string
      if argv.length = argc then some { args, envs, auxv } else none

theorem splitNull_append {words : List Nat} (rest : List Nat)
    (pointers : ∀ word ∈ words, word ≠ 0)
    : splitNull (words ++ 0 :: rest) = some (words, rest) := by
  induction words with
  | nil => rfl
  | cons word words ih =>
      have more := ih fun word' member => pointers word' (List.mem_cons_of_mem _ member)
      rw [List.cons_append, splitNull, if_neg (pointers word (List.mem_cons_self ..)), more]
      rfl

theorem auxvPairs_append {pairs : List (Nat × Nat)} (value : Nat) (rest : List Nat)
    (keys : ∀ pair ∈ pairs, pair.1 ≠ 0)
    : auxvPairs (pairs.flatMap (fun pair => [pair.1, pair.2]) ++ 0 :: value :: rest)
      = some pairs := by
  induction pairs with
  | nil => rfl
  | cons pair pairs ih =>
      have more := ih fun pair' member => keys pair' (List.mem_cons_of_mem _ member)
      rw [List.flatMap_cons, List.append_assoc, List.cons_append, List.cons_append,
        List.nil_append, auxvPairs, if_neg (keys pair (List.mem_cons_self ..)), more]
      rfl

/-- Positions that each lead to a string lead to all of them. -/
theorem mapM_of_forall₂ {α β : Type} {f : α → Option β} {positions : List α} {values : List β}
    (each : List.Forall₂ (fun pos value => f pos = some value) positions values)
    : positions.mapM f = some values := by
  induction each with
  | nil => rfl
  | cons first _ ih => simp [List.mapM_cons, first, ih]

/-- An image that ends at `base` with this content. -/
def Image.Ends (image : Image) (base : Nat) (content : List UInt8) : Prop :=
  image.start + image.bytes.length = base ∧ content <:+ image.bytes

theorem Image.Ends.readFrom {image : Image} {base : Nat} {content : List UInt8}
    (ends : image.Ends base content)
    : image.readFrom (base - content.length) = content := by
  obtain ⟨rfl, free, split⟩ := ends
  have length := congrArg List.length split
  rw [List.length_append] at length
  have pos : image.start + image.bytes.length - content.length = image.start + free.length := by
    omega
  rw [Image.readFrom, pos, if_pos (Nat.le_add_right ..), Nat.add_sub_cancel_left, ← split,
    List.drop_left]

/-- A string can be read at its position. -/
theorem Image.Ends.string {image : Image} {base : Nat} {str below : List UInt8}
    (ends : image.Ends base (str ++ 0 :: below)) (noNul : 0 ∉ str)
    : image.string (base - (str ++ 0 :: below).length) = some str := by
  have here : (0 : UInt8) ∈ str ++ 0 :: below := by simp
  have before : ∀ byte ∈ str, (byte ≠ 0 : Bool) = true := by
    intro byte member
    have other : byte ≠ 0 := by
      rintro rfl
      exact noNul member
    simpa using other
  rw [Image.string, ends.readFrom, if_pos here, List.takeWhile_append_of_pos before,
    List.takeWhile_cons_of_neg (by simp), List.append_nil]

/-- A string can be read at every position that points to it. -/
theorem Image.Ends.strings {image : Image} {base : Nat} {content : List UInt8}
    {positions : List UInt64} {strs : List (List UInt8)} (ends : image.Ends base content)
    (address : base < 2 ^ 64)
    (points : List.Forall₂ (UserStack.Points base content) positions strs)
    (noNul : ∀ str ∈ strs, 0 ∉ str)
    : List.Forall₂ (fun pos str => image.string pos = some str)
      (positions.map UInt64.toNat) strs := by
  induction points with
  | nil => exact .nil
  | @cons pos str positions strs first _ ih =>
      obtain ⟨below, suffix, rfl⟩ := first
      have less := Nat.lt_of_le_of_lt (Nat.sub_le base (str ++ 0 :: below).length) address
      have whole : image.Ends base (str ++ 0 :: below) := ⟨ends.1, suffix.trans ends.2⟩
      refine .cons ?_ (ih fun str member => noNul str (List.mem_cons_of_mem _ member))
      rw [UInt64.toNat_ofNat_of_lt' less]
      exact whole.string (noNul _ (List.mem_cons_self ..))

/-- Positions over a content that does not reach down to zero are not null. -/
theorem pointers_ne_zero {base : Nat} {content : List UInt8} {positions : List UInt64}
    {strs : List (List UInt8)}
    (points : List.Forall₂ (UserStack.Points base content) positions strs)
    (address : base < 2 ^ 64) (above : content.length < base)
    : ∀ word ∈ positions.map UInt64.toNat, word ≠ 0 := by
  induction points with
  | nil => exact fun word member => absurd member List.not_mem_nil
  | cons first _ ih =>
      obtain ⟨below, suffix, rfl⟩ := first
      have less := suffix.length_le
      rw [List.map_cons, List.forall_mem_cons]
      refine ⟨?_, ih⟩
      rw [UInt64.toNat_ofNat_of_lt' (Nat.lt_of_le_of_lt (Nat.sub_le ..) address)]
      omega

/-- Words at the stack pointer in the order of the layout are decoded. -/
theorem decode_eq {image : Image} {sp argc : Nat} {argv envp rest : List Nat}
    {pairs : List (Nat × Nat)} {args envs : List (List UInt8)}
    (words : LittleEndian.read 8 (image.readFrom sp).length (image.readFrom sp)
      = argc :: (argv ++ 0 :: (envp ++ 0 :: (pairs.flatMap (fun pair => [pair.1, pair.2])
        ++ 0 :: 0 :: rest))))
    (argvPointers : ∀ word ∈ argv, word ≠ 0) (envpPointers : ∀ word ∈ envp, word ≠ 0)
    (keys : ∀ pair ∈ pairs, pair.1 ≠ 0)
    (argStrings : List.Forall₂ (fun pos str => image.string pos = some str) argv args)
    (envStrings : List.Forall₂ (fun pos str => image.string pos = some str) envp envs)
    (count : args.length = argc)
    : decode image sp = some { args, envs, auxv := pairs } := by
  have same : argv.length = argc := argStrings.length_eq.trans count
  simp only [decode, words, splitNull_append _ argvPointers, splitNull_append _ envpPointers,
    auxvPairs_append 0 rest keys, mapM_of_forall₂ argStrings, mapM_of_forall₂ envStrings,
    Option.bind_eq_bind, Option.bind_some, if_pos same]

-----------------------------------------------------------------------------------------
-- The round trip
-----------------------------------------------------------------------------------------

/-- The auxiliary vector as a program finds it: the last key first, and the position of the
random string for `AT_RANDOM`.
-/
def foundAuxv (auxv : BTreeMap (Fin 256) UInt64) (randomPos : Nat) : List (Nat × Nat) :=
  auxv.entries.reverse.map fun entry =>
    (entry.1.val, if entry.1.val = 25 then randomPos else entry.2.toNat)

theorem map_auxvPair {pos : UInt64} (entries : List (Fin 256 × UInt64))
    : (entries.flatMap (auxvPair pos)).map UInt64.toNat
      = (entries.map fun entry =>
          (entry.1.val, if entry.1.val = 25 then pos.toNat else entry.2.toNat)).flatMap
        fun pair => [pair.1, pair.2] := by
  induction entries with
  | nil => rfl
  | cons entry entries ih =>
      have key : entry.1.val < 2 ^ 64 := Nat.lt_trans entry.1.isLt (by decide)
      rw [List.flatMap_cons, List.map_append, ih, List.map_cons, List.flatMap_cons]
      congr 1
      unfold auxvPair
      split <;> simp [UInt64.toNat_ofNat_of_lt' key, *]

/-- The words of the tables, as they are read. -/
theorem map_allWords {argc : Nat} (few : argc < 2 ^ 64) (argv envp : List UInt64)
    (auxv : BTreeMap (Fin 256) UInt64) (pos : UInt64) (nulls : List UInt64)
    : (allWords argc argv envp auxv pos nulls).map UInt64.toNat
      = argc :: (argv.map UInt64.toNat ++ 0 :: (envp.map UInt64.toNat
        ++ 0 :: ((foundAuxv auxv pos.toNat).flatMap (fun pair => [pair.1, pair.2])
          ++ 0 :: 0 :: nulls.map UInt64.toNat))) := by
  simp [allWords, foundAuxv, map_auxvPair, UInt64.toNat_ofNat_of_lt' few]

/-- The words that were encoded are read in front of everything else. -/
theorem read_encode (words : List UInt64) (tail : List UInt8)
    : ∃ rest, LittleEndian.read 8 (UserStack.encode words ++ tail).length
        (UserStack.encode words ++ tail) = words.map UInt64.toNat ++ rest := by
  have fit : ∀ value ∈ words.map UInt64.toNat, value < 256 ^ 8 := by
    intro value member
    obtain ⟨word, -, rfl⟩ := List.mem_map.mp member
    exact word.toNat_lt
  have enough : (words.map UInt64.toNat).length
      ≤ (UserStack.encode words ++ tail).length := by
    rw [List.length_append, UserStack.length_encode, List.length_map]
    omega
  exact ⟨_, LittleEndian.read_flatMap tail fit enough⟩

/-- The random string is at the end of the strings. -/
theorem random_suffix (args envs : List (List UInt8))
    : UserStack.encode randomStr <:+ allStrings args envs :=
  (UserStack.suffix_strings envs _).trans (UserStack.suffix_strings args _)

open UserStack in
/-- The strings take less room than everything. -/
theorem strings_lt_content (args envs : List (List UInt8)) (auxv : BTreeMap (Fin 256) UInt64)
    : 16 ≤ stringsSize args envs
      ∧ stringsSize args envs + args.length < contentSize args envs auxv := by
  have outer := (roundUp_bounds (by decide : 0 < 16)
    (8 * (auxv.entries.length * 2 + envs.length + args.length + 5)
      + roundUp 8 (stringsSize args envs))).1
  have inner := (roundUp_bounds (by decide : 0 < 8) (stringsSize args envs)).1
  refine ⟨Nat.le_add_right .., ?_⟩
  unfold contentSize
  omega

open UserStack in
/-- The region is filled up with zeros below the content of the stack. -/
theorem getAppStackRegion_eq {args envs : List (List UInt8)} {auxv : BTreeMap (Fin 256) UInt64}
    {stackTop stackSize : Nat} {stack : UserStack} {content : List UInt8}
    (init : initStack args envs auxv (stackTop + stackSize) = some stack)
    (holds : stack.Holds (stackTop + stackSize) content) (large : content.length ≤ stackSize)
    : getAppStackRegion args envs auxv stackTop stackSize
      = some (List.replicate (stackSize - content.length) 0 ++ content,
          stackTop + stackSize - content.length) := by
  have fits := holds.fits
  have len : stack.getLen = some content.length := by
    rw [getLen, holds.bottom, holds.sp, checkedSub_eq (Nat.sub_le ..),
      Nat.sub_sub_self holds.below]
  have length : stack.data.length = USER_INIT_STACK_SIZE := by
    rw [holds.data, List.length_append, List.length_replicate]
    omega
  have front : stack.getDataFrontRef = some content := by
    simp only [getDataFrontRef, len, length, checkedSub_eq fits, Option.bind_eq_bind,
      Option.bind_some]
    rw [holds.data, List.drop_left' (List.length_replicate ..)]
  simp only [getAppStackRegion, init, len, front, checkedSub_eq large, holds.sp,
    Option.bind_eq_bind, Option.bind_some]

open UserStack in
/-- `get_app_stack_region` returns the whole stack, with an aligned stack pointer from which
the arguments, the environment and the auxiliary vector are read back.
-/
theorem stack_round_trip {args envs : List (List UInt8)} {auxv : BTreeMap (Fin 256) UInt64}
    {stackTop stackSize : Nat} (argNuls : ∀ str ∈ args, 0 ∉ str) (envNuls : ∀ str ∈ envs, 0 ∉ str)
    (keys : ∀ entry ∈ auxv.entries, entry.1.val ≠ 0) (aligned : 16 ∣ stackTop + stackSize)
    (address : stackTop + stackSize < 2 ^ 64)
    (large : contentSize args envs auxv ≤ stackSize)
    (fits : contentSize args envs auxv ≤ USER_INIT_STACK_SIZE)
    : ∃ data sp randomPos, getAppStackRegion args envs auxv stackTop stackSize = some (data, sp)
      ∧ data.length = stackSize ∧ 16 ∣ sp
      ∧ sp + contentSize args envs auxv = stackTop + stackSize
      ∧ decode ⟨stackTop, data⟩ sp = some { args, envs, auxv := foundAuxv auxv randomPos }
      ∧ encode randomStr <+: Image.readFrom ⟨stackTop, data⟩ randomPos := by
  obtain ⟨stack, argv, envp, nulls, fill, init, holds, argPoints, envPoints, size⟩ :=
    initStack_holds aligned ⟨large.trans (Nat.le_add_left ..), fits⟩
  obtain ⟨randomLess, stringsLess⟩ := strings_lt_content args envs auxv
  have multiple : 16 ∣ contentSize args envs auxv := dvd_roundUp 16 _
  have lengths := length_allStrings args envs
  have region := getAppStackRegion_eq init holds (size ▸ large)
  generalize same : encode (allWords args.length argv envp auxv
      (UInt64.ofNat (stackTop + stackSize - 16)) nulls)
    ++ (List.replicate fill 0 ++ allStrings args envs) = content at *
  have found : (UInt64.ofNat (stackTop + stackSize - 16)).toNat = stackTop + stackSize - 16 :=
    UInt64.toNat_ofNat_of_lt' (Nat.lt_of_le_of_lt (Nat.sub_le ..) address)
  have suffix : allStrings args envs <:+ content := by
    rw [← same, ← List.append_assoc]
    exact List.suffix_append _ _
  have whole : (List.replicate (stackSize - content.length) 0 ++ content).length
      = stackSize := by
    rw [List.length_append, List.length_replicate]
    omega
  let image : Image := ⟨stackTop, List.replicate (stackSize - content.length) 0 ++ content⟩
  have ends : image.Ends (stackTop + stackSize) content :=
    ⟨congrArg (stackTop + ·) whole, List.suffix_append _ _⟩
  have endsStrings : image.Ends (stackTop + stackSize) (allStrings args envs) :=
    ⟨ends.1, suffix.trans ends.2⟩
  have endsRandom : image.Ends (stackTop + stackSize) (encode randomStr) :=
    ⟨ends.1, (random_suffix args envs).trans endsStrings.2⟩
  have above : (allStrings args envs).length < stackTop + stackSize := by omega
  -- What a program reads at the stack pointer.
  obtain ⟨rest, words⟩ := read_encode
    (allWords args.length argv envp auxv (UInt64.ofNat (stackTop + stackSize - 16)) nulls)
    (List.replicate fill 0 ++ allStrings args envs)
  rw [same, map_allWords (by omega), found] at words
  simp only [List.cons_append, List.append_assoc] at words
  refine ⟨_, _, stackTop + stackSize - 16, region, whole, ?_, ?_, ?_, ?_⟩
  · omega
  · omega
  · have foundKeys : ∀ pair ∈ foundAuxv auxv (stackTop + stackSize - 16), pair.1 ≠ 0 := by
      intro pair member
      obtain ⟨entry, known, rfl⟩ := List.mem_map.mp member
      exact keys entry (List.mem_reverse.mp known)
    exact decode_eq (by rw [ends.readFrom]; exact words)
      (pointers_ne_zero argPoints address above) (pointers_ne_zero envPoints address above)
      foundKeys (endsStrings.strings address argPoints argNuls)
      (endsStrings.strings address envPoints envNuls) rfl
  · have random := endsRandom.readFrom
    rw [length_encode] at random
    exact ⟨[], (List.append_nil _).trans random.symm⟩

open UserStack in
/-- The program `a` with the environment `b=` and a page size, on a stack of 4 KiB. -/
theorem stack_round_trip_one
    : ∃ data sp randomPos,
      getAppStackRegion [[97]] [[98, 61]] ⟨[(6, 4096), (25, 0)], by decide⟩ 0x1000 0x1000
        = some (data, sp)
      ∧ data.length = 0x1000 ∧ 16 ∣ sp
      ∧ sp + contentSize [[97]] [[98, 61]] ⟨[(6, 4096), (25, 0)], by decide⟩ = 0x1000 + 0x1000
      ∧ decode ⟨0x1000, data⟩ sp
        = some ⟨[[97]], [[98, 61]], foundAuxv ⟨[(6, 4096), (25, 0)], by decide⟩ randomPos⟩
      ∧ encode randomStr <+: Image.readFrom ⟨0x1000, data⟩ randomPos :=
  stack_round_trip (by decide) (by decide) (by simp) (by decide) (by decide) (by decide)
    (by decide)

end RCoreOS.ElfParser
