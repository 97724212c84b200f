import RCoreOS.Lib.BTreeMap
import RCoreOS.Lib.LittleEndian
import Mathlib.Order.Fin.Basic

/-! The initial user stack. Values are pushed downwards from the bottom of the stack, each kind
at its own alignment, into a buffer that holds the top end of the stack.
-/

namespace RCoreOS.ElfParser

def USER_INIT_STACK_SIZE : Nat :=
  0x4000

/-- A type of values that are pushed as their bytes. -/
class Plain (T : Type) where
  size : Nat
  align : Nat
  bytes : T → List UInt8
  align_pos : 0 < align
  length_bytes : ∀ value, (bytes value).length = size

instance : Plain UInt8 where
  size := 1
  align := 1
  bytes byte := [byte]
  align_pos := Nat.one_pos
  length_bytes _ := rfl

/-- `usize` and pointers. -/
instance : Plain UInt64 where
  size := 8
  align := 8
  bytes word := LittleEndian.toBytes 8 word.toNat
  align_pos := Nat.succ_pos 7
  length_bytes _ := LittleEndian.length_toBytes ..

/-- A subtraction of addresses; `none` is the panic of an underflow. -/
def checkedSub (a b : Nat) : Option Nat :=
  if b ≤ a then some (a - b) else none

structure UserStack where
  sp : Nat
  bottom : Nat
  data : List UInt8

namespace UserStack

def new (sp : Nat) : UserStack where
  sp
  bottom := sp
  data := List.replicate USER_INIT_STACK_SIZE 0

def getLen (stack : UserStack) : Option Nat :=
  checkedSub stack.bottom stack.sp

def getDataFrontRef (stack : UserStack) : Option (List UInt8) := do
  let offset ← checkedSub stack.data.length (← stack.getLen)
  some (stack.data.drop offset)

def push {T : Type} [Plain T] (stack : UserStack) (data : List T) : Option UserStack := do
  let sp ← checkedSub stack.sp (data.length * Plain.size T)
  let sp ← checkedSub sp (sp % Plain.align T)
  let offset ← checkedSub stack.data.length (← checkedSub stack.bottom sp)
  let bytes := data.flatMap Plain.bytes
  some { stack with
    sp
    data := stack.data.take offset ++ bytes ++ stack.data.drop (offset + bytes.length) }

/-- Pushes the bytes of a string and a zero behind it. -/
def pushStr (stack : UserStack) (str : List UInt8) : Option (UserStack × UInt64) := do
  let stack ← stack.push [(0 : UInt8)]
  let stack ← stack.push str
  some (stack, UInt64.ofNat stack.sp)

/-- `push_str` for one string after the other, with the addresses it returns. -/
def pushStrs (stack : UserStack) : List (List UInt8) → Option (UserStack × List UInt64)
  | [] => some (stack, [])
  | str :: strs => do
      let (stack, pos) ← stack.pushStr str
      let (stack, rest) ← stack.pushStrs strs
      some (stack, pos :: rest)

end UserStack

def randomStr : List UInt64 :=
  [3703830112808742751, 7081108068768079778]

/-- The pair that is pushed for an entry of the auxiliary vector; `AT_RANDOM` points to the
random string.
-/
def auxvPair (randomStrPos : UInt64) (entry : Fin 256 × UInt64) : List UInt64 :=
  if entry.1.val = 25 then [UInt64.ofNat entry.1.val, randomStrPos]
  else [UInt64.ofNat entry.1.val, entry.2]

/-- `init_stack`, with strings as their bytes. -/
def initStack (args envs : List (List UInt8)) (auxv : BTreeMap (Fin 256) UInt64) (sp : Nat)
    : Option UserStack := do
  let stack ← (UserStack.new sp).push randomStr
  let randomStrPos := UInt64.ofNat stack.sp
  let (stack, envsSlice) ← stack.pushStrs envs
  let (stack, argvSlice) ← stack.pushStrs args
  let stack ← stack.push [(0 : UInt64), 0]
  let finalSp ← checkedSub stack.sp
    ((auxv.entries.length * 2 + envsSlice.length + argvSlice.length) * 8)
  let finalSp ← checkedSub finalSp 8
  let finalSp ← checkedSub finalSp 8
  let finalSp ← checkedSub finalSp 8
  let stack ← if finalSp % 16 ≠ 0 then stack.push [(0 : UInt64)] else some stack
  let stack ← auxv.entries.foldlM
    (fun (stack : UserStack) entry => stack.push (auxvPair randomStrPos entry)) stack
  let stack ← stack.push [(0 : UInt64)]
  let stack ← stack.push envsSlice
  let stack ← stack.push [(0 : UInt64)]
  let stack ← stack.push argvSlice
  stack.push [UInt64.ofNat args.length]

def getAppStackRegion (args envs : List (List UInt8)) (auxv : BTreeMap (Fin 256) UInt64)
    (stackTop stackSize : Nat)
    : Option (List UInt8 × Nat) := do
  let stack ← initStack args envs auxv (stackTop + stackSize)
  let free ← checkedSub stackSize (← stack.getLen)
  let front ← stack.getDataFrontRef
  some (List.replicate free 0 ++ front, stack.sp)

-----------------------------------------------------------------------------------------
-- What a push adds
-----------------------------------------------------------------------------------------

/-- `n` rounded up to a multiple of `align`. -/
def roundUp (align n : Nat) : Nat :=
  align * ((n + align - 1) / align)

theorem roundUp_bounds {align : Nat} (pos : 0 < align) (n : Nat)
    : n ≤ roundUp align n ∧ roundUp align n < n + align := by
  have split := Nat.div_add_mod (n + align - 1) align
  have rest := Nat.mod_lt (n + align - 1) pos
  unfold roundUp
  omega

theorem dvd_roundUp (align n : Nat) : align ∣ roundUp align n :=
  Nat.dvd_mul_right ..

theorem roundUp_add {align : Nat} (pos : 0 < align) (k n : Nat)
    : roundUp align (align * k + n) = align * k + roundUp align n := by
  have quotient : (align * k + n + align - 1) / align = k + (n + align - 1) / align := by
    rw [Nat.add_assoc, Nat.add_sub_assoc (by omega), Nat.mul_add_div pos]
  rw [roundUp, quotient, Nat.mul_add, roundUp]

/-- What `push` does to an address: rounding down the address is rounding up the distance to
an aligned base.
-/
theorem align_down {align base n : Nat} (pos : 0 < align) (aligned : align ∣ base)
    (room : roundUp align n ≤ base)
    : base - n - (base - n) % align = base - roundUp align n := by
  obtain ⟨q, rfl⟩ := aligned
  obtain ⟨above, below⟩ := roundUp_bounds pos n
  unfold roundUp at *
  generalize (n + align - 1) / align = k at *
  have split : align * q - n = align * (q - k) + (align * k - n) := by
    rw [Nat.mul_sub]
    omega
  have rest : (align * q - n) % align = align * k - n := by
    rw [split, Nat.mul_add_mod, Nat.mod_eq_of_lt (by omega)]
  rw [rest]
  omega

namespace UserStack

/-- The bytes from the stack pointer to the base; the rest of the buffer is zero. -/
structure Holds (stack : UserStack) (base : Nat) (content : List UInt8) : Prop where
  bottom : stack.bottom = base
  sp : stack.sp = base - content.length
  below : content.length ≤ base
  fits : content.length ≤ USER_INIT_STACK_SIZE
  data : stack.data = List.replicate (USER_INIT_STACK_SIZE - content.length) 0 ++ content

/-- There is room for a content of this size. -/
def Room (base size : Nat) : Prop :=
  size ≤ base ∧ size ≤ USER_INIT_STACK_SIZE

variable {stack : UserStack} {base : Nat} {content : List UInt8}

theorem new_holds (base : Nat) : (new base).Holds base [] where
  bottom := rfl
  sp := rfl
  below := Nat.zero_le _
  fits := Nat.zero_le _
  data := by simp [new]

theorem checkedSub_eq {a b : Nat} (le : b ≤ a) : checkedSub a b = some (a - b) :=
  if_pos le

theorem length_flatMap_bytes {T : Type} [Plain T] (data : List T)
    : (data.flatMap Plain.bytes).length = data.length * Plain.size T := by
  induction data with
  | nil => simp
  | cons value data ih =>
      rw [List.flatMap_cons, List.length_append, Plain.length_bytes, ih, List.length_cons,
        Nat.succ_mul, Nat.add_comm]

/-- A push puts the bytes of its data in front of the content, with zeros between them up to
the alignment.
-/
theorem Holds.push {T : Type} [Plain T] (holds : stack.Holds base content)
    (aligned : Plain.align T ∣ base) (data : List T)
    (room : Room base (roundUp (Plain.align T) (data.length * Plain.size T + content.length)))
    : ∃ stack', stack.push data = some stack'
      ∧ stack'.Holds base (data.flatMap Plain.bytes
        ++ (List.replicate (roundUp (Plain.align T)
            (data.length * Plain.size T + content.length)
          - (data.length * Plain.size T + content.length)) 0 ++ content)) := by
  have size := length_flatMap_bytes data
  have pos : 0 < Plain.align T := Plain.align_pos
  obtain ⟨above, -⟩ := roundUp_bounds pos (data.length * Plain.size T + content.length)
  have down := align_down pos aligned room.1
  generalize same : data.length * Plain.size T = n at *
  generalize roundUp (Plain.align T) (n + content.length) = total at *
  obtain ⟨below, fits⟩ := room
  have oldFits := holds.fits
  have length : stack.data.length = USER_INIT_STACK_SIZE := by
    rw [holds.data, List.length_append, List.length_replicate]
    omega
  have first : checkedSub stack.sp n = some (base - (n + content.length)) := by
    rw [holds.sp, checkedSub_eq (by omega), Nat.sub_sub, Nat.add_comm]
  have second : checkedSub (base - (n + content.length))
      ((base - (n + content.length)) % Plain.align T) = some (base - total) := by
    rw [checkedSub_eq (Nat.mod_le ..), down]
  have third : checkedSub stack.bottom (base - total) = some total := by
    rw [holds.bottom, checkedSub_eq (Nat.sub_le ..), Nat.sub_sub_self below]
  have fourth : checkedSub stack.data.length total
      = some (USER_INIT_STACK_SIZE - total) := by
    rw [length, checkedSub_eq fits]
  have whole : (data.flatMap Plain.bytes
      ++ (List.replicate (total - (n + content.length)) 0 ++ content)).length = total := by
    simp only [List.length_append, List.length_replicate, size]
    omega
  have before : stack.data.take (USER_INIT_STACK_SIZE - total)
      = List.replicate (USER_INIT_STACK_SIZE - total) 0 := by
    rw [holds.data, List.take_append_of_le_length (by rw [List.length_replicate]; omega),
      List.take_replicate, Nat.min_eq_left (by omega)]
  have behind : stack.data.drop (USER_INIT_STACK_SIZE - total + n)
      = List.replicate (total - (n + content.length)) 0 ++ content := by
    rw [holds.data, List.drop_append_of_le_length (by rw [List.length_replicate]; omega),
      List.drop_replicate]
    congr 2
    omega
  refine ⟨{ stack with
    sp := base - total
    data := stack.data.take (USER_INIT_STACK_SIZE - total) ++ data.flatMap Plain.bytes
      ++ stack.data.drop (USER_INIT_STACK_SIZE - total + n) }, ?_, ?_⟩
  · simp only [UserStack.push, same, first, second, third, fourth, size, Option.bind_eq_bind,
      Option.bind_some]
  · refine ⟨holds.bottom, by rw [whole], by rwa [whole], by rwa [whole], ?_⟩
    rw [whole, before, behind, List.append_assoc]

theorem roundUp_of_dvd {align n : Nat} (pos : 0 < align) (aligned : align ∣ n)
    : roundUp align n = n := by
  obtain ⟨k, rfl⟩ := aligned
  have quotient : (align * k + align - 1) / align = k := by
    rw [Nat.add_sub_assoc pos, Nat.mul_add_div pos, Nat.div_eq_of_lt (by omega), Nat.add_zero]
  rw [roundUp, quotient]

/-- Bytes need no alignment. -/
theorem Holds.pushBytes (holds : stack.Holds base content) (data : List UInt8)
    (room : Room base (data.length + content.length))
    : ∃ stack', stack.push data = some stack' ∧ stack'.Holds base (data ++ content) := by
  have exact' : roundUp (Plain.align UInt8) (data.length * Plain.size UInt8 + content.length)
      = data.length + content.length := by
    rw [roundUp_of_dvd Plain.align_pos (Nat.one_dvd _)]
    exact congrArg (· + content.length) (Nat.mul_one data.length)
  have same : data.flatMap Plain.bytes = data := List.flatMap_singleton' data
  obtain ⟨stack', pushed, holds'⟩ := holds.push (Nat.one_dvd base) data (exact' ▸ room)
  rw [exact', same, show data.length * Plain.size UInt8 = data.length from Nat.mul_one _,
    Nat.sub_self, List.replicate_zero, List.nil_append] at holds'
  exact ⟨stack', pushed, holds'⟩

/-- The bytes of words. -/
def encode (words : List UInt64) : List UInt8 :=
  (words.map UInt64.toNat).flatMap (LittleEndian.toBytes 8)

theorem encode_append (words words' : List UInt64)
    : encode (words ++ words') = encode words ++ encode words' := by
  simp [encode]

theorem length_encode (words : List UInt64) : (encode words).length = 8 * words.length := by
  induction words with
  | nil => rfl
  | cons word words ih =>
      rw [← List.singleton_append, encode_append, List.length_append, ih]
      simp [encode]
      omega

/-- Words are put in front of a content of whole words, or of zeros that fill it up. -/
theorem Holds.pushWords (holds : stack.Holds base content) (aligned : 8 ∣ base)
    (words : List UInt64)
    (room : Room base (roundUp 8 (8 * words.length + content.length)))
    : ∃ stack', stack.push words = some stack'
      ∧ stack'.Holds base (encode words
        ++ (List.replicate (roundUp 8 (8 * words.length + content.length)
          - (8 * words.length + content.length)) 0 ++ content)) := by
  have same : words.flatMap Plain.bytes = encode words := by
    rw [encode, List.flatMap_map]
    rfl
  have size : words.length * Plain.size UInt64 = 8 * words.length := Nat.mul_comm ..
  have pushed := holds.push aligned words (size ▸ room)
  rwa [same, size] at pushed

/-- A string and its zero are put in front of the content. -/
theorem Holds.pushStr (holds : stack.Holds base content) (str : List UInt8)
    (room : Room base (str ++ 0 :: content).length)
    : ∃ stack', stack.pushStr str
        = some (stack', UInt64.ofNat (base - (str ++ 0 :: content).length))
      ∧ stack'.Holds base (str ++ 0 :: content) := by
  have size : (str ++ 0 :: content).length = str.length + (content.length + 1) := by simp
  rw [size] at room
  obtain ⟨low, fits⟩ := room
  obtain ⟨terminated, first, holds⟩ := holds.pushBytes [0] ⟨by simp; omega, by simp; omega⟩
  obtain ⟨pushed, second, holds⟩ := holds.pushBytes str ⟨by simp; omega, by simp; omega⟩
  refine ⟨pushed, ?_, holds⟩
  simp only [UserStack.pushStr, first, second, Option.bind_eq_bind, Option.bind_some]
  rw [holds.sp]
  rfl

/-- Strings that are pushed end up in front of the content, in the opposite order. -/
def strings : List (List UInt8) → List UInt8 → List UInt8
  | [], content => content
  | str :: strs, content => strings strs (str ++ 0 :: content)

theorem length_strings (strs : List (List UInt8)) (content : List UInt8)
    : (strings strs content).length
      = (strs.map fun str => str.length + 1).sum + content.length := by
  induction strs generalizing content with
  | nil => simp [strings]
  | cons str strs ih =>
      rw [strings, ih]
      simp
      omega

/-- The content under strings is the end of what they give. -/
theorem suffix_strings (strs : List (List UInt8)) (content : List UInt8)
    : content <:+ strings strs content := by
  induction strs generalizing content with
  | nil => exact List.suffix_rfl
  | cons str strs ih =>
      exact ((List.suffix_cons 0 content).trans (List.suffix_append str _)).trans (ih _)

/-- A position from which a string and its zero can be read. -/
def Points (base : Nat) (content : List UInt8) (pos : UInt64) (str : List UInt8) : Prop :=
  ∃ below, str ++ 0 :: below <:+ content
    ∧ pos = UInt64.ofNat (base - (str ++ 0 :: below).length)

/-- Strings are pushed one after the other, and their positions point to them, by induction
on the strings.
-/
theorem Holds.pushStrs (strs : List (List UInt8)) (holds : stack.Holds base content)
    (room : Room base (strings strs content).length)
    : ∃ stack' positions, stack.pushStrs strs = some (stack', positions)
      ∧ stack'.Holds base (strings strs content)
      ∧ List.Forall₂ (Points base (strings strs content)) positions strs := by
  induction strs generalizing stack content with
  | nil => exact ⟨stack, [], rfl, holds, .nil⟩
  | cons str strs ih =>
      have below := suffix_strings strs (str ++ 0 :: content)
      have less := below.length_le
      obtain ⟨pushed, first, holds'⟩ :=
        holds.pushStr str ⟨less.trans room.1, less.trans room.2⟩
      obtain ⟨stack', positions, rest, holds'', points⟩ := ih holds' room
      refine ⟨stack', _ :: positions, ?_, holds'', .cons ⟨content, below, rfl⟩ points⟩
      simp only [UserStack.pushStrs, first, rest, Option.bind_eq_bind, Option.bind_some]

/-- Words are put in front of words. -/
theorem Holds.pushOn {words : List UInt64} {tail : List UInt8}
    (holds : stack.Holds base (encode words ++ tail)) (aligned : 8 ∣ base)
    (whole : 8 ∣ tail.length) (more : List UInt64)
    (room : Room base (8 * (more.length + words.length) + tail.length))
    : ∃ stack', stack.push more = some stack'
      ∧ stack'.Holds base (encode (more ++ words) ++ tail) := by
  have size : 8 * more.length + (encode words ++ tail).length
      = 8 * (more.length + words.length) + tail.length := by
    rw [List.length_append, length_encode]
    omega
  have exact' : roundUp 8 (8 * (more.length + words.length) + tail.length)
      = 8 * (more.length + words.length) + tail.length :=
    roundUp_of_dvd (by omega) (by omega)
  obtain ⟨stack', pushed, holds'⟩ :=
    holds.pushWords aligned more (by rw [size, exact']; exact room)
  rw [size, exact', Nat.sub_self, List.replicate_zero, List.nil_append, ← List.append_assoc,
    ← encode_append] at holds'
  exact ⟨stack', pushed, holds'⟩

theorem length_auxvPair (pos : UInt64) (entry : Fin 256 × UInt64)
    : (auxvPair pos entry).length = 2 := by
  unfold auxvPair
  split <;> rfl

/-- The pairs of the auxiliary vector end up in front of words in the opposite order, by
induction on the entries.
-/
theorem Holds.pushPairs (entries : List (Fin 256 × UInt64)) (pos : UInt64)
    {words : List UInt64} {tail : List UInt8}
    (holds : stack.Holds base (encode words ++ tail)) (aligned : 8 ∣ base)
    (whole : 8 ∣ tail.length)
    (room : Room base (8 * (entries.length * 2 + words.length) + tail.length))
    : ∃ stack', entries.foldlM
        (fun (stack : UserStack) entry => stack.push (auxvPair pos entry)) stack = some stack'
      ∧ stack'.Holds base
        (encode (entries.reverse.flatMap (auxvPair pos) ++ words) ++ tail) := by
  induction entries generalizing stack words with
  | nil => exact ⟨stack, rfl, holds⟩
  | cons entry entries ih =>
      have pair := length_auxvPair pos entry
      obtain ⟨low, fits⟩ := room
      rw [List.length_cons] at low fits
      obtain ⟨pushed, first, holds'⟩ := holds.pushOn aligned whole (auxvPair pos entry)
        ⟨by rw [pair]; omega, by rw [pair]; omega⟩
      obtain ⟨stack', rest, holds''⟩ := ih holds'
        ⟨by rw [List.length_append, pair]; omega, by rw [List.length_append, pair]; omega⟩
      refine ⟨stack', ?_, ?_⟩
      · rw [List.foldlM_cons, first]
        exact rest
      · rw [List.reverse_cons, List.flatMap_append, List.append_assoc]
        simpa using holds''

end UserStack

-----------------------------------------------------------------------------------------
-- The whole content
-----------------------------------------------------------------------------------------

/-- The bytes of the random string and of all strings with their zeros. -/
def stringsSize (args envs : List (List UInt8)) : Nat :=
  16 + ((envs ++ args).map fun str => str.length + 1).sum

/-- The size of all that is pushed, with what fills up the alignment. -/
def contentSize (args envs : List (List UInt8)) (auxv : BTreeMap (Fin 256) UInt64) : Nat :=
  roundUp 16 (8 * (auxv.entries.length * 2 + envs.length + args.length + 5)
    + roundUp 8 (stringsSize args envs))

/-- A longer content has the same strings at the same positions. -/
theorem UserStack.Points.mono {base : Nat} {content content' : List UInt8} {pos : UInt64}
    {str : List UInt8} (points : UserStack.Points base content pos str)
    (more : content <:+ content')
    : UserStack.Points base content' pos str := by
  obtain ⟨below, suffix, same⟩ := points
  exact ⟨below, suffix.trans more, same⟩

/-- All strings under the words, the random string first. -/
def allStrings (args envs : List (List UInt8)) : List UInt8 :=
  UserStack.strings args (UserStack.strings envs (UserStack.encode randomStr))

theorem length_allStrings (args envs : List (List UInt8))
    : (allStrings args envs).length = stringsSize args envs := by
  have random : (UserStack.encode randomStr).length = 16 := UserStack.length_encode randomStr
  rw [allStrings, UserStack.length_strings, UserStack.length_strings, random, stringsSize,
    List.map_append, List.sum_append]
  omega

/-- The words that end up at the stack pointer. -/
def allWords (argc : Nat) (argv envp : List UInt64) (auxv : BTreeMap (Fin 256) UInt64)
    (randomStrPos : UInt64) (nulls : List UInt64)
    : List UInt64 :=
  UInt64.ofNat argc :: argv ++ 0 :: envp
    ++ 0 :: auxv.entries.reverse.flatMap (auxvPair randomStrPos) ++ 0 :: 0 :: nulls

namespace UserStack

/-- The pad that makes the predicted stack pointer a multiple of 16. -/
theorem Holds.pad {stack : UserStack} {base : Nat} (size total : Nat) {tail : List UInt8}
    (holds : stack.Holds base (encode [0, 0] ++ tail)) (aligned : 16 ∣ base)
    (whole : 8 ∣ tail.length) (predicted : 8 * size + 16 + tail.length = total)
    (room : Room base (roundUp 16 total))
    : ∃ stack' nulls, (if (base - total) % 16 ≠ 0 then stack.push [(0 : UInt64)] else some stack)
        = some stack'
      ∧ stack'.Holds base (encode (0 :: 0 :: nulls) ++ tail)
      ∧ 8 * nulls.length + total = roundUp 16 total := by
  have even : 8 ∣ total := by omega
  obtain ⟨low, fits⟩ := room
  obtain ⟨above, below⟩ := roundUp_bounds (by decide : 0 < 16) total
  have multiple := dvd_roundUp 16 total
  by_cases padded : (base - total) % 16 ≠ 0
  · obtain ⟨stack', pushed, holds'⟩ := holds.pushOn (by omega) whole [0]
      ⟨by simp only [List.length_cons, List.length_nil]; omega,
        by simp only [List.length_cons, List.length_nil]; omega⟩
    refine ⟨stack', [0], by rw [if_pos padded, pushed], holds', ?_⟩
    simp only [List.length_cons, List.length_nil]
    omega
  · refine ⟨stack, [], if_neg padded, holds, ?_⟩
    simp only [List.length_nil]
    omega

/-- The random string is pushed first. -/
theorem push_randomStr {base : Nat} (aligned : 8 ∣ base) (room : Room base 16)
    : ∃ stack, (new base).push randomStr = some stack
      ∧ stack.Holds base (encode randomStr) := by
  have empty : (new base).Holds base (encode [] ++ []) := new_holds base
  obtain ⟨stack, pushed, holds⟩ := empty.pushOn aligned (Nat.dvd_zero 8) randomStr room
  exact ⟨stack, pushed, by simpa using holds⟩

/-- Two words are put on top of any content, at the next multiple of 8. -/
theorem Holds.pushNulls {stack : UserStack} {base : Nat} {content : List UInt8}
    (holds : stack.Holds base content) (aligned : 8 ∣ base)
    (room : Room base (16 + roundUp 8 content.length))
    : ∃ stack', stack.push [(0 : UInt64), 0] = some stack'
      ∧ stack'.Holds base (encode [0, 0]
        ++ (List.replicate (roundUp 8 content.length - content.length) 0 ++ content)) := by
  have total : roundUp 8 (8 * [(0 : UInt64), 0].length + content.length)
      = 16 + roundUp 8 content.length :=
    roundUp_add (by decide) 2 content.length
  obtain ⟨stack', pushed, holds'⟩ := holds.pushWords aligned [0, 0] (total ▸ room)
  refine ⟨stack', pushed, ?_⟩
  have fill : 16 + roundUp 8 content.length
      - (8 * [(0 : UInt64), 0].length + content.length)
      = roundUp 8 content.length - content.length := by
    simp only [List.length_cons, List.length_nil]
    omega
  rwa [total, fill] at holds'

/-- The pairs and the slices are put on top of the zeros. -/
theorem Holds.pushTables {stack : UserStack} {base : Nat} {tail : List UInt8}
    {nulls : List UInt64} (argc : Nat) (argv envp : List UInt64)
    (auxv : BTreeMap (Fin 256) UInt64) (pos : UInt64)
    (holds : stack.Holds base (encode (0 :: 0 :: nulls) ++ tail)) (aligned : 8 ∣ base)
    (whole : 8 ∣ tail.length)
    (room : Room base (8 * (allWords argc argv envp auxv pos nulls).length + tail.length))
    : ∃ stack', (do
        let stack ← auxv.entries.foldlM
          (fun (stack : UserStack) entry => stack.push (auxvPair pos entry)) stack
        let stack ← stack.push [(0 : UInt64)]
        let stack ← stack.push envp
        let stack ← stack.push [(0 : UInt64)]
        let stack ← stack.push argv
        stack.push [UInt64.ofNat argc]) = some stack'
      ∧ stack'.Holds base (encode (allWords argc argv envp auxv pos nulls) ++ tail) := by
  have pairs : (auxv.entries.reverse.flatMap (auxvPair pos)).length
      = auxv.entries.length * 2 := by
    simp [List.length_flatMap, length_auxvPair]
  obtain ⟨low, fits⟩ := room
  have size : (allWords argc argv envp auxv pos nulls).length
      = 1 + argv.length + (1 + envp.length)
        + (1 + auxv.entries.length * 2) + (2 + nulls.length) := by
    simp only [allWords, List.length_append, List.length_cons, pairs]
    omega
  rw [size] at low fits
  have within (n : Nat) (fewer : n ≤ 1 + argv.length + (1 + envp.length)
      + (1 + auxv.entries.length * 2) + (2 + nulls.length))
      : Room base (8 * n + tail.length) :=
    ⟨by omega, by omega⟩
  obtain ⟨stack₁, push₁, holds₁⟩ := holds.pushPairs auxv.entries pos aligned whole
    (within _ (by simp only [List.length_cons]; omega))
  obtain ⟨stack₂, push₂, holds₂⟩ := holds₁.pushOn aligned whole [0]
    (within _ (by simp only [List.length_append, List.length_cons, List.length_nil, pairs]; omega))
  obtain ⟨stack₃, push₃, holds₃⟩ := holds₂.pushOn aligned whole envp
    (within _ (by simp only [List.length_append, List.length_cons, List.length_nil, pairs]; omega))
  obtain ⟨stack₄, push₄, holds₄⟩ := holds₃.pushOn aligned whole [0]
    (within _ (by simp only [List.length_append, List.length_cons, List.length_nil, pairs]; omega))
  obtain ⟨stack₅, push₅, holds₅⟩ := holds₄.pushOn aligned whole argv
    (within _ (by simp only [List.length_append, List.length_cons, List.length_nil, pairs]; omega))
  obtain ⟨stack₆, push₆, holds₆⟩ := holds₅.pushOn aligned whole [UInt64.ofNat argc]
    (within _ (by simp only [List.length_append, List.length_cons, List.length_nil, pairs]; omega))
  refine ⟨stack₆, ?_, ?_⟩
  · simp only [push₁, push₂, push₃, push₄, push₅, push₆, Option.bind_eq_bind,
      Option.bind_some]
  · simpa [allWords] using holds₆

end UserStack

open UserStack in
/-- `init_stack` succeeds when there is room for the content, and leaves the words over the
strings.
-/
theorem initStack_holds {args envs : List (List UInt8)} {auxv : BTreeMap (Fin 256) UInt64}
    {base : Nat} (aligned : 16 ∣ base) (room : Room base (contentSize args envs auxv))
    : ∃ stack argv envp nulls fill, initStack args envs auxv base = some stack
      ∧ stack.Holds base (encode (allWords args.length argv envp auxv
          (UInt64.ofNat (base - 16)) nulls)
        ++ (List.replicate fill 0 ++ allStrings args envs))
      ∧ List.Forall₂ (Points base (allStrings args envs)) argv args
      ∧ List.Forall₂ (Points base (allStrings args envs)) envp envs
      ∧ (encode (allWords args.length argv envp auxv (UInt64.ofNat (base - 16)) nulls)
        ++ (List.replicate fill 0 ++ allStrings args envs)).length
        = contentSize args envs auxv := by
  have words : 8 ∣ base := by omega
  have above := (roundUp_bounds (by decide : 0 < 16)
    (8 * (auxv.entries.length * 2 + envs.length + args.length + 5)
      + roundUp 8 (stringsSize args envs))).1
  have above' := (roundUp_bounds (by decide : 0 < 8) (stringsSize args envs)).1
  have multiple := dvd_roundUp 8 (stringsSize args envs)
  have lengths := length_allStrings args envs
  have inner : strings envs (encode randomStr) <:+ allStrings args envs := suffix_strings ..
  have innerLess := inner.length_le
  have random : (encode randomStr).length = 16 := length_encode randomStr
  have least : 16 ≤ stringsSize args envs := Nat.le_add_right ..
  obtain ⟨low, fits⟩ := room
  unfold contentSize at *
  generalize same : 8 * (auxv.entries.length * 2 + envs.length + args.length + 5)
    + roundUp 8 (stringsSize args envs) = total at *
  -- The strings and the zeros over them.
  obtain ⟨stack₁, push₁, holds₁⟩ := push_randomStr words ⟨by omega, by omega⟩
  obtain ⟨stack₂, envp, push₂, holds₂, envPoints⟩ :=
    holds₁.pushStrs envs ⟨by omega, by omega⟩
  obtain ⟨stack₃, argv, push₃, holds₃, argPoints⟩ :=
    holds₂.pushStrs args (by rw [← allStrings, lengths]; exact ⟨by omega, by omega⟩)
  rw [← allStrings] at holds₃ argPoints
  obtain ⟨stack₄, push₄, holds₄⟩ := holds₃.pushNulls words
    (by rw [lengths]; exact ⟨by omega, by omega⟩)
  rw [lengths] at holds₄
  have envCount := envPoints.length_eq
  have argCount := argPoints.length_eq
  have tail : (List.replicate (roundUp 8 (stringsSize args envs) - stringsSize args envs) 0
      ++ allStrings args envs).length = roundUp 8 (stringsSize args envs) := by
    rw [List.length_append, List.length_replicate, lengths]
    omega
  have random₁ : UInt64.ofNat stack₁.sp = UInt64.ofNat (base - 16) := by
    rw [holds₁.sp, random]
  -- The prediction of the last address.
  have sp₄ : stack₄.sp = base - (16 + roundUp 8 (stringsSize args envs)) := by
    rw [holds₄.sp, List.length_append, length_encode, tail]
    rfl
  obtain ⟨stack₅, nulls, push₅, holds₅, padded⟩ := holds₄.pad
    (auxv.entries.length * 2 + envs.length + args.length + 3) total aligned
    (tail.symm ▸ multiple) (by rw [tail]; omega) ⟨low, fits⟩
  have pairs : (auxv.entries.reverse.flatMap (auxvPair (UInt64.ofNat (base - 16)))).length
      = auxv.entries.length * 2 := by
    simp [List.length_flatMap, length_auxvPair]
  have size : 8 * (allWords args.length argv envp auxv (UInt64.ofNat (base - 16)) nulls).length
      + roundUp 8 (stringsSize args envs) = roundUp 16 total := by
    simp only [allWords, List.length_append, List.length_cons, pairs]
    omega
  obtain ⟨stack₆, push₆, holds₆⟩ := holds₅.pushTables args.length argv envp auxv
    (UInt64.ofNat (base - 16)) words (tail.symm ▸ multiple) (by rw [tail, size]; exact ⟨low, fits⟩)
  refine ⟨stack₆, argv, envp, nulls, _, ?_, holds₆, argPoints,
    envPoints.imp fun _ _ points => points.mono inner, ?_⟩
  · have sub₁ : checkedSub stack₄.sp
        ((auxv.entries.length * 2 + envp.length + argv.length) * 8)
        = some (base - total + 24) := by
      rw [sp₄, checkedSub_eq (by omega)]
      exact congrArg some (by omega)
    have sub₂ : checkedSub (base - total + 24) 8 = some (base - total + 16) := rfl
    have sub₃ : checkedSub (base - total + 16) 8 = some (base - total + 8) := rfl
    have sub₄ : checkedSub (base - total + 8) 8 = some (base - total) := rfl
    simp only [initStack, push₁, random₁, push₂, push₃, push₄, sub₁, sub₂, sub₃, sub₄,
      Option.bind_eq_bind, Option.bind_some]
    by_cases uneven : (base - total) % 16 ≠ 0
    · rw [if_pos uneven] at push₅ ⊢
      rw [push₅]
      exact push₆
    · rw [if_neg uneven] at push₅ ⊢
      cases push₅
      exact push₆
  · rw [List.length_append, tail, length_encode, size]

end RCoreOS.ElfParser
