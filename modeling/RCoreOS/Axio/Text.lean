import RCoreOS.Axio.BufReader
import RCoreOS.Lib.Utf8

/-! Reading text. The bytes are appended to the buffer of the string and checked afterwards, so
that what a call has read before it fails stays in the string.
-/

namespace RCoreOS.Axio

/-- The errors of calls that read text: those of the reader, and their own. -/
inductive TextError where
  | reader (e : Error)
  | InvalidData
deriving DecidableEq, Repr

/-- The bytes are those of a string. -/
def ValidUtf8 (bytes : List UInt8) : Prop :=
  bytes.toByteArray.IsValidUTF8

instance (bytes : List UInt8) : Decidable (ValidUtf8 bytes) :=
  inferInstanceAs (Decidable (ByteArray.IsValidUTF8 _))

-----------------------------------------------------------------------------------------
-- Reading into a vector
-----------------------------------------------------------------------------------------

/-- The number of bytes that a call has appended, or the error that ended it, the vector with all
bytes that were read, and the reader.
-/
abbrev Appending (S : Type) :=
  Except Error Nat × List UInt8 × S

/-- The default `read_to_end`; there is no result when the turns are used up. -/
def defaultReadToEndVec {R : Type} (read : R → Nat → Answer × R) (startLen : Nat)
    : Nat → R → List UInt8 → Option (Appending R)
  | 0, _, _ => none
  | turns + 1, r, buf =>
      match read r 32 with
      | (.ok [], r) => some (.ok (buf.length - startLen), buf, r)
      | (.ok bytes, r) => defaultReadToEndVec read startLen turns r (buf ++ bytes)
      | (.error e, r) => some (.error e, buf, r)

/-- A reader with its `read_to_end`. -/
class ReadVec (R : Type) extends Read R where
  readToEndVec (turns : Nat) (r : R) (buf : List UInt8) : Option (Appending R) :=
    defaultReadToEndVec read buf.length turns r buf

class BufRead (B : Type) where
  fillBuf : B → Answer × B
  consume : B → Nat → B

/-- The default `read_until`; there is no result when the turns are used up. -/
def readUntilVec {B : Type} [BufRead B] (byte : UInt8)
    : Nat → B → List UInt8 → Nat → Option (Appending B)
  | 0, _, _, _ => none
  | turns + 1, b, buf, count =>
      match BufRead.fillBuf b with
      | (.error .WouldBlock, b) => readUntilVec byte turns b buf count
      | (.error e, b) => some (.error e, buf, b)
      | (.ok available, b) =>
          match available.findIdx? (· = byte) with
          | some i =>
              some (.ok (count + (i + 1)), buf ++ available.take (i + 1), BufRead.consume b (i + 1))
          | none =>
              let b := BufRead.consume b available.length
              let count := count + available.length
              if available.length = 0 then some (.ok count, buf ++ available, b)
              else readUntilVec byte turns b (buf ++ available) count

instance {R : Type} [Read R] : BufRead (BufReader R) where
  fillBuf := BufReader.fillBuf
  consume := BufReader.consume

/-- `BufReader::read_to_end`. -/
def BufReader.readToEndVec {R : Type} [ReadVec R] (turns : Nat) (br : BufReader R)
    (buf : List UInt8)
    : Option (Appending (BufReader R)) :=
  let innerBuf := br.buffer
  let nread := innerBuf.length
  let br := br.discardBuffer
  (ReadVec.readToEndVec turns br.inner (buf ++ innerBuf)).map fun (result, buf, inner) =>
    (result.map (nread + ·), buf, { br with inner })

-----------------------------------------------------------------------------------------
-- Reading into a string
-----------------------------------------------------------------------------------------

/-- The result of a call, the bytes in the string and the reader. -/
abbrev TextResult (S : Type) :=
  Except TextError Nat × List UInt8 × S

/-- `append_to_string`. -/
def appendToString {S : Type} (text : List UInt8) (f : List UInt8 → Option (Appending S))
    : Option (TextResult S) :=
  (f text).map fun (ret, buf, s) =>
    match ret with
    | .error e => (.error (.reader e), buf, s)
    | .ok n =>
        if ValidUtf8 (buf.drop text.length) then (.ok n, buf, s)
        else (.error .InvalidData, buf, s)

/-- The default `read_to_string`. -/
def readToString {R : Type} [ReadVec R] (turns : Nat) (r : R) (text : List UInt8)
    : Option (TextResult R) :=
  appendToString text (ReadVec.readToEndVec turns r)

def readLine {B : Type} [BufRead B] (turns : Nat) (b : B) (text : List UInt8)
    : Option (TextResult B) :=
  appendToString text fun buf => readUntilVec '\n'.toUInt8 turns b buf 0

/-- `BufReader::read_to_string`, which reads into a vector of its own if the string is not empty.
-/
def BufReader.readToString {R : Type} [ReadVec R] (turns : Nat) (br : BufReader R)
    (text : List UInt8)
    : Option (TextResult (BufReader R)) :=
  if text = [] then appendToString text (br.readToEndVec turns)
  else
    (br.readToEndVec turns []).map fun (ret, bytes, br) =>
      match ret with
      | .error e => (.error (.reader e), text, br)
      | .ok _ =>
          if ValidUtf8 bytes then (.ok bytes.length, text ++ bytes, br)
          else (.error .InvalidData, text, br)

-----------------------------------------------------------------------------------------
-- What there is to read
-----------------------------------------------------------------------------------------

/-- The bytes that reads return until the end or an error, and the error. -/
structure Reading where
  bytes : List UInt8
  error : Option Error
deriving DecidableEq, Repr

/-- What a call returns that appends them to others. -/
def Reading.result (reading : Reading) : Except Error Nat :=
  match reading.error with
  | none => .ok reading.bytes.length
  | some e => .error e

/-- More bytes in front. -/
def Reading.behind (reading : Reading) (bytes : List UInt8) : Reading :=
  { reading with bytes := bytes ++ reading.bytes }

theorem Reading.map_zero (result : Except Error Nat) : result.map (0 + ·) = result := by
  cases result with
  | ok n => exact congrArg Except.ok (Nat.zero_add n)
  | error e => rfl

theorem Reading.result_behind (reading : Reading) (bytes : List UInt8) (count : Nat)
    : (reading.behind bytes).result.map (count + ·)
      = reading.result.map (count + bytes.length + ·) := by
  obtain ⟨others, error⟩ := reading
  cases error with
  | none =>
      have length : count + (bytes ++ others).length = count + bytes.length + others.length := by
        rw [List.length_append, Nat.add_assoc]
      exact congrArg Except.ok length
  | some e => rfl

/-- What the reads of a reader return. -/
inductive Yields {R : Type} (read : R → Nat → Answer × R) : R → Reading → Prop
  | eof {r r'} : read r 32 = (.ok [], r') → Yields read r ⟨[], none⟩
  | error {r r' e} : read r 32 = (.error e, r') → Yields read r ⟨[], some e⟩
  | more {r r' bytes reading}
    : read r 32 = (.ok bytes, r') → bytes ≠ [] → Yields read r' reading →
      Yields read r (reading.behind bytes)

/-- What a buffered reader returns up to and with a byte. An error of a reader that would block is
passed over.
-/
inductive YieldsUntil {B : Type} [BufRead B] (byte : UInt8) : B → Reading → Prop
  | found {b b' available i}
    : BufRead.fillBuf b = (.ok available, b') → available.findIdx? (· = byte) = some i →
      YieldsUntil byte b ⟨available.take (i + 1), none⟩
  | eof {b b'} : BufRead.fillBuf b = (.ok [], b') → YieldsUntil byte b ⟨[], none⟩
  | error {b b' e}
    : BufRead.fillBuf b = (.error e, b') → e ≠ .WouldBlock → YieldsUntil byte b ⟨[], some e⟩
  | blocked {b b' reading}
    : BufRead.fillBuf b = (.error .WouldBlock, b') → YieldsUntil byte b' reading →
      YieldsUntil byte b reading
  | more {b b' available reading}
    : BufRead.fillBuf b = (.ok available, b') → available ≠ [] →
      available.findIdx? (· = byte) = none →
      YieldsUntil byte (BufRead.consume b' available.length) reading →
      YieldsUntil byte b (reading.behind available)

/-- A reader whose `read_to_end` appends what there is to read. -/
class LawfulReadVec (R : Type) [ReadVec R] where
  yields : R → Reading → Prop
  unique {r : R} {reading reading' : Reading}
    : yields r reading → yields r reading' → reading = reading'
  appends {r r' : R} {turns : Nat} {buf buf' : List UInt8} {result : Except Error Nat}
    : ReadVec.readToEndVec turns r buf = some (result, buf', r') →
      ∃ reading, yields r reading ∧ buf' = buf ++ reading.bytes ∧ result = reading.result

section Reader

variable {R : Type} {read : R → Nat → Answer × R}

theorem Yields.unique {r : R} {reading reading' : Reading} (yields : Yields read r reading)
    (yields' : Yields read r reading')
    : reading = reading' := by
  induction yields generalizing reading' with
  | eof ended =>
      cases yields' with
      | eof => rfl
      | error failed => cases ended.symm.trans failed
      | more got some => cases ended.symm.trans got; exact absurd rfl some
  | error failed =>
      cases yields' with
      | eof ended => cases failed.symm.trans ended
      | error failed' => cases failed.symm.trans failed'; rfl
      | more got => cases failed.symm.trans got
  | more got some _ ih =>
      cases yields' with
      | eof ended => cases got.symm.trans ended; exact absurd rfl some
      | error failed => cases got.symm.trans failed
      | more got' _ later =>
          cases got.symm.trans got'
          rw [ih later]

/-- The default `read_to_end` appends what there is to read, by induction on the turns. -/
theorem defaultReadToEndVec_appends {startLen turns : Nat} {r r' : R} {buf buf' : List UInt8}
    {result : Except Error Nat} (started : startLen ≤ buf.length)
    (returned : defaultReadToEndVec read startLen turns r buf = some (result, buf', r'))
    : ∃ reading, Yields read r reading ∧ buf' = buf ++ reading.bytes
        ∧ result = reading.result.map (buf.length - startLen + ·) := by
  induction turns generalizing r buf with
  | zero => cases returned
  | succ turns ih =>
      rw [defaultReadToEndVec] at returned
      split at returned
      next ended =>
        cases returned
        exact ⟨_, .eof ended, (List.append_nil _).symm, rfl⟩
      next bytes r₁ nonempty got =>
        have grown : (buf ++ bytes).length = buf.length + bytes.length := List.length_append ..
        obtain ⟨reading, yields, appended, ends⟩ := ih (by omega) returned
        refine ⟨_, .more got nonempty yields, ?_, ?_⟩
        · rw [appended, List.append_assoc]
          rfl
        · have more : (buf ++ bytes).length - startLen
              = buf.length - startLen + bytes.length := by omega
          rw [ends, more, Reading.result_behind]
      next failed =>
        cases returned
        exact ⟨_, .error failed, (List.append_nil _).symm, rfl⟩

/-- Without a vector, `read_to_end` returns the same bytes and keeps none of those before an error,
by induction on the turns.
-/
theorem defaultReadToEnd_yields {turns : Nat} {r r' : R} {answer : Answer}
    (returned : defaultReadToEnd read turns r = some (answer, r'))
    : ∃ reading, Yields read r reading
        ∧ answer = reading.result.map fun _ => reading.bytes := by
  induction turns generalizing r answer with
  | zero => cases returned
  | succ turns ih =>
      rw [defaultReadToEnd] at returned
      split at returned
      next failed =>
        cases returned
        exact ⟨_, .error failed, rfl⟩
      next ended =>
        cases returned
        exact ⟨_, .eof ended, rfl⟩
      next bytes r₁ nonempty got =>
        obtain ⟨⟨rest, last⟩, done, same⟩ := Option.map_eq_some_iff.mp returned
        cases same
        obtain ⟨reading, yields, rfl⟩ := ih done
        refine ⟨_, .more got nonempty yields, ?_⟩
        obtain ⟨others, error⟩ := reading
        cases error <;> rfl

end Reader

section Buffered

variable {B : Type} [BufRead B] {byte : UInt8}

/-- What there is to read is decided by what the buffer is filled with. -/
theorem YieldsUntil.filled {b : B} {reading : Reading} (yields : YieldsUntil byte b reading)
    : match BufRead.fillBuf b with
      | (.error e, b') =>
          if e = .WouldBlock then YieldsUntil byte b' reading else reading = ⟨[], some e⟩
      | (.ok available, b') =>
          match available.findIdx? (· = byte) with
          | some i => reading = ⟨available.take (i + 1), none⟩
          | none =>
              if available = [] then reading = ⟨[], none⟩
              else ∃ rest, YieldsUntil byte (BufRead.consume b' available.length) rest
                ∧ reading = rest.behind available := by
  cases yields with
  | found got index => simp only [got, index]
  | eof ended => simp [ended]
  | error failed other => simp [failed, other]
  | blocked waits later => simpa [waits] using later
  | more got nonempty absent later =>
      simp only [got, absent, if_neg nonempty]
      exact ⟨_, later, rfl⟩

theorem YieldsUntil.unique {b : B} {reading reading' : Reading}
    (yields : YieldsUntil byte b reading) (yields' : YieldsUntil byte b reading')
    : reading = reading' := by
  induction yields generalizing reading' with
  | found got index =>
      have same := yields'.filled
      simp only [got, index] at same
      exact same.symm
  | eof ended =>
      have same := yields'.filled
      simp only [ended, List.findIdx?_nil, if_true] at same
      exact same.symm
  | error failed other =>
      have same := yields'.filled
      simp only [failed, if_neg other] at same
      exact same.symm
  | blocked waits _ ih =>
      have later := yields'.filled
      simp only [waits, if_true] at later
      exact ih later
  | more got nonempty absent _ ih =>
      have later := yields'.filled
      simp only [got, absent, if_neg nonempty] at later
      obtain ⟨rest, yields, rfl⟩ := later
      rw [ih yields]

/-- `read_until` appends what there is to read, by induction on the turns. -/
theorem readUntilVec_appends {turns count : Nat} {b b' : B} {buf buf' : List UInt8}
    {result : Except Error Nat}
    (returned : readUntilVec byte turns b buf count = some (result, buf', b'))
    : ∃ reading, YieldsUntil byte b reading ∧ buf' = buf ++ reading.bytes
        ∧ result = reading.result.map (count + ·) := by
  induction turns generalizing b buf count with
  | zero => cases returned
  | succ turns ih =>
      rw [readUntilVec] at returned
      split at returned
      next waits =>
        obtain ⟨reading, yields, rest⟩ := ih returned
        exact ⟨reading, .blocked waits yields, rest⟩
      next other failed =>
        cases returned
        exact ⟨_, .error failed other, (List.append_nil _).symm, rfl⟩
      next available b₁ got =>
        split at returned
        next i index =>
          cases returned
          have inside : i + 1 ≤ available.length := (List.findIdx?_eq_some_iff_getElem.mp index).1
          refine ⟨_, .found got index, rfl, ?_⟩
          exact congrArg (fun n => Except.ok (count + n)) (List.length_take_of_le inside).symm
        next absent =>
          dsimp only at returned
          split at returned
          next none =>
            cases returned
            obtain rfl := List.length_eq_zero_iff.mp none
            exact ⟨_, .eof got, rfl, rfl⟩
          next some =>
            have nonempty : available ≠ [] := fun none => some (List.length_eq_zero_iff.mpr none)
            obtain ⟨reading, yields, appended, ends⟩ := ih returned
            refine ⟨_, .more got nonempty absent yields, ?_, ?_⟩
            · rw [appended, List.append_assoc]
              rfl
            · rw [ends, Reading.result_behind]

end Buffered

/-- `BufReader::read_to_end` appends the buffered data and what there is to read behind it. -/
theorem BufReader.readToEndVec_appends {R : Type} [ReadVec R] [LawfulReadVec R] {turns : Nat}
    {br br' : BufReader R} {buf buf' : List UInt8} {result : Except Error Nat}
    (returned : br.readToEndVec turns buf = some (result, buf', br'))
    : ∃ rest, LawfulReadVec.yields br.inner rest ∧ buf' = buf ++ (rest.behind br.buffer).bytes
        ∧ result = (rest.behind br.buffer).result := by
  obtain ⟨⟨inner, vec, r⟩, done, same⟩ := Option.map_eq_some_iff.mp returned
  obtain ⟨rest, yields, rfl, rfl⟩ := LawfulReadVec.appends done
  cases same
  refine ⟨rest, yields, List.append_assoc .., ?_⟩
  have shifted := rest.result_behind br.buffer 0
  rw [Reading.map_zero, Nat.zero_add] at shifted
  exact shifted.symm

-----------------------------------------------------------------------------------------
-- What is left in the string
-----------------------------------------------------------------------------------------

/-- What a call returns that checks the bytes it has read. -/
def Reading.checked (reading : Reading) : Except TextError Nat :=
  match reading.error with
  | some e => .error (.reader e)
  | none => if ValidUtf8 reading.bytes then .ok reading.bytes.length else .error .InvalidData

/-- The reading has ended without an error, and with the bytes of a string. -/
def Reading.Text (reading : Reading) : Prop :=
  reading.error = none ∧ ValidUtf8 reading.bytes

instance (reading : Reading) : Decidable reading.Text :=
  inferInstanceAs (Decidable (_ ∧ _))

/-- The bytes are those of a string: with what was read behind the old ones if the call succeeds,
and the old ones if it fails.
-/
structure Keeps (text text' : List UInt8) (result : Except TextError Nat) (reading : Reading)
    : Prop where
  valid : ValidUtf8 text'
  kept :
    match result with
    | .ok n => text' = text ++ reading.bytes ∧ n = reading.bytes.length
    | .error _ => text' = text

variable {text text' : List UInt8} {result : Except TextError Nat} {reading : Reading}

theorem ValidUtf8.append {bytes : List UInt8} (valid : ValidUtf8 text) (valid' : ValidUtf8 bytes)
    : ValidUtf8 (text ++ bytes) := by
  rw [ValidUtf8, List.toByteArray_append]
  exact ByteArray.IsValidUTF8.append valid valid'

theorem Reading.Text.checked (isText : reading.Text)
    : reading.checked = .ok reading.bytes.length := by
  rw [Reading.checked, isText.1]
  exact if_pos isText.2

theorem Reading.checked_error (notText : ¬ reading.Text)
    : ∃ e, reading.checked = .error e := by
  unfold Reading.checked
  split
  · exact ⟨_, rfl⟩
  next ended =>
    rw [if_neg fun valid => notText ⟨ended, valid⟩]
    exact ⟨_, rfl⟩

/-- Bytes that are appended before they are checked. -/
theorem keeps_appended_iff (valid : ValidUtf8 text)
    : Keeps text (text ++ reading.bytes) reading.checked reading
      ↔ reading.bytes = [] ∨ reading.Text := by
  by_cases isText : reading.Text
  · refine iff_of_true ⟨valid.append isText.2, ?_⟩ (.inr isText)
    rw [isText.checked]
    exact ⟨rfl, rfl⟩
  · obtain ⟨e, failed⟩ := reading.checked_error isText
    rw [failed, or_iff_left isText]
    constructor
    · intro keeps
      exact List.append_right_eq_self.mp keeps.kept
    · intro none
      rw [none, List.append_nil]
      exact ⟨valid, rfl⟩

/-- Bytes that are checked before they are appended. -/
theorem keeps_checked (valid : ValidUtf8 text)
    (appended : text' = if reading.Text then text ++ reading.bytes else text)
    : Keeps text text' reading.checked reading := by
  by_cases isText : reading.Text
  · rw [isText.checked, appended, if_pos isText]
    exact ⟨valid.append isText.2, rfl, rfl⟩
  · obtain ⟨e, failed⟩ := reading.checked_error isText
    rw [failed, appended, if_neg isText]
    exact ⟨valid, rfl⟩

/-- A call that checks what it has appended returns the checked reading. -/
theorem appendToString_eq {S : Type} {f : List UInt8 → Option (Appending S)} {s : S}
    {yields : Reading → Prop}
    (appends : ∀ {ret buf s}, f text = some (ret, buf, s) →
      ∃ reading, yields reading ∧ buf = text ++ reading.bytes ∧ ret = reading.result)
    (returned : appendToString text f = some (result, text', s))
    : ∃ reading, yields reading ∧ text' = text ++ reading.bytes ∧ result = reading.checked := by
  obtain ⟨⟨ret, buf, r⟩, done, same⟩ := Option.map_eq_some_iff.mp returned
  obtain ⟨reading, yielded, rfl, rfl⟩ := appends done
  refine ⟨reading, yielded, ?_⟩
  obtain ⟨bytes, error⟩ := reading
  cases error with
  | some e =>
      cases same
      exact ⟨rfl, rfl⟩
  | none =>
      dsimp only [Reading.result, Reading.checked] at same ⊢
      rw [List.drop_left] at same
      split at same
      next valid =>
        cases same
        exact ⟨rfl, (if_pos valid).symm⟩
      next invalid =>
        cases same
        exact ⟨rfl, (if_neg invalid).symm⟩

/-- A call on a string that is not empty appends what it has checked. -/
theorem BufReader.readToString_side {R : Type} [ReadVec R] [LawfulReadVec R] {turns : Nat}
    {br br' : BufReader R} (nonempty : text ≠ [])
    (returned : br.readToString turns text = some (result, text', br'))
    : ∃ rest, LawfulReadVec.yields br.inner rest ∧ result = (rest.behind br.buffer).checked
        ∧ text' = if (rest.behind br.buffer).Text then text ++ (rest.behind br.buffer).bytes
          else text := by
  rw [BufReader.readToString, if_neg nonempty] at returned
  obtain ⟨⟨ret, bytes, r⟩, done, same⟩ := Option.map_eq_some_iff.mp returned
  obtain ⟨rest, yields, bytes_eq, ret_eq⟩ := readToEndVec_appends done
  rw [List.nil_append] at bytes_eq
  refine ⟨rest, yields, ?_⟩
  generalize rest.behind br.buffer = reading at bytes_eq ret_eq
  subst bytes_eq ret_eq
  obtain ⟨bytes, error⟩ := reading
  cases error with
  | some e =>
      cases same
      have notText : ¬ (Reading.mk bytes (some e)).Text := fun isText => by cases isText.1
      exact ⟨rfl, (if_neg notText).symm⟩
  | none =>
      dsimp only [Reading.result, Reading.checked] at same ⊢
      split at same
      next valid =>
        cases same
        exact ⟨(if_pos valid).symm, (if_pos ⟨rfl, valid⟩).symm⟩
      next invalid =>
        cases same
        exact ⟨(if_neg invalid).symm, (if_neg fun isText => invalid isText.2).symm⟩

-----------------------------------------------------------------------------------------
-- The calls
-----------------------------------------------------------------------------------------

/-- The calls that read text, on a reader of each kind. -/
inductive TextCall (R B : Type) where
  | readToString (r : R)
  | readLine (b : B)
  | bufReadToString (br : BufReader R)

namespace TextCall

variable {R B : Type} [ReadVec R] [BufRead B]

/-- What a call returns, and what is in the string then. -/
def perform (turns : Nat) (text : List UInt8)
    : TextCall R B → Option (Except TextError Nat × List UInt8)
  | readToString r =>
      (Axio.readToString turns r text).map fun (result, text, _) => (result, text)
  | readLine b => (Axio.readLine turns b text).map fun (result, text, _) => (result, text)
  | bufReadToString br => (br.readToString turns text).map fun (result, text, _) => (result, text)

/-- What there is to read for a call. -/
def Yields [LawfulReadVec R] : TextCall R B → Reading → Prop
  | readToString r => LawfulReadVec.yields r
  | readLine b => YieldsUntil '\n'.toUInt8 b
  | bufReadToString br => fun reading =>
      ∃ rest, LawfulReadVec.yields br.inner rest ∧ reading = rest.behind br.buffer

/-- The call reads into a vector of its own. -/
def UsesSideBuffer (text : List UInt8) : TextCall R B → Prop
  | bufReadToString _ => text ≠ []
  | readToString _ | readLine _ => False

variable [LawfulReadVec R] {call : TextCall R B} {turns : Nat} {text text' : List UInt8}
  {result : Except TextError Nat} {reading reading' : Reading}

theorem Yields.unique (yields : call.Yields reading) (yields' : call.Yields reading')
    : reading = reading' := by
  cases call with
  | readToString r => exact LawfulReadVec.unique yields yields'
  | readLine b => exact YieldsUntil.unique yields yields'
  | bufReadToString br =>
      obtain ⟨rest, yields, rfl⟩ := yields
      obtain ⟨rest', yields', rfl⟩ := yields'
      rw [LawfulReadVec.unique yields yields']

/-- A call returns the checked reading, and leaves what it has read in the string unless it reads
into a vector of its own.
-/
theorem perform_eq (returned : call.perform turns text = some (result, text'))
    : ∃ reading, call.Yields reading ∧ result = reading.checked
        ∧ (¬ call.UsesSideBuffer text → text' = text ++ reading.bytes)
        ∧ (call.UsesSideBuffer text →
          text' = if reading.Text then text ++ reading.bytes else text) := by
  cases call with
  | readToString r =>
      obtain ⟨⟨_, _, r'⟩, done, same⟩ := Option.map_eq_some_iff.mp returned
      cases same
      obtain ⟨reading, yields, appended, checked⟩ := appendToString_eq LawfulReadVec.appends done
      exact ⟨reading, yields, checked, fun _ => appended, False.elim⟩
  | readLine b =>
      obtain ⟨⟨_, _, b'⟩, done, same⟩ := Option.map_eq_some_iff.mp returned
      cases same
      have appends {ret buf s}
          (read : readUntilVec '\n'.toUInt8 turns b text 0 = some (ret, buf, s))
          : ∃ reading, YieldsUntil '\n'.toUInt8 b reading ∧ buf = text ++ reading.bytes
              ∧ ret = reading.result := by
        obtain ⟨reading, yields, appended, ends⟩ := readUntilVec_appends read
        exact ⟨reading, yields, appended, ends.trans (Reading.map_zero _)⟩
      obtain ⟨reading, yields, appended, checked⟩ := appendToString_eq appends done
      exact ⟨reading, yields, checked, fun _ => appended, False.elim⟩
  | bufReadToString br =>
      obtain ⟨⟨_, _, br'⟩, done, same⟩ := Option.map_eq_some_iff.mp returned
      cases same
      by_cases nonempty : text = []
      · have read := done
        rw [BufReader.readToString, if_pos nonempty] at read
        have appends {ret buf s} (read : br.readToEndVec turns text = some (ret, buf, s))
            : ∃ reading, (bufReadToString br : TextCall R B).Yields reading
                ∧ buf = text ++ reading.bytes ∧ ret = reading.result := by
          obtain ⟨rest, yields, more⟩ := BufReader.readToEndVec_appends read
          exact ⟨_, ⟨rest, yields, rfl⟩, more⟩
        obtain ⟨reading, yields, appended, checked⟩ := appendToString_eq appends read
        exact ⟨reading, yields, checked, fun _ => appended, fun side => absurd nonempty side⟩
      · obtain ⟨rest, yields, checked, left⟩ := BufReader.readToString_side nonempty done
        exact ⟨_, ⟨rest, yields, rfl⟩, checked, fun direct => absurd nonempty direct, fun _ => left⟩

end TextCall

/-- The bytes of a string. -/
def textBytes (text : String) : List UInt8 :=
  text.toByteArray.data.toList

theorem validUtf8_textBytes (text : String) : ValidUtf8 (textBytes text) := by
  have same : (textBytes text).toByteArray = text.toByteArray := Utf8.toByteArray_bytes text
  rw [ValidUtf8, same]
  exact text.isValidUTF8

/-- A call keeps the string exactly if it has read no byte, or has ended without an error and with
the bytes of a string, or reads into a vector of its own.
-/
theorem TextCall.keeps_iff {R B : Type} [ReadVec R] [BufRead B] [LawfulReadVec R]
    {call : TextCall R B} {text : String} {turns : Nat} {result : Except TextError Nat}
    {text' : List UInt8} {reading : Reading} (yields : call.Yields reading)
    (returned : call.perform turns (textBytes text) = some (result, text'))
    : Keeps (textBytes text) text' result reading
      ↔ reading.bytes = [] ∨ reading.Text ∨ call.UsesSideBuffer (textBytes text) := by
  obtain ⟨reading', yields', rfl, direct, side⟩ := perform_eq returned
  obtain rfl := yields.unique yields'
  have valid := validUtf8_textBytes text
  by_cases uses : call.UsesSideBuffer (textBytes text)
  · exact iff_of_true (keeps_checked valid (side uses)) (.inr (.inr uses))
  · rw [direct uses, keeps_appended_iff valid, or_iff_left uses]

-----------------------------------------------------------------------------------------
-- Readers of the trait's own kinds
-----------------------------------------------------------------------------------------

/-- A slice has a `read_to_end` of its own. -/
instance : ReadVec (List UInt8) where
  readToEndVec _ slice buf := some (.ok slice.length, buf ++ slice, [])

instance : LawfulReadVec (List UInt8) where
  yields slice reading := reading = ⟨slice, none⟩
  unique yields yields' := yields.trans yields'.symm
  appends read := by
    cases read
    exact ⟨_, rfl, rfl, rfl⟩

/-- A reader with only a `read` has the default one. -/
instance : ReadVec ChunkReader where

instance : LawfulReadVec ChunkReader where
  yields := Yields Read.read
  unique := Yields.unique
  appends {r r' turns buf buf' result} read := by
    obtain ⟨reading, yields, appended, ends⟩ :=
      defaultReadToEndVec_appends (Nat.le_refl buf.length) read
    rw [Nat.sub_self, Reading.map_zero] at ends
    exact ⟨reading, yields, appended, ends⟩

/-- There is the whole stream to read, by induction on its length. -/
theorem ChunkReader.yields (r : ChunkReader) : Yields Read.read r ⟨r.data, none⟩ := by
  induction long : r.data.length using Nat.strongRecOn generalizing r with
  | _ length ih =>
      obtain ⟨bytes, answered, parts, -, progress⟩ := r.read_delivers 32
      have step : r.read 32 = (.ok bytes, (r.read 32).2) := Prod.ext answered rfl
      by_cases ended : bytes = []
      · subst ended
        have empty : r.data = [] := (progress rfl).resolve_left (by decide)
        rw [empty]
        exact .eof step
      · have shorter : (r.read 32).2.data.length < length := by
          have positive := List.length_pos_iff.mpr ended
          rw [← long, parts, List.length_append]
          omega
        have rest := ih _ shorter _ rfl
        have whole : (Reading.mk r.data none)
            = (Reading.mk (r.read 32).2.data none).behind bytes := by
          rw [Reading.behind, ← parts]
        rw [whole]
        exact .more step ended rest

/-- A character of two bytes that are read one after the other. -/
theorem TextCall.keeps_split_character
    : Keeps (textBytes "") [0xc3, 0xa9] (.ok 2) ⟨[0xc3, 0xa9], none⟩ := by
  let r : ChunkReader := ⟨[0xc3, 0xa9], fun _ => 0, 0⟩
  let call : TextCall ChunkReader (BufReader ChunkReader) := .readToString r
  have yields : call.Yields ⟨[0xc3, 0xa9], none⟩ := r.yields
  have returned : call.perform 3 (textBytes "") = some (.ok 2, [0xc3, 0xa9]) := by decide
  exact (keeps_iff yields returned).mpr (.inr (.inl ⟨rfl, by decide⟩))

/-- A byte that no string has stays in the string. -/
theorem TextCall.invalid_byte_stays
    : ¬ ∀ (call : TextCall ChunkReader (BufReader ChunkReader)) (text : String) turns result text'
          reading,
        call.Yields reading → call.perform turns (textBytes text) = some (result, text') →
        Keeps (textBytes text) text' result reading := by
  intro keeps
  let r : ChunkReader := ⟨[0xff], fun _ => 0, 0⟩
  have kept := keeps (.readToString r) "" 2 (.error .InvalidData) [0xff] ⟨[0xff], none⟩ r.yields
    (by decide)
  exact absurd kept.valid (by decide)

end RCoreOS.Axio
