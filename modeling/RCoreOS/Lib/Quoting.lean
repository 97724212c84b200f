import Mathlib.Data.List.Basic

/-! Fields of a sequence that are separated by one element, except between two quotes. The quotes
stay in the fields.
-/

namespace Quoting

variable {α β : Type} {encode : α → List β} {sep quote : α} {sepCode quoteCode : β}

/-- The field that a word makes; there are no empty ones. -/
def keep : List α → List (List α)
  | [] => []
  | word => [word]

theorem keep_of_ne_nil {word : List α} (nonempty : word ≠ []) : keep word = [word] := by
  cases word with
  | nil => exact absurd rfl nonempty
  | cons c rest => rfl

/-- An encoding in which the separator and the quote have codes of one element, which are in no
other codes.
-/
structure Encodes (encode : α → List β) (sep quote : α) (sepCode quoteCode : β) : Prop where
  nonempty : ∀ c, encode c ≠ []
  sepAlone : encode sep = [sepCode]
  quoteAlone : encode quote = [quoteCode]
  sepOnly : ∀ c, sepCode ∈ encode c → c = sep
  quoteOnly : ∀ c, quoteCode ∈ encode c → c = quote

theorem Encodes.code_ne (encodes : Encodes encode sep quote sepCode quoteCode)
    (different : sep ≠ quote)
    : sepCode ≠ quoteCode := by
  rintro rfl
  have present : sepCode ∈ encode quote := encodes.quoteAlone ▸ List.mem_singleton_self sepCode
  exact different (encodes.sepOnly quote present).symm

theorem Encodes.keep (encodes : Encodes encode sep quote sepCode quoteCode) (word : List α)
    : Quoting.keep (word.flatMap encode) = (Quoting.keep word).map (·.flatMap encode) := by
  cases word with
  | nil => rfl
  | cons c rest =>
      have nonempty : (c :: rest).flatMap encode ≠ [] := fun none =>
        encodes.nonempty c (List.flatMap_eq_nil_iff.mp none c List.mem_cons_self)
      rw [keep_of_ne_nil nonempty]
      rfl

variable [DecidableEq α] {inQuote : Bool} {word rest : List α}

/-- The fields of a word that was begun and what comes after it. -/
def fields (sep quote : α) (inQuote : Bool) (word : List α) : List α → List (List α)
  | [] => keep word
  | c :: rest =>
      let inQuote := if c = quote then !inQuote else inQuote
      if c = sep ∧ inQuote = false then keep word ++ fields sep quote inQuote [] rest
      else fields sep quote inQuote (word ++ [c]) rest

/-- A word with quotes around it if it has a separator. -/
def wrap (sep quote : α) (word : List α) : List α :=
  if sep ∈ word then quote :: (word ++ [quote]) else word

/-- Wrapped words after another one, with `gap i` separators in front of the word `i`. -/
def following (sep quote : α) (gap : Nat → Nat) : List (List α) → List α
  | [] => []
  | word :: words =>
      List.replicate (gap 0) sep ++ wrap sep quote word
        ++ following sep quote (fun i => gap (i + 1)) words

/-- Wrapped words with separators between them. -/
def joined (sep quote : α) (gap : Nat → Nat) : List (List α) → List α
  | [] => []
  | word :: words => wrap sep quote word ++ following sep quote gap words

/-- Wrapped words with separators between them and at both ends. -/
def line (sep quote : α) (leading : Nat) (gap : Nat → Nat) (trailing : Nat)
    (words : List (List α))
    : List α :=
  List.replicate leading sep ++ joined sep quote gap words ++ List.replicate trailing sep

-----------------------------------------------------------------------------------------
-- Parts of a line
-----------------------------------------------------------------------------------------

theorem fields_sep (different : sep ≠ quote)
    : fields sep quote false word (sep :: rest) = keep word ++ fields sep quote false [] rest := by
  simp [fields, different]

theorem fields_quote (different : sep ≠ quote)
    : fields sep quote inQuote word (quote :: rest)
      = fields sep quote (!inQuote) (word ++ [quote]) rest := by
  simp [fields, different.symm]

/-- A part without quotes and without separators that separate belongs to the word, by induction on
the part.
-/
theorem fields_append {part : List α} (unquoted : quote ∉ part)
    (inside : inQuote = true ∨ sep ∉ part)
    : fields sep quote inQuote word (part ++ rest)
      = fields sep quote inQuote (word ++ part) rest := by
  induction part generalizing word with
  | nil => rw [List.nil_append, List.append_nil]
  | cons c part ih =>
      rw [List.mem_cons, not_or] at unquoted
      rw [List.mem_cons, not_or] at inside
      have within : ¬ (c = sep ∧ inQuote = false) := by
        rintro ⟨rfl, outside⟩
        rcases inside with quoted | absent
        · exact absurd quoted (Bool.eq_false_iff.mp outside)
        · exact absent.1 rfl
      rw [List.cons_append, fields, if_neg (Ne.symm unquoted.1), if_neg within,
        ih unquoted.2 (inside.imp_right And.right), List.append_assoc, List.singleton_append]

/-- Separators in front make no fields. -/
theorem fields_replicate (different : sep ≠ quote) (count : Nat)
    : fields sep quote false [] (List.replicate count sep ++ rest)
      = fields sep quote false [] rest := by
  induction count with
  | zero => rfl
  | succ count ih =>
      rw [List.replicate_succ, List.cons_append, fields_sep different, ih]
      rfl

theorem fields_separators (different : sep ≠ quote) (count : Nat)
    : fields sep quote false [] (List.replicate count sep) = [] := by
  rw [← List.append_nil (List.replicate count sep), fields_replicate different]
  rfl

/-- Separators end a word. -/
theorem fields_end (different : sep ≠ quote) (nonempty : word ≠ []) {count : Nat}
    (positive : 0 < count)
    : fields sep quote false word (List.replicate count sep ++ rest)
      = word :: fields sep quote false [] rest := by
  obtain ⟨more, rfl⟩ := Nat.exists_eq_succ_of_ne_zero (Nat.ne_of_gt positive)
  rw [List.replicate_succ, List.cons_append, fields_sep different, fields_replicate different,
    keep_of_ne_nil nonempty, List.singleton_append]

/-- A wrapped word is read as one. -/
theorem fields_wrap (different : sep ≠ quote) (unquoted : quote ∉ word)
    : fields sep quote false [] (wrap sep quote word ++ rest)
      = fields sep quote false (wrap sep quote word) rest := by
  unfold wrap
  split
  · calc
      fields sep quote false [] (quote :: (word ++ [quote]) ++ rest)
      _ = fields sep quote true [quote] (word ++ ([quote] ++ rest)) := by
        rw [List.cons_append, fields_quote different, List.append_assoc]
        rfl
      _ = fields sep quote true ([quote] ++ word) ([quote] ++ rest) :=
        fields_append unquoted (.inl rfl)
      _ = fields sep quote false (quote :: (word ++ [quote])) rest := by
        rw [List.singleton_append, List.singleton_append, fields_quote different]
        rfl
  · next absent => exact fields_append unquoted (.inr absent)

theorem wrap_ne_nil (nonempty : word ≠ []) : wrap sep quote word ≠ [] := by
  unfold wrap
  split
  · exact List.cons_ne_nil _ _
  · exact nonempty

/-- A word is not changed exactly if it has no separator. -/
theorem wrap_eq_iff : wrap sep quote word = word ↔ sep ∉ word := by
  unfold wrap
  split
  · next present =>
      refine iff_of_false (fun same => ?_) (not_not_intro present)
      have longer := congrArg List.length same
      rw [List.length_cons, List.length_append] at longer
      omega
  · next absent => exact iff_of_true rfl absent

-----------------------------------------------------------------------------------------
-- Whole lines
-----------------------------------------------------------------------------------------

/-- The words after another one are read one by one, by induction on them. -/
theorem fields_following (different : sep ≠ quote) {gap : Nat → Nat} (positive : ∀ i, 0 < gap i)
    {words : List (List α)} (nonempty : ∀ word ∈ words, word ≠ [])
    (unquoted : ∀ word ∈ words, quote ∉ word) (begun : word ≠ []) (trailing : Nat)
    : fields sep quote false word
        (following sep quote gap words ++ List.replicate trailing sep)
      = word :: words.map (wrap sep quote) := by
  induction words generalizing word gap with
  | nil =>
      cases trailing with
      | zero => exact keep_of_ne_nil begun
      | succ more =>
          rw [following, List.nil_append, ← List.append_nil (List.replicate _ sep),
            fields_end different begun (Nat.succ_pos more)]
          rfl
  | cons next words ih =>
      have filled := nonempty next List.mem_cons_self
      have plain := unquoted next List.mem_cons_self
      rw [following, List.append_assoc, List.append_assoc,
        fields_end different begun (positive 0), fields_wrap different plain]
      rw [ih (fun i => positive (i + 1)) (fun w later => nonempty w (List.mem_cons_of_mem _ later))
        (fun w later => unquoted w (List.mem_cons_of_mem _ later)) (wrap_ne_nil filled),
        List.map_cons]

/-- The fields of a line are its wrapped words. -/
theorem fields_line (different : sep ≠ quote) {gap : Nat → Nat} (positive : ∀ i, 0 < gap i)
    {words : List (List α)} (nonempty : ∀ word ∈ words, word ≠ [])
    (unquoted : ∀ word ∈ words, quote ∉ word) (leading trailing : Nat)
    : fields sep quote false [] (line sep quote leading gap trailing words)
      = words.map (wrap sep quote) := by
  rw [line, List.append_assoc, fields_replicate different]
  cases words with
  | nil => exact fields_separators different trailing
  | cons word words =>
      have filled := nonempty word List.mem_cons_self
      have plain := unquoted word List.mem_cons_self
      rw [joined, List.append_assoc, fields_wrap different plain]
      exact fields_following different positive
        (fun w later => nonempty w (List.mem_cons_of_mem _ later))
        (fun w later => unquoted w (List.mem_cons_of_mem _ later)) (wrap_ne_nil filled) trailing

-----------------------------------------------------------------------------------------
-- Other alphabets
-----------------------------------------------------------------------------------------

/-- Reading fields and encoding commute, by induction on the line. -/
theorem Encodes.fields [DecidableEq β] (encodes : Encodes encode sep quote sepCode quoteCode)
    (different : sep ≠ quote) (inQuote : Bool) (word line : List α)
    : Quoting.fields sepCode quoteCode inQuote (word.flatMap encode) (line.flatMap encode)
      = (Quoting.fields sep quote inQuote word line).map (·.flatMap encode) := by
  have apart := encodes.code_ne different
  induction line generalizing inQuote word with
  | nil => exact encodes.keep word
  | cons c rest ih =>
      by_cases quoting : c = quote
      · subst quoting
        rw [List.flatMap_cons, encodes.quoteAlone, List.singleton_append, fields_quote apart,
          fields_quote different, ← ih, List.flatMap_append, List.flatMap_singleton,
          encodes.quoteAlone]
      · by_cases separates : c = sep ∧ inQuote = false
        · obtain ⟨rfl, rfl⟩ := separates
          rw [List.flatMap_cons, encodes.sepAlone, List.singleton_append, fields_sep apart,
            fields_sep different, List.map_append, ← ih, encodes.keep]
          rfl
        · -- the element is a part of the word on both sides
          have within : inQuote = true ∨ c ≠ sep := by
            by_cases same : c = sep
            · exact .inl (Bool.not_eq_false _ ▸ not_and.mp separates same)
            · exact .inr same
          have plain : quote ∉ [c] := fun present => quoting (List.mem_singleton.mp present).symm
          have code : quoteCode ∉ encode c := mt (encodes.quoteOnly c) quoting
          rw [List.flatMap_cons,
            fields_append code (within.imp_right (mt (encodes.sepOnly c))),
            ← List.singleton_append (x := c),
            fields_append plain (within.imp_right fun other present =>
              other (List.mem_singleton.mp present).symm),
            ← ih, List.flatMap_append, List.flatMap_singleton]

end Quoting
