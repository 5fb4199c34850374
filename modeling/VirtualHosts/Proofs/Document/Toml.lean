/-
Writing TOML, and reading it again.

A table is written with a line for each field, and what is inside its values on the same line.
Whatever can be written so is read as it was.  A value is read up to the character behind it,
which is none of a word; so the readers are told what they do with any text behind a value.
-/

import VirtualHosts.Document.Toml
import VirtualHosts.Proofs.Document.Writing

namespace VirtualHosts.Toml

/-! ### Strings -/

theorem cutShort_plain {c : Char} (noQuote : c ≠ '"') (noEscape : c ≠ '\\') {rest : List Char}
    (more : rest ≠ []) :
    cutShort '"' true (c :: rest) =
      (cutShort '"' true rest).map fun (text, rest) => (c :: text, rest) := by
  cases rest with
  | nil => exact absurd rfl more
  | cons next rest => simp [cutShort, noQuote, noEscape]

theorem cutShort_escape (letter : Char) (rest : List Char) :
    cutShort '"' true ('\\' :: letter :: rest) =
      (cutShort '"' true rest).map fun (text, rest) => ('\\' :: letter :: text, rest) := by
  simp [cutShort]

theorem cutShort_escaped (c : Char) {rest : List Char} (more : rest ≠ []) :
    cutShort '"' true (Text.escaped c ++ rest) =
      (cutShort '"' true rest).map fun (text, rest) => (Text.escaped c ++ text, rest) := by
  rcases Text.escaped_cases c with ⟨_, written⟩ | ⟨control, written⟩ |
    ⟨noQuote, noEscape, _, written⟩
  · rw [written]
    exact cutShort_escape c rest
  · have small := Text.isControl_lt control
    obtain ⟨high, high'⟩ := Text.digitChar_plain (n := c.toNat / 16) (by omega)
    obtain ⟨low, low'⟩ := Text.digitChar_plain (n := c.toNat % 16) (by omega)
    rw [written]
    simp only [List.cons_append, List.nil_append]
    rw [cutShort_escape, cutShort_plain (by decide) (by decide) (List.cons_ne_nil _ _),
      cutShort_plain (by decide) (by decide) (List.cons_ne_nil _ _),
      cutShort_plain high high' (List.cons_ne_nil _ _), cutShort_plain low low' more]
    simp only [Option.map_map]
    rfl
  · rw [written]
    exact cutShort_plain noQuote noEscape more

theorem cutShort_escapedText (chars rest : List Char) :
    cutShort '"' true (Text.escapedText chars ++ '"' :: rest) =
      some (Text.escapedText chars, rest) := by
  induction chars with
  | nil => cases rest <;> rfl
  | cons c others ih =>
      rw [Text.escapedText_cons, List.append_assoc, cutShort_escaped c (by simp), ih]
      rfl

theorem coded?_control {c : Char} (control : Text.isControl c = true) :
    coded? ['0', '0', Nat.digitChar (c.toNat / 16), Nat.digitChar (c.toNat % 16)] = some c := by
  have valid : c.toNat.isValidChar := c.valid
  rw [coded?, Text.natural?_control (Text.isControl_lt control)]
  exact dif_pos valid

theorem unescape?_escaped (c : Char) (rest : List Char) :
    unescape? false false (Text.escaped c ++ rest) =
      (unescape? false false rest).map (c :: ·) := by
  rcases Text.escaped_cases c with ⟨mark, written⟩ | ⟨control, written⟩ |
    ⟨_, noEscape, plain, written⟩
  · rw [written]
    rcases mark with rfl | rfl <;> cases found : unescape? false false rest <;>
      simp [unescape?, simpleEscape?, found]
  · rw [written]
    cases found : unescape? false false rest <;> simp [unescape?, coded?_control control, found]
  · have shown : isPlain c = true := by
      simp only [Text.isControl, Bool.or_eq_false_iff, decide_eq_false_iff_not, beq_eq_false_iff_ne]
        at plain
      simp [isPlain, plain.2]
      omega
    have noBreak : c ≠ '\n' := by
      rintro rfl
      cases plain
    have noReturn : c ≠ '\r' := by
      rintro rfl
      cases plain
    rw [written]
    simp [unescape?, noReturn, shown]

theorem unescape?_escapedText (chars : List Char) :
    unescape? false false (Text.escapedText chars) = some chars := by
  induction chars with
  | nil => rfl
  | cons c rest ih => rw [Text.escapedText_cons, unescape?_escaped, ih, Option.map_some]

theorem shortString?_quoted (text : String) (rest : List Char) :
    shortString? (Text.quoted text ++ rest) = some (text, rest) := by
  rw [Text.quoted, List.append_assoc, List.cons_append, List.singleton_append, shortString?,
    cutShort_escapedText]
  simp only [Option.bind_eq_bind, Option.bind_some, unescape?_escapedText, String.ofList_toList]
  rfl

/-- What stands behind a value: a character of no word, and no blank or quotation mark. -/
def Delimited (rest : List Char) : Prop :=
  ∃ c tail, rest = c :: tail ∧ (c = ',' ∨ c = ']' ∨ c = '\x7d' ∨ c = '\n')

theorem string?_quoted (text : String) {rest : List Char} (delimited : Delimited rest) :
    string? (Text.quoted text ++ rest) = some (text, rest) := by
  have short := shortString?_quoted text rest
  rw [Text.quoted, List.append_assoc, List.cons_append, List.singleton_append] at short ⊢
  rw [string?]
  · exact short
  · intro inner shape
    obtain ⟨c, tail, rfl, closes⟩ := delimited
    rw [List.cons.injEq] at shape
    cases chars : text.toList with
    | nil =>
        rw [chars] at shape
        have quote := (List.cons.inj (List.cons.inj shape.2).2).1
        subst quote
        simp at closes
    | cons first others =>
        obtain ⟨mark, more, written, noQuote⟩ := Text.escaped_head first
        rw [chars, Text.escapedText_cons, written] at shape
        exact noQuote (List.cons.inj shape.2).1
  · intro inner shape
    cases shape

/-! ### Scalars -/

theorem word_append {chars rest : List Char} (oneWord : ∀ c ∈ chars, isWordChar c = true)
    (ends : rest = [] ∨ Delimited rest) : word (chars ++ rest) = (chars, rest) := by
  rcases ends with rfl | ⟨c, tail, rfl, closes⟩
  · have taken := List.takeWhile_eq_self_iff.mpr oneWord
    have dropped := List.dropWhile_eq_nil_iff.mpr oneWord
    rw [List.append_nil, word, taken, dropped]
    split
    · rename_i shape
      cases shape
    · rfl
  · have stops : isWordChar c = false := by rcases closes with rfl | rfl | rfl | rfl <;> rfl
    have noBlank : c ≠ ' ' := by
      rintro rfl
      simp at closes
    have taken : (chars ++ c :: tail).takeWhile isWordChar = chars := by
      rw [List.takeWhile_append_of_pos oneWord, List.takeWhile_cons_of_neg (by simp [stops]),
        List.append_nil]
    have dropped : (chars ++ c :: tail).dropWhile isWordChar = c :: tail := by
      rw [List.dropWhile_append_of_pos oneWord, List.dropWhile_cons_of_neg (by simp [stops])]
    rw [word, taken, dropped]
    split
    · rename_i next _ shape
      exact absurd (List.cons.inj shape).1 noBlank
    · rfl

theorem scalar?_append {chars rest : List Char} (oneWord : ∀ c ∈ chars, isWordChar c = true)
    (delimited : Delimited rest) :
    scalar? (chars ++ rest) = (scalar? chars).map fun found => (found.1, rest) := by
  have alone := word_append oneWord (.inl rfl)
  rw [List.append_nil] at alone
  rw [scalar?, scalar?, word_append oneWord (.inr delimited), alone, Option.map_map]
  rfl

theorem digits?_eq_some {count n : Nat} {chars rest : List Char}
    (found : digits? count chars = some (n, rest)) : rest = chars.drop count := by
  rw [digits?] at found
  split at found
  · obtain ⟨m, _, same⟩ := Option.map_eq_some_iff.mp found
    exact (congrArg Prod.snd same).symm
  · cases found

theorem expect?_of_notMem {c : Char} {chars : List Char} (absent : c ∉ chars) :
    expect? c chars = none := by
  cases chars with
  | nil => rfl
  | cons first rest =>
      rw [expect?, if_neg]
      rintro rfl
      exact absent List.mem_cons_self

theorem dateTime?_of_notMem {chars : List Char} (noDash : '-' ∉ chars.drop 4)
    (noColon : ':' ∉ chars.drop 2) : dateTime? chars = none := by
  have noDate : date? chars = none := by
    rw [date?]
    cases found : digits? 4 chars with
    | none => rfl
    | some year =>
        obtain ⟨year, rest⟩ := year
        rw [← digits?_eq_some found] at noDash
        simp [expect?_of_notMem noDash]
  have noTime : time? chars = none := by
    rw [time?]
    cases found : digits? 2 chars with
    | none => rfl
    | some hour =>
        obtain ⟨hour, rest⟩ := hour
        rw [← digits?_eq_some found] at noColon
        simp [expect?_of_notMem noColon]
  rw [dateTime?, noDate, noTime]

/-- Behind its first character an integer has digits only. -/
theorem isDigit_of_mem_drop {n : Int} {count : Nat} {c : Char}
    (member : c ∈ (Text.integerText n).drop (count + 1)) : c.isDigit = true := by
  cases n with
  | ofNat size => exact Text.isDigit_toDigits size c (List.mem_of_mem_drop member)
  | negSucc size =>
      rw [Text.integerText, List.drop_succ_cons] at member
      exact Text.isDigit_toDigits (size + 1) c (List.mem_of_mem_drop member)

theorem dateTime?_integerText (n : Int) : dateTime? (Text.integerText n) = none := by
  apply dateTime?_of_notMem
  · intro member
    cases isDigit_of_mem_drop member
  · intro member
    cases isDigit_of_mem_drop member

theorem underscored?_toDigits (n : Nat) :
    underscored? 10 (Nat.toDigits 10 n) = some (Nat.toDigits 10 n) := by
  have digits := Text.isDigit_toDigits n
  have whole : Text.pieces (· == '_') (Nat.toDigits 10 n) = [Nat.toDigits 10 n] := by
    apply Text.pieces_of_notMem
    intro member
    cases digits '_' member
  have each : ((Nat.toDigits 10 n).all fun c => (Text.digitIn? 10 c).isSome) = true := by
    rw [List.all_eq_true]
    intro c member
    rw [Text.digitIn?_ten, if_pos (digits c member)]
    rfl
  simp [underscored?, whole, each, Nat.toDigits_ne_nil]

theorem whole?_toDigits (n : Nat) : whole? (Nat.toDigits 10 n) = some (Nat.toDigits 10 n) := by
  rw [whole?, underscored?_toDigits]
  exact Option.filter_some_pos (Text.toDigits_proper n)

theorem integer?_integerText {n : Int} (above : -2 ^ 63 ≤ n) (below : n < 2 ^ 63) :
    integer? (Text.integerText n) = some (.integer n) := by
  have unbased : ∀ letter rest, Text.integerText n = '0' :: letter :: rest →
      letter.isDigit = true := by
    intro letter rest shape
    have behind : letter ∈ (Text.integerText n).drop (0 + 1) := by
      rw [shape]
      exact List.mem_cons_self
    exact isDigit_of_mem_drop behind
  rw [integer?]
  · cases n with
    | ofNat size =>
        have small : size < Nat.pow 2 63 := by
          have bound : (size : Int) < 2 ^ 63 := below
          norm_num
          omega
        have unsigned : sign (Nat.toDigits 10 size) = (false, Nat.toDigits 10 size) := by
          rw [sign]
          · intro rest shape
            cases Text.isDigit_toDigits size '+' (by rw [shape]; exact List.mem_cons_self)
          · intro rest shape
            cases Text.isDigit_toDigits size '-' (by rw [shape]; exact List.mem_cons_self)
        simp [Text.integerText, unsigned, whole?_toDigits, Text.natural?_toDigits, small]
    | negSucc size =>
        have small : size + 1 ≤ Nat.pow 2 63 := by
          rw [Int.negSucc_eq] at above
          norm_num
          omega
        simp [Text.integerText, sign, whole?_toDigits, Text.natural?_toDigits, small,
          Int.negSucc_eq]
  · intro rest shape
    cases unbased _ _ shape
  · intro rest shape
    cases unbased _ _ shape
  · intro rest shape
    cases unbased _ _ shape

theorem integerText_oneWord (n : Int) : ∀ c ∈ Text.integerText n, isWordChar c = true := by
  intro c member
  rcases Text.mem_integerText member with rfl | digit
  · rfl
  · simp [isWordChar, Char.isAlphanum, digit]

theorem scalar?_integerText {n : Int} (above : -2 ^ 63 ≤ n) (below : n < 2 ^ 63) :
    scalar? (Text.integerText n) = some (.integer n, []) := by
  have alone := word_append (integerText_oneWord n) (.inl rfl)
  have noName (chars : List Char) (first : 't' ∈ chars ∨ 'f' ∈ chars) :
      Text.integerText n ≠ chars := by
    rintro rfl
    rcases first with member | member <;> rcases Text.mem_integerText member with sign | digit
    · cases sign
    · cases digit
    · cases sign
    · cases digit
  rw [List.append_nil] at alone
  simp [scalar?, alone, noName ['t', 'r', 'u', 'e'] (by decide),
    noName ['f', 'a', 'l', 's', 'e'] (by decide), dateTime?_integerText,
    integer?_integerText above below]

/-! ### Writing -/

mutual

/-- A value on one line; what cannot be written leaves nothing. -/
def writeValue : Value → List Char
  | .null => []
  | .bool flag => (if flag then "true" else "false").toList
  | .integer n => Text.integerText n
  | .decimal written => written.toList
  | .notFinite => "nan".toList
  | .text text => Text.quoted text
  | .array items => '[' :: (writeItems [] items ++ [']'])
  | .table fields => '\x7b' :: (writeFields [] fields ++ ['\x7d'])
  | .unreadable => []

/-- The items of an array with commas between them; the separator stands in front of the first. -/
def writeItems (separator : List Char) : List Value → List Char
  | [] => []
  | item :: rest => separator ++ writeValue item ++ writeItems [','] rest

def writeFields (separator : List Char) : List (String × Value) → List Char
  | [] => []
  | (name, value) :: rest =>
      separator ++ (Text.quoted name ++ '=' :: writeValue value) ++ writeFields [','] rest

end

def line (field : String × Value) : List Char :=
  Text.quoted field.1 ++ '=' :: (writeValue field.2 ++ ['\n'])

def write (fields : List (String × Value)) : String :=
  .ofList (fields.flatMap line)

/-- What TOML can write when arrays and tables are nested no deeper than there is room: integers
of 64 bits with a sign, other numbers as they are read, and what is made of them.  There is no
null, and no field is repeated. -/
inductive Writable : Nat → Value → Prop
  | bool (room : Nat) (flag : Bool) : Writable room (.bool flag)
  | integer {room : Nat} {n : Int} (above : -2 ^ 63 ≤ n) (below : n < 2 ^ 63) :
      Writable room (.integer n)
  | decimal {room : Nat} {written : String} (nonempty : written.toList ≠ [])
      (oneWord : ∀ c ∈ written.toList, isWordChar c = true)
      (read : scalar? written.toList = some (.decimal written, [])) :
      Writable room (.decimal written)
  | notFinite (room : Nat) : Writable room .notFinite
  | text (room : Nat) (text : String) : Writable room (.text text)
  | array {room : Nat} {items : List Value} (each : ∀ item ∈ items, Writable room item) :
      Writable (room + 1) (.array items)
  | table {room : Nat} {fields : List (String × Value)} (distinct : (fields.map Prod.fst).Nodup)
      (each : ∀ field ∈ fields, Writable room field.2) : Writable (room + 1) (.table fields)

/-! ### Tables under construction -/

/-- A table of values without dots and headers. -/
def Section.ofFields (fields : List (String × Value)) : Section :=
  ⟨false, false, fields.map fun field => (field.1, .value field.2)⟩

theorem Section.toValue_ofFields (fields : List (String × Value)) :
    (ofFields fields).toValue = .table fields := by
  have same : fieldValues (fields.map fun field => (field.1, .value field.2)) = fields := by
    induction fields with
    | nil => rfl
    | cons field rest ih =>
        rw [List.map_cons, fieldValues, ih]
        rfl
  rw [toValue, ofFields, same]

theorem Section.insert_ofFields {done : List (String × Value)} {name : String} (value : Value)
    (new : name ∉ done.map Prod.fst) :
    (ofFields done).insert [] name value = some (ofFields (done ++ [(name, value)])) := by
  have absent : ((ofFields done).fields.any (·.1 == name)) = false := by
    rw [List.any_eq_false]
    intro field member same
    obtain ⟨known, inside, rfl⟩ := List.mem_map.mp member
    exact new (List.mem_map.mpr ⟨known, inside, beq_iff_eq.mp same⟩)
  have placed : (ofFields done).set name (.value value) = ofFields (done ++ [(name, value)]) := by
    rw [set, if_neg (by rw [absent]; exact Bool.false_ne_true), ofFields, ofFields, List.map_append]
    rfl
  rw [insert, change, absent, placed]
  rfl

/-! ### Keys -/

theorem key?_quoted (name : String) (rest : List Char) :
    key? (Text.quoted name ++ '=' :: rest) = some ([name], '=' :: rest) := by
  have part : keyPart? (Text.quoted name ++ '=' :: rest) = some (name, '=' :: rest) := by
    rw [keyPart?]
    exact shortString?_quoted name _
  have start : skipBlanks (Text.quoted name ++ '=' :: rest) = Text.quoted name ++ '=' :: rest :=
    rfl
  rw [key?, keyParts?, start, part]
  rfl

/-! ### Values -/

/-- A character that is neither passed over nor ends a line. -/
def Shown (c : Char) : Prop :=
  isBlank c = false ∧ c ≠ '#' ∧ c ≠ '\n' ∧ c ≠ '\r'

instance (c : Char) : Decidable (Shown c) :=
  inferInstanceAs (Decidable (_ ∧ _))

theorem shown_of_isWordChar {c : Char} (word : isWordChar c = true) : Shown c := by
  refine ⟨?_, ?_, ?_, ?_⟩
  · rw [← Bool.not_eq_true]
    intro blank
    simp only [isBlank, Bool.or_eq_true, beq_iff_eq] at blank
    rcases blank with rfl | rfl <;> cases word
  · rintro rfl
    cases word
  · rintro rfl
    cases word
  · rintro rfl
    cases word

namespace Reading

theorem skip?_of_shown {c : Char} (shown : Shown c) (reading : Reading) (rest : List Char) :
    reading.skip? (c :: rest) = none := by
  obtain ⟨noBlank, noComment, noBreak, noReturn⟩ := shown
  have noLineEnd : newline? (c :: rest) = none := by simp [newline?, noBreak, noReturn]
  simp [skip?, noBlank, noComment, noLineEnd]

theorem run?_step {reading after : Reading} {chars rest : List Char}
    (unfinished : reading.result = none) (step : reading.step? chars = some (after, rest))
    (shorter : rest.length < chars.length) : reading.run? chars = after.run? rest := by
  rw [run?, unfinished]
  simp [step, shorter]

theorem run?_finished {reading : Reading} {value : Value} (finished : reading.result = some value)
    (chars : List Char) : reading.run? chars = some (value, chars) := by
  rw [run?, finished]

/-- Blanks in front are passed over in any case. -/
theorem run?_skipBlanks {reading : Reading} (unfinished : reading.result = none)
    (chars : List Char) : reading.run? (skipBlanks chars) = reading.run? chars := by
  cases chars with
  | nil => rfl
  | cons c rest =>
      cases blank : isBlank c with
      | false => rw [skipBlanks, List.dropWhile_cons_of_neg (by simp [blank])]
      | true =>
          have step : reading.step? (c :: rest) = some (reading, skipBlanks rest) := by
            simp [step?, skip?, blank]
          have shorter : (skipBlanks rest).length < (c :: rest).length :=
            Nat.lt_succ_of_le (List.dropWhile_sublist _).length_le
          rw [run?_step unfinished step shorter, skipBlanks, List.dropWhile_cons_of_pos blank]
          rfl

/-- A value may come next. -/
def Open (reading : Reading) : Prop :=
  reading.result = none ∧ (reading.expected = .value ∨ reading.expected = .item)

/-- Where a value may come next, only what is read of it counts. -/
theorem step?_of_open {reading : Reading} (opened : reading.Open) {c : Char} (shown : Shown c)
    (noClose : c ≠ ']') (rest : List Char) :
    reading.step? (c :: rest) = reading.value? (c :: rest) := by
  obtain ⟨frames, expected, result⟩ := reading
  unfold step?
  rw [skip?_of_shown shown]
  rcases opened.2 with same | same
  · cases same
    rfl
  · cases same
    simp [noClose]

/-- A step that leaves less to read, or fails. -/
theorem run?_of_step {reading : Reading} {after : Option Reading} {chars rest : List Char}
    (unfinished : reading.result = none) (step : reading.step? chars = after.map (·, rest))
    (shorter : rest.length < chars.length) : reading.run? chars = after.bind (·.run? rest) := by
  cases after with
  | none =>
      rw [Option.map_none] at step
      rw [run?, unfinished]
      simp [step]
  | some after => exact run?_step unfinished step shorter

/-- What is put where nothing is open ends the reading, whatever was to come next. -/
theorem bind_put_expected (frames : List Frame) (left right : Expected) (value : Value)
    (rest : List Char) :
    (put ⟨frames, left, none⟩ value).bind (·.run? rest) =
      (put ⟨frames, right, none⟩ value).bind (·.run? rest) := by
  match frames with
  | [] =>
      change run? ⟨[], left, some value⟩ rest = run? ⟨[], right, some value⟩ rest
      rw [run?_finished rfl, run?_finished rfl]
  | .array _ :: _ => rfl
  | .table .. :: _ => rfl

/-! ### Values on their own -/

theorem value?_oneWord (reading : Reading) {written rest : List Char} {value : Value}
    (nonempty : written ≠ []) (oneWord : ∀ c ∈ written, isWordChar c = true)
    (read : scalar? written = some (value, [])) (delimited : Delimited rest) :
    reading.value? (written ++ rest) = (reading.put value).map (·, rest) := by
  have found : scalar? (written ++ rest) = some (value, rest) := by
    rw [scalar?_append oneWord delimited, read]
    rfl
  obtain ⟨c, tail, rfl⟩ := List.exists_cons_of_ne_nil nonempty
  have letter {other : Char} {more : List Char} (noLetter : isWordChar other = false)
      (shape : c :: tail ++ rest = other :: more) : False := by
    have same := (List.cons.inj shape).1
    rw [← same, oneWord c List.mem_cons_self] at noLetter
    cases noLetter
  unfold value?
  split
  · rename_i shape
    exact (letter (by decide) shape).elim
  · rename_i shape
    exact (letter (by decide) shape).elim
  · rename_i shape
    exact (letter (by decide) shape).elim
  · rename_i shape
    exact (letter (by decide) shape).elim
  · rw [found]
    simp only [Option.bind_eq_bind, Option.bind_some]
    cases reading.put value <;> rfl

theorem value?_quoted (reading : Reading) (text : String) {rest : List Char}
    (delimited : Delimited rest) :
    reading.value? (Text.quoted text ++ rest) = (reading.put (.text text)).map (·, rest) := by
  have found := string?_quoted text delimited
  rw [Text.quoted, List.append_assoc, List.cons_append] at found ⊢
  rw [value?, found]
  simp only [Option.bind_eq_bind, Option.bind_some]
  cases reading.put (.text text) <;> rfl

/-- A value is read up to what stands behind it, and put where it belongs. -/
def ReadsBack (room : Nat) (value : Value) : Prop :=
  ∀ (reading : Reading) (rest : List Char), reading.Open → reading.frames.length + room < limit →
    Delimited rest →
    reading.run? (writeValue value ++ rest) = (reading.put value).bind (·.run? rest)

theorem readsBack_of_value? {room : Nat} {value : Value} {c : Char} {tail : List Char}
    (written : writeValue value = c :: tail) (shown : Shown c) (noClose : c ≠ ']')
    (reads : ∀ (reading : Reading) (rest : List Char), Delimited rest →
      reading.value? (writeValue value ++ rest) = (reading.put value).map (·, rest)) :
    ReadsBack room value := by
  intro reading rest opened _ delimited
  have read := reads reading rest delimited
  rw [written, List.cons_append] at read ⊢
  apply run?_of_step opened.1
  · rw [step?_of_open opened shown noClose, read]
  · rw [List.length_cons, List.length_append]
    omega

theorem readsBack_oneWord {room : Nat} {value : Value} (nonempty : writeValue value ≠ [])
    (oneWord : ∀ c ∈ writeValue value, isWordChar c = true)
    (read : scalar? (writeValue value) = some (value, [])) : ReadsBack room value := by
  obtain ⟨c, tail, written⟩ := List.exists_cons_of_ne_nil nonempty
  have first : isWordChar c = true := oneWord c (by rw [written]; exact List.mem_cons_self)
  apply readsBack_of_value? written (shown_of_isWordChar first)
  · rintro rfl
    cases first
  · intro reading rest delimited
    exact value?_oneWord reading nonempty oneWord read delimited

theorem readsBack_text (room : Nat) (text : String) : ReadsBack room (.text text) := by
  have shape : writeValue (.text text) = '"' :: (Text.escapedText text.toList ++ ['"']) := by
    rw [writeValue, Text.quoted, List.cons_append]
  apply readsBack_of_value? shape (by decide) (by decide)
  intro reading rest delimited
  rw [writeValue]
  exact value?_quoted reading text delimited

/-! ### Arrays and inline tables -/

/-- What stands in front of an item: nothing in front of the first, a comma in front of any
other. -/
def ItemFollows (separator : List Char) (expected : Expected) : Prop :=
  (separator = [] ∧ expected = .item) ∨ (separator = [','] ∧ expected = .next)

def FieldFollows (separator : List Char) (expected : Expected) : Prop :=
  (separator = [] ∧ expected = .firstKey) ∨ (separator = [','] ∧ expected = .next)

theorem run?_itemSeparator {separator : List Char} {expected : Expected}
    (follows : ItemFollows separator expected) (done : List Value) (frames : List Frame)
    (chars : List Char) :
    run? ⟨.array done :: frames, expected, none⟩ (separator ++ chars) =
      run? ⟨.array done :: frames, .item, none⟩ chars := by
  rcases follows with ⟨rfl, rfl⟩ | ⟨rfl, rfl⟩
  · rfl
  · apply run?_step rfl
    · unfold step?
      rw [List.singleton_append, skip?_of_shown (by decide)]
      rfl
    · simp

theorem run?_closeArray {separator : List Char} {expected : Expected}
    (follows : ItemFollows separator expected) (done : List Value) (frames : List Frame)
    (rest : List Char) :
    run? ⟨.array done :: frames, expected, none⟩ (']' :: rest) =
      (put ⟨frames, .value, none⟩ (.array done.reverse)).bind (·.run? rest) := by
  rw [bind_put_expected frames .value expected]
  apply run?_of_step rfl
  · unfold step?
    rw [skip?_of_shown (by decide)]
    rcases follows with ⟨_, rfl⟩ | ⟨_, rfl⟩ <;> rfl
  · simp

theorem delimited_writeItems (items : List Value) (rest : List Char) :
    Delimited (writeItems [','] items ++ ']' :: rest) := by
  cases items with
  | nil =>
      rw [writeItems]
      exact ⟨_, _, rfl, by decide⟩
  | cons item more =>
      rw [writeItems, List.append_assoc, List.append_assoc]
      exact ⟨_, _, rfl, by decide⟩

theorem run?_writeItems {room : Nat} {items : List Value}
    (each : ∀ item ∈ items, ReadsBack room item) {separator : List Char} {expected : Expected}
    (follows : ItemFollows separator expected) (done : List Value) {frames : List Frame}
    (enough : frames.length + 1 + room < limit) (rest : List Char) :
    run? ⟨.array done :: frames, expected, none⟩ (writeItems separator items ++ ']' :: rest) =
      (put ⟨frames, .value, none⟩ (.array (done.reverse ++ items))).bind (·.run? rest) := by
  -- What was read before the items is arbitrary: each step takes one item over to it.
  induction items generalizing separator expected done with
  | nil =>
      rw [writeItems, List.nil_append, List.append_nil]
      exact run?_closeArray follows done frames rest
  | cons item more ih =>
      have own := each item List.mem_cons_self ⟨.array done :: frames, .item, none⟩
        (writeItems [','] more ++ ']' :: rest) ⟨rfl, .inr rfl⟩ enough
        (delimited_writeItems more rest)
      have others := ih (fun other member => each other (List.mem_cons_of_mem item member))
        (.inr ⟨rfl, rfl⟩) (item :: done)
      rw [writeItems, List.append_assoc, List.append_assoc, run?_itemSeparator follows, own,
        List.append_cons done.reverse item more, ← List.reverse_cons, ← others]
      rfl

theorem run?_fieldSeparator {separator : List Char} {expected : Expected}
    (follows : FieldFollows separator expected) (made : Section) (path : List String)
    (last : String) (frames : List Frame) (chars : List Char) :
    ∃ opened : Expected, (opened = .firstKey ∨ opened = .key) ∧
      run? ⟨.table made path last :: frames, expected, none⟩ (separator ++ chars) =
        run? ⟨.table made path last :: frames, opened, none⟩ chars := by
  rcases follows with ⟨rfl, rfl⟩ | ⟨rfl, rfl⟩
  · exact ⟨.firstKey, .inl rfl, rfl⟩
  · refine ⟨.key, .inr rfl, run?_step rfl ?_ ?_⟩
    · unfold step?
      rw [List.singleton_append, skip?_of_shown (by decide)]
      rfl
    · simp

theorem run?_key {opened : Expected} (key : opened = .firstKey ∨ opened = .key) (made : Section)
    (path : List String) (last name : String) (frames : List Frame) (rest : List Char) :
    run? ⟨.table made path last :: frames, opened, none⟩ (Text.quoted name ++ '=' :: rest) =
      run? ⟨.table made [] name :: frames, .value, none⟩ rest := by
  have found := key?_quoted name rest
  rw [Text.quoted, List.append_assoc, List.cons_append] at found ⊢
  apply run?_step rfl
  · unfold step?
    rw [skip?_of_shown (by decide)]
    have read : field? ⟨.table made path last :: frames, opened, none⟩
        ('"' :: (Text.escapedText name.toList ++ (['"'] ++ '=' :: rest))) =
          some (⟨.table made [] name :: frames, .value, none⟩, rest) := by
      rw [field?, found]
      rfl
    rcases key with rfl | rfl
    · exact read
    · exact read
  · simp only [List.length_cons, List.length_append]
    omega

theorem run?_closeTable {separator : List Char} {expected : Expected}
    (follows : FieldFollows separator expected) (made : Section) (path : List String)
    (last : String) (frames : List Frame) (rest : List Char) :
    run? ⟨.table made path last :: frames, expected, none⟩ ('\x7d' :: rest) =
      (put ⟨frames, .value, none⟩ made.toValue).bind (·.run? rest) := by
  rw [bind_put_expected frames .value expected]
  apply run?_of_step rfl
  · unfold step?
    rw [skip?_of_shown (by decide)]
    rcases follows with ⟨_, rfl⟩ | ⟨_, rfl⟩ <;> rfl
  · simp

theorem delimited_writeFields (fields : List (String × Value)) (rest : List Char) :
    Delimited (writeFields [','] fields ++ '\x7d' :: rest) := by
  cases fields with
  | nil =>
      rw [writeFields]
      exact ⟨_, _, rfl, by decide⟩
  | cons field more =>
      obtain ⟨name, value⟩ := field
      rw [writeFields, List.append_assoc, List.append_assoc]
      exact ⟨_, _, rfl, by decide⟩

theorem run?_writeFields {room : Nat} {fields : List (String × Value)}
    (each : ∀ field ∈ fields, ReadsBack room field.2) {separator : List Char}
    {expected : Expected} (follows : FieldFollows separator expected)
    {done : List (String × Value)} (distinct : ((done ++ fields).map Prod.fst).Nodup)
    (path : List String) (last : String) {frames : List Frame}
    (enough : frames.length + 1 + room < limit) (rest : List Char) :
    run? ⟨.table (.ofFields done) path last :: frames, expected, none⟩
        (writeFields separator fields ++ '\x7d' :: rest) =
      (put ⟨frames, .value, none⟩ (.table (done ++ fields))).bind (·.run? rest) := by
  induction fields generalizing separator expected done path last with
  | nil =>
      rw [writeFields, List.nil_append, List.append_nil, ← Section.toValue_ofFields]
      exact run?_closeTable follows _ path last frames rest
  | cons field more ih =>
      obtain ⟨name, value⟩ := field
      obtain ⟨opened, key, separated⟩ := run?_fieldSeparator follows (.ofFields done) path last
        frames (Text.quoted name ++ '=' :: (writeValue value ++
          (writeFields [','] more ++ '\x7d' :: rest)))
      have own := each (name, value) List.mem_cons_self
        ⟨.table (.ofFields done) [] name :: frames, .value, none⟩
        (writeFields [','] more ++ '\x7d' :: rest) ⟨rfl, .inl rfl⟩ enough
        (delimited_writeFields more rest)
      have new : name ∉ done.map Prod.fst := by
        rw [List.map_append, List.map_cons] at distinct
        intro member
        exact (List.nodup_append.mp distinct).2.2 name member name List.mem_cons_self rfl
      rw [List.append_cons done (name, value) more] at distinct ⊢
      have others := ih (fun other member => each other (List.mem_cons_of_mem _ member))
        (.inr ⟨rfl, rfl⟩) distinct [] name
      have placed : put ⟨.table (.ofFields done) [] name :: frames, .value, none⟩ value =
          some ⟨.table (.ofFields (done ++ [(name, value)])) [] name :: frames, .next, none⟩ := by
        simp only [put, Section.insert_ofFields value new]
        rfl
      have shape : writeFields separator ((name, value) :: more) ++ '\x7d' :: rest =
          separator ++ (Text.quoted name ++ '=' :: (writeValue value ++
            (writeFields [','] more ++ '\x7d' :: rest))) := by
        simp [writeFields]
      rw [shape, separated, run?_key key, own, placed, Option.bind_some, others]

theorem run?_open {reading : Reading} (opened : reading.Open) {c : Char} (shown : Shown c)
    (noClose : c ≠ ']') {frame : Frame} {expected : Expected} {rest : List Char}
    (enough : reading.frames.length + 1 < limit)
    (reads : reading.value? (c :: rest) = (reading.push frame expected).map (·, rest)) :
    reading.run? (c :: rest) = run? ⟨frame :: reading.frames, expected, none⟩ rest := by
  have pushed : reading.push frame expected = some ⟨frame :: reading.frames, expected, none⟩ := by
    rw [push, if_pos enough, opened.1]
  apply run?_step opened.1
  · rw [step?_of_open opened shown noClose, reads, pushed]
    rfl
  · exact Nat.lt_succ_self _

end Reading

theorem Writable.readsBack {room : Nat} {value : Value} (writable : Writable room value) :
    Reading.ReadsBack room value := by
  -- What is opened on the way inwards is taken from the room, so that both stay below the limit.
  induction writable with
  | bool room flag =>
      cases flag
      · exact Reading.readsBack_oneWord (by decide) (List.all_eq_true.mp rfl) rfl
      · exact Reading.readsBack_oneWord (by decide) (List.all_eq_true.mp rfl) rfl
  | @integer room n above below =>
      apply Reading.readsBack_oneWord
      · rw [writeValue]
        exact Text.integerText_ne_nil n
      · rw [writeValue]
        exact integerText_oneWord n
      · rw [writeValue]
        exact scalar?_integerText above below
  | decimal nonempty oneWord read =>
      apply Reading.readsBack_oneWord
      · rw [writeValue]
        exact nonempty
      · rw [writeValue]
        exact oneWord
      · rw [writeValue]
        exact read
  | notFinite room => exact Reading.readsBack_oneWord (by decide) (List.all_eq_true.mp rfl) rfl
  | text room text => exact Reading.readsBack_text room text
  | @array room items each ih =>
      rintro ⟨frames, expected, result⟩ rest opened enough delimited
      cases opened.1
      have first : Reading.ItemFollows [] .item := .inl ⟨rfl, rfl⟩
      have inner : frames.length + 1 + room < limit := by
        rw [Nat.add_assoc, Nat.add_comm 1]
        exact enough
      have inside := Reading.run?_writeItems ih first [] inner rest
      rw [writeValue, List.cons_append, List.append_assoc, List.singleton_append,
        Reading.run?_open opened (by decide) (by decide) (by grind) rfl, inside]
      exact Reading.bind_put_expected frames .value expected (.array items) rest
  | @table room fields distinct each ih =>
      rintro ⟨frames, expected, result⟩ rest opened enough delimited
      cases opened.1
      have first : Reading.FieldFollows [] .firstKey := .inl ⟨rfl, rfl⟩
      have inner : frames.length + 1 + room < limit := by
        rw [Nat.add_assoc, Nat.add_comm 1]
        exact enough
      have inside := @Reading.run?_writeFields room fields ih [] .firstKey first [] distinct [] ""
        frames inner rest
      rw [writeValue, List.cons_append, List.append_assoc, List.singleton_append,
        Reading.run?_open opened (by decide) (by decide) (by grind) rfl]
      exact inside.trans (Reading.bind_put_expected frames .value expected (.table fields) rest)

/-! ### Lines -/

theorem value?_writeValue {value : Value} (writable : Writable (limit - 1) value)
    {rest : List Char} (delimited : Delimited rest) :
    value? (writeValue value ++ rest) = some (value, rest) := by
  have read := writable.readsBack .start rest ⟨rfl, .inl rfl⟩ (by decide) delimited
  rw [value?, Reading.run?_skipBlanks rfl, read]
  exact Reading.run?_finished rfl rest

namespace Draft

theorem line?_line {name : String} {value : Value} (writable : Writable (limit - 1) value)
    {done : List (String × Value)} (new : name ∉ done.map Prod.fst) (rest : List Char) :
    line? { current := .ofFields done } (line (name, value) ++ rest) =
      some ({ current := .ofFields (done ++ [(name, value)]) }, rest) := by
  have shape : line (name, value) ++ rest =
      Text.quoted name ++ '=' :: (writeValue value ++ '\n' :: rest) := by
    simp [line]
  have key := key?_quoted name (writeValue value ++ '\n' :: rest)
  have delimited : Delimited ('\n' :: rest) := ⟨_, _, rfl, by decide⟩
  have read := value?_writeValue writable delimited
  have placed : field { current := .ofFields done } [name] value =
      some { current := .ofFields (done ++ [(name, value)]) } := by
    simp only [field, List.reverse_singleton, List.reverse_nil, Section.insert_ofFields value new]
    rfl
  have ended : lineEnd? ('\n' :: rest) = some rest := rfl
  rw [shape]
  rw [Text.quoted, List.append_assoc, List.cons_append] at key ⊢
  unfold line?
  simp only [key, Option.bind_eq_bind, Option.bind_some, read, placed, ended]
  rfl

theorem run?_lines {done fields : List (String × Value)}
    (distinct : ((done ++ fields).map Prod.fst).Nodup)
    (writable : ∀ field ∈ fields, Writable (limit - 1) field.2) :
    run? { current := .ofFields done } (fields.flatMap line) =
      some { current := .ofFields (done ++ fields) } := by
  induction fields generalizing done with
  | nil => rw [List.flatMap_nil, List.append_nil, run?]
  | cons field more ih =>
      obtain ⟨name, value⟩ := field
      have new : name ∉ done.map Prod.fst := by
        rw [List.map_append, List.map_cons] at distinct
        intro member
        exact (List.nodup_append.mp distinct).2.2 name member name List.mem_cons_self rfl
      have read := line?_line (writable (name, value) List.mem_cons_self) new (more.flatMap line)
      obtain ⟨tail, shape⟩ : ∃ tail, line (name, value) ++ more.flatMap line = '"' :: tail :=
        ⟨_, rfl⟩
      rw [List.append_cons done (name, value) more] at distinct ⊢
      rw [List.flatMap_cons, shape]
      rw [shape] at read
      have shorter : (more.flatMap line).length ≤ tail.length := by
        have same := congrArg List.length shape
        simp only [line, Text.quoted, List.length_append, List.length_cons] at same
        omega
      rw [run?, if_neg (by decide), read]
      simp only [if_pos shorter]
      exact ih distinct fun other member => writable other (List.mem_cons_of_mem _ member)

end Draft

/-- What can be written is read as it was. -/
theorem read?_write {fields : List (String × Value)} (distinct : (fields.map Prod.fst).Nodup)
    (writable : ∀ field ∈ fields, Writable (limit - 1) field.2) :
    read? (write fields) = some (.table fields) := by
  have read : Draft.run? {} (fields.flatMap line) = some { current := .ofFields fields } :=
    @Draft.run?_lines [] fields distinct writable
  have unmarked : ∀ rest, fields.flatMap line ≠ '\uFEFF' :: rest := by
    intro rest marked
    cases fields with
    | nil => cases marked
    | cons field more => cases marked
  rw [read?, write, String.toList_ofList]
  simp only [read, Option.bind_eq_bind, Option.bind_some]
  simp [Draft.settle, Section.toValue_ofFields]

example : write [("index", .text "a.html"), ("proxy", .table [("port", .integer 80)])] =
    "\"index\"=\"a.html\"\n\"proxy\"=\x7b\"port\"=80\x7d\n" := by
  rfl

end VirtualHosts.Toml
