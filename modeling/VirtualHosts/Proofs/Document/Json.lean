/-
Writing JSON, and reading it again.

A value is written as a row of tokens with a blank behind each.  Whatever can be written so is
read as it was: the text is cut into the same tokens, and the tokens build the same value.
-/

import VirtualHosts.Document.Json
import VirtualHosts.Proofs.Document.Writing

namespace VirtualHosts.Json

/-! ### Writing -/

def Token.text : Token → List Char
  | .openArray => ['[']
  | .closeArray => [']']
  | .openTable => ['\x7b']
  | .closeTable => ['\x7d']
  | .comma => [',']
  | .colon => [':']
  | .quoted text => Text.quoted (text.getD "")
  | .number (.integer n) => Text.integerText n
  | .number (.decimal written) => written.toList
  | .number _ => []
  | .word .null => "null".toList
  | .word (.bool flag) => (if flag then "true" else "false").toList
  | .word _ => []

mutual

def tokensOf : Value → List Token
  | .null => [.word .null]
  | .bool flag => [.word (.bool flag)]
  | .text text => [.quoted (some text)]
  | .array items => .openArray :: (itemTokens [] items ++ [.closeArray])
  | .table fields => .openTable :: (fieldTokens [] fields ++ [.closeTable])
  | .integer n => [.number (.integer n)]
  | .decimal written => [.number (.decimal written)]
  | .notFinite => [.number .notFinite]
  | .unreadable => [.number .unreadable]

/-- The items of an array with commas between them; the separator stands in front of the first. -/
def itemTokens (separator : List Token) : List Value → List Token
  | [] => []
  | item :: rest => separator ++ tokensOf item ++ itemTokens [.comma] rest

def fieldTokens (separator : List Token) : List (String × Value) → List Token
  | [] => []
  | (name, value) :: rest =>
      separator ++ (.quoted (some name) :: .colon :: tokensOf value) ++ fieldTokens [.comma] rest

end

def write (value : Value) : String :=
  .ofList ((tokensOf value).flatMap fun token => token.text ++ [' '])

/-- What JSON can write: integers of 64 bits, other numbers as they are read, and what is made of
them. -/
inductive Writable : Value → Prop
  | null : Writable .null
  | bool (flag : Bool) : Writable (.bool flag)
  | integer {n : Int} (above : -2 ^ 63 ≤ n) (below : n < 2 ^ 64) : Writable (.integer n)
  | decimal {written : String} (oneWord : ∀ c ∈ written.toList, isWordChar c = true)
      (read : number? written.toList = some (.decimal written)) : Writable (.decimal written)
  | text (text : String) : Writable (.text text)
  | array {items : List Value} (each : ∀ item ∈ items, Writable item) : Writable (.array items)
  | table {fields : List (String × Value)} (each : ∀ field ∈ fields, Writable field.2) :
      Writable (.table fields)

theorem writable_array {items : List Value} :
    Writable (.array items) ↔ ∀ item ∈ items, Writable item :=
  ⟨fun (.array each) => each, .array⟩

theorem writable_table {fields : List (String × Value)} :
    Writable (.table fields) ↔ ∀ field ∈ fields, Writable field.2 :=
  ⟨fun (.table each) => each, .table⟩

/-! ### Values from tokens -/

theorem State.put_expected (state : State) (expected : Expected) (value : Value) :
    ({ state with expected }).put value = state.put value := by
  obtain ⟨frames, _, _⟩ := state
  match frames with
  | [] => rfl
  | .array _ :: _ => rfl
  | .table .. :: _ => rfl

/-- A value may come next. -/
def State.Open (state : State) : Prop :=
  state.expected = .value ∨ state.expected = .firstItem

theorem State.step_word {state : State} (opened : state.Open) (value : Value) :
    state.step (.word value) = some (state.put value) := by
  obtain ⟨frames, expected, result⟩ := state
  rcases opened with same | same <;> cases same <;> rfl

theorem State.step_number {state : State} (opened : state.Open) (value : Value) :
    state.step (.number value) = some (state.put value) := by
  obtain ⟨frames, expected, result⟩ := state
  rcases opened with same | same <;> cases same <;> rfl

theorem State.step_quoted {state : State} (opened : state.Open) (text : String) :
    state.step (.quoted (some text)) = some (state.put (.text text)) := by
  obtain ⟨frames, expected, result⟩ := state
  rcases opened with same | same <;> cases same <;> rfl

theorem State.step_openArray {state : State} (opened : state.Open) :
    state.step .openArray =
      some { state with frames := .array [] :: state.frames, expected := .firstItem } := by
  obtain ⟨frames, expected, result⟩ := state
  rcases opened with same | same <;> cases same <;> rfl

theorem State.step_openTable {state : State} (opened : state.Open) :
    state.step .openTable =
      some { state with frames := .table [] true "" :: state.frames, expected := .firstKey } := by
  obtain ⟨frames, expected, result⟩ := state
  rcases opened with same | same <;> cases same <;> rfl

theorem foldlM_single {state after : State} {token : Token} (step : state.step token = some after)
    (rest : List Token) :
    ([token] ++ rest).foldlM State.step state = rest.foldlM State.step after := by
  rw [List.singleton_append, List.foldlM_cons, step]
  rfl

/-- What stands in front of an item: nothing in front of the first, a comma in front of any
other. -/
def ItemFollows (separator : List Token) (expected : Expected) : Prop :=
  (separator = [] ∧ expected = .firstItem) ∨ (separator = [.comma] ∧ expected = .next)

def FieldFollows (separator : List Token) (expected : Expected) : Prop :=
  (separator = [] ∧ expected = .firstKey) ∨ (separator = [.comma] ∧ expected = .next)

theorem foldlM_itemSeparator {separator : List Token} {expected : Expected}
    (follows : ItemFollows separator expected) (done : List Value) (frames : List Frame)
    (result : Option Value) :
    ∃ opened : Expected, (opened = .value ∨ opened = .firstItem) ∧
      separator.foldlM State.step ⟨.array done :: frames, expected, result⟩ =
        some ⟨.array done :: frames, opened, result⟩ := by
  rcases follows with ⟨rfl, rfl⟩ | ⟨rfl, rfl⟩
  · exact ⟨.firstItem, .inr rfl, rfl⟩
  · exact ⟨.value, .inl rfl, rfl⟩

theorem step_closeArray {separator : List Token} {expected : Expected}
    (follows : ItemFollows separator expected) (done : List Value) (frames : List Frame)
    (result : Option Value) :
    State.step ⟨.array done :: frames, expected, result⟩ .closeArray =
      some (State.put ⟨frames, .value, result⟩ (.array done.reverse)) := by
  rw [← State.put_expected ⟨frames, .value, result⟩ expected]
  rcases follows with ⟨_, rfl⟩ | ⟨_, rfl⟩ <;> rfl

theorem foldlM_key {separator : List Token} {expected : Expected}
    (follows : FieldFollows separator expected) (done : List (String × Value))
    (last name : String) (frames : List Frame) (result : Option Value) :
    (separator ++ [Token.quoted (some name), Token.colon]).foldlM State.step
        ⟨.table done true last :: frames, expected, result⟩ =
      some ⟨.table done true name :: frames, .value, result⟩ := by
  rcases follows with ⟨rfl, rfl⟩ | ⟨rfl, rfl⟩ <;> rfl

theorem step_closeTable {separator : List Token} {expected : Expected}
    (follows : FieldFollows separator expected) (done : List (String × Value)) (last : String)
    (frames : List Frame) (result : Option Value) :
    State.step ⟨.table done true last :: frames, expected, result⟩ .closeTable =
      some (State.put ⟨frames, .value, result⟩ (.table done.reverse)) := by
  rw [← State.put_expected ⟨frames, .value, result⟩ expected]
  rcases follows with ⟨_, rfl⟩ | ⟨_, rfl⟩ <;> rfl

mutual

theorem foldlM_tokensOf : (value : Value) → (state : State) → state.Open → (rest : List Token) →
    (tokensOf value ++ rest).foldlM State.step state = rest.foldlM State.step (state.put value)
  | .null, _, opened, rest => by
      rw [tokensOf]
      exact foldlM_single (State.step_word opened _) rest
  | .bool flag, _, opened, rest => by
      rw [tokensOf]
      exact foldlM_single (State.step_word opened _) rest
  | .integer n, _, opened, rest => by
      rw [tokensOf]
      exact foldlM_single (State.step_number opened _) rest
  | .decimal written, _, opened, rest => by
      rw [tokensOf]
      exact foldlM_single (State.step_number opened _) rest
  | .notFinite, _, opened, rest => by
      rw [tokensOf]
      exact foldlM_single (State.step_number opened _) rest
  | .unreadable, _, opened, rest => by
      rw [tokensOf]
      exact foldlM_single (State.step_number opened _) rest
  | .text text, _, opened, rest => by
      rw [tokensOf]
      exact foldlM_single (State.step_quoted opened text) rest
  | .array items, state, opened, rest => by
      have first : ItemFollows [] .firstItem := .inl ⟨rfl, rfl⟩
      rw [tokensOf, List.cons_append, List.append_assoc, List.foldlM_cons,
        State.step_openArray opened, ← State.put_expected state .value]
      exact foldlM_itemTokens items first [] state.frames state.result rest
  | .table fields, state, opened, rest => by
      have first : FieldFollows [] .firstKey := .inl ⟨rfl, rfl⟩
      rw [tokensOf, List.cons_append, List.append_assoc, List.foldlM_cons,
        State.step_openTable opened, ← State.put_expected state .value]
      exact foldlM_fieldTokens fields first [] "" state.frames state.result rest

theorem foldlM_itemTokens : (items : List Value) → {separator : List Token} →
    {expected : Expected} → ItemFollows separator expected → (done : List Value) →
    (frames : List Frame) → (result : Option Value) → (rest : List Token) →
    (itemTokens separator items ++ ([Token.closeArray] ++ rest)).foldlM State.step
        ⟨.array done :: frames, expected, result⟩ =
      rest.foldlM State.step
        (State.put ⟨frames, .value, result⟩ (.array (done.reverse ++ items)))
  | [], _, _, follows, done, frames, result, rest => by
      rw [itemTokens, List.nil_append, List.append_nil]
      exact foldlM_single (step_closeArray follows done frames result) rest
  | item :: more, _, _, follows, done, frames, result, rest => by
      obtain ⟨expected, opened, separated⟩ := foldlM_itemSeparator follows done frames result
      have next : ItemFollows [.comma] .next := .inr ⟨rfl, rfl⟩
      rw [itemTokens, List.append_assoc, List.append_assoc, List.foldlM_append, separated,
        Option.bind_eq_bind, Option.bind_some,
        foldlM_tokensOf item ⟨.array done :: frames, expected, result⟩ opened,
        List.append_cons done.reverse item more, ← List.reverse_cons]
      exact foldlM_itemTokens more next (item :: done) frames result rest

theorem foldlM_fieldTokens : (fields : List (String × Value)) → {separator : List Token} →
    {expected : Expected} → FieldFollows separator expected → (done : List (String × Value)) →
    (last : String) → (frames : List Frame) → (result : Option Value) → (rest : List Token) →
    (fieldTokens separator fields ++ ([Token.closeTable] ++ rest)).foldlM State.step
        ⟨.table done true last :: frames, expected, result⟩ =
      rest.foldlM State.step
        (State.put ⟨frames, .value, result⟩ (.table (done.reverse ++ fields)))
  | [], _, _, follows, done, last, frames, result, rest => by
      rw [fieldTokens, List.nil_append, List.append_nil]
      exact foldlM_single (step_closeTable follows done last frames result) rest
  | (name, value) :: more, separator, _, follows, done, last, frames, result, rest => by
      have key := foldlM_key follows done last name frames result
      have next : FieldFollows [.comma] .next := .inr ⟨rfl, rfl⟩
      have split : separator ++ (.quoted (some name) :: .colon :: tokensOf value) =
          separator ++ [.quoted (some name), .colon] ++ tokensOf value := by simp
      rw [fieldTokens, split, List.append_assoc, List.append_assoc, List.foldlM_append, key,
        Option.bind_eq_bind, Option.bind_some,
        foldlM_tokensOf value ⟨.table done true name :: frames, .value, result⟩
          (.inl rfl),
        List.append_cons done.reverse (name, value) more, ← List.reverse_cons]
      exact foldlM_fieldTokens more next ((name, value) :: done) name frames result rest

end

/-! ### Strings -/

def pieceOf (c : Char) : Piece :=
  if Text.isControl c then .unit c.toNat else .char c

theorem pieces?_escaped (c : Char) (rest : List Char) :
    pieces? (Text.escaped c ++ rest) = (pieces? rest).map (pieceOf c :: ·) := by
  rcases Text.escaped_cases c with ⟨mark, written⟩ | ⟨control, written⟩ |
    ⟨noQuote, noEscape, plain, written⟩
  · rw [written]
    rcases mark with rfl | rfl <;> cases found : pieces? rest <;>
      simp [pieces?, simpleEscape?, found, pieceOf, Text.isControl]
  · have unit := Text.natural?_control (Text.isControl_lt control)
    rw [written, pieceOf, if_pos control]
    cases found : pieces? rest <;> simp [pieces?, unit?, unit, found]
  · have above : ¬c.toNat < 0x20 := by
      intro control
      simp [Text.isControl, control] at plain
    rw [written, pieceOf, plain]
    simp [pieces?, noEscape, above]

theorem pieces?_escapedText (chars : List Char) :
    pieces? (Text.escapedText chars) = some (chars.map pieceOf) := by
  induction chars with
  | nil => rfl
  | cons c rest ih =>
      rw [Text.escapedText_cons, pieces?_escaped, ih, Option.map_some, List.map_cons]

theorem assemble?_unit {n : Nat} (small : n < 0x80) (found : List Piece) :
    assemble? (.unit n :: found) = (assemble? found).map (Char.ofNat n :: ·) := by
  have low : ¬0xD800 ≤ n := by omega
  have high : ¬0xDC00 ≤ n := by omega
  cases found with
  | nil => simp [assemble?, low]
  | cons piece rest => cases piece <;> simp [assemble?, low, high]

theorem assemble?_map_pieceOf (chars : List Char) :
    assemble? (chars.map pieceOf) = some chars := by
  induction chars with
  | nil => rfl
  | cons c rest ih =>
      rw [List.map_cons, pieceOf]
      split
      · rename_i control
        rw [assemble?_unit (Text.isControl_lt control), ih, Option.map_some, Char.ofNat_toNat]
      · rw [assemble?, ih, Option.map_some]

theorem quotedToken?_escapedText (text : String) :
    quotedToken? (Text.escapedText text.toList) = some (.quoted (some text)) := by
  rw [quotedToken?, pieces?_escapedText, Option.map_some, assemble?_map_pieceOf,
    Option.map_some, String.ofList_toList]

/-! ### Numbers -/

theorem number?_integerText {n : Int} (above : -2 ^ 63 ≤ n) (below : n < 2 ^ 64) :
    number? (Text.integerText n) = some (.integer n) := by
  have integer : decimal? [] = some ([], 0) := rfl
  cases n with
  | ofNat size =>
      have small : size < Nat.pow 2 64 := by
        have bound : (size : Int) < 2 ^ 64 := below
        norm_num
        omega
      have whole := List.takeWhile_eq_self_iff.mpr (Text.isDigit_toDigits size)
      have rest := List.dropWhile_eq_nil_iff.mpr (Text.isDigit_toDigits size)
      have unsigned : ∀ rest, Nat.toDigits 10 size = '-' :: rest → False := by
        intro rest shape
        have first := Text.isDigit_toDigits size '-' (by rw [shape]; exact List.mem_cons_self)
        cases first
      rw [Text.integerText, number?]
      · simp [whole, rest, integer, Text.toDigits_proper, Text.natural?_toDigits, small,
          Nat.toDigits_ne_nil]
      · exact unsigned
  | negSucc size =>
      have small : size + 1 ≤ Nat.pow 2 63 := by
        rw [Int.negSucc_eq] at above
        norm_num
        omega
      have whole := List.takeWhile_eq_self_iff.mpr (Text.isDigit_toDigits (size + 1))
      have rest := List.dropWhile_eq_nil_iff.mpr (Text.isDigit_toDigits (size + 1))
      rw [Text.integerText, number?]
      simp [whole, rest, integer, Text.toDigits_proper, Text.natural?_toDigits, small,
        Nat.toDigits_ne_nil, Int.negSucc_eq]

/-! ### Tokens from text -/

/-- What one more character makes of the tokens so far, kept in reverse, and of the place where
the text stands. -/
def cut : List Token × Place → Char → Option (List Token × Place)
  | (seen, place), c => do
      let (tokens, place) ← advance? place c
      return (tokens.reverse ++ seen, place)

theorem cut_eq {place after : Place} {c : Char} {tokens : List Token}
    (advance : advance? place c = some (tokens, after)) (seen : List Token) :
    cut (seen, place) c = some (tokens.reverse ++ seen, after) := by
  rw [cut, advance]
  rfl

theorem cut_plain {c : Char} (noQuote : c ≠ '"') (noEscape : c ≠ '\\') (seen : List Token)
    (before : List Char) :
    cut (seen, .quotes before false) c = some (seen, .quotes (c :: before) false) := by
  simp [cut, advance?, noQuote, noEscape]

theorem foldlM_cut_escaped (c : Char) (seen : List Token) (before : List Char) :
    (Text.escaped c).foldlM cut (seen, .quotes before false) =
      some (seen, .quotes ((Text.escaped c).reverse ++ before) false) := by
  rcases Text.escaped_cases c with ⟨mark, written⟩ | ⟨control, written⟩ |
    ⟨noQuote, noEscape, _, written⟩
  · rw [written]
    rcases mark with rfl | rfl <;> rfl
  · have small := Text.isControl_lt control
    obtain ⟨high, high'⟩ := Text.digitChar_plain (n := c.toNat / 16) (by omega)
    obtain ⟨low, low'⟩ := Text.digitChar_plain (n := c.toNat % 16) (by omega)
    have opening : ['\\', 'u', '0', '0'].foldlM cut (seen, .quotes before false) =
      some (seen, .quotes ('0' :: '0' :: 'u' :: '\\' :: before) false) := rfl
    rw [written]
    change (['\\', 'u', '0', '0'] ++ [_, _]).foldlM cut _ = _
    rw [List.foldlM_append, opening, Option.bind_eq_bind, Option.bind_some, List.foldlM_cons,
      cut_plain high high', Option.bind_eq_bind, Option.bind_some, List.foldlM_cons,
      cut_plain low low']
    rfl
  · rw [written, List.foldlM_cons, cut_plain noQuote noEscape]
    rfl

theorem foldlM_cut_escapedText (chars : List Char) (seen : List Token) (before : List Char) :
    (Text.escapedText chars).foldlM cut (seen, .quotes before false) =
      some (seen, .quotes ((Text.escapedText chars).reverse ++ before) false) := by
  induction chars generalizing before with
  | nil => rfl
  | cons c rest ih =>
      rw [Text.escapedText_cons, List.foldlM_append, foldlM_cut_escaped, Option.bind_eq_bind,
        Option.bind_some, ih, List.reverse_append, List.append_assoc]

theorem foldlM_cut_wordChars {chars : List Char} (oneWord : ∀ c ∈ chars, isWordChar c = true)
    (seen : List Token) (before : List Char) :
    chars.foldlM cut (seen, .word before) = some (seen, .word (chars.reverse ++ before)) := by
  induction chars generalizing before with
  | nil => rfl
  | cons c rest ih =>
      have step : cut (seen, .word before) c = some (seen, .word (c :: before)) := by
        simp [cut, advance?, oneWord c List.mem_cons_self]
      rw [List.foldlM_cons, step, Option.bind_eq_bind, Option.bind_some,
        ih fun c member => oneWord c (List.mem_cons_of_mem _ member), List.reverse_cons,
        List.append_assoc]
      rfl

theorem start?_wordChar {c : Char} (word : isWordChar c = true) :
    start? c = some ([], .word [c]) := by
  have noSpace : isSpace c = false := by
    rw [← Bool.not_eq_true]
    intro space
    simp only [isSpace, Bool.or_eq_true, beq_iff_eq] at space
    rcases space with ((rfl | rfl) | rfl) | rfl <;> cases word
  have noQuote : c ≠ '"' := by
    rintro rfl
    cases word
  simp [start?, noSpace, noQuote, word]

/-- A token with a blank behind it is cut from a text as it is. -/
def Token.Legible (token : Token) : Prop :=
  ∀ seen, (token.text ++ [' ']).foldlM cut (seen, .between) = some (token :: seen, .between)

theorem legible_of_word {token : Token} (nonempty : token.text ≠ [])
    (oneWord : ∀ c ∈ token.text, isWordChar c = true) (read : wordToken? token.text = some token) :
    token.Legible := by
  intro seen
  obtain ⟨first, rest, shape⟩ := List.exists_cons_of_ne_nil nonempty
  rw [shape] at oneWord read ⊢
  have start : advance? .between first = some ([], .word [first]) :=
    start?_wordChar (oneWord first List.mem_cons_self)
  have begins : cut (seen, .between) first = some (seen, .word [first]) := cut_eq start seen
  have goesOn := foldlM_cut_wordChars
    (fun c member => oneWord c (List.mem_cons_of_mem first member)) seen [first]
  have ends : advance? (.word (rest.reverse ++ [first])) ' ' = some ([token], .between) := by
    rw [← List.reverse_cons]
    simp only [advance?, List.reverse_reverse, read]
    rfl
  rw [List.cons_append, List.foldlM_cons, begins, Option.bind_eq_bind, Option.bind_some,
    List.foldlM_append, goesOn, Option.bind_eq_bind,
    Option.bind_some, List.foldlM_cons, cut_eq ends]
  rfl

theorem legible_quoted (text : String) : (Token.quoted (some text)).Legible := by
  intro seen
  have opens : cut (seen, .between) '"' = some (seen, .quotes [] false) := rfl
  have inside := foldlM_cut_escapedText text.toList seen []
  have closes : advance? (.quotes (Text.escapedText text.toList).reverse false) '"' =
      some ([.quoted (some text)], .between) := by
    rw [advance?, if_pos rfl, List.reverse_reverse, quotedToken?_escapedText]
    rfl
  rw [List.append_nil] at inside
  rw [Token.text, Option.getD_some, Text.quoted, List.cons_append, List.cons_append,
    List.foldlM_cons, opens, Option.bind_eq_bind, Option.bind_some, List.append_assoc,
    List.foldlM_append, inside, Option.bind_eq_bind, Option.bind_some, List.singleton_append,
    List.foldlM_cons, cut_eq closes]
  rfl

theorem legible_number {value : Value}
    (oneWord : ∀ c ∈ (Token.number value).text, isWordChar c = true)
    (read : number? (Token.number value).text = some value) : (Token.number value).Legible := by
  have differs {chars : List Char} (unread : number? chars = none) :
      (Token.number value).text ≠ chars := by
    rintro rfl
    rw [read] at unread
    cases unread
  apply legible_of_word
  · exact differs rfl
  · exact oneWord
  · rw [wordToken?, if_neg (differs rfl), if_neg (differs rfl), if_neg (differs rfl), read]
    rfl

theorem isWordChar_of_isDigit {c : Char} (digit : c.isDigit = true) : isWordChar c = true := by
  simp only [isWordChar, Char.isAlphanum, digit, Bool.or_true, Bool.true_or]

theorem integerText_oneWord (n : Int) : ∀ c ∈ Text.integerText n, isWordChar c = true := by
  intro c member
  rcases Text.mem_integerText member with rfl | digit
  · rfl
  · exact isWordChar_of_isDigit digit

theorem mem_itemTokens {separator : List Token} {items : List Value} {token : Token}
    (member : token ∈ itemTokens separator items) :
    token ∈ separator ∨ token = .comma ∨ ∃ item ∈ items, token ∈ tokensOf item := by
  induction items generalizing separator with
  | nil =>
      rw [itemTokens] at member
      cases member
  | cons item rest ih =>
      rw [itemTokens, List.mem_append, List.mem_append] at member
      rcases member with (front | own) | later
      · exact .inl front
      · exact .inr (.inr ⟨item, List.mem_cons_self, own⟩)
      · rcases ih later with comma | comma | ⟨other, known, inside⟩
        · exact .inr (.inl (List.mem_singleton.mp comma))
        · exact .inr (.inl comma)
        · exact .inr (.inr ⟨other, List.mem_cons_of_mem _ known, inside⟩)

theorem mem_fieldTokens {separator : List Token} {fields : List (String × Value)} {token : Token}
    (member : token ∈ fieldTokens separator fields) :
    token ∈ separator ∨ token = .comma ∨ token = .colon ∨
      (∃ name, token = .quoted (some name)) ∨ ∃ field ∈ fields, token ∈ tokensOf field.2 := by
  induction fields generalizing separator with
  | nil =>
      rw [fieldTokens] at member
      cases member
  | cons field rest ih =>
      obtain ⟨name, value⟩ := field
      rw [fieldTokens, List.mem_append, List.mem_append, List.mem_cons, List.mem_cons] at member
      rcases member with (front | key | colon | own) | later
      · exact .inl front
      · exact .inr (.inr (.inr (.inl ⟨name, key⟩)))
      · exact .inr (.inr (.inl colon))
      · exact .inr (.inr (.inr (.inr ⟨(name, value), List.mem_cons_self, own⟩)))
      · rcases ih later with comma | comma | colon | key | ⟨other, known, inside⟩
        · exact .inr (.inl (List.mem_singleton.mp comma))
        · exact .inr (.inl comma)
        · exact .inr (.inr (.inl colon))
        · exact .inr (.inr (.inr (.inl key)))
        · exact .inr (.inr (.inr (.inr ⟨other, List.mem_cons_of_mem _ known, inside⟩)))

theorem Writable.legible {value : Value} (writable : Writable value) :
    ∀ token ∈ tokensOf value, token.Legible := by
  induction writable with
  | null =>
      rw [tokensOf, List.forall_mem_singleton]
      exact legible_of_word (by decide) (List.all_eq_true.mp rfl) rfl
  | bool flag =>
      rw [tokensOf, List.forall_mem_singleton]
      cases flag
      · exact legible_of_word (by decide) (List.all_eq_true.mp rfl) rfl
      · exact legible_of_word (by decide) (List.all_eq_true.mp rfl) rfl
  | @integer n above below =>
      rw [tokensOf, List.forall_mem_singleton]
      exact legible_number (integerText_oneWord n) (number?_integerText above below)
  | decimal oneWord read =>
      rw [tokensOf, List.forall_mem_singleton]
      exact legible_number oneWord read
  | text text =>
      rw [tokensOf, List.forall_mem_singleton]
      exact legible_quoted text
  | array each ih =>
      intro token member
      rw [tokensOf, List.mem_cons, List.mem_append, List.mem_singleton] at member
      rcases member with rfl | inside | rfl
      · exact fun seen => rfl
      · rcases mem_itemTokens inside with absent | rfl | ⟨item, known, own⟩
        · cases absent
        · exact fun seen => rfl
        · exact ih item known token own
      · exact fun seen => rfl
  | table each ih =>
      intro token member
      rw [tokensOf, List.mem_cons, List.mem_append, List.mem_singleton] at member
      rcases member with rfl | inside | rfl
      · exact fun seen => rfl
      · rcases mem_fieldTokens inside with absent | rfl | rfl | ⟨name, rfl⟩ | ⟨field, known, own⟩
        · cases absent
        · exact fun seen => rfl
        · exact fun seen => rfl
        · exact legible_quoted name
        · exact ih field known token own
      · exact fun seen => rfl

theorem tokens?_of_legible {tokens : List Token} (legible : ∀ token ∈ tokens, token.Legible) :
    tokens? (tokens.flatMap fun token => token.text ++ [' ']) = some tokens := by
  have cuts (seen : List Token) :
      (tokens.flatMap fun token => token.text ++ [' ']).foldlM cut (seen, .between) =
        some (tokens.reverse ++ seen, .between) := by
    induction tokens generalizing seen with
    | nil => rfl
    | cons token rest ih =>
        rw [List.flatMap_cons, List.foldlM_append, legible token List.mem_cons_self seen,
          Option.bind_eq_bind, Option.bind_some,
          ih fun other member => legible other (List.mem_cons_of_mem token member),
          List.reverse_cons, List.append_assoc]
        rfl
  change ((tokens.flatMap fun token => token.text ++ [' ']).foldlM cut ([], .between)).bind _ = _
  rw [cuts, Option.bind_some, List.append_nil]
  change some tokens.reverse.reverse = some tokens
  rw [List.reverse_reverse]

/-- What can be written is read as it was. -/
theorem read?_write {value : Value} (writable : Writable value) :
    read? (write value) = some value := by
  have builds := foldlM_tokensOf value {} (.inl rfl) []
  rw [List.append_nil] at builds
  rw [read?, write, String.toList_ofList, tokens?_of_legible writable.legible,
    Option.bind_eq_bind, Option.bind_some, builds]
  rfl

example : write (.table [("index", .text "a.html"), ("ports", .array [.integer 80])]) =
    "\x7b \"index\" : \"a.html\" , \"ports\" : [ 80 ] \x7d " := by
  rfl

end VirtualHosts.Json
