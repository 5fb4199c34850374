/-
Strings and integers as documents write them.

Between quotation marks, the marks themselves, backslashes and control characters are escaped;
the notations agree on these escapes.
-/

import VirtualHosts.Proofs.Text

namespace VirtualHosts.Text

def isControl (c : Char) : Bool :=
  c.toNat < 0x20 || c.toNat == 0x7F

def escaped (c : Char) : List Char :=
  if c = '"' ∨ c = '\\' then ['\\', c]
  else if isControl c then
    ['\\', 'u', '0', '0', Nat.digitChar (c.toNat / 16), Nat.digitChar (c.toNat % 16)]
  else [c]

def escapedText (chars : List Char) : List Char :=
  chars.flatMap escaped

def quoted (text : String) : List Char :=
  '"' :: escapedText text.toList ++ ['"']

def integerText : Int → List Char
  | .ofNat n => Nat.toDigits 10 n
  | .negSucc n => '-' :: Nat.toDigits 10 (n + 1)

theorem escapedText_cons (c : Char) (rest : List Char) :
    escapedText (c :: rest) = escaped c ++ escapedText rest :=
  List.flatMap_cons

theorem isControl_lt {c : Char} (control : isControl c = true) : c.toNat < 0x80 := by
  simp only [isControl, Bool.or_eq_true, decide_eq_true_eq, beq_iff_eq] at control
  omega

/-- The ways to write a character: behind a backslash, by its number, and as it is. -/
theorem escaped_cases (c : Char) :
    ((c = '"' ∨ c = '\\') ∧ escaped c = ['\\', c]) ∨
    (isControl c = true ∧ escaped c =
      ['\\', 'u', '0', '0', Nat.digitChar (c.toNat / 16), Nat.digitChar (c.toNat % 16)]) ∨
    (c ≠ '"' ∧ c ≠ '\\' ∧ isControl c = false ∧ escaped c = [c]) := by
  unfold escaped
  by_cases quote : c = '"' ∨ c = '\\'
  · exact .inl ⟨quote, if_pos quote⟩
  · rw [if_neg quote]
    rw [not_or] at quote
    cases control : isControl c with
    | true => exact .inr (.inl ⟨rfl, if_pos rfl⟩)
    | false => exact .inr (.inr ⟨quote.1, quote.2, rfl, if_neg (by simp)⟩)

theorem escaped_head (c : Char) : ∃ first rest, escaped c = first :: rest ∧ first ≠ '"' := by
  rcases escaped_cases c with ⟨_, written⟩ | ⟨_, written⟩ | ⟨noQuote, _, _, written⟩
  · exact ⟨_, _, written, by decide⟩
  · exact ⟨_, _, written, by decide⟩
  · exact ⟨_, _, written, noQuote⟩

theorem natural?_control {n : Nat} (small : n < 0x80) :
    natural? 16 ['0', '0', Nat.digitChar (n / 16), Nat.digitChar (n % 16)] = some n := by
  have each : ∀ n < 0x80,
      natural? 16 ['0', '0', Nat.digitChar (n / 16), Nat.digitChar (n % 16)] = some n := by decide
  exact each n small

/-- The digits of a number are plain characters. -/
theorem digitChar_plain {n : Nat} (digit : n < 16) :
    Nat.digitChar n ≠ '"' ∧ Nat.digitChar n ≠ '\\' := by
  have each : ∀ n < 16, Nat.digitChar n ≠ '"' ∧ Nat.digitChar n ≠ '\\' := by decide
  exact each n digit

theorem integerText_ne_nil (n : Int) : integerText n ≠ [] := by
  cases n with
  | ofNat size => exact Nat.toDigits_ne_nil
  | negSucc size => exact List.cons_ne_nil _ _

/-- An integer is written with digits, behind a minus sign if it is negative. -/
theorem mem_integerText {n : Int} {c : Char} (member : c ∈ integerText n) :
    c = '-' ∨ c.isDigit = true := by
  cases n with
  | ofNat size => exact .inr (isDigit_toDigits size c member)
  | negSucc size =>
      rcases List.mem_cons.mp member with sign | inside
      · exact .inl sign
      · exact .inr (isDigit_toDigits (size + 1) c inside)

end VirtualHosts.Text
