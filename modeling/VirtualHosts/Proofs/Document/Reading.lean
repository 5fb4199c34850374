/-
What records and their fields are read from.

A meaning relates what is given to the values that stand for it.  A table holds something under a
name, or nothing; other fields and the order of all do not count.  A field whose reader follows a
meaning is then read as what the table holds, and its default stands in for nothing.
-/

import VirtualHosts.Document.Reading

namespace VirtualHosts

/-- Which values of a document stand for something. -/
abbrev Meaning (β : Type) := β → Value → Prop

namespace Meaning

variable {β : Type}

def text : Meaning String := fun text value => value = .text text

def flag : Meaning Bool := fun flag value => value = .bool flag

def natural (bound : Nat) : Meaning Nat := fun n value => n < bound ∧ value = .integer n

def port : Meaning UInt16 := fun port value => value = .integer port.toNat

def word : Meaning UInt32 := fun word value => value = .integer word.toNat

/-- Nothing is written as null. -/
def optional (meaning : Meaning β) : Meaning (Option β)
  | none, value => value = .null
  | some given, value => meaning given value

/-- What fields of a table stand for, the table stands for. -/
def table (written : β → List (String × Value) → Prop) : Meaning β := fun given value =>
  ∃ fields, value = .table fields ∧ written given fields

end Meaning

/-- A reader reads the values of a meaning as what they stand for. -/
def Reader.Follows {β : Type} (reader : Reader β) (meaning : Meaning β) : Prop :=
  ∀ allowance given value, meaning given value → reader allowance value = some given

namespace Reader

variable {β : Type}

theorem text_follows : text.Follows .text := by
  rintro allowance given value rfl
  rfl

theorem flag_follows : flag.Follows .flag := by
  rintro allowance given value rfl
  rfl

theorem natural_follows (bound : Nat) : (natural bound).Follows (.natural bound) := by
  rintro allowance given value ⟨small, rfl⟩
  exact if_pos small

theorem port_follows : port.Follows .port := by
  rintro allowance given value rfl
  have read := natural_follows (Nat.pow 2 16) allowance _ _ ⟨given.toNat_lt, rfl⟩
  rw [port, read, Option.map_some, UInt16.ofNat_toNat]

theorem word_follows : word.Follows .word := by
  rintro allowance given value rfl
  have read := natural_follows (Nat.pow 2 32) allowance _ _ ⟨given.toNat_lt, rfl⟩
  rw [word, read, Option.map_some, UInt32.ofNat_toNat]

theorem optional_follows {reader : Reader β} {meaning : Meaning β}
    (follows : reader.Follows meaning) (something : ∀ given, ¬meaning given .null) :
    (optional reader).Follows meaning.optional := by
  rintro allowance (_ | given) value means
  · cases means
    rfl
  · have read := follows allowance given value means
    rw [optional.eq_def]
    split
    · exact absurd means (something given)
    · rw [read, Option.map_some]

end Reader

/-! ### Fields of tables -/

/-- What fields hold under a name: nothing, if no field has the name, or else what the value of
the only one stands for. -/
def Holds {β : Type} (fields : List (String × Value)) (name : String) (meaning : Meaning β) :
    Option β → Prop
  | none => fields.filter (·.1 == name) = []
  | some given => ∃ value, fields.filter (·.1 == name) = [(name, value)] ∧ meaning given value

namespace Holds

variable {β : Type} {fields : List (String × Value)} {name : String} {meaning : Meaning β}
  {given : Option β}

theorem atMostOnce (holds : Holds fields name meaning given) :
    (fields.filter (·.1 == name)).length ≤ 1 := by
  cases given with
  | none =>
      rw [show fields.filter (·.1 == name) = [] from holds]
      exact Nat.zero_le 1
  | some given =>
      obtain ⟨value, only, _⟩ := holds
      rw [only]
      exact Nat.le_refl 1

end Holds

theorem Value.named?_eq_head? (name : String) (fields : List (String × Value)) :
    Value.named? name fields = (fields.filter (·.1 == name)).head?.map Prod.snd := by
  induction fields with
  | nil => rfl
  | cons field rest ih =>
      obtain ⟨other, value⟩ := field
      rw [Value.named?, List.filter_cons]
      by_cases same : other = name
      · rw [if_pos same, if_pos (beq_iff_eq.mpr same)]
        rfl
      · rw [if_neg same, if_neg (mt beq_iff_eq.mp same), ih]

namespace Record

variable {β γ : Type} {names : List String} {fields : List (String × Value)}
  {allowance inner : Allowance}

theorem open?_table (inside : allowance.inside = some inner)
    (once : ∀ name ∈ names, (fields.filter (·.1 == name)).length ≤ 1) :
    Record.open? names allowance (.table fields) = some ⟨names, .table fields, inner⟩ := by
  have passed : (guard ((names.all fun name =>
      (fields.filter (·.1 == name)).length ≤ 1) = true) : Option Unit) = some () := by
    refine if_pos (List.all_eq_true.mpr ?_)
    intro name member
    exact decide_eq_true (once name member)
  rw [Record.open?, inside, Option.bind_eq_bind, Option.bind_some]
  change Option.bind (guard _) (fun _ => some _) = _
  rw [passed, Option.bind_some]

theorem withDefault_of_holds {name : String} {meaning : Meaning γ} {given : Option γ}
    {reader : Reader β} {made : γ → β} (holds : Holds fields name meaning given)
    (reads : ∀ given value, meaning given value → reader allowance value = some (made given))
    (default : β) :
    (⟨names, .table fields, allowance⟩ : Record).withDefault name reader default =
      some ((given.map made).getD default) := by
  have found : (⟨names, .table fields, allowance⟩ : Record).field? name =
      (fields.filter (·.1 == name)).head?.map Prod.snd := Value.named?_eq_head? name fields
  rw [withDefault, found]
  cases given with
  | none =>
      rw [show fields.filter (·.1 == name) = [] from holds]
      rfl
  | some given =>
      obtain ⟨value, only, means⟩ := holds
      rw [only]
      exact reads given value means

theorem withDefault_of_follows {name : String} {meaning : Meaning β} {given : Option β}
    {reader : Reader β} (holds : Holds fields name meaning given)
    (follows : reader.Follows meaning) (default : β) :
    (⟨names, .table fields, allowance⟩ : Record).withDefault name reader default =
      some (given.getD default) := by
  have same : (given.map id).getD default = given.getD default := by rw [Option.map_id_apply]
  rw [← same]
  exact withDefault_of_holds holds (follows allowance) default

/-- A table within the table: what it leaves out stands as if the whole of it were left out. -/
theorem withDefault_of_table {name : String} {written : γ → List (String × Value) → Prop}
    {given : Option γ} {reader : Reader β} {made : γ → β}
    (holds : Holds fields name (.table written) given)
    (reads : ∀ part below, written part below →
      reader allowance (.table below) = some (made part))
    (nothing : γ) :
    (⟨names, .table fields, allowance⟩ : Record).withDefault name reader (made nothing) =
      some (made (given.getD nothing)) := by
  have each : ∀ part value, Meaning.table written part value →
      reader allowance value = some (made part) := by
    rintro part _ ⟨below, rfl, means⟩
    exact reads part below means
  rw [withDefault_of_holds holds each, Option.getD_map]

end Record

end VirtualHosts
