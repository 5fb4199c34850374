/-
Texts cut into pieces and put together again, texts without their end, and digits as numbers.
-/

import Mathlib.Data.List.DropRight
import Mathlib.Data.List.Induction
import Mathlib.Data.List.Infix
import Mathlib.Data.Nat.Digits.Defs
import VirtualHosts.Text

namespace VirtualHosts.Text

/-! ### Pieces -/

theorem pieces_ne_nil (separator : Char → Bool) (chars : List Char) :
    pieces separator chars ≠ [] := by
  cases chars with
  | nil => simp [pieces]
  | cons c rest =>
      rw [pieces]
      split <;> simp

theorem pieces_separator_cons {separator : Char → Bool} {c : Char} (cuts : separator c = true)
    (rest : List Char) : pieces separator (c :: rest) = [] :: pieces separator rest := by
  rw [pieces, cuts]

theorem pieces_append_separator {separator : Char → Bool} {c : Char}
    (cuts : separator c = true) (front rest : List Char) :
    pieces separator (front ++ c :: rest) = pieces separator front ++ pieces separator rest := by
  induction front with
  | nil => exact pieces_separator_cons cuts rest
  | cons first others ih =>
      rw [List.cons_append, pieces, pieces, ih]
      cases separator first with
      | true => rfl
      | false =>
          cases cut : pieces separator others with
          | nil => exact absurd cut (pieces_ne_nil separator others)
          | cons piece found => rfl

theorem pieces_append_char (c : Char) (front rest : List Char) :
    pieces (· == c) (front ++ c :: rest) = pieces (· == c) front ++ pieces (· == c) rest :=
  pieces_append_separator (by simp) front rest

theorem pieces_of_forall {separator : Char → Bool} {chars : List Char}
    (whole : ∀ c ∈ chars, separator c = false) : pieces separator chars = [chars] := by
  induction chars with
  | nil => rfl
  | cons first rest ih =>
      rw [pieces, whole first List.mem_cons_self,
        ih fun c member => whole c (List.mem_cons_of_mem _ member)]

theorem pieces_of_notMem {c : Char} {chars : List Char} (absent : c ∉ chars) :
    pieces (· == c) chars = [chars] := by
  apply pieces_of_forall
  intro other member
  rw [beq_eq_false_iff_ne]
  rintro rfl
  exact absent member

theorem lines_append_break (front rest : List Char) :
    lines (front ++ '\n' :: rest) = lines front ++ lines rest :=
  pieces_append_char '\n' front rest

theorem lines_of_unbroken {chars : List Char} (unbroken : '\n' ∉ chars) : lines chars = [chars] :=
  pieces_of_notMem unbroken

theorem mem_of_mem_pieces {separator : Char → Bool} {chars piece : List Char}
    (cut : piece ∈ pieces separator chars) :
    ∀ c ∈ piece, c ∈ chars ∧ separator c = false := by
  induction chars generalizing piece with
  | nil =>
      rw [pieces, List.mem_singleton] at cut
      rw [cut]
      intro c member
      cases member
  | cons first rest ih =>
      have kept : ∀ piece ∈ pieces separator rest, ∀ c ∈ piece,
          c ∈ first :: rest ∧ separator c = false := by
        intro piece member c inside
        exact ⟨List.mem_cons_of_mem _ (ih member c inside).1, (ih member c inside).2⟩
      rw [pieces] at cut
      cases cuts : separator first with
      | true =>
          rw [cuts] at cut
          rcases List.mem_cons.mp cut with rfl | later
          · intro c member
            cases member
          · exact kept piece later
      | false =>
          obtain ⟨head, others, found⟩ :=
            List.exists_cons_of_ne_nil (pieces_ne_nil separator rest)
          rw [cuts, found] at cut
          rw [found] at kept
          rcases List.mem_cons.mp cut with rfl | later
          · intro c member
            rcases List.mem_cons.mp member with rfl | inside
            · exact ⟨List.mem_cons_self, cuts⟩
            · exact kept head List.mem_cons_self c inside
          · exact kept piece (List.mem_cons_of_mem _ later)

theorem exists_mem_pieces {separator : Char → Bool} {chars : List Char} {c : Char}
    (inside : separator c = false) (member : c ∈ chars) :
    ∃ piece ∈ pieces separator chars, c ∈ piece := by
  induction chars with
  | nil => cases member
  | cons first rest ih =>
      rw [pieces]
      rcases List.mem_cons.mp member with rfl | later
      · rw [inside]
        cases pieces separator rest with
        | nil => exact ⟨_, List.mem_singleton_self _, List.mem_singleton_self _⟩
        | cons piece found => exact ⟨_, List.mem_cons_self, List.mem_cons_self⟩
      · obtain ⟨piece, cut, known⟩ := ih later
        cases separator first with
        | true => exact ⟨piece, List.mem_cons_of_mem _ cut, known⟩
        | false =>
            obtain ⟨head, others, found⟩ :=
              List.exists_cons_of_ne_nil (pieces_ne_nil separator rest)
            rw [found] at cut ⊢
            rcases List.mem_cons.mp cut with rfl | behind
            · exact ⟨_, List.mem_cons_self, List.mem_cons_of_mem _ known⟩
            · exact ⟨piece, List.mem_cons_of_mem _ behind, known⟩

/-! ### Segments -/

theorem segments_ne_nil (chars : List Char) : segments chars ≠ [] :=
  pieces_ne_nil _ chars

theorem segments_cons (c : Char) (rest : List Char) :
    segments (c :: rest) =
      if c = '/' then [] :: segments rest else (segments rest).modifyHead (c :: ·) := by
  change pieces (· == '/') (c :: rest) = if c = '/' then [] :: pieces (· == '/') rest
    else (pieces (· == '/') rest).modifyHead (c :: ·)
  rw [pieces]
  by_cases slash : c = '/'
  · subst slash
    rfl
  · obtain ⟨first, others, found⟩ := List.exists_cons_of_ne_nil (pieces_ne_nil (· == '/') rest)
    rw [if_neg slash, beq_eq_false_iff_ne.mpr slash, found]
    rfl

theorem join_cons_cons (separator first second : List Char) (rest : List (List Char)) :
    join separator (first :: second :: rest) =
      first ++ separator ++ join separator (second :: rest) := by
  simp [join, List.intercalate]

theorem join_singleton (separator only : List Char) : join separator [only] = only := by
  simp [join, List.intercalate]

theorem join_cons (separator first : List Char) (others : List (List Char)) :
    ∃ rest, join separator (first :: others) = first ++ rest := by
  cases others with
  | nil => exact ⟨[], by rw [join_singleton, List.append_nil]⟩
  | cons second others => exact ⟨_, by rw [join_cons_cons, List.append_assoc]⟩

theorem join_modifyHead (separator : List Char) (c : Char) {parts : List (List Char)}
    (some : parts ≠ []) : join separator (parts.modifyHead (c :: ·)) = c :: join separator parts := by
  match parts with
  | [] => exact absurd rfl some
  | [only] => rw [List.modifyHead_cons, join_singleton, join_singleton]
  | first :: second :: rest =>
      rw [List.modifyHead_cons, join_cons_cons, join_cons_cons]
      rfl

theorem join_nil_cons (separator : List Char) {parts : List (List Char)} (some : parts ≠ []) :
    join separator ([] :: parts) = separator ++ join separator parts := by
  cases parts with
  | nil => exact absurd rfl some
  | cons first rest => rw [join_cons_cons, List.nil_append]

theorem join_segments (chars : List Char) : join ['/'] (segments chars) = chars := by
  induction chars with
  | nil => rfl
  | cons c rest ih =>
      rw [segments_cons]
      split
      · rename_i slash
        rw [join_nil_cons _ (segments_ne_nil rest), ih, slash]
        rfl
      · rw [join_modifyHead _ _ (segments_ne_nil rest), ih]

theorem slash_notMem_segments (chars : List Char) : ∀ segment ∈ segments chars, '/' ∉ segment := by
  intro segment cut slash
  have kept := (mem_of_mem_pieces cut '/' slash).2
  cases kept

theorem segments_append_slash (front rest : List Char) :
    segments (front ++ '/' :: rest) = segments front ++ segments rest :=
  pieces_append_char '/' front rest

theorem pieces_join {c : Char} {parts : List (List Char)} (some : parts ≠ [])
    (apart : ∀ part ∈ parts, c ∉ part) : pieces (· == c) (join [c] parts) = parts := by
  induction parts with
  | nil => exact absurd rfl some
  | cons first others ih =>
      have front := pieces_of_notMem (apart first List.mem_cons_self)
      cases others with
      | nil => rw [join_singleton, front]
      | cons second others =>
          have rest := ih (List.cons_ne_nil _ _)
            fun part member => apart part (List.mem_cons_of_mem _ member)
          rw [join_cons_cons, List.append_assoc, List.singleton_append, pieces_append_char,
            front, rest]
          rfl

theorem segments_join {parts : List (List Char)} (some : parts ≠ [])
    (noSlash : ∀ part ∈ parts, '/' ∉ part) : segments (join ['/'] parts) = parts :=
  pieces_join some noSlash

/-- Other texts without slashes in the places of the segments are the segments then. -/
theorem segments_join_map {chars : List Char} {change : List Char → List Char}
    (noSlash : ∀ segment ∈ segments chars, '/' ∉ change segment) :
    segments (join ['/'] ((segments chars).map change)) = (segments chars).map change := by
  refine segments_join (by simpa using segments_ne_nil chars) ?_
  intro part member
  obtain ⟨segment, known, rfl⟩ := List.mem_map.mp member
  exact noSlash segment known

theorem segments_injective {left right : List Char} (same : segments left = segments right) :
    left = right := by
  rw [← join_segments left, ← join_segments right, same]

/-- A text with a slash behind it begins another one exactly if its segments are the first of
the other, and not all of them. -/
theorem slash_prefix_iff_segments (front chars : List Char) :
    front ++ ['/'] <+: chars ↔
      segments front <+: segments chars ∧ segments front ≠ segments chars := by
  constructor
  · rintro ⟨rest, rfl⟩
    rw [List.append_assoc, List.singleton_append, segments_append_slash]
    constructor
    · exact List.prefix_append _ _
    · intro same
      exact segments_ne_nil rest (List.self_eq_append_right.mp same)
  · rintro ⟨⟨more, whole⟩, different⟩
    have nonempty : more ≠ [] := by
      rintro rfl
      rw [List.append_nil] at whole
      exact different whole
    have noSlash : ∀ part ∈ more, '/' ∉ part := by
      intro part member
      apply slash_notMem_segments chars
      rw [← whole]
      exact List.mem_append_right _ member
    have same : front ++ '/' :: join ['/'] more = chars := by
      apply segments_injective
      rw [segments_append_slash, segments_join nonempty noSlash, whole]
    exact ⟨join ['/'] more, by rw [← same, List.append_assoc, List.singleton_append]⟩

/-! ### Ends -/

theorem dropLast?_eq_some_iff (last : Char) (chars beginning : List Char) :
    dropLast? last chars = some beginning ↔ chars = beginning ++ [last] := by
  unfold dropLast?
  constructor
  · intro found
    split at found
    · rename_i ends
      cases found
      exact (List.dropLast_append_getLast? last ends).symm
    · cases found
  · intro same
    subst same
    simp

theorem dropLast?_eq_none_iff (last : Char) (chars : List Char) :
    dropLast? last chars = none ↔ chars.getLast? ≠ some last := by
  unfold dropLast?
  split <;> simp_all

/-! ### Beginnings -/

theorem dropBeginning?_append (beginning rest : List Char) :
    dropBeginning? beginning (beginning ++ rest) = some rest := by
  induction beginning with
  | nil => rfl
  | cons c beginning ih => rw [List.cons_append, dropBeginning?, if_pos rfl, ih]

theorem startsWith_iff (text beginning : String) :
    startsWith text beginning = true ↔ beginning.toList <+: text.toList :=
  List.isPrefixOf_iff_prefix

theorem prefix_of_dropBeginning? {beginning chars rest : List Char}
    (dropped : dropBeginning? beginning chars = some rest) : beginning <+: chars := by
  induction beginning generalizing chars with
  | nil => exact List.nil_prefix
  | cons c beginning ih =>
      cases chars with
      | nil => cases dropped
      | cons first chars =>
          rw [dropBeginning?] at dropped
          split at dropped
          · rename_i same
            rw [same, List.cons_prefix_cons]
            exact ⟨rfl, ih dropped⟩
          · cases dropped

theorem dropBeginning?_eq_some_iff (beginning chars rest : List Char) :
    dropBeginning? beginning chars = some rest ↔ chars = beginning ++ rest := by
  constructor
  · intro dropped
    obtain ⟨tail, rfl⟩ := prefix_of_dropBeginning? dropped
    rw [dropBeginning?_append] at dropped
    rw [Option.some.inj dropped]
  · rintro rfl
    exact dropBeginning?_append beginning rest

theorem dropBeginning?_eq_none_iff (beginning chars : List Char) :
    dropBeginning? beginning chars = none ↔ ¬beginning <+: chars := by
  rw [Option.eq_none_iff_forall_ne_some]
  constructor
  · rintro refused ⟨rest, rfl⟩
    exact refused rest (dropBeginning?_append beginning rest)
  · intro outside rest dropped
    exact outside (prefix_of_dropBeginning? dropped)

/-- Of two beginnings of a text the one with fewer bytes is a beginning of the other. -/
theorem prefix_of_utf8ByteSize_le {text left right : String}
    (startsLeft : startsWith text left = true) (startsRight : startsWith text right = true)
    (shorter : left.utf8ByteSize ≤ right.utf8ByteSize) : left.toList <+: right.toList := by
  rw [startsWith_iff] at startsLeft startsRight
  rcases List.prefix_or_prefix_of_prefix startsLeft startsRight with within | ⟨rest, same⟩
  · exact within
  · have longer : left = right ++ .ofList rest := by
      rw [← String.toList_inj, String.toList_append, String.toList_ofList, same]
    rw [longer, String.utf8ByteSize_append] at shorter
    have nothing : (String.ofList rest).utf8ByteSize = 0 := by omega
    rw [String.utf8ByteSize_eq_zero_iff] at nothing
    rw [longer, nothing, String.append_empty]

/-! ### Slashes at the end -/

theorem stripEnd_eq_rdropWhile (c : Char) (chars : List Char) :
    stripEnd c chars = chars.rdropWhile (· == c) :=
  rfl

theorem stripEnd_concat (c last : Char) (chars : List Char) :
    stripEnd c (chars ++ [last]) = if last = c then stripEnd c chars else chars ++ [last] := by
  simp only [stripEnd_eq_rdropWhile, List.rdropWhile_concat, beq_iff_eq]

/-- One slash at the end is restored; without one, what is added comes behind the text. -/
theorem prefix_stripEnd_slash {chars : List Char} (single : ¬['/', '/'] <:+ chars) :
    chars <+: stripEnd '/' chars ++ ['/'] := by
  rcases List.eq_nil_or_concat chars with rfl | ⟨front, last, rfl⟩
  · exact List.nil_prefix
  · rw [List.concat_eq_append] at single ⊢
    by_cases slash : last = '/'
    · subst slash
      have inner : stripEnd '/' front = front := by
        rw [stripEnd_eq_rdropWhile, List.rdropWhile_eq_self_iff]
        intro nonempty atEnd
        have whole := List.dropLast_append_getLast nonempty
        rw [beq_iff_eq.mp atEnd] at whole
        exact single ⟨front.dropLast, by rw [← whole]; simp⟩
      rw [stripEnd_concat, if_pos rfl, inner]
    · rw [stripEnd_concat, if_neg slash]
      exact List.prefix_append _ _

theorem length_stripEnd_slash {chars : List Char} (double : ['/', '/'] <:+ chars) :
    (stripEnd '/' chars ++ ['/']).length < chars.length := by
  obtain ⟨front, rfl⟩ := double
  have twice : front ++ ['/', '/'] = (front ++ ['/']) ++ ['/'] := by simp
  have shorter : (stripEnd '/' front).length ≤ front.length :=
    (List.rdropWhile_prefix _ front).length_le
  rw [twice, stripEnd_concat, if_pos rfl, stripEnd_concat, if_pos rfl]
  simp only [List.length_append, List.length_cons, List.length_nil]
  omega

theorem slash_prefix_stripEnd {chars : List Char} (nonempty : chars ≠ []) :
    ['/'] <+: stripEnd '/' chars ++ ['/'] ↔ ['/'] <+: chars := by
  rw [stripEnd_eq_rdropWhile]
  obtain ⟨rest, whole⟩ := List.rdropWhile_prefix (· == '/') chars
  cases stripped : chars.rdropWhile (· == '/') with
  | cons first others =>
      rw [stripped] at whole
      rw [← whole]
      simp [List.cons_prefix_cons]
  | nil =>
      rw [List.rdropWhile_eq_nil_iff] at stripped
      cases chars with
      | nil => exact absurd rfl nonempty
      | cons first others =>
          rw [beq_iff_eq.mp (stripped first List.mem_cons_self)]
          simp

/-- A path below the text with one slash at its end begins as the text itself, unless the text
has a slash in front and several at its end. -/
theorem prefix_of_below {chars path : List Char} (nonempty : chars ≠ [])
    (slash : ['/'] <+: path) (below : stripEnd '/' chars ++ ['/'] <+: path)
    (single : ¬(['/'] <+: chars ∧ ['/', '/'] <:+ chars)) : chars <+: path := by
  by_cases double : ['/', '/'] <:+ chars
  · have short : ['/'].length ≤ (stripEnd '/' chars ++ ['/']).length := by simp
    have begins := List.prefix_of_prefix_length_le slash below short
    rw [slash_prefix_stripEnd nonempty] at begins
    exact absurd ⟨begins, double⟩ single
  · exact (prefix_stripEnd_slash double).trans below

/-! ### Numbers -/

def decimalDigit (c : Char) : Nat :=
  c.toNat - '0'.toNat

/-- The number that digits write, the last of them standing for the ones. -/
def decimalValue (digits : List Char) : Nat :=
  Nat.ofDigits 10 (digits.reverse.map decimalDigit)

theorem decimalValue_concat (digits : List Char) (last : Char) :
    decimalValue (digits ++ [last]) = decimalValue digits * 10 + decimalDigit last := by
  rw [decimalValue, List.reverse_concat, List.map_cons, Nat.ofDigits_cons, ← decimalValue]
  omega

theorem digitIn?_ten (c : Char) :
    digitIn? 10 c = if c.isDigit = true then some (decimalDigit c) else none := by
  have decimal : c.isDigit = true ↔ '0' ≤ c ∧ c ≤ '9' := by
    simp [Char.isDigit, Char.le_def, UInt32.le_iff_toNat_le]
  by_cases digit : '0' ≤ c ∧ c ≤ '9'
  · have small : decimalDigit c < 10 := by
      have bound : c.toNat ≤ '9'.toNat := digit.2
      have nine : '9'.toNat = 57 := rfl
      have zero : '0'.toNat = 48 := rfl
      unfold decimalDigit
      omega
    rw [if_pos (decimal.mpr digit), digitIn?, if_pos digit]
    exact Option.filter_some_pos (decide_eq_true small)
  · rw [if_neg (mt decimal.mp digit), digitIn?, if_neg digit]
    have letter (n : Nat) : (some (n + 10)).filter (fun value => decide (value < 10)) = none :=
      Option.filter_some_neg (decide_eq_false (by omega))
    split
    · exact letter _
    · split
      · exact letter _
      · rfl

theorem natural?_ten_eq_some_iff {chars : List Char} {number : Nat} :
    natural? 10 chars = some number ↔
      chars ≠ [] ∧ (∀ c ∈ chars, c.isDigit = true) ∧ decimalValue chars = number := by
  have read (chars : List Char) :
      chars.foldlM (fun total c => (digitIn? 10 c).map (total * 10 + ·)) 0 =
        if ∀ c ∈ chars, c.isDigit = true then some (decimalValue chars) else none := by
    induction chars using List.reverseRecOn with
    | nil =>
        rw [if_pos (List.forall_mem_nil _)]
        rfl
    | append_singleton front last ih =>
        rw [List.foldlM_append, ih, decimalValue_concat]
        simp only [List.forall_mem_append, List.forall_mem_singleton]
        by_cases digits : ∀ c ∈ front, c.isDigit = true
        · by_cases digit : last.isDigit = true
          · rw [if_pos digits, if_pos ⟨digits, digit⟩]
            simp [digitIn?_ten, digit]
          · rw [if_pos digits, if_neg (fun both => digit both.2)]
            simp [digitIn?_ten, digit]
        · rw [if_neg digits, if_neg (fun both => digits both.1)]
          rfl
  unfold natural?
  cases chars with
  | nil => simp
  | cons first rest =>
      rw [read]
      simp

theorem isDigit_toDigits (n : Nat) : ∀ c ∈ Nat.toDigits 10 n, c.isDigit = true := by
  intro c member
  exact Nat.isDigit_of_mem_toDigits (by decide) (by decide) member

theorem digitIn?_digitChar {base digit : Nat} (bound : base ≤ 16) (small : digit < base) :
    digitIn? base (Nat.digitChar digit) = some digit := by
  have known : ∀ digit < 16, digitIn? 16 (Nat.digitChar digit) = some digit := by decide
  have read := known digit (Nat.lt_of_lt_of_le small bound)
  rw [digitIn?, Option.filter_eq_some_iff] at read ⊢
  exact ⟨read.1, decide_eq_true small⟩

/-- In a base that digits and letters are enough for, a number is read back from its digits. -/
theorem natural?_toDigits {base : Nat} (many : 1 < base) (bound : base ≤ 16) (n : Nat) :
    natural? base (Nat.toDigits base n) = some n := by
  have read : (Nat.toDigits base n).foldlM
      (fun total c => (digitIn? base c).map (total * base + ·)) 0 = some n := by
    induction n using Nat.strongRecOn with
    | ind n ih =>
        rw [Nat.toDigits_eq_if many]
        split
        · rename_i small
          simp [digitIn?_digitChar bound small]
        · rename_i large
          have shorter : n / base < n := Nat.div_lt_self (by omega) many
          have last := digitIn?_digitChar bound (Nat.mod_lt n (by omega))
          simp [ih (n / base) shorter, last, Nat.div_add_mod']
  rw [natural?, List.isEmpty_eq_false_iff.mpr Nat.toDigits_ne_nil]
  exact read

theorem mem_toDigits {base n : Nat} {c : Char} (many : 1 < base)
    (member : c ∈ Nat.toDigits base n) : ∃ digit < base, c = Nat.digitChar digit := by
  induction n using Nat.strongRecOn with
  | ind n ih =>
      rw [Nat.toDigits_eq_if many] at member
      split at member
      · rename_i small
        exact ⟨n, small, List.mem_singleton.mp member⟩
      · rename_i large
        rcases List.mem_append.mp member with earlier | last
        · exact ih (n / base) (Nat.div_lt_self (by omega) many) earlier
        · exact ⟨n % base, Nat.mod_lt n (by omega), List.mem_singleton.mp last⟩

/-- No number but zero is written with a zero in front. -/
theorem head?_toDigits {n : Nat} (positive : 0 < n) :
    (Nat.toDigits 10 n).head? ≠ some '0' := by
  have single : ∀ digit < 10, 0 < digit → Nat.digitChar digit ≠ '0' := by decide
  induction n using Nat.strongRecOn with
  | ind n ih =>
      rw [Nat.toDigits_eq_if (by decide)]
      split
      · rename_i small
        rw [List.head?_cons, ne_eq, Option.some.injEq]
        exact single n small positive
      · rename_i large
        rw [List.head?_append_of_ne_nil _ Nat.toDigits_ne_nil]
        exact ih (n / 10) (by omega) (by omega)

theorem toDigits_proper (n : Nat) :
    ((Nat.toDigits 10 n).length == 1 || (Nat.toDigits 10 n).head? != some '0') = true := by
  rcases Nat.eq_zero_or_pos n with rfl | positive
  · rfl
  · rw [bne_iff_ne.mpr (head?_toDigits positive), Bool.or_true]

end VirtualHosts.Text
