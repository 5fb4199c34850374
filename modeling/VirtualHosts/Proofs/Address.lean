/-
Every address is read back from its canonical text.

An address of version four is four numbers between dots.  Of one of version six the reader
finds the double colon, if there is one, and the groups on both sides of it; what is missing
of eight groups is the row of zeros that the double colon was written for.
-/

import VirtualHosts.Address
import VirtualHosts.Proofs.Text

namespace VirtualHosts.Address

theorem mapM_eq_none_of_mem {β γ : Type} {read : β → Option γ} {items : List β} {item : β}
    (member : item ∈ items) (unread : read item = none) : items.mapM read = none := by
  induction items with
  | nil => cases member
  | cons first rest ih =>
      rw [List.mapM_cons]
      rcases List.mem_cons.mp member with rfl | later
      · rw [unread]
        rfl
      · rw [ih later]
        cases read first <;> rfl

/-! ### Version four -/

def octetDigits (octet : UInt8) : List Char :=
  Nat.toDigits 10 octet.toNat

theorem octet?_octetDigits (octet : UInt8) : octet? (octetDigits octet) = some octet := by
  have small : octet.toNat < 256 := octet.toNat_lt
  have few : (octetDigits octet).length ≤ 3 :=
    (Nat.length_toDigits_le_iff (by decide) (by decide)).mpr (by omega)
  have unpadded : 1 < (octetDigits octet).length → (octetDigits octet).head? ≠ some '0' := by
    intro several
    rcases Bool.or_eq_true_iff.mp (Text.toDigits_proper octet.toNat) with single | proper
    · exact absurd (beq_iff_eq.mp single) (Nat.ne_of_gt several)
    · exact bne_iff_ne.mp proper
  have read : Text.natural? 10 (octetDigits octet) = some octet.toNat :=
    Text.natural?_toDigits (by decide) (by decide) octet.toNat
  rw [octet?, if_neg]
  · simp [read, small]
  · simpa [few] using unpadded

theorem dot_notMem_octetDigits (octet : UInt8) : '.' ∉ octetDigits octet := by
  intro member
  cases Text.isDigit_toDigits octet.toNat '.' member

theorem toList_dotted (first second third fourth : UInt8) :
    (dotted first second third fourth).toList =
      Text.join ['.'] ([first, second, third, fourth].map octetDigits) := by
  have dot : (toString ".").toList = ['.'] := rfl
  simp [dotted, octetDigits, Text.join, List.intercalate, dot]

theorem octets?_dotted (first second third fourth : UInt8) :
    octets? (dotted first second third fourth).toList = some (first, second, third, fourth) := by
  have apart : ∀ part ∈ [first, second, third, fourth].map octetDigits, '.' ∉ part := by
    intro part member
    obtain ⟨octet, _, rfl⟩ := List.mem_map.mp member
    exact dot_notMem_octetDigits octet
  rw [octets?, toList_dotted, Text.pieces_join (by simp) apart]
  simp [octet?_octetDigits]

/-- The digits of an octet are decimal. -/
theorem isDigit_of_octet? {chars : List Char} {octet : UInt8} (read : octet? chars = some octet) :
    ∀ c ∈ chars, c.isDigit = true := by
  unfold octet? at read
  split at read
  · cases read
  · obtain ⟨value, found, _⟩ := Option.map_eq_some_iff.mp read
    exact (Text.natural?_ten_eq_some_iff.mp (Option.filter_eq_some_iff.mp found).1).2.1

theorem octets?_of_colon {chars : List Char} (colon : ':' ∈ chars) : octets? chars = none := by
  have cuts : ∃ piece ∈ Text.pieces (· == '.') chars, ':' ∈ piece :=
    Text.exists_mem_pieces rfl colon
  obtain ⟨piece, cut, inside⟩ := cuts
  have unread : octet? piece = none := by
    cases read : octet? piece with
    | none => rfl
    | some octet => cases isDigit_of_octet? read ':' inside
  rw [octets?, mapM_eq_none_of_mem cut unread]

theorem octets?_of_dotless {chars : List Char} (dotless : '.' ∉ chars) : octets? chars = none := by
  rw [octets?, Text.pieces_of_notMem dotless, List.mapM_cons, List.mapM_nil]
  cases octet? chars <;> rfl

/-! ### Groups between colons -/

def groupDigits (group : UInt16) : List Char :=
  Nat.toDigits 16 group.toNat

theorem group?_groupDigits (group : UInt16) : group? (groupDigits group) = some group := by
  have small : group.toNat < 16 ^ 4 := group.toNat_lt
  have few : (groupDigits group).length ≤ 4 :=
    (Nat.length_toDigits_le_iff (by decide) (by decide)).mpr small
  have read : Text.natural? 16 (groupDigits group) = some group.toNat :=
    Text.natural?_toDigits (by decide) (by decide) group.toNat
  rw [group?, if_neg (Nat.not_lt.mpr few), read]
  simp

theorem notMem_groupDigits {c : Char} (mark : c = ':' ∨ c = '.') (group : UInt16) :
    c ∉ groupDigits group := by
  have known : ∀ digit < 16, Nat.digitChar digit ≠ ':' ∧ Nat.digitChar digit ≠ '.' := by decide
  intro member
  obtain ⟨digit, small, rfl⟩ := Text.mem_toDigits (by decide) member
  rcases mark with colon | dot
  · exact (known digit small).1 colon
  · exact (known digit small).2 dot

/-- The groups in hexadecimal digits, with colons between them. -/
def joined (groups : List UInt16) : List Char :=
  Text.join [':'] (groups.map groupDigits)

theorem toList_colonSeparated (groups : List UInt16) :
    (colonSeparated groups).toList = joined groups := by
  have each : (String.toList ∘ fun group : UInt16 => Text.hexadecimal group.toNat) =
      groupDigits := by
    funext group
    exact String.toList_ofList
  rw [colonSeparated, String.toList_intercalate, List.map_map, each]
  rfl

theorem pieces_joined {groups : List UInt16} (some : groups ≠ []) :
    Text.pieces (· == ':') (joined groups) = groups.map groupDigits := by
  apply Text.pieces_join (by simpa using some)
  intro part member
  obtain ⟨group, _, rfl⟩ := List.mem_map.mp member
  exact notMem_groupDigits (.inl rfl) group

theorem dot_notMem_joined (groups : List UInt16) : '.' ∉ joined groups := by
  intro member
  cases groups with
  | nil => cases member
  | cons first rest =>
      have cuts : ∃ piece ∈ Text.pieces (· == ':') (joined (first :: rest)), '.' ∈ piece :=
        Text.exists_mem_pieces rfl member
      obtain ⟨piece, cut, inside⟩ := cuts
      rw [pieces_joined (List.cons_ne_nil _ _)] at cut
      obtain ⟨group, _, rfl⟩ := List.mem_map.mp cut
      exact notMem_groupDigits (.inr rfl) group inside

theorem groups?_groupDigits (groups : List UInt16) :
    groups? (groups.map groupDigits) = some groups := by
  induction groups with
  | nil => rfl
  | cons first rest ih =>
      have dotless := octets?_of_dotless (notMem_groupDigits (.inr rfl) first)
      cases rest with
      | nil => simp [groups?, dotless, group?_groupDigits]
      | cons second rest =>
          rw [List.map_cons] at ih
          simp [groups?, group?_groupDigits, ih]

theorem joined_cons_cons (first second : UInt16) (rest : List UInt16) :
    joined (first :: second :: rest) = groupDigits first ++ ':' :: joined (second :: rest) := by
  simp only [joined, List.map_cons, Text.join_cons_cons, List.append_assoc,
    List.singleton_append]

/-- Joined groups begin with a digit. -/
theorem exists_joined_cons (first : UInt16) (rest : List UInt16) :
    ∃ c behind, joined (first :: rest) = c :: behind ∧ c ≠ ':' := by
  obtain ⟨behind, begins⟩ := Text.join_cons [':'] (groupDigits first) (rest.map groupDigits)
  have solid := notMem_groupDigits (.inl rfl) first
  cases digits : groupDigits first with
  | nil => exact absurd digits Nat.toDigits_ne_nil
  | cons c more =>
      rw [digits, List.mem_cons, not_or] at solid
      rw [digits] at begins
      exact ⟨c, more ++ behind, by rw [joined, List.map_cons, digits, begins]; rfl, Ne.symm solid.1⟩

theorem part?_joined (groups : List UInt16) : part? (joined groups) = some groups := by
  cases groups with
  | nil => rfl
  | cons first rest =>
      obtain ⟨c, behind, begins, _⟩ := exists_joined_cons first rest
      have filled : (joined (first :: rest)).isEmpty = false := by
        rw [begins]
        rfl
      rw [part?, filled, pieces_joined (List.cons_ne_nil _ _), groups?_groupDigits]
      rfl

/-! ### The double colon -/

theorem cutAtGap_cons_of_ne {c : Char} (other : c ≠ ':') (rest : List Char) :
    cutAtGap (c :: rest) = (cutAtGap rest).map fun (before, after) => (c :: before, after) := by
  rw [cutAtGap]
  intro _ colon
  exact absurd colon other

theorem cutAtGap_colon_of_ne {c : Char} (other : c ≠ ':') (rest : List Char) :
    cutAtGap (':' :: c :: rest) =
      (cutAtGap (c :: rest)).map fun (before, after) => (':' :: before, after) := by
  rw [cutAtGap]
  intro _ _ doubled
  cases doubled
  exact absurd rfl other

theorem cutAtGap_append {part : List Char} (solid : ':' ∉ part) (rest : List Char) :
    cutAtGap (part ++ rest) =
      (cutAtGap rest).map fun (before, after) => (part ++ before, after) := by
  induction part with
  | nil => simp
  | cons c part ih =>
      rw [List.mem_cons, not_or] at solid
      rw [List.cons_append, cutAtGap_cons_of_ne (Ne.symm solid.1), ih solid.2, Option.map_map]
      rfl

/-- There is no double colon in joined groups. -/
theorem cutAtGap_joined_append (groups : List UInt16) (rest : List Char) :
    cutAtGap (joined groups ++ rest) =
      (cutAtGap rest).map fun (before, after) => (joined groups ++ before, after) := by
  induction groups with
  | nil => simp [joined, Text.join]
  | cons first others ih =>
      have solid := notMem_groupDigits (.inl rfl) first
      cases others with
      | nil =>
          rw [joined, List.map_singleton, Text.join_singleton]
          exact cutAtGap_append solid rest
      | cons second others =>
          obtain ⟨c, behind, begins, other⟩ := exists_joined_cons second others
          rw [joined_cons_cons, List.append_assoc, cutAtGap_append solid, begins, List.cons_append,
            List.cons_append, cutAtGap_colon_of_ne other, ← List.cons_append, ← begins, ih,
            Option.map_map, Option.map_map]
          simp [Function.comp_def]

theorem ofGroups?_toList (groups : Vector UInt16 8) :
    ofGroups? groups.toList = some (.v6 groups) := by
  obtain ⟨listed, complete⟩ := groups
  simp [ofGroups?, complete]

/-- Eight groups without a double colon. -/
theorem readV6?_joined (groups : List UInt16) :
    readV6? (joined groups) = ofGroups? groups := by
  have whole := cutAtGap_joined_append groups []
  rw [List.append_nil] at whole
  rw [readV6?, whole, part?_joined]
  rfl

/-- A double colon stands for all groups that are missing. -/
theorem readV6?_gap {front back : List UInt16} {last : List Char} {count : Nat}
    (read : part? last = some back) (total : front.length + count + back.length = 8)
    (positive : 0 < count) :
    readV6? (joined front ++ ':' :: ':' :: last) =
      ofGroups? (front ++ List.replicate count 0 ++ back) := by
  have cut : cutAtGap (joined front ++ ':' :: ':' :: last) = some (joined front, last) := by
    rw [cutAtGap_joined_append]
    simp [cutAtGap]
  have dotless := dot_notMem_joined front
  have missing : 8 - (front.length + back.length) = count := by omega
  have short : front.length + back.length < 8 := by omega
  simp [readV6?, cut, dotless, part?_joined, read, missing, short, guard]

/-! ### Rows of zeros -/

theorem exists_zerosAhead (groups : List UInt16) :
    ∃ back, groups = List.replicate (zerosAhead groups) 0 ++ back := by
  have zeros : groups.takeWhile (· == 0) = List.replicate (zerosAhead groups) 0 := by
    rw [List.eq_replicate_iff]
    refine ⟨rfl, fun group member => ?_⟩
    have kept := List.mem_takeWhile_imp member
    exact beq_iff_eq.mp kept
  exact ⟨groups.dropWhile (· == 0), by rw [← zeros, List.takeWhile_append_dropWhile]⟩

/-- What is found is a row of zeros, if it is one at all. -/
theorem longestZeros_eq {groups : List UInt16} {before start length : Nat}
    (found : longestZeros before groups = (start, length)) (row : 0 < length) :
    ∃ front back, groups = front ++ List.replicate length 0 ++ back ∧
      start = before + front.length := by
  induction groups generalizing before with
  | nil =>
      cases found
      cases row
  | cons group rest ih =>
      rw [longestZeros] at found
      split at found
      · cases found
        obtain ⟨back, same⟩ := exists_zerosAhead (group :: rest)
        exact ⟨[], back, same, rfl⟩
      · obtain ⟨front, back, same, place⟩ := ih found
        refine ⟨group :: front, back, by rw [same]; rfl, ?_⟩
        rw [place, List.length_cons]
        omega

/-! ### The whole text -/

theorem read?_of_colon {text : String} (colon : ':' ∈ text.toList) :
    read? text = readV6? text.toList := by
  rw [read?, octets?_of_colon colon]

theorem group_of_octets (group : UInt16) :
    (group >>> 8).toUInt8.toUInt16 * 256 + group.toUInt8.toUInt16 = group := by
  have small : group.toNat < 65536 := group.toNat_lt
  apply UInt16.toNat_inj.mp
  simp [Nat.shiftRight_eq_div_pow]
  omega

/-- The last two groups in dotted form. -/
theorem part?_mapped (high low : UInt16) :
    part? ("ffff:" ++ dotted (high >>> 8).toUInt8 high.toUInt8 (low >>> 8).toUInt8
      low.toUInt8).toList = some [0xFFFF, high, low] := by
  have read := octets?_dotted (high >>> 8).toUInt8 high.toUInt8 (low >>> 8).toUInt8 low.toUInt8
  generalize dotted (high >>> 8).toUInt8 high.toUInt8 (low >>> 8).toUInt8 low.toUInt8 = text
    at read ⊢
  have solid : ':' ∉ text.toList := by
    intro colon
    rw [octets?_of_colon colon] at read
    cases read
  have shape : ("ffff:" ++ text).toList = ['f', 'f', 'f', 'f'] ++ ':' :: text.toList := by
    rw [String.toList_append]
    rfl
  have cut : Text.pieces (· == ':') ("ffff:" ++ text).toList =
      [['f', 'f', 'f', 'f'], text.toList] := by
    rw [shape, Text.pieces_append_char, Text.pieces_of_notMem solid]
    rfl
  have front : group? ['f', 'f', 'f', 'f'] = some 0xFFFF := by decide
  have filled : ("ffff:" ++ text).toList.isEmpty = false := by
    rw [shape]
    rfl
  simp only [part?, filled, cut, groups?, front, read, group_of_octets]
  rfl

theorem read?_mapped (high low : UInt16) :
    read? ("::ffff:" ++ dotted (high >>> 8).toUInt8 high.toUInt8 (low >>> 8).toUInt8
      low.toUInt8) = ofGroups? [0, 0, 0, 0, 0, 0xFFFF, high, low] := by
  have gap : ("::ffff:" ++ dotted (high >>> 8).toUInt8 high.toUInt8 (low >>> 8).toUInt8
      low.toUInt8).toList = joined [] ++ ':' :: ':' :: ("ffff:" ++ dotted (high >>> 8).toUInt8
        high.toUInt8 (low >>> 8).toUInt8 low.toUInt8).toList := by
    rw [String.toList_append, String.toList_append]
    rfl
  have total : ([] : List UInt16).length + 5 + [0xFFFF, high, low].length = 8 := rfl
  rw [read?_of_colon (by rw [gap]; simp), gap,
    readV6?_gap (part?_mapped high low) total (by decide)]
  rfl

/-- Groups with their longest row of zeros left out. -/
theorem read?_shortened {groups : List UInt16} (complete : groups.length = 8)
    {start length : Nat} (found : longestZeros 0 groups = (start, length)) (row : 0 < length) :
    read? (colonSeparated (groups.take start) ++ "::" ++
      colonSeparated (groups.drop (start + length))) = ofGroups? groups := by
  obtain ⟨front, back, same, place⟩ := longestZeros_eq found row
  rw [Nat.zero_add] at place
  have first : groups.take start = front := by
    rw [same, place, List.append_assoc, List.take_left]
  have last : groups.drop (start + length) = back := by
    rw [same]
    exact List.drop_left' (by rw [place]; simp)
  have gap : (colonSeparated front ++ "::" ++ colonSeparated back).toList =
      joined front ++ ':' :: ':' :: joined back := by
    rw [String.toList_append, String.toList_append, toList_colonSeparated,
      toList_colonSeparated, List.append_assoc]
    rfl
  have total : front.length + length + back.length = 8 := by
    rw [← complete, same]
    simp [Nat.add_assoc]
  rw [first, last, read?_of_colon (by rw [gap]; simp), gap,
    readV6?_gap (part?_joined back) total row, ← same]

theorem read?_colonSeparated {groups : List UInt16} (several : 1 < groups.length) :
    read? (colonSeparated groups) = ofGroups? groups := by
  have colon : ':' ∈ (colonSeparated groups).toList := by
    match groups with
    | first :: second :: rest =>
        rw [toList_colonSeparated, joined_cons_cons]
        simp
  rw [read?_of_colon colon, toList_colonSeparated, readV6?_joined]

/-- An address is read back from its canonical text. -/
theorem read?_display (address : Address) : read? address.display = some address := by
  cases address with
  | v4 first second third fourth => rw [read?, display, octets?_dotted]
  | v6 groups =>
      have complete : groups.toList.length = 8 := groups.length_toList
      rw [← ofGroups?_toList, display]
      split
      · rename_i high low shape
        rw [shape]
        exact read?_mapped high low
      · cases found : longestZeros 0 groups.toList with
        | mk start length =>
            dsimp only
            split
            · exact read?_colonSeparated (by omega)
            · exact read?_shortened complete found (by omega)

example : (v6 #v[0x2001, 0xDB8, 0, 0, 1, 0, 0, 0]).display = "2001:db8:0:0:1::" := by
  decide +kernel

end VirtualHosts.Address
