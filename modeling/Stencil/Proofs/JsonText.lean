import Mathlib.Data.List.Basic
import Mathlib.Tactic.SplitIfs
import Stencil.Json.Printer
import Stencil.Json.Reader

/-!
# JSON text is read back

What the printer writes, the reader takes for the same value again, in whatever layout it was
written: a layout puts nothing but blanks between the parts (`Layout.Blank`), and the reader skips
blanks wherever they may stand. Inside a string every character comes back, since no two characters
are written alike and the quote is never written as itself.

Numbers are left out (`Numberless`); a tree has none.

The bound of the reader is twice the length of the text. A step from a value into its list of parts
costs one step without a character being read, so the lists need one step more than the values.

Main results:

* `readChars_write`: the characters of a string come back, whatever they are;
* `read?_write`: a value without numbers comes back from its text, in every layout;
* `write_inj`: so that no two of them have one text.
-/

namespace Stencil.Json

-- ---------------------------------------------------------------------------
-- Strings
-- ---------------------------------------------------------------------------

section

variable {c : Char} {cs rest : List Char}

/-- Behind a backslash an escape is read. -/
theorem readChars_escape (h : readEscape cs = some (c, rest)) :
    readChars ('\\' :: cs) = (readChars rest).map fun (ds, tail) => (c :: ds, tail) := by
  rw [readChars]
  simp only [Char.reduceEq, if_false, if_true]
  split
  · next d tail hread =>
    rw [h, Option.some.injEq, Prod.mk.injEq] at hread
    rw [hread.1, hread.2]
  · next hread => simp [h] at hread

/-- Any other character from the space on stands for itself. -/
theorem readChars_plain (hquote : c ≠ '"') (hback : c ≠ '\\') (hcontrol : ¬c.toNat < 32) :
    readChars (c :: cs) = (readChars cs).map fun (ds, tail) => (c :: ds, tail) := by
  rw [readChars, if_neg hquote, if_neg hback, if_neg hcontrol]

/-- The escape by code point of a control. -/
theorem readEscape_control (hcontrol : c.toNat < 32) :
    readEscape ('u' :: '0' :: '0' :: Text.hexDigit (c.toNat / 16) :: Text.hexDigit (c.toNat % 16) ::
      rest) = some (c, rest) := by
  have hhex : hex4? '0' '0' (Text.hexDigit (c.toNat / 16)) (Text.hexDigit (c.toNat % 16)) =
      some c.toNat := by
    have hhigh := Text.digitValue?_hexDigit (n := c.toNat / 16) (by omega)
    have hlow := Text.digitValue?_hexDigit (n := c.toNat % 16) (by omega)
    have hzero : Text.digitValue? '0' = some 0 := rfl
    simp only [hex4?, hhigh, hlow, hzero, Option.bind_eq_bind, Option.bind_some, Option.pure_def,
      Option.some.injEq]
    omega
  have hunit : charOfUnit? c.toNat = some c := by
    rw [charOfUnit?, if_neg (by omega), Char.ofNat_toNat]
  rw [readEscape, hhex, Option.bind_some, hunit]

/-- Each character comes back from the way it is written. -/
theorem readChars_writeChar (c : Char) (cs : List Char) :
    readChars (writeChar c ++ cs) = (readChars cs).map fun (ds, tail) => (c :: ds, tail) := by
  unfold writeChar
  split_ifs with hquote hback h h h h h hcontrol
  -- the escapes by a letter or by the character itself
  iterate 7 · subst c; exact readChars_escape rfl
  · exact readChars_escape (readEscape_control hcontrol)
  · exact readChars_plain hquote hback hcontrol

/-- **The characters of a string come back**, whatever they are. -/
theorem readChars_write (cs rest : List Char) :
    readChars (cs.flatMap writeChar ++ '"' :: rest) = some (cs, rest) := by
  induction cs with
  | nil =>
    rw [List.flatMap_nil, List.nil_append, readChars, if_pos rfl]
  | cons c cs ih =>
    rw [List.flatMap_cons, List.append_assoc, readChars_writeChar, ih]
    rfl

theorem readString_write (s : String) (rest : List Char) :
    readString (s.toList.flatMap writeChar ++ '"' :: rest) = some (s, rest) := by
  rw [readString, readChars_write, Option.map_some]
  simp only [String.ofList_toList]

end

-- ---------------------------------------------------------------------------
-- Layouts
-- ---------------------------------------------------------------------------

/-- Nothing but blanks, apart from the colon itself. -/
structure Layout.Blank (layout : Layout) : Prop where
  newline : ∀ level, ∀ c ∈ layout.newline level, isSpace c = true
  colon : ∃ gap, layout.colon = ':' :: gap ∧ ∀ c ∈ gap, isSpace c = true

theorem Layout.blank_compact : Layout.compact.Blank where
  newline := by simp [Layout.compact]
  colon := ⟨[], rfl, by simp⟩

theorem Layout.blank_pretty : Layout.pretty.Blank where
  newline := by
    intro level c hc
    rw [Layout.pretty, List.mem_cons, List.mem_replicate] at hc
    rcases hc with rfl | ⟨-, rfl⟩
    · rfl
    · rfl
  colon := ⟨[' '], rfl, by simp [isSpace]⟩

theorem skipSpace_cons {c : Char} (hc : isSpace c = false) (cs : List Char) :
    skipSpace (c :: cs) = c :: cs := by
  rw [skipSpace, List.dropWhile_cons_of_neg (by simp [hc])]

section

variable {gap : List Char} (hgap : ∀ c ∈ gap, isSpace c = true) (fuel : Nat) (cs : List Char)

include hgap

theorem skipSpace_gap : skipSpace (gap ++ cs) = skipSpace cs := by
  rw [skipSpace, List.dropWhile_append_of_pos hgap, skipSpace]

theorem readValue_gap : readValue fuel (gap ++ cs) = readValue fuel cs := by
  cases fuel with
  | zero => rw [readValue, readValue]
  | succ fuel => rw [readValue, readValue, skipSpace_gap hgap]

theorem readItems_gap : readItems fuel (gap ++ cs) = readItems fuel cs := by
  cases fuel with
  | zero => rw [readItems, readItems]
  | succ fuel => rw [readItems, readItems, readValue_gap hgap]

theorem readMembers_gap : readMembers fuel (gap ++ cs) = readMembers fuel cs := by
  cases fuel with
  | zero => rw [readMembers, readMembers]
  | succ fuel => rw [readMembers, readMembers, skipSpace_gap hgap]

end

-- ---------------------------------------------------------------------------
-- Values
-- ---------------------------------------------------------------------------

/-- A value without a number in it. -/
inductive Numberless : Json → Prop where
  | null : Numberless .null
  | bool (value : Bool) : Numberless (.bool value)
  | str (value : String) : Numberless (.str value)
  | arr {items : List Json} (hitems : ∀ item ∈ items, Numberless item) : Numberless (.arr items)
  | obj {members : List (String × Json)} (hmembers : ∀ member ∈ members, Numberless member.2) :
      Numberless (.obj members)

/-- In front of any text, the value is read back from its own text and nothing else is taken. -/
def ReadsBack (layout : Layout) (json : Json) : Prop :=
  ∀ fuel level rest, 2 * (json.write layout level rest).length < fuel →
    readValue fuel (json.write layout level rest) = some (json, rest)

section

variable (layout : Layout) {gap : List Char}

/-- A written value starts with neither a blank nor a closing bracket. -/
theorem write_head {json : Json} (h : json.Numberless) (level : Nat) (rest : List Char) :
    ∃ c cs, json.write layout level rest = c :: cs ∧ isSpace c = false ∧ c ≠ ']' := by
  cases h with
  | null => exact ⟨_, _, by rw [write], by decide, by decide⟩
  | bool value => cases value <;> exact ⟨_, _, by rw [write], by decide, by decide⟩
  | str value => exact ⟨_, _, by rw [write, writeString], by decide, by decide⟩
  | @arr items hitems => cases items <;> exact ⟨_, _, by rw [write], by decide, by decide⟩
  | @obj members hmembers =>
    rcases members with - | ⟨⟨name, value⟩, members⟩ <;>
      exact ⟨_, _, by rw [write], by decide, by decide⟩

theorem length_le_write (json : Json) (level : Nat) (rest : List Char) :
    rest.length ≤ (json.write layout level rest).length := by
  have happend := write_append layout level [] rest json
  rw [List.nil_append] at happend
  rw [happend, List.length_append]
  exact Nat.le_add_left _ _

theorem length_lt_member (name : String) (value : Json) (level : Nat) (rest : List Char) :
    (value.write layout level rest).length <
      (writeString name (layout.colon ++ value.write layout level rest)).length := by
  rw [writeString, List.length_cons, List.length_append, List.length_cons, List.length_append]
  omega

variable {layout}

/-- An item is read, and what follows decides. -/
theorem readItems_item {item : Json} (hread : ReadsBack layout item) (level : Nat)
    {tail : List Char} {fuel : Nat} (hfuel : 2 * (item.write layout level tail).length < fuel) :
    readItems (fuel + 1) (item.write layout level tail) =
      match skipSpace tail with
      | ']' :: rest => some ([item], rest)
      | ',' :: rest => (readItems fuel rest).map fun (items, rest) => (item :: items, rest)
      | _ => none := by
  rw [readItems, hread fuel level tail hfuel]
  rfl

/-- The items of an array come back, the first one and the others behind their commas. -/
theorem readItems_write (hlayout : layout.Blank) (hgap : ∀ c ∈ gap, isSpace c = true) (level : Nat)
    (rest : List Char) {item : Json} {items : List Json}
    (hread : ∀ other ∈ item :: items, ReadsBack layout other) (fuel : Nat)
    (hfuel : 2 * (item.write layout level
      (writeItems layout level items (gap ++ ']' :: rest))).length + 1 < fuel) :
    readItems fuel (item.write layout level
      (writeItems layout level items (gap ++ ']' :: rest))) = some (item :: items, rest) := by
  induction items generalizing item fuel with
  | nil =>
    cases fuel with
    | zero => omega
    | succ fuel =>
      rw [readItems_item (hread item List.mem_cons_self) level (by omega), writeItems,
        skipSpace_gap hgap, skipSpace_cons (c := ']') rfl]
      rfl
  | cons next items ih =>
    cases fuel with
    | zero => omega
    | succ fuel =>
      have hshorter := length_le_write layout item level
        (writeItems layout level (next :: items) (gap ++ ']' :: rest))
      rw [writeItems, List.length_cons, List.length_append] at hshorter
      have hothers : readItems fuel (next.write layout level
          (writeItems layout level items (gap ++ ']' :: rest))) = some (next :: items, rest) := by
        refine ih (fun other hother => hread other (List.mem_cons_of_mem item hother)) fuel ?_
        rw [writeItems] at hfuel
        omega
      rw [readItems_item (hread item List.mem_cons_self) level (by omega), writeItems,
        skipSpace_cons (c := ',') rfl]
      simp only
      rw [readItems_gap (hlayout.newline level), hothers, Option.map_some]

/-- A member is read, and what follows decides. -/
theorem readMembers_member (hlayout : layout.Blank) (name : String) {value : Json}
    (hread : ReadsBack layout value) (level : Nat) {tail : List Char} {fuel : Nat}
    (hfuel : 2 * (value.write layout level tail).length < fuel) :
    readMembers (fuel + 1) (writeString name (layout.colon ++ value.write layout level tail)) =
      match skipSpace tail with
      | '}' :: rest => some ([(name, value)], rest)
      | ',' :: rest =>
        (readMembers fuel rest).map fun (members, rest) => ((name, value) :: members, rest)
      | _ => none := by
  obtain ⟨space, hcolon, hspace⟩ := hlayout.colon
  rw [readMembers, writeString, skipSpace_cons (c := '"') rfl]
  simp only
  rw [readString_write, Option.bind_some]
  simp only
  rw [hcolon, List.cons_append, skipSpace_cons (c := ':') rfl]
  simp only
  rw [readValue_gap hspace, hread fuel level tail hfuel]
  rfl

/-- The members of an object come back, the first one and the others behind their commas. -/
theorem readMembers_write (hlayout : layout.Blank) (hgap : ∀ c ∈ gap, isSpace c = true)
    (level : Nat) (rest : List Char) {name : String} {value : Json} {members : List (String × Json)}
    (hread : ∀ member ∈ (name, value) :: members, ReadsBack layout member.2) (fuel : Nat)
    (hfuel : 2 * (writeString name (layout.colon ++ value.write layout level
      (writeMembers layout level members (gap ++ '}' :: rest)))).length + 1 < fuel) :
    readMembers fuel (writeString name (layout.colon ++ value.write layout level
      (writeMembers layout level members (gap ++ '}' :: rest)))) =
        some ((name, value) :: members, rest) := by
  induction members generalizing name value fuel with
  | nil =>
    have hvalue : ReadsBack layout value := hread (name, value) List.mem_cons_self
    have hshorter := length_lt_member layout name value level
      (writeMembers layout level [] (gap ++ '}' :: rest))
    cases fuel with
    | zero => omega
    | succ fuel =>
      rw [readMembers_member hlayout name hvalue level (by omega), writeMembers,
        skipSpace_gap hgap, skipSpace_cons (c := '}') rfl]
      rfl
  | cons next members ih =>
    obtain ⟨name', value'⟩ := next
    have hvalue : ReadsBack layout value := hread (name, value) List.mem_cons_self
    have hshorter := length_lt_member layout name value level
      (writeMembers layout level ((name', value') :: members) (gap ++ '}' :: rest))
    cases fuel with
    | zero => omega
    | succ fuel =>
      have hvalueShorter := length_le_write layout value level
        (writeMembers layout level ((name', value') :: members) (gap ++ '}' :: rest))
      have hothers : readMembers fuel (writeString name' (layout.colon ++
          value'.write layout level (writeMembers layout level members (gap ++ '}' :: rest)))) =
            some ((name', value') :: members, rest) := by
        refine ih (fun member hmember => hread member (List.mem_cons_of_mem _ hmember)) fuel ?_
        rw [writeMembers] at hvalueShorter hshorter hfuel
        rw [List.length_cons, List.length_append] at hvalueShorter
        omega
      rw [readMembers_member hlayout name hvalue level (by omega), writeMembers,
        skipSpace_cons (c := ',') rfl]
      simp only
      rw [readMembers_gap (hlayout.newline level), hothers, Option.map_some]

/-- An array comes back if its items do. -/
theorem readsBack_arr (hlayout : layout.Blank) {items : List Json}
    (hitems : ∀ item ∈ items, Numberless item) (hread : ∀ item ∈ items, ReadsBack layout item) :
    ReadsBack layout (.arr items) := by
  intro fuel level rest hfuel
  obtain ⟨fuel, rfl⟩ := Nat.exists_eq_add_one_of_ne_zero (Nat.ne_zero_of_lt hfuel)
  cases items with
  | nil =>
    rw [write, readValue, skipSpace_cons (c := '[') rfl]
    simp only [skipSpace_cons (c := ']') rfl]
  | cons item items =>
    rw [write] at hfuel ⊢
    rw [List.length_cons, List.length_append] at hfuel
    have hlist := readItems_write hlayout (hlayout.newline level) (level + 1) rest hread fuel
      (by omega)
    obtain ⟨c, cs, hhead, hspace, hbracket⟩ := write_head layout
      (hitems item List.mem_cons_self) (level + 1)
      (writeItems layout (level + 1) items (layout.newline level ++ ']' :: rest))
    rw [readValue, skipSpace_cons (c := '[') rfl]
    simp only [skipSpace_gap (hlayout.newline (level + 1))]
    rw [hhead] at hlist ⊢
    rw [skipSpace_cons hspace]
    split
    · next tail heq => exact absurd (List.cons.inj heq).1 hbracket
    · rw [hlist, Option.map_some]

/-- An object comes back if the values of its members do. -/
theorem readsBack_obj (hlayout : layout.Blank) {members : List (String × Json)}
    (hread : ∀ member ∈ members, ReadsBack layout member.2) :
    ReadsBack layout (.obj members) := by
  intro fuel level rest hfuel
  obtain ⟨fuel, rfl⟩ := Nat.exists_eq_add_one_of_ne_zero (Nat.ne_zero_of_lt hfuel)
  rcases members with - | ⟨⟨name, value⟩, members⟩
  · rw [write, readValue, skipSpace_cons (c := '{') rfl]
    simp only [skipSpace_cons (c := '}') rfl]
  · rw [write] at hfuel ⊢
    rw [List.length_cons, List.length_append] at hfuel
    have hlist := readMembers_write hlayout (hlayout.newline level) (level + 1) rest hread fuel
      (by omega)
    rw [readValue, skipSpace_cons (c := '{') rfl]
    simp only [skipSpace_gap (hlayout.newline (level + 1))]
    rw [writeString] at hlist ⊢
    rw [skipSpace_cons (c := '"') rfl]
    split
    · next tail heq => simp at heq
    · rw [hlist, Option.map_some]

/-- **A value without numbers comes back**, whatever stands behind it. -/
theorem readsBack_of_numberless (hlayout : layout.Blank) {json : Json} (h : json.Numberless) :
    ReadsBack layout json := by
  induction h with
  | null =>
    intro fuel level rest hfuel
    obtain ⟨fuel, rfl⟩ := Nat.exists_eq_add_one_of_ne_zero (Nat.ne_zero_of_lt hfuel)
    rw [write, readValue, skipSpace_cons (c := 'n') rfl]
    rfl
  | bool value =>
    intro fuel level rest hfuel
    obtain ⟨fuel, rfl⟩ := Nat.exists_eq_add_one_of_ne_zero (Nat.ne_zero_of_lt hfuel)
    cases value with
    | true =>
      rw [write, readValue, skipSpace_cons (c := 't') rfl]
      rfl
    | false =>
      rw [write, readValue, skipSpace_cons (c := 'f') rfl]
      rfl
  | str value =>
    intro fuel level rest hfuel
    obtain ⟨fuel, rfl⟩ := Nat.exists_eq_add_one_of_ne_zero (Nat.ne_zero_of_lt hfuel)
    rw [write, writeString, readValue, skipSpace_cons (c := '"') rfl]
    simp only
    rw [readString_write, Option.map_some]
  | arr hitems ih => exact readsBack_arr hlayout hitems ih
  | obj hmembers ih => exact readsBack_obj hlayout ih

/-- **A text that was written is read back**, in every layout. -/
theorem read?_write (hlayout : layout.Blank) {json : Json} (h : json.Numberless) :
    read? (String.ofList (json.write layout 0 [])) = some json := by
  have hread := readsBack_of_numberless hlayout h
    (2 * (String.ofList (json.write layout 0 [])).length + 2) 0 []
  rw [read?, String.toList_ofList, hread]
  · rfl
  · rw [String.length_ofList]
    omega

/-- Values without numbers that are written alike are equal. -/
theorem write_inj (hlayout : layout.Blank) {a b : Json} (ha : a.Numberless) (hb : b.Numberless) :
    String.ofList (a.write layout 0 []) = String.ofList (b.write layout 0 []) ↔ a = b := by
  constructor
  · intro h
    have hread := read?_write hlayout ha
    rw [h, read?_write hlayout hb] at hread
    exact (Option.some.inj hread).symm
  · rintro rfl
    rfl

end

end Stencil.Json
