import Stencil.Proofs.Spacing

/-!
# Escaped texts

A text of a tree is the body of a double-quoted literal (`IsLiteralBody`): nothing in it ends the
literal or breaks its line, and a backslash only stands where it starts an escape. Whoever evaluates
the literal takes the escapes away again (`unescape`) and has the run of the source with its character
references decoded.

Decoding and escaping are done in one pass over the run. That this is the same as decoding first and
escaping afterwards, and that nothing is decoded twice, is said with texts in which the words of a
table are replaced from left to right (`Replaced`). A character that a reference stands for is escaped
where it has to be, but it is not read again, so `&amp;lt;` comes to `&lt;` and stays there.

Main results:

* `Replaced.unique`: if no word of a table begins another one, there is only one way to replace them;
* `escaped_replaced`, `unescape_replaced`: what escaping replaces, and what it replaces once the
  escapes are taken away;
* `escaped_faithful`: the literal is whole and evaluates to the decoded text, in every tree.
-/

namespace Stencil

namespace Text

-- ---------------------------------------------------------------------------
-- Replacing words
-- ---------------------------------------------------------------------------

/-- One text is another one with the words of a table replaced. It is gone through once, from left to
right: a word that begins at a place is replaced and passed over, and where none begins the character
stays. -/
inductive Replaced (table : List (String × String)) : List Char → List Char → Prop where
  | nil : Replaced table [] []
  | word {old new : String} {rest out : List Char} (hentry : (old, new) ∈ table)
      (hrest : Replaced table rest out) : Replaced table (old.toList ++ rest) (new.toList ++ out)
  | char {c : Char} {rest out : List Char}
      (hnone : ∀ entry ∈ table, ¬entry.1.toList <+: c :: rest)
      (hrest : Replaced table rest out) : Replaced table (c :: rest) (c :: out)

/-- No word of a table is empty or begins another one. -/
def PrefixFree (table : List (String × String)) : Prop :=
  ∀ entry ∈ table, entry.1.toList ≠ [] ∧
    ∀ other ∈ table, entry.1.toList <+: other.1.toList → entry = other

instance (table : List (String × String)) : Decidable (PrefixFree table) :=
  inferInstanceAs (Decidable (∀ entry ∈ table, _))

/-- At each place at most one word begins, so there is only one way to replace the words. -/
theorem Replaced.unique {table : List (String × String)} (hfree : PrefixFree table)
    {cs out other : List Char} (h : Replaced table cs out) (h' : Replaced table cs other) :
    out = other := by
  induction h generalizing other with
  | nil =>
    generalize hcs : ([] : List Char) = cs at h'
    cases h' with
    | nil => rfl
    | word hentry hrest =>
      have hempty := (List.append_eq_nil_iff.1 hcs.symm).1
      exact absurd hempty (hfree _ hentry).1
    | char hnone hrest => cases hcs
  | @word old new rest out hentry hrest ih =>
    obtain ⟨hne, hbegins⟩ := hfree _ hentry
    generalize hcs : old.toList ++ rest = cs at h'
    cases h' with
    | nil => exact absurd (List.append_eq_nil_iff.1 hcs).1 hne
    | @word old' new' rest' out' hentry' hrest' =>
      have hsame : (old, new) = (old', new') := by
        rcases List.prefix_or_prefix_of_prefix (List.prefix_append old.toList rest)
          (hcs ▸ List.prefix_append old'.toList rest') with hle | hle
        · exact hbegins _ hentry' hle
        · exact ((hfree _ hentry').2 _ hentry hle).symm
      obtain ⟨rfl, rfl⟩ := Prod.mk.inj hsame
      rw [ih ((List.append_cancel_left hcs) ▸ hrest')]
    | char hnone hrest' =>
      exact absurd (hcs ▸ List.prefix_append old.toList rest) (hnone _ hentry)
  | @char c rest out hnone hrest ih =>
    generalize hcs : c :: rest = cs at h'
    cases h' with
    | nil => cases hcs
    | @word old new rest' out' hentry hrest' =>
      exact absurd (hcs ▸ List.prefix_append old.toList rest') (hnone _ hentry)
    | char hnone' hrest' =>
      obtain ⟨rfl, rfl⟩ := List.cons.inj hcs
      rw [ih hrest']

theorem Replaced.iff_eq {table : List (String × String)} (hfree : PrefixFree table)
    {cs out : List Char} (h : Replaced table cs out) (other : List Char) :
    Replaced table cs other ↔ out = other := by
  constructor
  · exact h.unique hfree
  · rintro rfl
    exact h

-- ---------------------------------------------------------------------------
-- Literals
-- ---------------------------------------------------------------------------

/-- The texts that can stand between the quotes of a literal: no line end, no quote that is not
escaped, and no backslash that does not start the escape of a quote, a backslash or a line end. -/
inductive IsLiteralBody : List Char → Prop where
  | nil : IsLiteralBody []
  | plain {c : Char} {cs : List Char} (hquote : c ≠ '"') (hbackslash : c ≠ '\\') (hline : c ≠ '\n')
      (hrest : IsLiteralBody cs) : IsLiteralBody (c :: cs)
  | escape {c : Char} {cs : List Char} (hc : c = '"' ∨ c = '\\' ∨ c = 'n')
      (hrest : IsLiteralBody cs) : IsLiteralBody ('\\' :: c :: cs)

/-- What the body of a literal evaluates to. -/
def unescape : List Char → List Char
  | '\\' :: '"' :: cs => '"' :: unescape cs
  | '\\' :: '\\' :: cs => '\\' :: unescape cs
  | '\\' :: 'n' :: cs => '\n' :: unescape cs
  | c :: cs => c :: unescape cs
  | [] => []

theorem unescape_cons {c : Char} (hc : c ≠ '\\') (cs : List Char) :
    unescape (c :: cs) = c :: unescape cs := by
  rw [unescape]
  all_goals
    intro rest hbackslash
    exact absurd hbackslash hc

/-- A character is one of the three that have an escape, or it is written as it is. -/
theorem escapeChar_cases (c : Char) :
    (c = '"' ∧ escapeChar c = ['\\', '"']) ∨ (c = '\\' ∧ escapeChar c = ['\\', '\\']) ∨
      (c = '\n' ∧ escapeChar c = ['\\', 'n']) ∨
      (c ≠ '"' ∧ c ≠ '\\' ∧ c ≠ '\n' ∧ escapeChar c = [c]) := by
  unfold escapeChar
  by_cases hquote : c = '"'
  · exact .inl ⟨hquote, if_pos hquote⟩
  · by_cases hbackslash : c = '\\'
    · exact .inr (.inl ⟨hbackslash, by rw [if_neg hquote, if_pos hbackslash]⟩)
    · by_cases hline : c = '\n'
      · refine .inr (.inr (.inl ⟨hline, ?_⟩))
        rw [if_neg hquote, if_neg hbackslash, if_pos hline]
      · refine .inr (.inr (.inr ⟨hquote, hbackslash, hline, ?_⟩))
        rw [if_neg hquote, if_neg hbackslash, if_neg hline]

theorem IsLiteralBody.escapeChar_append (c : Char) {cs : List Char} (h : IsLiteralBody cs) :
    IsLiteralBody (escapeChar c ++ cs) := by
  rcases escapeChar_cases c with
    ⟨-, heq⟩ | ⟨-, heq⟩ | ⟨-, heq⟩ | ⟨hquote, hbackslash, hline, heq⟩
  · rw [heq]
    exact .escape (.inl rfl) h
  · rw [heq]
    exact .escape (.inr (.inl rfl)) h
  · rw [heq]
    exact .escape (.inr (.inr rfl)) h
  · rw [heq]
    exact .plain hquote hbackslash hline h

theorem unescape_escapeChar_append (c : Char) (cs : List Char) :
    unescape (escapeChar c ++ cs) = c :: unescape cs := by
  rcases escapeChar_cases c with
    ⟨hc, heq⟩ | ⟨hc, heq⟩ | ⟨hc, heq⟩ | ⟨-, hbackslash, -, heq⟩
  · rw [heq, hc]
    rfl
  · rw [heq, hc]
    rfl
  · rw [heq, hc]
    rfl
  · rw [heq]
    exact unescape_cons hbackslash cs

-- ---------------------------------------------------------------------------
-- Escaping
-- ---------------------------------------------------------------------------

/-- The character references and what they stand for. -/
def references : List (String × String) :=
  [("&amp;", "&"), ("&gt;", ">"), ("&lt;", "<"), ("&nbsp;", " "), ("&quot;", "\"")]

/-- What a run is searched for on its way into a tree: references, and the characters that have an
escape. -/
def escapes : List (String × String) :=
  [("&amp;", "&"), ("&gt;", ">"), ("&lt;", "<"), ("&nbsp;", " "), ("&quot;", "\\\""),
    ("\"", "\\\""), ("\\", "\\\\"), ("\n", "\\n")]

/-- A reference is one of the table, and where it comes from a table of escapes, what it stands for is
escaped already. -/
theorem exists_of_reference? {cs rest : List Char} {d : Char} (h : reference? cs = some (d, rest)) :
    ∃ name, (name, String.ofList [d]) ∈ references ∧
      (name, String.ofList (escapeChar d)) ∈ escapes ∧ cs = name.toList ++ rest := by
  rw [reference?.eq_def] at h
  split at h <;> simp only [Option.some.injEq, Prod.mk.injEq, reduceCtorEq] at h
  · obtain ⟨rfl, rfl⟩ := h
    exact ⟨"&amp;", by decide, by decide, rfl⟩
  · obtain ⟨rfl, rfl⟩ := h
    exact ⟨"&gt;", by decide, by decide, rfl⟩
  · obtain ⟨rfl, rfl⟩ := h
    exact ⟨"&lt;", by decide, by decide, rfl⟩
  · obtain ⟨rfl, rfl⟩ := h
    exact ⟨"&nbsp;", by decide, by decide, rfl⟩
  · obtain ⟨rfl, rfl⟩ := h
    exact ⟨"&quot;", by decide, by decide, rfl⟩

/-- Where none is read, no reference begins. -/
theorem not_prefix_of_reference?_none {cs : List Char} (h : reference? cs = none) :
    ∀ entry ∈ references, ¬entry.1.toList <+: cs := by
  intro entry hentry
  simp only [references, List.mem_cons, List.not_mem_nil, or_false] at hentry
  rintro ⟨rest, rfl⟩
  rcases hentry with rfl | rfl | rfl | rfl | rfl <;> cases h

/-- A word to be escaped is a reference or one of three characters. -/
theorem mem_escapes {entry : String × String} (h : entry ∈ escapes) :
    (∃ old ∈ references, entry.1 = old.1) ∨
      entry.1 = "\"" ∨ entry.1 = "\\" ∨ entry.1 = "\n" := by
  simp only [escapes, List.mem_cons, List.not_mem_nil, or_false] at h
  rcases h with rfl | rfl | rfl | rfl | rfl | rfl | rfl | rfl
  all_goals decide

/-- **Escaping is one pass** in which references and characters are replaced. -/
theorem escaped_replaced (cs : List Char) : Replaced escapes cs (escaped cs) := by
  fun_induction escaped cs with
  | case1 => exact .nil
  | case2 c cs d rest h ih =>
    obtain ⟨name, -, hentry, hcs⟩ := exists_of_reference? h
    have hword := Replaced.word hentry ih
    rwa [← hcs, String.toList_ofList] at hword
  | case3 c cs h ih =>
    rcases escapeChar_cases c with
      ⟨rfl, heq⟩ | ⟨rfl, heq⟩ | ⟨rfl, heq⟩ | ⟨hquote, hbackslash, hline, heq⟩
    · rw [heq]
      exact .word (show ("\"", "\\\"") ∈ escapes by decide) ih
    · rw [heq]
      exact .word (show ("\\", "\\\\") ∈ escapes by decide) ih
    · rw [heq]
      exact .word (show ("\n", "\\n") ∈ escapes by decide) ih
    · rw [heq]
      refine .char (fun entry hentry hbegins => ?_) ih
      have hone : ∀ d, entry.1.toList = [d] → c = d := by
        intro d hd
        rw [hd, List.cons_prefix_cons] at hbegins
        exact hbegins.1.symm
      rcases mem_escapes hentry with ⟨old, hold, hname⟩ | hname | hname | hname
      · rw [hname] at hbegins
        exact not_prefix_of_reference?_none h old hold hbegins
      · exact hquote (hone '"' (by rw [hname]; rfl))
      · exact hbackslash (hone '\\' (by rw [hname]; rfl))
      · exact hline (hone '\n' (by rw [hname]; rfl))

/-- Taking the escapes away again leaves a pass in which references alone are replaced. -/
theorem unescape_replaced (cs : List Char) : Replaced references cs (unescape (escaped cs)) := by
  fun_induction escaped cs with
  | case1 => exact .nil
  | case2 c cs d rest h ih =>
    obtain ⟨name, hentry, -, hcs⟩ := exists_of_reference? h
    have hword := Replaced.word hentry ih
    rw [← hcs, String.toList_ofList] at hword
    rwa [unescape_escapeChar_append]
  | case3 c cs h ih =>
    rw [unescape_escapeChar_append]
    exact .char (not_prefix_of_reference?_none h) ih

theorem isLiteralBody_escaped (cs : List Char) : IsLiteralBody (escaped cs) := by
  fun_induction escaped cs with
  | case1 => exact .nil
  | case2 c cs d rest h ih => exact ih.escapeChar_append d
  | case3 c cs h ih => exact ih.escapeChar_append c

end Text

-- ---------------------------------------------------------------------------
-- Trees
-- ---------------------------------------------------------------------------

open Source (Item items)

/-- The text of an item is a run of the source, escaped. -/
theorem Source.exists_run_of_mem_items {text : List Char} {raw : String}
    (h : Item.text raw ∈ items text) : ∃ run, raw = String.ofList (Text.escaped run) := by
  obtain ⟨lexeme, hlexeme, hitem⟩ := List.mem_map.1 h
  obtain ⟨before, after, hrow⟩ := List.append_of_mem hlexeme
  obtain ⟨c, cs, -, -, hread, -⟩ := lexemesFrom_split hrow
  rw [hitem] at hread
  have hrun : (Item.read c cs).1.isRun = true := by
    rw [← hread]
    rfl
  rw [(Item.read_of_isRun hrun).2, Item.readText] at hread
  dsimp only at hread
  split at hread
  · cases hread
  · exact ⟨_, Item.text.inj hread⟩

/-- A text of a tree is the text of an item. -/
theorem exists_run_of_mem_parts {options : CompileOptions} {source raw : String}
    (h : Part.text raw ∈ (compile options source).root.children.flatMap Node.parts) :
    ∃ run, raw = String.ofList (Text.escaped run) := by
  obtain ⟨item, hitem, hpart⟩ := exists_item_of_mem_parts h
  cases item with
  | text raw' =>
    obtain rfl : raw = raw' := Part.text.inj (List.mem_singleton.1 hpart)
    exact Source.exists_run_of_mem_items hitem
  | opening tag attrs | leaf tag attrs =>
    simp [Item.parts, Part.ofTag] at hpart
  | binding e => cases List.mem_singleton.1 hpart
  | closing _ | blank | comment => cases hpart

/-- **Escaping is faithful.** To escape a text is to replace the words of `escapes` in one pass. What
comes out is the body of a literal, whatever the text holds, and the literal evaluates to the text with
its references replaced in one pass and nothing else changed. So every text of every tree is the body
of a literal. -/
theorem escaped_faithful :
    (∀ text : List Char,
      (∀ out, Text.Replaced Text.escapes text out ↔ Text.escaped text = out) ∧
      Text.IsLiteralBody (Text.escaped text) ∧
      (∀ out, Text.Replaced Text.references text out ↔ Text.unescape (Text.escaped text) = out)) ∧
    ∀ (options : CompileOptions) (source raw : String),
      Part.text raw ∈ (compile options source).root.children.flatMap Node.parts →
        Text.IsLiteralBody raw.toList := by
  have hescapes : Text.PrefixFree Text.escapes := by decide +kernel
  have hreferences : Text.PrefixFree Text.references := by decide +kernel
  constructor
  · intro text
    exact ⟨(Text.escaped_replaced text).iff_eq hescapes, Text.isLiteralBody_escaped text,
      (Text.unescape_replaced text).iff_eq hreferences⟩
  · intro options source raw hraw
    obtain ⟨run, rfl⟩ := exists_run_of_mem_parts hraw
    rw [String.toList_ofList]
    exact Text.isLiteralBody_escaped run

/-- A reference that brings in another one, one that has to be escaped, and the characters that have
an escape, side by side. -/
theorem escaped_faithful_twice :
    let source := "<p>&amp;lt; \\&quot;\"\n</p>"
    let raw := "&lt; \\\\\\\"\\\"\\n"
    Part.text raw ∈ (compile {} source).root.children.flatMap Node.parts ∧
      Text.IsLiteralBody raw.toList ∧
      Text.Replaced Text.references "&amp;lt; \\&quot;\"\n".toList "&lt; \\\"\"\n".toList := by
  intro source raw
  obtain ⟨htexts, htrees⟩ := escaped_faithful
  have hraw : Part.text raw ∈ (compile {} source).root.children.flatMap Node.parts := by
    decide +kernel
  obtain ⟨-, -, hdecoded⟩ := htexts "&amp;lt; \\&quot;\"\n".toList
  exact ⟨hraw, htrees {} source raw hraw, (hdecoded _).2 (by decide +kernel)⟩

end Stencil
