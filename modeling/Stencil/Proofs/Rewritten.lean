import Stencil.Proofs.Scoping

/-!
# The tokens of a rewritten text

A rewritten expression is a text again, and it is cut into tokens like any other. This is what it is
cut into: the tokens of the source, but for the names that were resolved, and in the place of each of
these a scope, a point and the name as a member. No token is joined with its neighbour, so the names
left over are reserved words and scopes, the strings are those of the source, and the source can be
read back.

That holds as long as dollar signs stand apart. The induction runs over the row of tokens of the
source, and for each token what stands behind it is exchanged for what that is rewritten to. The new
text starts with the same character, or with the start of another name, and that carries on no token
that the old one did not.

Main results:

* `tokens_flatMap_rewritten`: the tokens of a rewritten text;
* `rewritten_is_settled`: nothing in it is left to resolve, and its strings are those of the source;
* `rewriting_injective`: different sources are rewritten to different texts.
-/

namespace Stencil

open Token

-- ---------------------------------------------------------------------------
-- What a token is rewritten to
-- ---------------------------------------------------------------------------

theorem isIdentifier_instance : IsIdentifier "instance".toList :=
  ⟨'i', "nstance".toList, by decide, by decide, by simp [isNamePart]⟩

theorem isIdentifier_locals : IsIdentifier "locals".toList :=
  ⟨'l', "ocals".toList, by decide, by decide, by simp [isNamePart]⟩

/-- What rewriting does to a token. It keeps it, and if this is a bare name, then a fixed one; or it
writes a scope, a point and name characters: those of the name, or those behind its dollar sign. -/
inductive Token.Resolved : Token → Prop where
  | kept {t : Token} (hsame : t.rewritten = t.text)
      (hfixed : ∀ word, t = .name word → String.ofList word ∈ reservedWords ∨ word = ['$']) :
      Resolved t
  | inScope {word scope parts : List Char} (hword : IsIdentifier word) (hscope : IsIdentifier scope)
      (hparts : ∀ c ∈ parts, isNamePart c = true)
      (hresult : (Token.name word).rewritten = scope ++ '.' :: parts)
      (hkind : scope = "instance".toList ∧ word = parts ∨
        scope = "locals".toList ∧ word = '$' :: parts) : Resolved (.name word)

theorem resolved_name {word : List Char} (hword : IsIdentifier word) :
    (Token.name word).Resolved := by
  have hinstance : "instance.".toList = "instance".toList ++ ['.'] := by decide
  have hlocals : "locals.".toList = "locals".toList ++ ['.'] := by decide
  have hidentifier := hword
  obtain ⟨c, cs, rfl, hstart, hparts⟩ := hword
  rcases Reference.ofName_cases (c :: cs) with
    ⟨hname, hfixed⟩ | ⟨hname, hhead⟩ | ⟨bare, hbare, hcons, hname⟩
  · refine .kept ?_ fun word hword => ?_
    · rw [rewritten, hname, Reference.text_fixed, text]
    · rw [← Token.name.inj hword]
      exact hfixed
  · refine .inScope hidentifier isIdentifier_instance (fun d hd => ?_) ?_ (.inl ⟨rfl, rfl⟩)
    · rcases List.mem_cons.1 hd with rfl | hd
      · rw [← Bool.not_eq_false]
        intro hpart
        exact hhead (congrArg some (eq_dollar_of_isNameStart hstart hpart))
      · exact hparts d hd
    · rw [rewritten, hname, Reference.text_ofInstance, hinstance, List.append_assoc]
      rfl
  · obtain ⟨rfl, rfl⟩ := List.cons.inj hcons
    refine .inScope hidentifier isIdentifier_locals hparts ?_ (.inr ⟨rfl, rfl⟩)
    rw [rewritten, hname, Reference.text_ofLocals, hlocals, List.append_assoc]
    rfl

theorem Token.Shaped.resolved {t : Token} (hshape : t.Shaped) : t.Resolved := by
  cases hshape with
  | name hword => exact resolved_name hword
  | quoted hq hinner | glued hne hdigits hword | member hword | key hword | other hc =>
    exact .kept rfl fun word heq => by cases heq

/-- There is no quote in what a name is rewritten to. -/
theorem not_isQuote_of_scoped {scope parts : List Char} (hscope : IsIdentifier scope)
    (hparts : ∀ c ∈ parts, isNamePart c = true) :
    ∀ c ∈ scope ++ '.' :: parts, isQuote c = false := by
  intro c hc
  rw [List.mem_append, List.mem_cons] at hc
  rcases hc with hc | rfl | hc
  · exact not_isQuote_of_isWordChar (hscope.all_isWordChar c hc)
  · rfl
  · exact not_isQuote_of_isWordChar (isWordChar_of_isNamePart (hparts c hc))

/-- Rewriting brings in no quotes. -/
theorem mem_text_of_mem_rewritten {t : Token} (hshape : t.Shaped) {q : Char}
    (hq : isQuote q = true) (h : q ∈ t.rewritten) : q ∈ t.text := by
  cases hshape.resolved with
  | kept hsame hfixed => rwa [hsame] at h
  | inScope hword hscope hparts hresult hkind =>
    rw [hresult] at h
    rw [not_isQuote_of_scoped hscope hparts q h] at hq
    cases hq

/-- Rewriting keeps the first character of a token, or puts one start of a name for another. -/
theorem head_rewritten {t : Token} (hshape : t.Shaped) : ∃ c cs d ds, t.text = c :: cs ∧
    t.rewritten = d :: ds ∧ (d = c ∨ (isNameStart c = true ∧ isNameStart d = true)) := by
  cases hshape.resolved with
  | kept hsame hfixed =>
    obtain ⟨c, cs, htext⟩ := List.exists_cons_of_ne_nil hshape.text_ne_nil
    exact ⟨c, cs, c, cs, htext, hsame.trans htext, .inl rfl⟩
  | inScope hword hscope hparts hresult hkind =>
    obtain ⟨c, cs, rfl, hc, -⟩ := hword
    obtain ⟨d, ds, rfl, hd, -⟩ := hscope
    exact ⟨c, cs, d, _, rfl, hresult, .inr ⟨hc, hd⟩⟩

-- ---------------------------------------------------------------------------
-- What rewriting leaves alone
-- ---------------------------------------------------------------------------

def Token.isQuoted : Token → Bool
  | quoted _ => true
  | _ => false

/-- A text without quotes has no strings, and no quotes that open nothing. -/
theorem quoteless {cs : List Char} (h : ∀ c ∈ cs, isQuote c = false) :
    ∀ t ∈ tokens cs, t.isOpenQuote = false ∧ t.isQuoted = false := by
  intro t ht
  have hin : ∀ c ∈ t.text, isQuote c = false := by
    intro c hc
    refine h c ?_
    rw [← flatMap_text_tokens cs]
    exact List.mem_flatMap_of_mem ht hc
  cases (isRow_tokens cs).shaped ht with
  | @quoted q inner hq hinner =>
    rw [hin q List.mem_cons_self] at hq
    cases hq
  | @other c hc => exact ⟨hin c List.mem_cons_self, rfl⟩
  | glued hne hdigits hword | member hword | key hword | name hword => exact ⟨rfl, rfl⟩

theorem stops_rewritten {p : Char → Bool}
    (hp : ∀ c d, isNameStart c = true → isNameStart d = true → p c = p d) {ts : List Token}
    (hrow : IsRow ts) (h : Stops p (ts.flatMap text)) : Stops p (ts.flatMap rewritten) := by
  cases hrow with
  | nil => exact h
  | @cons t ts hshape hends hrow =>
    obtain ⟨c, cs, d, ds, htext, hrewritten, heq⟩ := head_rewritten hshape
    rw [List.flatMap_cons, htext, List.cons_append, stops_cons] at h
    rw [List.flatMap_cons, hrewritten, List.cons_append, stops_cons]
    rcases heq with rfl | ⟨hc, hd⟩
    · exact h
    · rw [hp d c hd hc, h]

/-- Behind digits, too, rewriting changes no more than which name starts there. -/
theorem stops_dropWhile_rewritten {ts : List Token} (hrow : IsRow ts)
    (h : Stops isNameStart ((ts.flatMap text).dropWhile Char.isDigit)) :
    Stops isNameStart ((ts.flatMap rewritten).dropWhile Char.isDigit) := by
  induction hrow with
  | nil => exact h
  | @cons t ts hshape hends hrow ih =>
    rw [List.flatMap_cons] at h ⊢
    -- a token that does not start with a digit is where the digits stop
    have hstop : ∀ c, t.text.head? = some c → c.isDigit = false →
        Stops isNameStart ((t.rewritten ++ ts.flatMap rewritten).dropWhile Char.isDigit) := by
      intro c hc hdigit
      obtain ⟨e, es, d, ds, htext, hrewritten, heq⟩ := head_rewritten hshape
      obtain rfl : e = c := by simpa [htext] using hc
      rw [htext, List.cons_append, List.dropWhile_cons_of_neg (by simp [hdigit]), stops_cons] at h
      rcases heq with rfl | ⟨he, hd⟩
      · rwa [hrewritten, List.cons_append, List.dropWhile_cons_of_neg (by simp [hdigit]),
          stops_cons]
      · rw [he] at h
        cases h
    cases hshape with
    | @quoted q inner hq hinner => exact hstop q rfl (alone_of_isQuote hq).1
    | @glued digits word hne hdigits hword =>
      obtain ⟨d, ds, rfl, hstart, hparts⟩ := hword
      have hsplit : (glued (digits ++ d :: ds)).text ++ ts.flatMap text =
          digits ++ d :: (ds ++ ts.flatMap text) := by
        simp [text]
      rw [hsplit, List.dropWhile_append_of_pos hdigits,
        List.dropWhile_cons_of_neg (by simp [(alone_of_isNameStart hstart).2.1]), stops_cons,
        hstart] at h
      cases h
    | @member word hword => exact hstop '.' rfl (by decide)
    | @key word hword =>
      obtain ⟨d, ds, rfl, hstart, hparts⟩ := hword
      exact hstop d rfl (alone_of_isNameStart hstart).2.1
    | @name word hword =>
      obtain ⟨d, ds, rfl, hstart, hparts⟩ := hword
      exact hstop d rfl (alone_of_isNameStart hstart).2.1
    | @other c hc =>
      cases hdigit : c.isDigit with
      | false => exact hstop c rfl hdigit
      | true =>
        change Stops isNameStart ((c :: ts.flatMap text).dropWhile Char.isDigit) at h
        rw [List.dropWhile_cons_of_pos hdigit] at h
        change Stops isNameStart ((c :: ts.flatMap rewritten).dropWhile Char.isDigit)
        rw [List.dropWhile_cons_of_pos hdigit]
        exact ih h

-- ---------------------------------------------------------------------------
-- The tokens of a rewritten text
-- ---------------------------------------------------------------------------

/-- What ends a word in the source ends it in the rewritten text. -/
theorem stops_word_rewritten {front word : List Char} {ts : List Token}
    (hapart : DollarsApart (front ++ word ++ ts.flatMap text)) (hword : IsIdentifier word)
    (hrow : IsRow ts) (hstops : Stops isNamePart (ts.flatMap text)) :
    Stops isWordChar (ts.flatMap rewritten) := by
  refine stops_rewritten (fun c d hc hd => ?_) hrow (hapart.stops hword hstops)
  rw [isWordChar_of_isNameStart hc, isWordChar_of_isNameStart hd]

/-- A token of the source is carried on by nothing that rewriting puts behind it. -/
theorem endsBefore_rewritten {t : Token} {ts : List Token} (hshape : t.Shaped) (hrow : IsRow ts)
    (hapart : DollarsApart (t.text ++ ts.flatMap text)) (hends : t.EndsBefore (ts.flatMap text)) :
    t.EndsBefore (ts.flatMap rewritten) := by
  cases hshape with
  | quoted hq hinner | key hword => trivial
  | @glued digits word hne hdigits hword =>
    exact (stops_word_rewritten hapart hword hrow hends).imp fun c => isWordChar_of_isNamePart
  | @member word hword =>
    have hapart : DollarsApart (['.'] ++ word ++ ts.flatMap text) := hapart
    exact (stops_word_rewritten hapart hword hrow hends).imp fun c => isWordChar_of_isNamePart
  | @name word hword =>
    have hapart : DollarsApart ([] ++ word ++ ts.flatMap text) := hapart
    have hcolon : ∀ c, isNameStart c = true → (c == ':') = false := by
      intro c hc
      refine beq_false_of_ne ?_
      rintro rfl
      exact absurd hc (by decide)
    exact ⟨(stops_word_rewritten hapart hword hrow hends.1).imp fun c => isWordChar_of_isNamePart,
      stops_rewritten (fun c d hc hd => (hcolon c hc).trans (hcolon d hd).symm) hrow hends.2⟩
  | @other c hc =>
    obtain ⟨hquote, hpoint, hdigit⟩ := hends
    refine ⟨fun hq hmem => ?_, fun hc => ?_, fun hc => ?_⟩
    · obtain ⟨t, ht, hin⟩ := List.mem_flatMap.1 hmem
      have hsource := mem_text_of_mem_rewritten (hrow.shaped ht) hq hin
      exact hquote hq (List.mem_flatMap_of_mem ht hsource)
    · exact stops_rewritten (fun c d hc hd => hc.trans hd.symm) hrow (hpoint hc)
    · exact stops_dropWhile_rewritten hrow (hdigit hc)

/-- **The tokens of a rewritten text** are those of what each token of its source is rewritten to. -/
theorem tokens_flatMap_rewritten {ts : List Token} (hrow : IsRow ts)
    (hapart : DollarsApart (ts.flatMap text)) :
    tokens (ts.flatMap rewritten) = ts.flatMap fun t => tokens t.rewritten := by
  induction hrow with
  | nil => rw [List.flatMap_nil, List.flatMap_nil, tokens]
  | @cons t ts hshape hends hrow ih =>
    rw [List.flatMap_cons] at hapart
    have hends' := endsBefore_rewritten hshape hrow hapart hends
    rw [List.flatMap_cons, List.flatMap_cons, ← ih hapart.right]
    cases hshape.resolved with
    | kept hsame hfixed =>
      rw [hsame, tokens_text_append hshape hends', tokens_text hshape, List.singleton_append]
    | @inScope word scope parts hword hscope hparts hresult hkind =>
      have hwords : Stops isWordChar (ts.flatMap rewritten) := by
        have hapart : DollarsApart ([] ++ word ++ ts.flatMap text) := hapart
        exact stops_word_rewritten hapart hword hrow hends.1
      have hquoteless := quoteless (not_isQuote_of_scoped hscope hparts)
      rw [hresult]
      exact tokens_append (fun u hu => (hquoteless u hu).1) hwords hends'.2

theorem tokens_ofSource {source : String} (hapart : DollarsApart source.toList) :
    tokens (Expression.ofSource source).text.toList =
      (tokens source.toList).flatMap fun t => tokens t.rewritten := by
  rw [Expression.text_ofSource, tokens_flatMap_rewritten (isRow_tokens source.toList)]
  rwa [flatMap_text_tokens]

-- ---------------------------------------------------------------------------
-- The names that are left
-- ---------------------------------------------------------------------------

/-- A scope and the member behind it are two tokens. -/
theorem tokens_scope {scope : List Char} (hscope : IsIdentifier scope) (parts : List Char) :
    tokens (scope ++ '.' :: parts) = .name scope :: tokens ('.' :: parts) :=
  tokens_text_append (.name hscope) ⟨stops_cons.2 rfl, stops_cons.2 rfl⟩

/-- Behind a point there is no bare name in a row of name characters, not even behind digits. -/
theorem name_not_mem_member {parts : List Char} (hparts : ∀ c ∈ parts, isNamePart c = true)
    (word : List Char) : Token.name word ∉ tokens ('.' :: parts) := by
  intro hmem
  obtain ⟨before, after, hsplit⟩ := List.append_of_mem hmem
  have hrow := isRow_tokens ('.' :: parts)
  have htext := flatMap_text_tokens ('.' :: parts)
  rw [hsplit] at hrow htext
  rw [List.flatMap_append, List.flatMap_cons] at htext
  change before.flatMap text ++ (word ++ after.flatMap text) = '.' :: parts at htext
  have hin : ∀ c ∈ '.' :: parts, c ≠ '.' → isNamePart c = true := by
    intro c hc hpoint
    exact hparts c ((List.mem_cons.1 hc).resolve_left hpoint)
  obtain ⟨hbefore, -⟩ := name_placed hrow
  cases hrow.right with
  | cons hshape hends hafter =>
    cases hshape with
    | name hword =>
      obtain ⟨d, ds, rfl, hstart, -⟩ := hword
      have hd : isNamePart d = true :=
        hin d (by simp [← htext]) (alone_of_isNameStart hstart).2.2
      rcases List.eq_nil_or_concat' (before.flatMap text) with hnil | ⟨init, c, hlast⟩
      · rw [hnil] at htext
        cases htext
        exact absurd hstart (by decide)
      · -- the name cannot start with a dollar sign, which is all that could follow a word
        obtain ⟨hpoint, hdollar⟩ := hbefore c (by rw [hlast]; exact List.getLast?_concat)
        have hc : isNamePart c = true := hin c (by simp [← htext, hlast]) hpoint
        obtain rfl : d = '$' := Option.some.inj (hdollar (isWordChar_of_isNamePart hc))
        cases hd

/-- The bare names that rewriting leaves or brings in. -/
def IsSettled (word : List Char) : Prop :=
  String.ofList word ∈ reservedWords ∨ word = ['$'] ∨ word = "instance".toList ∨
    word = "locals".toList

theorem isSettled_of_mem {t : Token} (hshape : t.Shaped) {word : List Char}
    (h : Token.name word ∈ tokens t.rewritten) : IsSettled word := by
  cases hshape.resolved with
  | kept hsame hfixed =>
    rw [hsame, tokens_text hshape, List.mem_singleton] at h
    exact (hfixed word h.symm).imp_right .inl
  | inScope hword hscope hparts hresult hkind =>
    rw [hresult, tokens_scope hscope] at h
    rcases List.mem_cons.1 h with h | h
    · rw [Token.name.inj h]
      exact .inr (.inr (hkind.imp And.left And.left))
    · exact absurd h (name_not_mem_member hparts word)

theorem filter_isQuoted_rewritten {t : Token} (hshape : t.Shaped) :
    (tokens t.rewritten).filter isQuoted = [t].filter isQuoted := by
  cases hshape.resolved with
  | kept hsame hfixed => rw [hsame, tokens_text hshape]
  | @inScope word scope parts hword hscope hparts hresult hkind =>
    show (tokens (Token.name word).rewritten).filter isQuoted = []
    rw [hresult, List.filter_eq_nil_iff]
    intro u hu
    rw [(quoteless (not_isQuote_of_scoped hscope hparts) u hu).2]
    exact Bool.false_ne_true

/-- **Rewriting leaves no free name and touches no string.** -/
theorem rewritten_is_settled {source : String} (hapart : DollarsApart source.toList) :
    (∀ word, Token.name word ∈ tokens (Expression.ofSource source).text.toList →
      IsSettled word) ∧
    (tokens (Expression.ofSource source).text.toList).filter isQuoted =
      (tokens source.toList).filter isQuoted := by
  have hrow := isRow_tokens source.toList
  rw [tokens_ofSource hapart]
  constructor
  · intro word hword
    obtain ⟨t, ht, hmem⟩ := List.mem_flatMap.1 hword
    exact isSettled_of_mem (hrow.shaped ht) hmem
  · have hstrings := List.flatMap_congr fun t ht => filter_isQuoted_rewritten (hrow.shaped ht)
    rw [List.filter_flatMap, hstrings, ← List.filter_flatMap, List.flatMap_singleton']

theorem rewritten_is_settled_number :
    let source := "$5 + f('$x', 10px) in y"
    DollarsApart source.toList ∧
      (∀ word, Token.name word ∈ tokens (Expression.ofSource source).text.toList →
        IsSettled word) ∧
      (tokens (Expression.ofSource source).text.toList).filter isQuoted =
        [.quoted "'$x'".toList] := by
  intro source
  have hapart : DollarsApart source.toList := by decide +kernel
  obtain ⟨hnames, hstrings⟩ := rewritten_is_settled hapart
  refine ⟨hapart, hnames, ?_⟩
  rw [hstrings]
  decide +kernel

-- ---------------------------------------------------------------------------
-- The source of a rewritten text
-- ---------------------------------------------------------------------------

/-- Takes the scopes of a row of tokens away again, each with the point behind it. -/
def unresolved : List Token → List Char
  | [] => []
  | t :: ts =>
    if t = .name "instance".toList then (unresolved ts).tail
    else if t = .name "locals".toList then '$' :: (unresolved ts).tail
    else t.text ++ unresolved ts

theorem unresolved_cons_of_ne {t : Token} {ts : List Token}
    (hinstance : t ≠ .name "instance".toList) (hlocals : t ≠ .name "locals".toList) :
    unresolved (t :: ts) = t.text ++ unresolved ts := by
  rw [unresolved, if_neg hinstance, if_neg hlocals]

theorem unresolved_append {ts : List Token} (h : ∀ word, Token.name word ∉ ts)
    (us : List Token) : unresolved (ts ++ us) = ts.flatMap text ++ unresolved us := by
  induction ts with
  | nil => rfl
  | cons t ts ih =>
    have hne : ∀ word, t ≠ .name word := by
      rintro word rfl
      exact h word List.mem_cons_self
    rw [List.cons_append, unresolved_cons_of_ne (hne _) (hne _),
      ih fun word hword => h word (List.mem_cons_of_mem t hword), List.flatMap_cons,
      List.append_assoc]

theorem unresolved_member {parts : List Char} (hparts : ∀ c ∈ parts, isNamePart c = true)
    (us : List Token) :
    unresolved (tokens ('.' :: parts) ++ us) = '.' :: (parts ++ unresolved us) := by
  rw [unresolved_append (name_not_mem_member hparts), flatMap_text_tokens, List.cons_append]

/-- From what a token is rewritten to, its own text is read back. -/
theorem unresolved_rewritten {t : Token} (hshape : t.Shaped) (us : List Token) :
    unresolved (tokens t.rewritten ++ us) = t.text ++ unresolved us := by
  cases hshape.resolved with
  | kept hsame hfixed =>
    rw [hsame, tokens_text hshape, List.singleton_append]
    -- no scope is a fixed name
    exact unresolved_cons_of_ne (fun heq => absurd (hfixed _ heq) (by decide))
      fun heq => absurd (hfixed _ heq) (by decide)
  | inScope hword hscope hparts hresult hkind =>
    rw [hresult, tokens_scope hscope, List.cons_append]
    rcases hkind with ⟨rfl, rfl⟩ | ⟨rfl, rfl⟩
    · rw [unresolved, if_pos rfl, unresolved_member hparts]
      rfl
    · rw [unresolved, if_neg (by decide), if_pos rfl, unresolved_member hparts]
      rfl

/-- **The source is read back** from the tokens of the rewritten text. -/
theorem unresolved_tokens {ts : List Token} (hrow : IsRow ts) :
    unresolved (ts.flatMap fun t => tokens t.rewritten) = ts.flatMap text := by
  induction hrow with
  | nil => rfl
  | cons hshape hends hrow ih =>
    rw [List.flatMap_cons, List.flatMap_cons, unresolved_rewritten hshape, ih]

/-- **Rewriting loses nothing**: different sources are rewritten to different texts. -/
theorem rewriting_injective {a b : String} (ha : DollarsApart a.toList)
    (hb : DollarsApart b.toList) :
    (Expression.ofSource a).text = (Expression.ofSource b).text ↔ a = b := by
  have hread : ∀ source : String, DollarsApart source.toList →
      unresolved (tokens (Expression.ofSource source).text.toList) = source.toList := by
    intro source hapart
    rw [tokens_ofSource hapart, unresolved_tokens (isRow_tokens source.toList),
      flatMap_text_tokens]
  constructor
  · intro h
    rw [← String.toList_inj, ← hread a ha, ← hread b hb, h]
  · rintro rfl
    rfl

theorem rewriting_injective_scope :
    DollarsApart "locals.x".toList ∧ DollarsApart "$x".toList ∧
      (Expression.ofSource "locals.x").text ≠ (Expression.ofSource "$x").text := by
  have hlocals : DollarsApart "locals.x".toList := by decide +kernel
  have hdollar : DollarsApart "$x".toList := by decide +kernel
  exact ⟨hlocals, hdollar, mt (rewriting_injective hlocals hdollar).1 (by decide)⟩

-- dollar signs inside of words would lose something
example : (Expression.ofSource "a$b").text = (Expression.ofSource "alocals.b").text := by
  decide +kernel

end Stencil
