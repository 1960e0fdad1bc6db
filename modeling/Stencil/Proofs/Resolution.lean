import Stencil.Proofs.Pattern
import Stencil.Text.Bytes

/-!
# How much a rewritten expression grows

Rewriting changes an expression only where a bare name refers to something in scope, and there it
makes the text longer: `instance.` is written in front of a field, and `locals.` takes the place of
a dollar sign. So the length of the result says how many names of each kind there were, and an
expression that did not change has none.

Main results:

* `byteLength_rewritten`: the growth, counted over the names of the text;
* `dynamic_exact`: the flag, the change and the growth all say the same.
-/

namespace Stencil

open Text

-- ---------------------------------------------------------------------------
-- What the bare names refer to
-- ---------------------------------------------------------------------------

namespace Reference

def isOfInstance : Reference → Bool
  | ofInstance _ => true
  | _ => false

def isOfLocals : Reference → Bool
  | ofLocals _ => true
  | _ => false

/-- How a reference is written in a source. -/
def source : Reference → List Char
  | fixed name | ofInstance name => name
  | ofLocals bare => '$' :: bare

theorem isScoped_eq (r : Reference) : r.isScoped = (r.isOfInstance || r.isOfLocals) := by
  cases r <;> rfl

theorem text_fixed (name : List Char) : (fixed name).text = name :=
  rfl

theorem text_ofInstance (name : List Char) :
    (ofInstance name).text = "instance.".toList ++ name :=
  rfl

theorem text_ofLocals (bare : List Char) : (ofLocals bare).text = "locals.".toList ++ bare :=
  rfl

/-- A name stays, or it is a field, or it is a dollar sign and the name of a local. -/
theorem ofName_cases (name : List Char) :
    (ofName name = fixed name ∧ (String.ofList name ∈ reservedWords ∨ name = ['$'])) ∨
      (ofName name = ofInstance name ∧ name.head? ≠ some '$') ∨
      ∃ bare, bare ≠ [] ∧ name = '$' :: bare ∧ ofName name = ofLocals bare := by
  rw [ofName_eq]
  by_cases hfixed : String.ofList name ∈ reservedWords ∨ name = ['$']
  · exact .inl ⟨if_pos hfixed, hfixed⟩
  · rw [if_neg hfixed]
    by_cases hdollar : name.head? = some '$'
    · obtain ⟨bare, rfl⟩ := List.head?_eq_some_iff.1 hdollar
      refine .inr (.inr ⟨bare, ?_, rfl, if_pos hdollar⟩)
      rintro rfl
      exact hfixed (.inr rfl)
    · exact .inr (.inl ⟨if_neg hdollar, hdollar⟩)

theorem source_ofName (name : List Char) : (ofName name).source = name := by
  rcases ofName_cases name with ⟨hname, hfixed⟩ | ⟨hname, hhead⟩ | ⟨bare, hbare, hcons, hname⟩
  · rw [hname, source]
  · rw [hname, source]
  · rw [hname, source, hcons]

end Reference

/-- What a token refers to, if it is a bare name. -/
def Token.reference? : Token → Option Reference
  | name cs => some (Reference.ofName cs)
  | _ => none

/-- What the bare names of an expression refer to, from left to right. -/
def references (source : List Char) : List Reference :=
  (tokens source).filterMap Token.reference?

-- ---------------------------------------------------------------------------
-- The growth
-- ---------------------------------------------------------------------------

/-- A field grows by the nine bytes of `instance.`, and a local by the seven of `locals.` less its
dollar sign. -/
def Reference.growth : Reference → Nat
  | fixed _ => 0
  | ofInstance _ => 9
  | ofLocals _ => 6

theorem Reference.byteLength_text (r : Reference) :
    byteLength r.text = byteLength r.source + r.growth := by
  have hfield : byteLength "instance.".toList = 9 := by decide
  have hlocal : byteLength "locals.".toList = 7 := by decide
  have hdollar : Char.utf8Size '$' = 1 := by decide
  cases r with
  | fixed name => rw [text_fixed, source, growth, Nat.add_zero]
  | ofInstance name =>
    rw [text_ofInstance, byteLength_append, hfield]
    exact Nat.add_comm 9 (byteLength name)
  | ofLocals bare =>
    rw [text_ofLocals, source, growth, byteLength_append, byteLength_cons, hlocal, hdollar]
    omega

/-- One more reference adds its growth to what the fields and the locals account for. -/
theorem Reference.growth_cons (r : Reference) (rs : List Reference) :
    9 * (r :: rs).countP isOfInstance + 6 * (r :: rs).countP isOfLocals =
      r.growth + (9 * rs.countP isOfInstance + 6 * rs.countP isOfLocals) := by
  cases r <;>
    simp only [growth, isOfInstance, isOfLocals, List.countP_cons, ↓reduceIte,
      Bool.false_eq_true] <;>
    omega

/-- Rewriting makes a text longer by what its references grow. -/
theorem byteLength_rewritten (ts : List Token) :
    byteLength (ts.flatMap Token.rewritten) = byteLength (ts.flatMap Token.text) +
      (9 * (ts.filterMap Token.reference?).countP Reference.isOfInstance +
        6 * (ts.filterMap Token.reference?).countP Reference.isOfLocals) := by
  induction ts with
  | nil => rfl
  | cons t ts ih =>
    rw [List.flatMap_cons, List.flatMap_cons, byteLength_append, byteLength_append, ih]
    cases t with
    | name cs =>
      have hname := (Reference.ofName cs).byteLength_text
      rw [Reference.source_ofName] at hname
      simp only [List.filterMap_cons, Token.reference?, Reference.growth_cons, Token.rewritten,
        Token.text]
      omega
    | quoted cs | glued cs | member cs | key cs | other c =>
      simp only [List.filterMap_cons, Token.reference?, Token.rewritten]
      omega

/-- A token is scoped exactly if it is rewritten to another text. -/
theorem Token.isScoped_eq (t : Token) : t.isScoped = (t.rewritten != t.text) := by
  rw [rewritten_eq_replaced t [], ← isScoped_eq_replaced]

theorem any_isScoped_eq (ts : List Token) :
    ts.any Token.isScoped = (ts.filterMap Token.reference?).any Reference.isScoped := by
  induction ts with
  | nil => rfl
  | cons t ts ih => cases t <;> simp [Token.isScoped, Token.reference?, ih]

/-- If no name is scoped, rewriting copies. -/
theorem flatMap_rewritten_of_static {ts : List Token} (h : ts.any Token.isScoped = false) :
    ts.flatMap Token.rewritten = ts.flatMap Token.text := by
  refine List.flatMap_congr fun t ht => ?_
  have hstatic : t.isScoped = false := by
    rw [← Bool.not_eq_true]
    exact List.any_eq_false.1 h t ht
  rw [Token.isScoped_eq] at hstatic
  exact bne_eq_false_iff_eq.1 hstatic

/-- Something is scoped exactly if there are fields or locals to count. -/
theorem any_isScoped_iff (rs : List Reference) :
    rs.any Reference.isScoped = true ↔
      0 < rs.countP Reference.isOfInstance + rs.countP Reference.isOfLocals := by
  rw [Nat.add_pos_iff_pos_or_pos, List.countP_pos_iff, List.countP_pos_iff, List.any_eq_true]
  simp only [Reference.isScoped_eq, Bool.or_eq_true, and_or_left, exists_or]

/-- **The flag is exact.** A rewritten expression is nine bytes longer for every field and six bytes
longer for every local that it refers to. It is dynamic exactly if it refers to one of them, which is
exactly if its text changed; and an expression that is static is not changed by rewriting it again. -/
theorem dynamic_exact (source : String) :
    let rewritten := Expression.ofSource source
    let fields := (references source.toList).countP Reference.isOfInstance
    let locals := (references source.toList).countP Reference.isOfLocals
    rewritten.text.utf8ByteSize = source.utf8ByteSize + 9 * fields + 6 * locals ∧
      (rewritten.dynamic = true ↔ 0 < fields + locals) ∧
      (rewritten.dynamic = true ↔ rewritten.text ≠ source) ∧
      (rewritten.dynamic = false →
        Expression.ofSource rewritten.text = ⟨rewritten.text, false⟩) := by
  intro rewritten fields locals
  have htext : rewritten.text.toList = (tokens source.toList).flatMap Token.rewritten :=
    Expression.text_ofSource source
  have hsource : (tokens source.toList).flatMap Token.text = source.toList :=
    flatMap_text_tokens source.toList
  have hlength : rewritten.text.utf8ByteSize =
      source.utf8ByteSize + 9 * fields + 6 * locals := by
    rw [← byteLength_toList, ← byteLength_toList, htext, byteLength_rewritten, hsource,
      Nat.add_assoc]
    rfl
  have hdynamic : rewritten.dynamic = true ↔ 0 < fields + locals := by
    rw [Expression.dynamic_ofSource, any_isScoped_eq]
    exact any_isScoped_iff (references source.toList)
  have hstatic : rewritten.dynamic = false → rewritten.text = source := by
    intro h
    rw [← String.toList_inj, htext, flatMap_rewritten_of_static h, hsource]
  refine ⟨hlength, hdynamic, ⟨fun h heq => ?_, fun h => ?_⟩, fun h => ?_⟩
  · have hgrown := hdynamic.1 h
    rw [heq] at hlength
    omega
  · rw [← Bool.not_eq_false]
    exact mt hstatic h
  · calc Expression.ofSource rewritten.text
        = rewritten := congrArg Expression.ofSource (hstatic h)
      _ = ⟨rewritten.text, false⟩ := by rw [← h]

end Stencil
