import Stencil.Expression.Token

/-!
# Expressions with their names resolved

A template expression is text for some evaluator to run later, with two records in scope: `instance`
for the component and `locals` for what the template itself introduces. Rewriting puts the right
record in front of every bare name and leaves everything else as it stands.

Main results:

* `Expression.text_ofSource`: the text is the tokens' own texts, one after another;
* `Expression.dynamic_ofSource`: an expression is dynamic exactly when one of its names was
  resolved.
-/

namespace Stencil

/-- An expression ready to be evaluated. -/
structure Expression where
  /-- The text with every free name resolved. -/
  text : String
  /-- Whether the value depends on what is in scope. -/
  dynamic : Bool
deriving DecidableEq, Repr, Inhabited

/-- The words that keep their meaning wherever they stand. -/
def reservedWords : List String :=
  ["NaN", "false", "in", "null", "this", "true", "typeof", "undefined"]

/-- What a bare name refers to. -/
inductive Reference where
  /-- Nothing in scope: a reserved word, or a dollar sign that names nothing. -/
  | fixed (name : List Char)
  /-- A field of the component. -/
  | ofInstance (name : List Char)
  /-- A name the template introduced, written with a dollar sign in front. -/
  | ofLocals (name : List Char)
deriving DecidableEq, Repr

namespace Reference

/-- Looks a bare name up. -/
def ofName (name : List Char) : Reference :=
  if String.ofList name ∈ reservedWords then fixed name
  else
    match name with
    | ['$'] => fixed name
    | '$' :: bare => ofLocals bare
    | _ => ofInstance name

/-- How a reference is written in a rewritten expression. -/
def text : Reference → List Char
  | fixed name => name
  | ofInstance name => "instance.".toList ++ name
  | ofLocals name => "locals.".toList ++ name

def isScoped : Reference → Bool
  | fixed _ => false
  | ofInstance _ | ofLocals _ => true

end Reference

namespace Token

/-- A token's text after rewriting: only a bare name changes. -/
def rewritten : Token → List Char
  | name cs => (Reference.ofName cs).text
  | t => t.text

def isScoped : Token → Bool
  | name cs => (Reference.ofName cs).isScoped
  | _ => false

end Token

namespace Expression

/-- Resolves the free names of an expression. -/
def ofChars (source : List Char) : Expression where
  text := String.ofList ((tokens source).flatMap Token.rewritten)
  dynamic := (tokens source).any Token.isScoped

def ofSource (source : String) : Expression :=
  ofChars source.toList

theorem text_ofSource (source : String) :
    (ofSource source).text.toList = (tokens source.toList).flatMap Token.rewritten := by
  simp [ofSource, ofChars]

/-- An expression is dynamic exactly when one of its names was resolved. -/
theorem dynamic_ofSource (source : String) :
    (ofSource source).dynamic = (tokens source.toList).any Token.isScoped := rfl

end Expression

end Stencil
