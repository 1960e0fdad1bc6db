import Stencil.Decimal.Shortest
import Stencil.Json.Basic
import Stencil.Text.Digit

/-!
# JSON text

A value is written either compactly, with no blank at all, or laid out on lines. Both are one
printer that differs in what stands between the parts only. Strings escape the quote, the backslash
and the controls below the space; every other character stands for itself.

A value is written in front of the text that follows it, so that its characters are put in place
once, however deep it stands.

Main result: `write_append`, what stands behind a value does not change it.
-/

namespace Stencil.Json

/-- What stands between the parts of a written value. -/
structure Layout where
  /-- In front of an item, and of the closing bracket, at some depth. -/
  newline : Nat → List Char
  /-- Between the name of a member and its value. -/
  colon : List Char

/-- No blanks. -/
def Layout.compact : Layout where
  newline := fun _ => []
  colon := [':']

/-- Each item on a line of its own, two spaces for each level. -/
def Layout.pretty : Layout where
  newline := fun level => '\n' :: List.replicate (2 * level) ' '
  colon := [':', ' ']

def writeChar (c : Char) : List Char :=
  if c = '"' then ['\\', '"']
  else if c = '\\' then ['\\', '\\']
  else if c = '\x08' then ['\\', 'b']
  else if c = '\t' then ['\\', 't']
  else if c = '\n' then ['\\', 'n']
  else if c = '\x0C' then ['\\', 'f']
  else if c = '\r' then ['\\', 'r']
  else if c.toNat < 32 then
    ['\\', 'u', '0', '0', Text.hexDigit (c.toNat / 16), Text.hexDigit (c.toNat % 16)]
  else [c]

def writeString (s : String) (rest : List Char) : List Char :=
  '"' :: (s.toList.flatMap writeChar ++ '"' :: rest)

mutual

/-- A value at some depth, in front of `rest`. -/
def write (layout : Layout) (level : Nat) : Json → (rest : List Char) → List Char
  | .null, rest => 'n' :: 'u' :: 'l' :: 'l' :: rest
  | .bool true, rest => 't' :: 'r' :: 'u' :: 'e' :: rest
  | .bool false, rest => 'f' :: 'a' :: 'l' :: 's' :: 'e' :: rest
  | .int value, rest => (toString value).toList ++ rest
  | .real value, rest => value.text ++ rest
  | .str value, rest => writeString value rest
  | .arr [], rest => '[' :: ']' :: rest
  | .arr (item :: items), rest =>
    '[' :: (layout.newline (level + 1) ++ write layout (level + 1) item
      (writeItems layout (level + 1) items (layout.newline level ++ ']' :: rest)))
  | .obj [], rest => '{' :: '}' :: rest
  | .obj ((name, value) :: members), rest =>
    '{' :: (layout.newline (level + 1) ++ writeString name (layout.colon ++
      write layout (level + 1) value
        (writeMembers layout (level + 1) members (layout.newline level ++ '}' :: rest))))

/-- The items of an array after the first, in front of `rest`. -/
def writeItems (layout : Layout) (level : Nat) : List Json → (rest : List Char) → List Char
  | [], rest => rest
  | item :: items, rest =>
    ',' :: (layout.newline level ++ write layout level item (writeItems layout level items rest))

/-- The members of an object after the first, in front of `rest`. -/
def writeMembers (layout : Layout) (level : Nat) :
    List (String × Json) → (rest : List Char) → List Char
  | [], rest => rest
  | (name, value) :: members, rest =>
    ',' :: (layout.newline level ++ writeString name (layout.colon ++
      write layout level value (writeMembers layout level members rest)))

end

/-- What stands behind a string does not change it. -/
theorem writeString_append (s : String) (rest more : List Char) :
    writeString s (rest ++ more) = writeString s rest ++ more := by
  simp [writeString]

mutual

/-- What stands behind a value does not change it. -/
theorem write_append (layout : Layout) (level : Nat) (rest more : List Char) :
    ∀ json : Json, json.write layout level (rest ++ more) = json.write layout level rest ++ more
  | .null | .bool true | .bool false | .arr [] | .obj [] => by simp [write]
  | .int _ | .real _ => by simp [write]
  | .str value => writeString_append value rest more
  | .arr (item :: items) => by
    simp only [write, ← List.cons_append, ← List.append_assoc]
    rw [writeItems_append, write_append]
    simp only [List.append_assoc, List.cons_append]
  | .obj ((name, value) :: members) => by
    simp only [write, ← List.cons_append, ← List.append_assoc]
    rw [writeMembers_append, write_append, ← List.append_assoc, writeString_append]
    simp only [List.append_assoc, List.cons_append]

theorem writeItems_append (layout : Layout) (level : Nat) (rest more : List Char) :
    ∀ items : List Json,
      writeItems layout level items (rest ++ more) = writeItems layout level items rest ++ more
  | [] => rfl
  | item :: items => by
    simp only [writeItems]
    rw [writeItems_append, write_append]
    simp only [List.append_assoc, List.cons_append]

theorem writeMembers_append (layout : Layout) (level : Nat) (rest more : List Char) :
    ∀ members : List (String × Json),
      writeMembers layout level members (rest ++ more) =
        writeMembers layout level members rest ++ more
  | [] => rfl
  | (name, value) :: members => by
    simp only [writeMembers]
    rw [writeMembers_append, write_append, ← List.append_assoc, writeString_append]
    simp only [List.append_assoc, List.cons_append]

end

def compact (json : Json) : String :=
  String.ofList (json.write .compact 0 [])

def pretty (json : Json) : String :=
  String.ofList (json.write .pretty 0 [])

end Stencil.Json
