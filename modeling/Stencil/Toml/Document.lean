import Stencil.Toml.Scalar
import Stencil.Toml.Table

/-!
# TOML documents

A document is a row of statements: a key with its value, or a header in brackets, after which keys
belong to the table it names. A document that breaks a rule anywhere has no value at all.

The readers of values recurse on a bound for the number of steps, which `read?` takes large enough
for the text at hand, and on the depth to which brackets and braces may nest.

Main definitions:

* `readStatements`: the statements of a document;
* `Draft.take`: what a statement adds to the table under construction;
* `read?`: the table that a document holds.
-/

namespace Stencil.Toml

/-! ## Values -/

/-- How deep arrays and tables in braces may nest. -/
def maxDepth : Nat := 80

/-- The last part of a key, behind the parts in front of it. -/
def splitLast? (path : List String) : Option (List String × String) :=
  path.getLast?.map fun key => (path.dropLast, key)

mutual

def readValue : (fuel depth : Nat) → List Char → Option (Value × List Char)
  | 0, _, _ => none
  | fuel + 1, depth, cs =>
    match cs with
    | '[' :: rest =>
      match depth with
      | 0 => none
      | depth + 1 =>
        (readItems fuel depth rest).map fun (items, rest) => (.array items, rest)
    | '{' :: rest =>
      match depth with
      | 0 => none
      | depth + 1 =>
        (readEntries fuel depth [] rest).map fun (entries, rest) => (.table .inline entries, rest)
    | '"' :: _ | '\'' :: _ => (readString? cs).map fun (s, rest) => (.text s, rest)
    | _ => readScalar? cs

/-- The items of an array up to its end, and the text that follows. A comma may follow the last
item. -/
def readItems : (fuel depth : Nat) → List Char → Option (List Value × List Char)
  | 0, _, _ => none
  | fuel + 1, depth, cs =>
    match skipLines cs with
    | ']' :: rest => some ([], rest)
    | start =>
      (readValue fuel depth start).bind fun (item, rest) =>
        match skipLines rest with
        | ']' :: rest => some ([item], rest)
        | ',' :: rest => (readItems fuel depth rest).map fun (items, rest) => (item :: items, rest)
        | _ => none

/-- The entries of a table in braces up to its end, after those it has already, and the text that
follows. A comma may follow the last entry. -/
def readEntries :
    (fuel depth : Nat) → Entries → List Char → Option (Entries × List Char)
  | 0, _, _, _ => none
  | fuel + 1, depth, entries, cs =>
    match skipLines cs with
    | '}' :: rest => some (entries, rest)
    | start =>
      (readPath? fuel start).bind fun (path, rest) =>
        -- unlike in a statement, lines may end on either side of the equals sign
        (after? '=' (skipLines rest)).bind fun rest =>
          (readValue fuel depth (skipLines rest)).bind fun (value, rest) =>
            (splitLast? path).bind fun (steps, key) =>
              (assign steps key value entries).bind fun entries =>
                match skipLines rest with
                | '}' :: rest => some (entries, rest)
                | ',' :: rest => readEntries fuel depth entries rest
                | _ => none

end

/-! ## Statements -/

/-- What a line of a document says. -/
inductive Statement where
  /-- The keys that follow belong to a table. -/
  | openTable (steps : List String) (key : String)
  /-- The keys that follow belong to a new table at the end of an array. -/
  | openItem (steps : List String) (key : String)
  | assign (steps : List String) (key : String) (value : Value)
deriving Repr, Inhabited

/-- A header behind its brackets, up to the brackets that close it. -/
def readHeader (fuel : Nat) (close : List Char) (make : List String → String → Statement)
    (cs : List Char) : Option (Statement × List Char) := do
  let (path, rest) ← readPath? fuel cs
  let (steps, key) ← splitLast? path
  if close.isPrefixOf rest then return (make steps key, rest.drop close.length)
  none

def readAssignment (fuel : Nat) (cs : List Char) : Option (Statement × List Char) := do
  let (path, rest) ← readPath? fuel cs
  let (steps, key) ← splitLast? path
  let (value, rest) ← readValue fuel maxDepth (skipBlanks (← after? '=' rest))
  return (.assign steps key value, rest)

/-- A statement with the end of its line, and the text that follows. -/
def readStatement (fuel : Nat) (cs : List Char) : Option (Statement × List Char) := do
  let (statement, rest) ←
    match cs with
    | '[' :: '[' :: rest => readHeader fuel [']', ']'] .openItem rest
    | '[' :: rest => readHeader fuel [']'] .openTable rest
    | _ => readAssignment fuel cs
  return (statement, ← statementEnd? rest)

def readStatements : (fuel : Nat) → List Char → Option (List Statement)
  | 0, _ => none
  | fuel + 1, cs =>
    match skipLines cs with
    | [] => some []
    | start =>
      (readStatement fuel start).bind fun (statement, rest) =>
        (readStatements fuel rest).map (statement :: ·)

/-! ## The value of a document -/

structure Draft where
  /-- The path of the table that keys belong to. -/
  current : List String := []
  entries : Entries := []
deriving Repr, Inhabited

def Draft.take (draft : Draft) : Statement → Option Draft
  | .openTable steps key =>
    (within (Toml.openTable key) steps draft.entries).map fun entries => ⟨steps ++ [key], entries⟩
  | .openItem steps key =>
    (within (Toml.openItem key) steps draft.entries).map fun entries => ⟨steps ++ [key], entries⟩
  | .assign steps key value =>
    (within (Toml.assign steps key value) draft.current draft.entries).map fun entries =>
      { draft with entries }

/-- The table that a row of statements fills. -/
def entriesOf? (statements : List Statement) : Option Entries :=
  (statements.foldlM Draft.take {}).map Draft.entries

/-- The text of a document behind the byte order mark that it may start with. -/
def dropMark : List Char → List Char
  | '\uFEFF' :: cs => cs
  | cs => cs

/-- The table that a document holds. -/
def read? (text : String) : Option Entries :=
  let cs := dropMark text.toList
  (readStatements (2 * cs.length + 2) cs).bind entriesOf?

end Stencil.Toml
