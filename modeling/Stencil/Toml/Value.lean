import Stencil.Json.Basic

/-!
# TOML values

A table remembers how it came to be, since that decides how it may be extended later. An array of
tables that headers filled is kept apart from one written in brackets for the same reason.

`Value.toJson` turns a document into a JSON value for readers that do not care for the format:
tables become objects and both kinds of array become arrays.
-/

namespace Stencil.Toml

/-- How a table came to be. -/
inductive Origin where
  /-- By a header of its own. -/
  | header
  /-- As a step of a header's path. -/
  | path
  /-- As a step of a dotted key. -/
  | dotted
  /-- In braces. -/
  | inline
deriving DecidableEq, Repr, Inhabited

inductive Value where
  | bool (value : Bool)
  | int (value : Int)
  /-- A fraction; none for the infinities and for what is not a number. -/
  | float (value : Option Binary64)
  | text (value : String)
  | date (written : String)
  | array (items : List Value)
  | table (origin : Origin) (entries : List (String × Value))
  /-- An array of tables that headers filled. -/
  | tables (items : List Value)
deriving Repr, Inhabited

/-- The entries of a table in order. -/
abbrev Entries := List (String × Value)

namespace Value

mutual

/-- A value as JSON, which has no word for the infinities and none for dates. -/
def toJson : Value → Json
  | .bool value => .bool value
  | .int value => .int value
  | .float (some value) => .real value
  | .float none => .null
  | .text value => .str value
  | .date written => .obj [("$date", .str written)]
  | .array items | .tables items => .arr (itemsToJson items)
  | .table _ entries => .obj (membersToJson entries)

def itemsToJson : List Value → List Json
  | [] => []
  | value :: values => toJson value :: itemsToJson values

def membersToJson : Entries → List (String × Json)
  | [] => []
  | (key, value) :: entries => (key, toJson value) :: membersToJson entries

end

end Value

end Stencil.Toml
