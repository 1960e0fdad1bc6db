import Stencil.Decimal.Shortest
import Stencil.Json.Basic
import Stencil.Options.Basic
import Stencil.Text.Quoted

/-!
# Reading options

Options come as JSON values, and each of their records has two surface forms: an object, of which
the known members are read and the others passed over, and an array of the fields in their order.
Either way a field that is missing has its default. A field that is there must be of its type; null
is no exception.

The fields of a record are read in their order, and the first fault is the one reported. Whether an
array may have more items than the record has fields is up to the format that the options come in:
`Surplus`.

Main result: `OptionsRecord.read_obj`, from an object each field is read on its own.
-/

namespace Stencil

/-! ## Faults -/

/-- What a value should have been. -/
inductive Expected where
  | boolean
  | size
  | compileOptions
  | printOptions
  | options
deriving DecidableEq, Repr, Inhabited

/-- What is wrong with options. -/
inductive OptionsError where
  | wrongType (found : Json) (expected : Expected)
  /-- A number is outside the range of its type. -/
  | wrongValue (found : Int) (expected : Expected)
  /-- An array has more items than its record has fields. -/
  | tooLong (length : Nat)
deriving Repr, Inhabited

/-- The name of an expected type in messages. -/
def Expected.name : Expected → String
  | boolean => "a boolean"
  | size => "usize"
  | compileOptions => "struct CompileOptions"
  | printOptions => "struct PrintOptions"
  | options => "struct Options"

def Json.description : Json → String
  | .null => "null"
  | .bool true => "boolean `true`"
  | .bool false => "boolean `false`"
  | .int value => "integer `" ++ toString value ++ "`"
  | .real value => "floating point `" ++ String.ofList value.text ++ "`"
  | .str value => "string " ++ Text.quoted value
  | .arr _ => "sequence"
  | .obj _ => "map"

def OptionsError.message : OptionsError → String
  | wrongType found expected =>
    "invalid type: " ++ found.description ++ ", expected " ++ expected.name
  | wrongValue found expected =>
    "invalid value: " ++ (Json.int found).description ++ ", expected " ++ expected.name
  | tooLong length =>
    "invalid length " ++ toString length ++ ", expected fewer elements in array"

/-! ## Fields and records -/

/-- What to do with the items of an array beyond the last field. -/
inductive Surplus where
  | refused
  | ignored
deriving DecidableEq, Repr, Inhabited

abbrev OptionsReader (α : Type) := Json → Except OptionsError α

/-- A field of a record. -/
structure OptionsField (α : Type) where
  name : String
  default : α
  read : OptionsReader α

/-- Reads a field from its value, if there is one. -/
def OptionsField.readIn {α : Type} (field : OptionsField α) :
    Option Json → Except OptionsError α
  | none => .ok field.default
  | some json => field.read json

structure OptionsRecord (α β γ : Type) where
  first : OptionsField α
  second : OptionsField β
  make : α → β → γ
  expected : Expected

namespace OptionsRecord

variable {α β γ : Type}

def readFields (record : OptionsRecord α β γ) (first second : Option Json) :
    Except OptionsError γ := do
  let a ← record.first.readIn first
  let b ← record.second.readIn second
  return record.make a b

/-- Reads a record in either of its forms. -/
def read (surplus : Surplus) (record : OptionsRecord α β γ) : OptionsReader γ
  | .obj members =>
    record.readFields (Json.lookup record.first.name members)
      (Json.lookup record.second.name members)
  | .arr items => do
    let value ← record.readFields items[0]? items[1]?
    if surplus = .refused ∧ 2 < items.length then throw (.tooLong items.length)
    return value
  | found => throw (.wrongType found record.expected)

theorem read_obj (surplus : Surplus) (record : OptionsRecord α β γ)
    (members : List (String × Json)) :
    record.read surplus (.obj members) =
      record.readFields (Json.lookup record.first.name members)
        (Json.lookup record.second.name members) := rfl

end OptionsRecord

/-! ## The records -/

def readBool : OptionsReader Bool
  | .bool value => .ok value
  | found => .error (.wrongType found .boolean)

def readSize : OptionsReader UInt64
  | .int value =>
    if 0 ≤ value ∧ value.toNat < UInt64.size then .ok (UInt64.ofNat value.toNat)
    else .error (.wrongValue value .size)
  | found => .error (.wrongType found .size)

def CompileOptions.record : OptionsRecord Bool Bool CompileOptions where
  first := ⟨"development", ({} : CompileOptions).development, readBool⟩
  second := ⟨"stripBlockComments", ({} : CompileOptions).stripBlockComments, readBool⟩
  make := CompileOptions.mk
  expected := .compileOptions

def PrintOptions.record : OptionsRecord UInt64 Bool PrintOptions where
  first := ⟨"indentWidth", ({} : PrintOptions).indentWidth, readSize⟩
  second := ⟨"useTabs", ({} : PrintOptions).useTabs, readBool⟩
  make := PrintOptions.mk
  expected := .printOptions

def Options.record (surplus : Surplus) : OptionsRecord CompileOptions PrintOptions Options where
  first := ⟨"compile", {}, CompileOptions.record.read surplus⟩
  second := ⟨"print", {}, PrintOptions.record.read surplus⟩
  make := Options.mk
  expected := .options

/-- Reads compile options from JSON. -/
def CompileOptions.ofJson : Json → Except OptionsError CompileOptions :=
  CompileOptions.record.read .refused

def PrintOptions.ofJson : Json → Except OptionsError PrintOptions :=
  PrintOptions.record.read .refused

def Options.ofJson : Json → Except OptionsError Options :=
  (Options.record .refused).read .refused

/-! ## Writing options -/

/-- The complete object for compile options. -/
def CompileOptions.toJson (options : CompileOptions) : Json :=
  .obj [("development", .bool options.development),
    ("stripBlockComments", .bool options.stripBlockComments)]

def PrintOptions.toJson (options : PrintOptions) : Json :=
  .obj [("indentWidth", .int options.indentWidth.toNat), ("useTabs", .bool options.useTabs)]

def Options.toJson (options : Options) : Json :=
  .obj [("compile", options.compile.toJson), ("print", options.print.toJson)]

end Stencil
