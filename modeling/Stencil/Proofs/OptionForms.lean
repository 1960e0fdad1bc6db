import Mathlib.Data.List.Basic
import Stencil.Options.Reader

/-!
# The surface forms of options

Options may be written in more than one way. Each record, be it the options as a whole or one of the
two records in them, is an object or an array, whatever the others are. A field that has its default
may be left out, in an array only together with those behind it. An object may hold further members
of any value, and the order of its members is free.

`RecordForm` says all of this once for a record of two fields, apart from the reader: what a field
is called, what its default is and how its values are written are parameters. `Options.Written` puts
the three records together.

Main results:

* `Json.lookup_of_perm`: what is found under a name in an object depends neither on the order of the
  members nor on those of other names;
* `OptionsRecord.read_recordForm`: a record is read back from each of its forms, if its fields are
  read back from each of theirs;
* `Options.ofJson_written`: options are read back from each of their forms, and the complete object
  is one of them.
-/

namespace Stencil

-- ---------------------------------------------------------------------------
-- Forms
-- ---------------------------------------------------------------------------

/-- A field of a record as it is written. -/
structure FieldForm (α : Type) where
  name : String
  default : α
  /-- The JSON values that a value of the field may be written as. -/
  Form : α → Json → Prop

namespace FieldForm

variable {α : Type}

/-- What stands for a field in a record: its value in one of its forms, or nothing if the value is
the default. -/
inductive Given (field : FieldForm α) : α → Option Json → Prop where
  | leftOut : Given field field.default none
  | written {a : α} {json : Json} (hform : field.Form a json) : Given field a (some json)

/-- The member of an object for a field, if there is one. -/
def member (field : FieldForm α) (given : Option Json) : List (String × Json) :=
  given.toList.map fun json => (field.name, json)

end FieldForm

/-- The JSON values that a record of two fields may be written as. -/
inductive RecordForm {α β : Type} (first : FieldForm α) (second : FieldForm β) (a : α) (b : β) :
    Json → Prop where
  | object {x y : Option Json} {others members : List (String × Json)} (hfirst : first.Given a x)
      (hsecond : second.Given b y)
      (hothers : ∀ member ∈ others, member.1 ≠ first.name ∧ member.1 ≠ second.name)
      (horder : members.Perm (first.member x ++ second.member y ++ others)) :
      RecordForm first second a b (.obj members)
  | array {x y : Option Json} (hfirst : first.Given a x) (hsecond : second.Given b y)
      -- in an array only trailing fields can be left out
      (htrailing : x = none → y = none) :
      RecordForm first second a b (.arr (x.toList ++ y.toList))

/-- A truth value is written as itself. -/
def boolField (name : String) (default : Bool) : FieldForm Bool where
  name := name
  default := default
  Form := fun value json => json = .bool value

def CompileOptions.Written (options : CompileOptions) : Json → Prop :=
  RecordForm (boolField "development" false) (boolField "stripBlockComments" true)
    options.development options.stripBlockComments

/-- The indentation width is written as a whole number. -/
def indentWidthField : FieldForm UInt64 where
  name := "indentWidth"
  default := 2
  Form := fun width json => json = .int width.toNat

def PrintOptions.Written (options : PrintOptions) : Json → Prop :=
  RecordForm indentWidthField (boolField "useTabs" false) options.indentWidth options.useTabs

/-- The JSON values that options may be written as, with a choice of its own for each record. -/
def Options.Written (options : Options) : Json → Prop :=
  RecordForm ⟨"compile", ⟨false, true⟩, CompileOptions.Written⟩
    ⟨"print", ⟨2, false⟩, PrintOptions.Written⟩ options.compile options.print

-- ---------------------------------------------------------------------------
-- Looking up members
-- ---------------------------------------------------------------------------

namespace Json

theorem lookup_eq_getLast? (name : String) (members : List (String × Json)) :
    lookup name members =
      ((members.filter fun member => member.1 == name).getLast?).map Prod.snd := by
  rw [lookup, ← List.head?_filter, List.filter_reverse, List.head?_reverse]

/-- What is found under a name that one member has at most depends neither on the order of the
members nor on those of other names. -/
theorem lookup_of_perm {name : String} {given : Option Json}
    {members others : List (String × Json)}
    (horder : members.Perm (given.toList.map (fun json => (name, json)) ++ others))
    (hothers : ∀ member ∈ others, member.1 ≠ name) : lookup name members = given := by
  have hnone : others.filter (fun member => member.1 == name) = [] := by
    rw [List.filter_eq_nil_iff]
    intro member hmember
    simpa using hothers member hmember
  have hperm := horder.filter fun member => member.1 == name
  rw [List.filter_append, hnone, List.append_nil] at hperm
  rw [lookup_eq_getLast?]
  cases given with
  | none =>
    rw [List.Perm.eq_nil hperm]
    rfl
  | some json =>
    have hself : [(name, json)].filter (fun member => member.1 == name) = [(name, json)] := by simp
    have hfound : members.filter (fun member => member.1 == name) = [(name, json)] :=
      List.perm_singleton.1 (hself ▸ hperm)
    rw [hfound]
    rfl

end Json

-- ---------------------------------------------------------------------------
-- Reading
-- ---------------------------------------------------------------------------

/-- A reader goes by the name and the default of a field, and takes each of its forms. -/
structure OptionsField.Reads {α : Type} (reader : OptionsField α) (field : FieldForm α) : Prop where
  name : reader.name = field.name
  default : reader.default = field.default
  read : ∀ a json, field.Form a json → reader.read json = .ok a

/-- A field is read back from what stands for it. -/
theorem OptionsField.Reads.readIn {α : Type} {reader : OptionsField α} {field : FieldForm α}
    (h : reader.Reads field) {a : α} {given : Option Json} (ha : field.Given a given) :
    reader.readIn given = .ok a := by
  cases ha with
  | leftOut => exact congrArg Except.ok h.default
  | written hform => exact h.read _ _ hform

namespace OptionsRecord

variable {α β γ : Type} {record : OptionsRecord α β γ} {first : FieldForm α} {second : FieldForm β}
  {x y : Option Json}

theorem readFields_given (hfirst : record.first.Reads first) (hsecond : record.second.Reads second)
    {a : α} {b : β} (ha : first.Given a x) (hb : second.Given b y) :
    record.readFields x y = .ok (record.make a b) := by
  rw [readFields, hfirst.readIn ha, hsecond.readIn hb]
  rfl

/-- An object is read by the members of the two names, wherever they stand. -/
theorem read_members (surplus : Surplus) (hfirst : record.first.name = first.name)
    (hsecond : record.second.name = second.name) (hnames : first.name ≠ second.name)
    {others members : List (String × Json)}
    (hothers : ∀ member ∈ others, member.1 ≠ first.name ∧ member.1 ≠ second.name)
    (horder : members.Perm (first.member x ++ second.member y ++ others)) :
    record.read surplus (.obj members) = record.readFields x y := by
  have hlookupFirst : Json.lookup first.name members = x := by
    rw [List.append_assoc] at horder
    refine Json.lookup_of_perm horder fun member hmember => ?_
    rcases List.mem_append.1 hmember with hsecond | hother
    · obtain ⟨json, -, rfl⟩ := List.mem_map.1 hsecond
      exact hnames.symm
    · exact (hothers member hother).1
  have hlookupSecond : Json.lookup second.name members = y := by
    have hswapped : members.Perm (second.member y ++ (first.member x ++ others)) := by
      rw [← List.append_assoc]
      exact horder.trans (List.perm_append_comm.append_right others)
    refine Json.lookup_of_perm hswapped fun member hmember => ?_
    rcases List.mem_append.1 hmember with hfirst | hother
    · obtain ⟨json, -, rfl⟩ := List.mem_map.1 hfirst
      exact hnames
    · exact (hothers member hother).2
  rw [read_obj, hfirst, hsecond, hlookupFirst, hlookupSecond]

/-- An array is read by the places of its items. -/
theorem read_items (surplus : Surplus) (htrailing : x = none → y = none) :
    record.read surplus (.arr (x.toList ++ y.toList)) = record.readFields x y := by
  have hitems : (x.toList ++ y.toList)[0]? = x ∧ (x.toList ++ y.toList)[1]? = y ∧
      ¬2 < (x.toList ++ y.toList).length := by
    cases x with
    | none =>
      rw [htrailing rfl]
      simp
    | some json => cases y <;> simp
  obtain ⟨hzero, hone, hlength⟩ := hitems
  rw [read, hzero, hone]
  cases record.readFields x y with
  | error e => rfl
  | ok value => exact if_neg fun hsurplus => hlength hsurplus.2

/-- A record is read back from each of its forms, if its fields are read back from each of
theirs. -/
theorem read_recordForm (surplus : Surplus) (hfirst : record.first.Reads first)
    (hsecond : record.second.Reads second) (hnames : first.name ≠ second.name) {a : α} {b : β}
    {json : Json} (h : RecordForm first second a b json) :
    record.read surplus json = .ok (record.make a b) := by
  cases h with
  | object ha hb hothers horder =>
    rw [read_members surplus hfirst.name hsecond.name hnames hothers horder]
    exact readFields_given hfirst hsecond ha hb
  | array ha hb htrailing =>
    rw [read_items surplus htrailing]
    exact readFields_given hfirst hsecond ha hb

end OptionsRecord

-- ---------------------------------------------------------------------------
-- The three records
-- ---------------------------------------------------------------------------

theorem readBool_reads (name : String) (default : Bool) :
    OptionsField.Reads ⟨name, default, readBool⟩ (boolField name default) := by
  refine ⟨rfl, rfl, ?_⟩
  rintro value _ rfl
  rfl

/-- Every number of 64 bits is read back. -/
theorem readSize_reads : OptionsField.Reads PrintOptions.record.first indentWidthField := by
  refine ⟨rfl, rfl, ?_⟩
  rintro width _ rfl
  have hrange : (0 : Int) ≤ width.toNat ∧ (width.toNat : Int).toNat < UInt64.size :=
    ⟨Int.natCast_nonneg _, width.toNat_lt⟩
  show readSize (.int width.toNat) = .ok width
  rw [readSize, if_pos hrange, Int.toNat_natCast, UInt64.ofNat_toNat]

theorem CompileOptions.read_written (surplus : Surplus) (options : CompileOptions) (json : Json)
    (h : options.Written json) : CompileOptions.record.read surplus json = .ok options :=
  OptionsRecord.read_recordForm surplus (readBool_reads _ _) (readBool_reads _ _) (by decide) h

theorem PrintOptions.read_written (surplus : Surplus) (options : PrintOptions) (json : Json)
    (h : options.Written json) : PrintOptions.record.read surplus json = .ok options :=
  OptionsRecord.read_recordForm surplus readSize_reads (readBool_reads _ _) (by decide) h

theorem Options.read_written (surplus : Surplus) {options : Options} {json : Json}
    (h : options.Written json) : (Options.record surplus).read surplus json = .ok options :=
  OptionsRecord.read_recordForm surplus ⟨rfl, rfl, CompileOptions.read_written surplus⟩
    ⟨rfl, rfl, PrintOptions.read_written surplus⟩ (by decide) h

/-- An object of both fields alone, in their order, is a form of every record. -/
theorem RecordForm.complete {α β : Type} {first : FieldForm α} {second : FieldForm β} {a : α}
    {b : β} {x y : Json} (hfirst : first.Form a x) (hsecond : second.Form b y) :
    RecordForm first second a b (.obj [(first.name, x), (second.name, y)]) :=
  .object (.written hfirst) (.written hsecond) (by simp) (List.Perm.refl _)

theorem Options.written_toJson (options : Options) : options.Written options.toJson := by
  have hcompile : options.compile.Written options.compile.toJson := RecordForm.complete rfl rfl
  have hprint : options.print.Written options.print.toJson := RecordForm.complete rfl rfl
  exact RecordForm.complete hcompile hprint

/-- **Reading options undoes writing them**, in whichever form: the complete object is one, and from
each of them the options are read that were written. -/
theorem Options.ofJson_written (options : Options) :
    options.Written options.toJson ∧
      ∀ json, options.Written json → Options.ofJson json = .ok options :=
  ⟨options.written_toJson, fun _ => Options.read_written .refused⟩

/-- An object with the print options in front, an array of the first of the compile options, and an
object of the largest width; two members are of other names, one of them close to a field's. -/
theorem Options.ofJson_written_mixed :
    let options : Options :=
      { compile := { development := true }, print := { indentWidth := 18446744073709551615 } }
    let compile := Json.arr [.bool true]
    let print := Json.obj [("use_tabs", .null), ("indentWidth", .int 18446744073709551615)]
    let json := Json.obj [("print", print), ("Compile", .arr [.null]), ("compile", compile)]
    options.Written json ∧ Options.ofJson json = .ok options := by
  intro options compile print json
  have hcompile : options.compile.Written compile :=
    .array (.written rfl) .leftOut (by simp)
  have hwidth : indentWidthField.Given options.print.indentWidth
      (some (.int 18446744073709551615)) := .written rfl
  have htabs : (boolField "useTabs" false).Given options.print.useTabs none := .leftOut
  have hprint : options.print.Written print :=
    .object hwidth htabs (by simp [indentWidthField, boolField]) (List.Perm.swap _ _ [])
  have hwritten : options.Written json :=
    .object (.written hcompile) (.written hprint) (by simp)
      (List.perm_append_singleton ("compile", compile)
        [("print", print), ("Compile", .arr [.null])])
  exact ⟨hwritten, options.ofJson_written.2 json hwritten⟩

end Stencil
