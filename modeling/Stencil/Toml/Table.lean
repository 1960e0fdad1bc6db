import Stencil.Toml.Value

/-!
# Filling tables

A key can be given once. A dotted key makes the tables on its way, and goes through tables that
other dotted keys or the path of a header made, but the table it ends in must be made by dotted
keys. A header makes its table unless there is one; it may name a table that so far was only a step
of another header's path. On their way headers also go through the tables of other headers, and
through the last table of an array of tables; what was written in brackets or braces is closed for
good.

Each operation gives the table after it, or none if it is not allowed.

Main definitions:

* `assign`: gives a dotted key its value;
* `within`: changes the table that the path of a header leads to;
* `openTable`, `openItem`: what the last part of a header makes.
-/

namespace Stencil.Toml

/-- Changes the value of a key, or adds one behind the others. -/
def update (key : String) (change : Option Value → Option Value) : Entries → Option Entries
  | [] => (change none).map fun value => [(key, value)]
  | (name, value) :: entries =>
    if name = key then (change (some value)).map fun value => (name, value) :: entries
    else (update key change entries).map ((name, value) :: ·)

def updateLast (change : Entries → Option Entries) (items : List Value) : Option Value :=
  match items.getLast? with
  | some (.table origin entries) =>
    (change entries).map fun entries => .tables (items.dropLast ++ [.table origin entries])
  | _ => none

/-- Gives a dotted key its value. The steps are those in front of the last part. -/
def assign : (steps : List String) → (key : String) → Value → Entries → Option Entries
  | [], key, value, entries =>
    update key (fun old => if old.isSome then none else some value) entries
  | step :: steps, key, value, entries =>
    update step (fun old =>
      match old with
      | none => (assign steps key value []).map (.table .dotted)
      | some (.table origin inner) =>
        if origin = .dotted ∨ (origin = .path ∧ steps ≠ []) then
          (assign steps key value inner).map (.table origin)
        else none
      | some (.tables items) =>
        -- a table of an array has a header, so the key cannot end in it
        if steps = [] then none else updateLast (assign steps key value) items
      | some _ => none) entries

/-- Goes one step down the path of a header. -/
def descend (change : Entries → Option Entries) : Option Value → Option Value
  | none => (change []).map (.table .path)
  | some (.table origin entries) =>
    if origin = .inline then none else (change entries).map (.table origin)
  | some (.tables items) => updateLast change items
  | some _ => none

/-- Changes the table that the path of a header leads to. -/
def within (change : Entries → Option Entries) : (path : List String) → Entries → Option Entries
  | [], entries => change entries
  | step :: path, entries => update step (descend (within change path)) entries

/-- Makes the table of a header with the last part `key`. -/
def openTable (key : String) (entries : Entries) : Option Entries :=
  update key (fun old =>
    match old with
    | none => some (.table .header [])
    -- only a step of other headers so far: its own header may still come
    | some (.table .path inner) => some (.table .header inner)
    | some _ => none) entries

/-- Adds a table to the array of tables of a header with the last part `key`. -/
def openItem (key : String) (entries : Entries) : Option Entries :=
  update key (fun old =>
    match old with
    | none => some (.tables [.table .header []])
    | some (.tables items) => some (.tables (items ++ [.table .header []]))
    | some _ => none) entries

end Stencil.Toml
