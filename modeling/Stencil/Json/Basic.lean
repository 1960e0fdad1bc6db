import Stencil.Decimal.Binary64

/-!
# JSON values

Numbers are either whole or binary fractions, and the two are told apart by how they were written.
An object keeps its members in order, also those of equal names; looked up by name, the last one
counts.
-/

namespace Stencil

inductive Json where
  | null
  | bool (value : Bool)
  | int (value : Int)
  | real (value : Binary64)
  | str (value : String)
  | arr (items : List Json)
  | obj (members : List (String × Json))
deriving Repr, Inhabited

namespace Json

/-- The value of the last member of a name. -/
def lookup (name : String) (members : List (String × Json)) : Option Json :=
  (members.reverse.find? fun member => member.1 == name).map Prod.snd

end Json

end Stencil
