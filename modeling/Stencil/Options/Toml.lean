import Stencil.Options.Reader
import Stencil.Toml.Document

/-!
# Options in TOML

A configuration file is a TOML document whose table is read like a JSON object, except that an array
may have more items than its record has fields.
-/

namespace Stencil

def Options.ofToml? (text : String) : Option Options :=
  (Toml.read? text).bind fun entries =>
    ((Options.record .ignored).read .ignored (.obj (Toml.Value.membersToJson entries))).toOption

end Stencil
