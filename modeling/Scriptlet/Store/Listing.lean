import Scriptlet.Store
import Scriptlet.Value.Text

/-!
# Listings of scopes

The bindings of a scope as text: every name with the listing of its value, in the order in which the
names were first bound.
-/

namespace Scriptlet

def Bindings.listing (bindings : Bindings) : String :=
  let items := bindings.map fun (name, value) => Text.quoted name ++ ": " ++ value.listing
  "\x7b" ++ ", ".intercalate items ++ "\x7d"

end Scriptlet
