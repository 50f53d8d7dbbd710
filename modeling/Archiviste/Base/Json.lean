import Archiviste.Base.Text
import Mathlib.Data.Rat.Defs

/-!
# Archiviste.Base.Json

JSON values, with an object as the list of its members in the order of the text. A repeated key
keeps its last value, as both `serde_json` and Python's `json` do.
-/

namespace Archiviste

inductive Json where
  | null
  | bool (b : Bool)
  | num (q : ℚ)
  | str (s : Text)
  | arr (items : List Json)
  | obj (members : List (Text × Json))

namespace Json

/-- `value.get(key)`: `none` on an absent key and on a value that is no object. -/
def get? : Json → Text → Option Json
  | .obj ms, k => List.lookup k ms.reverse
  | _, _ => none

end Json
end Archiviste
