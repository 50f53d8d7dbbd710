import Archiviste.Base.Text
import Mathlib.Data.Rat.Defs

/-!
# Archiviste.Base.Yaml

The values `yaml.safe_load` returns. A mapping is the list of its entries in insertion order, with
pairwise different keys; a date or another scalar without a JSON counterpart is kept by its text.
-/

namespace Archiviste

inductive Yaml where
  | null
  | bool (b : Bool)
  | num (q : ℚ)
  | str (s : Text)
  | seq (items : List Yaml)
  | map (entries : List (Text × Yaml))
  | scalar (repr : Text)

namespace Yaml

/-- `entries.get(key)`. -/
def get? (entries : List (Text × Yaml)) (key : Text) : Option Yaml := List.lookup key entries

/-- `isinstance(value, str)`, with the string. -/
def str? : Yaml → Option Text
  | .str s => some s
  | _ => none

end Yaml
end Archiviste
