import Archiviste.Base.Text
import Mathlib.Data.Rat.Defs
import Mathlib.Algebra.Order.Ring.Unbundled.Rat

/-!
# Archiviste.Base.Float

The order of Python floats. A finite double is the rational number it stands for, so comparing
two of them is exact; the infinities compare as usual, and every comparison with `nan` is false.
-/

namespace Archiviste

inductive PyFloat where
  | fin (q : ℚ)
  | posInf
  | negInf
  | nan
  deriving DecidableEq

namespace PyFloat

def zero : PyFloat := .fin 0

/-- `a < b`. -/
def lt : PyFloat → PyFloat → Bool
  | .nan, _ => false
  | _, .nan => false
  | .fin a, .fin b => decide (a < b)
  | .negInf, .negInf => false
  | .negInf, _ => true
  | _, .negInf => false
  | .posInf, _ => false
  | .fin _, .posInf => true

/-- `max(xs, default=d)`: the first item, replaced whenever a later one is greater. -/
def maxD (d : PyFloat) : List PyFloat → PyFloat
  | [] => d
  | x :: xs => xs.foldl (fun m y => if lt m y then y else m) x

end PyFloat
end Archiviste
