import Mathlib.Algebra.Order.Ring.Int

/-!
# Archiviste.Base.Chrono

Instants and durations of the `chrono` crate, in nanoseconds. An instant lies between the first
nanosecond of the year -262143 and the last one of the year 262142; a duration between plus and
minus `i64::MAX` milliseconds. The operators panic outside these ranges, and `from_timestamp`
returns nothing.
-/

namespace Archiviste.Chrono

/-- The second of `DateTime::<Utc>::MIN_UTC`. -/
def minSeconds : Int := -8334601228800

/-- The second of `DateTime::<Utc>::MAX_UTC`. -/
def maxSeconds : Int := 8210266876799

def second : Int := 1000000000

def InRange (n : Int) : Prop := minSeconds * second ≤ n ∧ n < (maxSeconds + 1) * second

instance (n : Int) : Decidable (InRange n) := inferInstanceAs (Decidable (_ ∧ _))

structure DateTime where
  ns : Int
  inRange : InRange ns

structure Duration where
  ns : Int

inductive Panic where
  | durationOutOfBounds
  | additionOverflowed
  | subtractionOverflowed
  deriving DecidableEq

namespace Duration

/-- `i64::MAX` milliseconds. -/
def maxMillis : Int := 9223372036854775807

def ofSeconds (s : Int) : Except Panic Duration :=
  if -maxMillis ≤ s * 1000 ∧ s * 1000 ≤ maxMillis then .ok ⟨s * second⟩
  else .error .durationOutOfBounds

/-- `Duration::seconds`. -/
def seconds (s : Int64) : Except Panic Duration := ofSeconds s.toInt

/-- `Duration::minutes`. -/
def minutes (m : Int64) : Except Panic Duration := ofSeconds (m.toInt * 60)

end Duration

namespace DateTime

/-- `DateTime::from_timestamp(secs, 0)`. -/
def fromTimestamp (secs : Int64) : Option DateTime :=
  if h : InRange (secs.toInt * second) then some ⟨_, h⟩ else none

/-- `t + d`. -/
def add (t : DateTime) (d : Duration) : Except Panic DateTime :=
  if h : InRange (t.ns + d.ns) then .ok ⟨_, h⟩ else .error .additionOverflowed

/-- `t - d`. -/
def sub (t : DateTime) (d : Duration) : Except Panic DateTime :=
  if h : InRange (t.ns - d.ns) then .ok ⟨_, h⟩ else .error .subtractionOverflowed

/-- `t < u`. -/
def before (t u : DateTime) : Bool := t.ns < u.ns

theorem ofSeconds_of_inRange {t : DateTime} {s : Int} (h : InRange (t.ns + s * second)) :
    Duration.ofSeconds s = .ok ⟨s * second⟩ := by
  have ht := t.inRange
  refine if_pos ?_
  simp only [InRange, minSeconds, maxSeconds, second, Duration.maxMillis] at *
  omega

end DateTime

end Archiviste.Chrono
