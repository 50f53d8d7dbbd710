import Archiviste.Generate.Models

/-!
# Archiviste.Generate.Memory

The bounded window of prior turns: the newest rows that fit the token budget, rendered in
chronological order from a human turn on.
-/

namespace Archiviste.Generate

inductive Role where
  | user | assistant
  deriving DecidableEq, Repr

structure MessageRow where
  role : Role
  ordinal : Int
  content : Text
  tokenCount : Int
  deriving DecidableEq, Repr

structure MemoryWindow where
  messages : List Message
  lastUserTurn : Option Text
  deriving DecidableEq, Repr

def memoryMaxTurns : Nat := 50

/-- The loop of `_select_within_budget`, `total` being the tokens taken so far. -/
def selectFrom (budget : Int) : Int → List MessageRow → List MessageRow
  | _, [] => []
  | total, row :: rows =>
    if budget < total + row.tokenCount then []
    else row :: selectFrom budget (total + row.tokenCount) rows

def selectWithinBudget (rowsNewestFirst : List MessageRow) (budget : Int) : List MessageRow :=
  selectFrom budget 0 rowsNewestFirst

def toMessage (row : MessageRow) : Message :=
  match row.role with
  | .assistant => .ai row.content
  | .user => .human row.content

def render (selectedNewestFirst : List MessageRow) : List Message :=
  ((selectedNewestFirst.reverse).dropWhile fun row => row.role = .assistant).map toMessage

def lastUserTurn (rowsNewestFirst : List MessageRow) : Option Text :=
  (rowsNewestFirst.find? fun row => row.role = .user).map (·.content)

/-- `rows` is what `fetch_tail_owned` returns, newest first; `none` when no store is wired. -/
def loadMemoryWindow (rows : Option (List MessageRow)) (tokenBudget : Int) : MemoryWindow :=
  match rows with
  | none => ⟨[], none⟩
  | some rows =>
    if tokenBudget ≤ 0 ∨ rows = [] then ⟨[], none⟩
    else ⟨render (selectWithinBudget rows tokenBudget), lastUserTurn rows⟩

end Archiviste.Generate
