import Archiviste.Base.Regex

/-!
# Archiviste.Base.Js

The string methods and the regular expressions of JavaScript where they differ from Python's:
`trim`, `replace`, the split at `/\r?\n/`, the anchors of the flag `m` and the case folding of the
flag `i` (without `u`). A string is the list of its characters; none of the patterns cuts a
surrogate pair.
-/

namespace Archiviste.Js

open Regex

/-- The white space and the line terminators `trim` removes. -/
def isSpace (c : Char) : Bool :=
  let n := c.toNat
  (9 ≤ n && n ≤ 13) || n == 32 || n == 0xa0 || n == 0x1680 || (0x2000 ≤ n && n ≤ 0x200a) ||
    n == 0x2028 || n == 0x2029 || n == 0x202f || n == 0x205f || n == 0x3000 || n == 0xfeff

def isLineTerminator (c : Char) : Bool :=
  let n := c.toNat
  n == 10 || n == 13 || n == 0x2028 || n == 0x2029

/-- `s.trimEnd()`. -/
def trimEnd (s : Text) : Text := s.rdropWhile isSpace

/-- `s.trim()`. -/
def trim (s : Text) : Text := trimEnd (s.dropWhile isSpace)

/-- `^` under the flag `m`. -/
def atLineStart (q : Pos) : Bool :=
  match q.before with
  | [] => true
  | c :: _ => isLineTerminator c

/-- `$` under the flag `m`. -/
def atLineEnd (q : Pos) : Bool :=
  match q.after with
  | [] => true
  | c :: _ => isLineTerminator c

/-- The characters an ASCII letter of a pattern matches under the flag `i`: no character outside
ASCII folds to one inside. -/
def ciEq (pat c : Char) : Bool := c.toLower == pat.toLower

/-- A literal word under the flag `i`. -/
def wordCi (s : String) : Re := s.toList.foldr (fun c r => .seq (.cls (ciEq c)) r) .eps

/-- `s.split(/\r?\n/)`. -/
def splitLines : Text → List Text
  | [] => [[]]
  | '\n' :: cs => [] :: splitLines cs
  | '\r' :: '\n' :: cs => [] :: splitLines cs
  | c :: cs =>
    match splitLines cs with
    | [] => [[c]]
    | p :: ps => (c :: p) :: ps

example : splitLines "a\r\n\nb\n".toList = ["a".toList, [], "b".toList, []] := by decide

/-! ## Trimming -/

theorem trimEnd_append_space {s t : Text} (h : ∀ c ∈ t, isSpace c = true) :
    trimEnd (s ++ t) = trimEnd s :=
  Text.rdropWhile_append_of_all h

theorem trimEnd_append {s t : Text} (h : ¬ ∀ c ∈ t, isSpace c = true) :
    trimEnd (s ++ t) = s ++ trimEnd t :=
  Text.rdropWhile_append_of_not_all h

theorem trim_cons {c : Char} (hc : isSpace c = false) (s : Text) :
    trim (c :: s) = trimEnd (c :: s) := by
  simp [trim, hc]

theorem length_trimEnd_le (s : Text) : (trimEnd s).length ≤ s.length :=
  (List.rdropWhile_prefix _ _).length_le

end Archiviste.Js
