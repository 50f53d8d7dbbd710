import Mathlib.Data.List.Basic
import Archiviste.Base.Text

/-!
# Archiviste.Base.Uuid

A UUID as its 32 hexadecimal digits, with the two conversions the gateway uses: `to_string`,
which prints the lower-case hyphenated form, and `Uuid::parse_str`, which reads four forms (bare,
hyphenated, braced, `urn:uuid:`) with digits of either case.
-/

namespace Archiviste

structure Uuid where
  digits : List (Fin 16)
  length_digits : digits.length = 32
  deriving DecidableEq

namespace Uuid

-- the literals of a digit rest on this
instance : NeZero 16 := ⟨by decide⟩

def hexDigit (n : Fin 16) : Char :=
  if n.val < 10 then Char.ofNat (48 + n.val) else Char.ofNat (87 + n.val)

def hexValue (c : Char) : Option (Fin 16) :=
  let n := c.toNat
  if h : 48 ≤ n ∧ n ≤ 57 then some ⟨n - 48, by omega⟩
  else if h : 97 ≤ n ∧ n ≤ 102 then some ⟨n - 87, by omega⟩
  else if h : 65 ≤ n ∧ n ≤ 70 then some ⟨n - 55, by omega⟩
  else none

theorem hexValue_hexDigit (n : Fin 16) : hexValue (hexDigit n) = some n := by
  revert n; decide

def hyphenate (s : Text) : Text :=
  s.take 8 ++ '-' :: (s.drop 8).take 4 ++ '-' :: (s.drop 12).take 4 ++
    '-' :: (s.drop 16).take 4 ++ '-' :: s.drop 20

/-- The inverse of `hyphenate` on texts of 36 characters with hyphens at the four places. -/
def dehyphenate (s : Text) : Option Text :=
  if s.length = 36 ∧ s[8]? = some '-' ∧ s[13]? = some '-' ∧ s[18]? = some '-' ∧ s[23]? = some '-'
  then some (s.take 8 ++ (s.drop 9).take 4 ++ (s.drop 14).take 4 ++ (s.drop 19).take 4 ++ s.drop 24)
  else none

variable {s : Text}

theorem dehyphenate_hyphenate (hs : s.length = 32) : dehyphenate (hyphenate s) = some s := by
  have cut (k m : Nat) : (s.drop k).take m ++ s.drop (k + m) = s.drop k := by
    rw [← List.drop_drop, List.take_append_drop]
  refine (if_pos (by simp [hyphenate, hs])).trans ?_
  simp [hyphenate, List.drop_append, List.drop_take, hs, cut 16 4, cut 12 4, cut 8 4]

theorem hyphenate_groups {a b c d : Text} (e : Text) (ha : a.length = 8) (hb : b.length = 4)
    (hc : c.length = 4) (hd : d.length = 4) :
    hyphenate (a ++ b ++ c ++ d ++ e) = a ++ '-' :: b ++ '-' :: c ++ '-' :: d ++ '-' :: e := by
  have gone {t : Text} {n k : Nat} (ht : t.length = n) (h : n ≤ k) : t.drop k = [] :=
    List.drop_of_length_le (ht ▸ h)
  simp [hyphenate, List.drop_append, ha, hb, hc, hd, gone ha, gone hb, gone hc]

/-- `uuid.to_string()`. -/
def toText (u : Uuid) : Text := hyphenate (u.digits.map hexDigit)

def ofDigits (l : List (Fin 16)) : Option Uuid :=
  if h : l.length = 32 then some ⟨l, h⟩ else none

def ofDigit (n : Fin 16) : Uuid := ⟨List.replicate 32 n, rfl⟩

def parseSimple (s : Text) : Option Uuid := (s.mapM hexValue).bind ofDigits

/-- `Uuid::parse_str(s).ok()`. The length picks the form. -/
def parseStr (s : Text) : Option Uuid :=
  if s.length = 32 then parseSimple s
  else if s.length = 36 then (dehyphenate s).bind parseSimple
  else if s.length = 38 then
    if s[0]? = some '{' ∧ s[37]? = some '}' then
      (dehyphenate ((s.drop 1).take 36)).bind parseSimple
    else none
  else if s.length = 45 then
    (Text.dropPrefix? "urn:uuid:".toList s).bind fun r => (dehyphenate r).bind parseSimple
  else none

/-- The UUID `asyncpg` sends for a text given to a `uuid` parameter: hyphens may stand anywhere. -/
def pgParse (s : Text) : Option Uuid :=
  if 32 ≤ s.length ∧ s.length ≤ 36 then parseSimple (s.filter (· ≠ '-')) else none

theorem mapM_hexValue (l : List (Fin 16)) : (l.map hexDigit).mapM hexValue = some l := by
  induction l with
  | nil => rfl
  | cons n l ih => simp [hexValue_hexDigit, ih]

variable (u : Uuid)

theorem parseSimple_digits : parseSimple (u.digits.map hexDigit) = some u := by
  rw [parseSimple, mapM_hexValue]
  simp [ofDigits, u.length_digits]

theorem length_hyphenate (hs : s.length = 32) : (hyphenate s).length = 36 := by
  simp [hyphenate, hs]

theorem length_toText : u.toText.length = 36 :=
  length_hyphenate (by simp [u.length_digits])

theorem parseStr_toText : parseStr u.toText = some u := by
  have hlen : (u.digits.map hexDigit).length = 32 := by simp [u.length_digits]
  rw [parseStr, if_neg (by simp [length_toText]), if_pos (length_toText u), toText,
    dehyphenate_hyphenate hlen]
  exact parseSimple_digits u

theorem hexDigit_ne_hyphen (n : Fin 16) : hexDigit n ≠ '-' := by
  revert n; decide

theorem filter_hyphenate (hs : ∀ c ∈ s, c ≠ '-') : (hyphenate s).filter (· ≠ '-') = s := by
  have keep (t : Text) (ht : t ⊆ s) : t.filter (· ≠ '-') = t :=
    List.filter_eq_self.mpr fun c hc => by simpa using hs c (ht hc)
  have cut (k m : Nat) : (s.drop k).take m ++ s.drop (k + m) = s.drop k := by
    rw [← List.drop_drop, List.take_append_drop]
  have sub (k m : Nat) : (s.drop k).take m ⊆ s :=
    fun _ h => List.mem_of_mem_drop (List.mem_of_mem_take h)
  simp only [hyphenate, List.filter_append, List.filter_cons]
  rw [keep _ (List.take_subset 8 s), keep _ (sub 8 4), keep _ (sub 12 4), keep _ (sub 16 4),
    keep _ (List.drop_subset 20 s)]
  simp [cut 16 4, cut 12 4, cut 8 4]

theorem pgParse_toText : pgParse u.toText = some u := by
  have hdigits : ∀ c ∈ u.digits.map hexDigit, c ≠ '-' := by
    intro c hc
    obtain ⟨n, -, rfl⟩ := List.mem_map.mp hc
    exact hexDigit_ne_hyphen n
  rw [pgParse, if_pos (by simp [length_toText]), toText, filter_hyphenate hdigits]
  exact parseSimple_digits u

theorem pgParse_concat (c : Char) : pgParse (u.toText ++ [c]) = none := by
  rw [pgParse, if_neg]
  simp [length_toText]

end Uuid
end Archiviste
