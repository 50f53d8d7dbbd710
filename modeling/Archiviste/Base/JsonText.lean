import Mathlib.Data.List.Sort
import Archiviste.Base.Text

/-!
# Archiviste.Base.JsonText

JSON as text: what `json.dumps(…, indent=2, ensure_ascii=False)` writes and what a JSON reader
accepts. A number is carried by the digits it is written with, and a number that is not finite by
the word Python writes for it, which is no JSON.

* `iterencode`, `dumps` — the chunks the encoder yields, and their text.
* `loads`               — a reader of the JSON grammar.
* `loads_dumps`         — a document without such a number is read back.
-/

namespace Archiviste.JsonText

/-! ## Documents -/

def isDigit (c : Char) : Bool := 48 ≤ c.toNat && c.toNat ≤ 57

def isLiteralChar (c : Char) : Bool :=
  isDigit c || (97 ≤ c.toNat && c.toNat ≤ 122) || (65 ≤ c.toNat && c.toNat ≤ 90) ||
    c == '+' || c == '-' || c == '.'

def afterDigits (t : Text) : Option Text :=
  if (t.takeWhile isDigit).isEmpty then none else some (t.dropWhile isDigit)

def afterInteger : Text → Option Text
  | '0' :: t => some t
  | t => afterDigits t

def afterFraction : Text → Option Text
  | '.' :: t => afterDigits t
  | t => some t

def afterExponent : Text → Option Text
  | c :: t =>
    if c = 'e' ∨ c = 'E' then
      match t with
      | '+' :: t => afterDigits t
      | '-' :: t => afterDigits t
      | t => afterDigits t
    else some (c :: t)
  | [] => some []

def afterMinus : Text → Text
  | '-' :: t => t
  | t => t

/-- The number grammar: no leading zero, digits on both sides of a point. -/
def isNumber (t : Text) : Bool :=
  t.all isLiteralChar &&
    ((afterInteger (afterMinus t)).bind afterFraction).bind afterExponent == some []

example : isNumber "0.85".toList = true ∧ isNumber "-1e-07".toList = true ∧
    isNumber "012".toList = false ∧ isNumber "1.".toList = false ∧
    isNumber "NaN".toList = false := by decide

inductive Number where
  | finite (digits : Text) (h : isNumber digits = true)
  | nan
  | infinity
  | negInfinity

def Number.text : Number → Text
  | .finite digits _ => digits
  | .nan => "NaN".toList
  | .infinity => "Infinity".toList
  | .negInfinity => "-Infinity".toList

def Number.isFinite : Number → Bool
  | .finite _ _ => true
  | _ => false

/-- What `dumps` is given and `loads` returns. -/
inductive Doc where
  | null
  | bool (b : Bool)
  | num (n : Number)
  | str (s : Text)
  | arr (items : List Doc)
  | obj (members : List (Text × Doc))

mutual

def Doc.strings : Doc → List Text
  | .str s => [s]
  | .arr items => itemStrings items
  | .obj members => memberStrings members
  | _ => []

def itemStrings : List Doc → List Text
  | [] => []
  | d :: ds => d.strings ++ itemStrings ds

def memberStrings : List (Text × Doc) → List Text
  | [] => []
  | (k, d) :: ms => k :: (d.strings ++ memberStrings ms)

end

mutual

def Doc.finite : Doc → Bool
  | .num n => n.isFinite
  | .arr items => itemsFinite items
  | .obj members => membersFinite members
  | _ => true

def itemsFinite : List Doc → Bool
  | [] => true
  | d :: ds => d.finite && itemsFinite ds

def membersFinite : List (Text × Doc) → Bool
  | [] => true
  | (_, d) :: ms => d.finite && membersFinite ms

end

mutual

def Doc.mapStrings (f : Text → Text) : Doc → Doc
  | .str s => .str (f s)
  | .arr items => .arr (mapItems f items)
  | .obj members => .obj (mapMembers f members)
  | d => d

def mapItems (f : Text → Text) : List Doc → List Doc
  | [] => []
  | d :: ds => d.mapStrings f :: mapItems f ds

def mapMembers (f : Text → Text) : List (Text × Doc) → List (Text × Doc)
  | [] => []
  | (k, d) :: ms => (f k, d.mapStrings f) :: mapMembers f ms

end

def keyLe (a b : Text × Doc) : Prop := ¬ b.1.map Char.toNat < a.1.map Char.toNat

instance : DecidableRel keyLe := fun _ _ => inferInstanceAs (Decidable (¬ _))

mutual

/-- `sort_keys=True`. -/
def sortKeys : Doc → Doc
  | .arr items => .arr (sortItems items)
  | .obj members => .obj ((sortMembers members).insertionSort keyLe)
  | d => d

def sortItems : List Doc → List Doc
  | [] => []
  | d :: ds => sortKeys d :: sortItems ds

def sortMembers : List (Text × Doc) → List (Text × Doc)
  | [] => []
  | (k, d) :: ms => (k, sortKeys d) :: sortMembers ms

end

/-! ## Writing -/

def hexDigit (n : Nat) : Char := if n < 10 then Char.ofNat (48 + n) else Char.ofNat (87 + n)

def isEscaped (c : Char) : Bool := c == '"' || c == '\\' || c.toNat < 32

def escape (c : Char) : Text :=
  if c = '"' then ['\\', '"']
  else if c = '\\' then ['\\', '\\']
  else if c = '\n' then ['\\', 'n']
  else if c = '\r' then ['\\', 'r']
  else if c = '\t' then ['\\', 't']
  else if c.toNat = 12 then ['\\', 'f']
  else if c.toNat = 8 then ['\\', 'b']
  else if c.toNat < 32 then ['\\', 'u', '0', '0', hexDigit (c.toNat / 16), hexDigit (c.toNat % 16)]
  else [c]

/-- What the encoder yields: text outside the strings, or a string. -/
inductive Chunk where
  | punct (t : Text)
  | str (s : Text)

def Chunk.text : Chunk → Text
  | .punct t => t
  | .str s => '"' :: s.flatMap escape ++ ['"']

def newline (level : Nat) : Text := '\n' :: List.replicate (2 * level) ' '

mutual

def iterencode (level : Nat) : Doc → List Chunk
  | .null => [.punct "null".toList]
  | .bool true => [.punct "true".toList]
  | .bool false => [.punct "false".toList]
  | .num n => [.punct n.text]
  | .str s => [.str s]
  | .arr items =>
    if items.isEmpty then [.punct "[]".toList]
    else iterencodeList (level + 1) '[' items ++ [.punct (newline level ++ [']'])]
  | .obj members =>
    if members.isEmpty then [.punct "\x7b\x7d".toList]
    else iterencodeDict (level + 1) '\x7b' members ++ [.punct (newline level ++ ['\x7d'])]

/-- `lead` opens the list before its first item and separates the others. -/
def iterencodeList (level : Nat) (lead : Char) : List Doc → List Chunk
  | [] => []
  | d :: ds =>
    .punct (lead :: newline level) :: (iterencode level d ++ iterencodeList level ',' ds)

def iterencodeDict (level : Nat) (lead : Char) : List (Text × Doc) → List Chunk
  | [] => []
  | (k, d) :: ms =>
    .punct (lead :: newline level) :: .str k :: .punct ": ".toList ::
      (iterencode level d ++ iterencodeDict level ',' ms)

end

def text (level : Nat) (d : Doc) : Text := (iterencode level d).flatMap Chunk.text

def itemsText (level : Nat) (ds : List Doc) : Text :=
  (iterencodeList level ',' ds).flatMap Chunk.text

def membersText (level : Nat) (ms : List (Text × Doc)) : Text :=
  (iterencodeDict level ',' ms).flatMap Chunk.text

def dumps (d : Doc) : Text := text 0 d

section TextOf

variable (level : Nat)

attribute [local simp] text itemsText membersText iterencode iterencodeList iterencodeDict
  Chunk.text

theorem text_null : text level .null = "null".toList := by simp

theorem text_true : text level (.bool true) = "true".toList := by
  simp

theorem text_false : text level (.bool false) = "false".toList := by
  simp

theorem text_num (n : Number) : text level (.num n) = n.text := by
  simp

theorem text_str (s : Text) : text level (.str s) = '"' :: (s.flatMap escape ++ ['"']) := by
  simp

theorem text_arr_nil : text level (.arr []) = ['[', ']'] := by
  simp

theorem text_arr_cons (d : Doc) (ds : List Doc) :
    text level (.arr (d :: ds)) = '[' :: (newline (level + 1) ++ (text (level + 1) d ++
      (itemsText (level + 1) ds ++ (newline level ++ [']'])))) := by
  simp

theorem text_obj_nil : text level (.obj []) = ['\x7b', '\x7d'] := by
  simp

theorem text_obj_cons (k : Text) (d : Doc) (ms : List (Text × Doc)) :
    text level (.obj ((k, d) :: ms)) = '\x7b' :: (newline (level + 1) ++
      '"' :: (k.flatMap escape ++ '"' :: ':' :: ' ' :: (text (level + 1) d ++
        (membersText (level + 1) ms ++ (newline level ++ ['\x7d']))))) := by
  simp

theorem itemsText_nil : itemsText level [] = [] := rfl

theorem itemsText_cons (d : Doc) (ds : List Doc) :
    itemsText level (d :: ds) = ',' :: (newline level ++ (text level d ++ itemsText level ds)) := by
  simp

theorem membersText_nil : membersText level [] = [] := rfl

theorem membersText_cons (k : Text) (d : Doc) (ms : List (Text × Doc)) :
    membersText level ((k, d) :: ms) = ',' :: (newline level ++
      '"' :: (k.flatMap escape ++ '"' :: ':' :: ' ' :: (text level d ++ membersText level ms))) := by
  simp

end TextOf

/-! ## Reading -/

def isWs (c : Char) : Bool := c == ' ' || c == '\n' || c == '\t' || c == '\r'

def skipWs (t : Text) : Text := t.dropWhile isWs

def hexValue (c : Char) : Option Nat :=
  let n := c.toNat
  if 48 ≤ n ∧ n ≤ 57 then some (n - 48)
  else if 97 ≤ n ∧ n ≤ 102 then some (n - 87)
  else if 65 ≤ n ∧ n ≤ 70 then some (n - 55)
  else none

/-- The character of a `\u` escape. Half of a surrogate pair stands for no character. -/
def codeUnit (a b c d : Char) : Option Char := do
  let n := (((← hexValue a) * 16 + (← hexValue b)) * 16 + (← hexValue c)) * 16 + (← hexValue d)
  return if 0xd800 ≤ n ∧ n ≤ 0xdfff then Char.ofNat 0xfffd else Char.ofNat n

def unescape (c : Char) : Option Char :=
  if c = '"' ∨ c = '\\' ∨ c = '/' then some c
  else if c = 'n' then some '\n'
  else if c = 'r' then some '\r'
  else if c = 't' then some '\t'
  else if c = 'f' then some (Char.ofNat 12)
  else if c = 'b' then some (Char.ofNat 8)
  else none

def readString : Text → Option (Text × Text)
  | [] => none
  | '"' :: t => some ([], t)
  | '\\' :: 'u' :: a :: b :: c :: d :: t => do
    let u ← codeUnit a b c d
    (readString t).map fun r => (u :: r.1, r.2)
  | '\\' :: e :: t => do
    let c ← unescape e
    (readString t).map fun r => (c :: r.1, r.2)
  | c :: t =>
    if isEscaped c then none
    else (readString t).map fun r => (c :: r.1, r.2)

def readLiteral (t : Text) : Option (Doc × Text) :=
  let word := t.takeWhile isLiteralChar
  let rest := t.dropWhile isLiteralChar
  if word = "null".toList then some (.null, rest)
  else if word = "true".toList then some (.bool true, rest)
  else if word = "false".toList then some (.bool false, rest)
  else if h : isNumber word = true then some (.num (.finite word h), rest)
  else none

mutual

def readValue : Nat → Text → Option (Doc × Text)
  | 0, _ => none
  | fuel + 1, t =>
    match skipWs t with
    | '"' :: t => (readString t).map fun r => (.str r.1, r.2)
    | '[' :: t =>
      match skipWs t with
      | ']' :: rest => some (.arr [], rest)
      | t => (readItems fuel t).map fun r => (.arr r.1, r.2)
    | '\x7b' :: t =>
      match skipWs t with
      | '\x7d' :: rest => some (.obj [], rest)
      | t => (readMembers fuel t).map fun r => (.obj r.1, r.2)
    | t => readLiteral t

def readItems : Nat → Text → Option (List Doc × Text)
  | 0, _ => none
  | fuel + 1, t => do
    let (d, t) ← readValue fuel t
    match skipWs t with
    | ',' :: t => (readItems fuel t).map fun r => (d :: r.1, r.2)
    | ']' :: rest => some ([d], rest)
    | _ => none

def readMembers : Nat → Text → Option (List (Text × Doc) × Text)
  | 0, _ => none
  | fuel + 1, t =>
    match skipWs t with
    | '"' :: t => do
      let (k, t) ← readString t
      match skipWs t with
      | ':' :: t => do
        let (d, t) ← readValue fuel t
        match skipWs t with
        | ',' :: t => (readMembers fuel t).map fun r => ((k, d) :: r.1, r.2)
        | '\x7d' :: rest => some ([(k, d)], rest)
        | _ => none
      | _ => none
    | _ => none

end

/-- The document a text stands for: `none` for what is no JSON. -/
def loads (t : Text) : Option Doc :=
  match readValue (t.length + 1) t with
  | some (d, rest) => if skipWs rest = [] then some d else none
  | none => none

/-! One turn of each reader, as an equation. -/

theorem readString_quote (t : Text) : readString ('"' :: t) = some ([], t) := rfl

theorem readString_unicode (a b c d : Char) (t : Text) :
    readString ('\\' :: 'u' :: a :: b :: c :: d :: t) =
      (codeUnit a b c d).bind fun u => (readString t).map fun r => (u :: r.1, r.2) := rfl

theorem readValue_succ (fuel : Nat) (t : Text) :
    readValue (fuel + 1) t =
      match skipWs t with
      | '"' :: t => (readString t).map fun r => (.str r.1, r.2)
      | '[' :: t =>
        match skipWs t with
        | ']' :: rest => some (.arr [], rest)
        | t => (readItems fuel t).map fun r => (.arr r.1, r.2)
      | '\x7b' :: t =>
        match skipWs t with
        | '\x7d' :: rest => some (.obj [], rest)
        | t => (readMembers fuel t).map fun r => (.obj r.1, r.2)
      | t => readLiteral t := rfl

theorem readItems_succ (fuel : Nat) (t : Text) :
    readItems (fuel + 1) t = (readValue fuel t).bind fun r =>
      match skipWs r.2 with
      | ',' :: t => (readItems fuel t).map fun s => (r.1 :: s.1, s.2)
      | ']' :: rest => some ([r.1], rest)
      | _ => none := rfl

theorem readMembers_succ (fuel : Nat) (t : Text) :
    readMembers (fuel + 1) t =
      match skipWs t with
      | '"' :: t => (readString t).bind fun k =>
        match skipWs k.2 with
        | ':' :: t => (readValue fuel t).bind fun r =>
          match skipWs r.2 with
          | ',' :: t => (readMembers fuel t).map fun s => ((k.1, r.1) :: s.1, s.2)
          | '\x7d' :: rest => some ([(k.1, r.1)], rest)
          | _ => none
        | _ => none
      | _ => none := rfl

/-! ## What is written is read back -/

theorem hexValue_hexDigit : ∀ n < 16, hexValue (hexDigit n) = some n := by decide

variable {c : Char} {rest word digits : Text} {d : Doc} {fuel : Nat}

theorem codeUnit_control (h : c.toNat < 32) :
    codeUnit '0' '0' (hexDigit (c.toNat / 16)) (hexDigit (c.toNat % 16)) = some c := by
  have hhigh := hexValue_hexDigit (c.toNat / 16) (by omega)
  have hlow := hexValue_hexDigit (c.toNat % 16) (by omega)
  have hzero : hexValue '0' = some 0 := by decide
  have hcode : ((0 * 16 + 0) * 16 + c.toNat / 16) * 16 + c.toNat % 16 = c.toNat := by omega
  have hscalar : ¬ (0xd800 ≤ c.toNat ∧ c.toNat ≤ 0xdfff) := by omega
  simp only [codeUnit, hhigh, hlow, hzero, Option.bind_eq_bind, Option.bind_some, hcode, hscalar,
    if_false, Char.ofNat_toNat, Option.pure_def]

theorem readString_pair {e : Char} (hu : e ≠ 'u') (h : unescape e = some c) (t : Text) :
    readString ('\\' :: e :: t) = (readString t).map fun r => (c :: r.1, r.2) := by
  rw [readString]
  · simp only [h, Option.bind_eq_bind, Option.bind_some]
  · intro a b c d t' he
    exact absurd he hu

theorem readString_plain (h : isEscaped c = false) (t : Text) :
    readString (c :: t) = (readString t).map fun r => (c :: r.1, r.2) := by
  have hne : c ≠ '"' ∧ c ≠ '\\' := by
    constructor <;> rintro rfl <;> simp [isEscaped] at h
  rw [readString.eq_def]
  split <;> simp_all

theorem readString_escape (c : Char) (t : Text) :
    readString (escape c ++ t) = (readString t).map fun r => (c :: r.1, r.2) := by
  unfold escape
  split
  · subst_vars
    exact readString_pair (by decide) rfl t
  split
  · subst_vars
    exact readString_pair (by decide) rfl t
  split
  · subst_vars
    exact readString_pair (by decide) rfl t
  split
  · subst_vars
    exact readString_pair (by decide) rfl t
  split
  · subst_vars
    exact readString_pair (by decide) rfl t
  split
  case isTrue h12 =>
    obtain rfl : c = Char.ofNat 12 := by rw [← h12, Char.ofNat_toNat]
    exact readString_pair (by decide) rfl t
  split
  case isTrue h8 =>
    obtain rfl : c = Char.ofNat 8 := by rw [← h8, Char.ofNat_toNat]
    exact readString_pair (by decide) rfl t
  split
  case isTrue hcontrol =>
    simp only [List.cons_append, List.nil_append, readString_unicode, codeUnit_control hcontrol,
      Option.bind_some]
  case isFalse hquote hslash _ _ _ _ _ hcontrol =>
    exact readString_plain (by simp [isEscaped, hquote, hslash, hcontrol]) t

theorem readString_text (s rest : Text) :
    readString (s.flatMap escape ++ '"' :: rest) = some (s, rest) := by
  induction s with
  | nil => exact readString_quote rest
  | cons c s ih => rw [List.flatMap_cons, List.append_assoc, readString_escape, ih, Option.map_some]

theorem skipWs_newline (level : Nat) (t : Text) : skipWs (newline level ++ t) = skipWs t := by
  have hspaces : ∀ n, skipWs (List.replicate n ' ' ++ t) = skipWs t := by
    intro n
    induction n with
    | zero => rfl
    | succ n ih => rw [List.replicate_succ, List.cons_append, ← ih]; rfl
  exact hspaces (2 * level)

theorem skipWs_of_not (h : isWs c = false) (t : Text) : skipWs (c :: t) = c :: t := by
  simp [skipWs, h]

/-- Nothing follows that could belong to a number or a word. -/
def Stops (t : Text) : Prop := ∀ c u, t = c :: u → isLiteralChar c = false

theorem stops_nil : Stops [] := fun _ _ h => by cases h

theorem stops_cons (h : isLiteralChar c = false) (t : Text) : Stops (c :: t) := by
  intro c' u hcons
  cases hcons
  exact h

theorem span_literal (word : Text) (hword : word.all isLiteralChar = true) (hstop : Stops rest) :
    (word ++ rest).takeWhile isLiteralChar = word ∧
      (word ++ rest).dropWhile isLiteralChar = rest := by
  have hall : ∀ c ∈ word, isLiteralChar c = true := List.all_eq_true.mp hword
  rw [List.takeWhile_append_of_pos hall, List.dropWhile_append_of_pos hall]
  cases rest with
  | nil => simp
  | cons c rest => simp [hstop c rest rfl]

theorem readValue_literal (h : isLiteralChar c = true) (fuel : Nat) (t : Text) :
    readValue (fuel + 1) (c :: t) = readLiteral (c :: t) := by
  have hws : isWs c = false := by
    rw [Bool.eq_false_iff]
    intro hws
    simp only [isWs, Bool.or_eq_true, beq_iff_eq] at hws
    rcases hws with ((rfl | rfl) | rfl) | rfl <;> revert h <;> decide
  have hne : c ≠ '"' ∧ c ≠ '[' ∧ c ≠ '\x7b' := by
    refine ⟨?_, ?_, ?_⟩ <;> rintro rfl <;> revert h <;> decide
  rw [readValue_succ, skipWs_of_not hws]
  split <;> simp_all

theorem readLiteral_append (hword : word.all isLiteralChar = true) (hstop : Stops rest) :
    readLiteral (word ++ rest) = (readLiteral word).map fun r => (r.1, rest) := by
  obtain ⟨htake, hdrop⟩ := span_literal word hword hstop
  obtain ⟨htake', hdrop'⟩ := span_literal word hword stops_nil
  rw [List.append_nil] at htake' hdrop'
  simp only [readLiteral, htake, hdrop, htake', hdrop']
  split_ifs <;> rfl

theorem readValue_word (hword : word.all isLiteralChar = true) (hne : word ≠ [])
    (h : readLiteral word = some (d, [])) (hstop : Stops rest) :
    readValue (fuel + 1) (word ++ rest) = some (d, rest) := by
  have hread := readLiteral_append hword hstop
  rw [h, Option.map_some] at hread
  cases word with
  | nil => exact absurd rfl hne
  | cons c word =>
    have hc : isLiteralChar c = true := List.all_eq_true.mp hword c (by simp)
    rw [List.cons_append] at hread ⊢
    rw [readValue_literal hc, hread]

theorem all_of_isNumber (h : isNumber digits = true) : digits.all isLiteralChar = true := by
  unfold isNumber at h
  exact (Bool.and_eq_true_iff.mp h).1

theorem readLiteral_number (h : isNumber digits = true) :
    readLiteral digits = some (.num (.finite digits h), []) := by
  obtain ⟨htake, hdrop⟩ := span_literal digits (all_of_isNumber h) stops_nil
  rw [List.append_nil] at htake hdrop
  have hnull : digits ≠ "null".toList := by rintro rfl; revert h; decide
  have htrue : digits ≠ "true".toList := by rintro rfl; revert h; decide
  have hfalse : digits ≠ "false".toList := by rintro rfl; revert h; decide
  simp only [readLiteral, htake, hdrop, hnull, htrue, hfalse, h, if_false, dif_pos]

theorem ne_nil_of_isNumber (h : isNumber digits = true) : digits ≠ [] := by
  rintro rfl
  revert h
  decide

/-- The first character of a value: no whitespace and no closing bracket. -/
def opens (c : Char) : Bool := c == '"' || c == '[' || c == '\x7b' || isLiteralChar c

theorem isWs_of_opens (h : opens c = true) : isWs c = false := by
  rw [Bool.eq_false_iff]
  intro hws
  simp only [isWs, Bool.or_eq_true, beq_iff_eq] at hws
  rcases hws with ((rfl | rfl) | rfl) | rfl <;> revert h <;> decide

theorem text_opens (level : Nat) (hfin : d.finite = true) :
    ∃ c t, text level d = c :: t ∧ opens c = true := by
  cases d with
  | null => exact ⟨_, _, text_null level, by decide⟩
  | bool b =>
    cases b with
    | true => exact ⟨_, _, text_true level, by decide⟩
    | false => exact ⟨_, _, text_false level, by decide⟩
  | num n =>
    cases n with
    | finite digits h =>
      obtain ⟨c, t, hct⟩ := List.exists_cons_of_ne_nil (ne_nil_of_isNumber h)
      have hc := List.all_eq_true.mp (all_of_isNumber h) c (by simp [hct])
      exact ⟨c, t, (text_num level _).trans hct, by simp [opens, hc]⟩
    | _ => cases hfin
  | str s => exact ⟨_, _, text_str level s, by decide⟩
  | arr items =>
    cases items with
    | nil => exact ⟨_, _, text_arr_nil level, by decide⟩
    | cons d ds => exact ⟨_, _, text_arr_cons level d ds, by decide⟩
  | obj members =>
    cases members with
    | nil => exact ⟨_, _, text_obj_nil level, by decide⟩
    | cons m ms => exact ⟨_, _, text_obj_cons level m.1 m.2 ms, by decide⟩

theorem readValue_newline (fuel level : Nat) (t : Text) :
    readValue fuel (newline level ++ t) = readValue fuel t := by
  cases fuel with
  | zero => rfl
  | succ fuel => rw [readValue_succ, readValue_succ, skipWs_newline]

theorem readValue_space (fuel : Nat) (t : Text) : readValue fuel (' ' :: t) = readValue fuel t := by
  cases fuel with
  | zero => rfl
  | succ fuel => rw [readValue_succ, readValue_succ]; rfl

theorem readItems_newline (fuel level : Nat) (t : Text) :
    readItems fuel (newline level ++ t) = readItems fuel t := by
  cases fuel with
  | zero => rfl
  | succ fuel => rw [readItems_succ, readItems_succ, readValue_newline]

theorem readMembers_newline (fuel level : Nat) (t : Text) :
    readMembers fuel (newline level ++ t) = readMembers fuel t := by
  cases fuel with
  | zero => rfl
  | succ fuel => rw [readMembers_succ, readMembers_succ, skipWs_newline]

/-! One step of each reader. -/

section Steps

variable {fuel : Nat} {t u v w rest : Text} {k : Text} {d : Doc}

theorem readItems_last (hv : readValue fuel t = some (d, u)) (hu : skipWs u = ']' :: rest) :
    readItems (fuel + 1) t = some ([d], rest) := by
  simp only [readItems_succ, hv, Option.bind_some, hu]

variable {ds : List Doc} {ms : List (Text × Doc)} {c : Char}

theorem readItems_more (hv : readValue fuel t = some (d, u)) (hu : skipWs u = ',' :: v)
    (hds : readItems fuel v = some (ds, rest)) : readItems (fuel + 1) t = some (d :: ds, rest) := by
  simp only [readItems_succ, hv, Option.bind_some, hu, hds, Option.map_some]

theorem readMembers_last (hk : skipWs t = '"' :: (k.flatMap escape ++ '"' :: ':' :: u))
    (hv : readValue fuel u = some (d, v)) (hclose : skipWs v = '\x7d' :: rest) :
    readMembers (fuel + 1) t = some ([(k, d)], rest) := by
  simp only [readMembers_succ, hk, readString_text, Option.bind_some,
    skipWs_of_not (show isWs ':' = false by decide), hv, hclose]

theorem readMembers_more (hk : skipWs t = '"' :: (k.flatMap escape ++ '"' :: ':' :: u))
    (hv : readValue fuel u = some (d, v)) (hcomma : skipWs v = ',' :: w)
    (hms : readMembers fuel w = some (ms, rest)) :
    readMembers (fuel + 1) t = some ((k, d) :: ms, rest) := by
  simp only [readMembers_succ, hk, readString_text, Option.bind_some,
    skipWs_of_not (show isWs ':' = false by decide), hv, hcomma, hms, Option.map_some]

theorem readValue_arr (ht : skipWs t = '[' :: u) (hu : skipWs u = c :: v) (hc : c ≠ ']')
    (hds : readItems fuel (c :: v) = some (ds, rest)) :
    readValue (fuel + 1) t = some (.arr ds, rest) := by
  simp only [readValue_succ, ht, hu]
  split
  case h_1 heq => exact absurd (List.cons.inj heq).1 hc
  case h_2 => rw [hds, Option.map_some]

theorem readValue_obj (ht : skipWs t = '\x7b' :: u) (hu : skipWs u = c :: v) (hc : c ≠ '\x7d')
    (hms : readMembers fuel (c :: v) = some (ms, rest)) :
    readValue (fuel + 1) t = some (.obj ms, rest) := by
  simp only [readValue_succ, ht, hu]
  split
  case h_1 heq => exact absurd (List.cons.inj heq).1 hc
  case h_2 => rw [hms, Option.map_some]

end Steps

/-! The readers call each other with one unit of fuel less, so what they read back is shown by
induction on the fuel, which is at least the length of the text. -/

def ReadsValue (fuel : Nat) : Prop :=
  ∀ level d rest, Doc.finite d = true → Stops rest → (text level d).length ≤ fuel →
    readValue fuel (text level d ++ rest) = some (d, rest)

def ReadsItems (fuel : Nat) : Prop :=
  ∀ level close d ds rest, itemsFinite (d :: ds) = true →
    (text level d ++ itemsText level ds).length < fuel →
    readItems fuel (text level d ++ (itemsText level ds ++ (newline close ++ ']' :: rest))) =
      some (d :: ds, rest)

def ReadsMembers (fuel : Nat) : Prop :=
  ∀ level close k d ms rest, membersFinite ((k, d) :: ms) = true →
    (text level d ++ membersText level ms).length < fuel →
    readMembers fuel ('"' :: (k.flatMap escape ++ '"' :: ':' :: ' ' :: (text level d ++
      (membersText level ms ++ (newline close ++ '\x7d' :: rest))))) = some ((k, d) :: ms, rest)

theorem readsValue_step (hitems : ReadsItems fuel) (hmembers : ReadsMembers fuel) :
    ReadsValue (fuel + 1) := by
  intro level d rest hfin hstop hfuel
  cases d with
  | null =>
    rw [text_null]
    exact readValue_word (by decide) (by decide) rfl hstop
  | bool b =>
    cases b with
    | true =>
      rw [text_true]
      exact readValue_word (by decide) (by decide) rfl hstop
    | false =>
      rw [text_false]
      exact readValue_word (by decide) (by decide) rfl hstop
  | num n =>
    cases n with
    | finite digits h =>
      rw [text_num]
      exact readValue_word (all_of_isNumber h) (ne_nil_of_isNumber h) (readLiteral_number h) hstop
    | _ => cases hfin
  | str s =>
    rw [text_str, List.cons_append, readValue_succ, skipWs_of_not (by decide)]
    simp only [List.append_assoc, List.singleton_append, readString_text, Option.map_some]
  | arr items =>
    cases items with
    | nil =>
      rw [text_arr_nil]
      rfl
    | cons d ds =>
      rw [text_arr_cons] at hfuel ⊢
      simp only [List.length_cons, List.length_append] at hfuel
      have hread := hitems (level + 1) level d ds rest hfin (by rw [List.length_append]; omega)
      simp only [Doc.finite, itemsFinite, Bool.and_eq_true] at hfin
      obtain ⟨c, t, ht, hopen⟩ := text_opens (level + 1) hfin.1
      rw [ht, List.cons_append] at hread
      simp only [List.cons_append, List.append_assoc, List.nil_append, ht]
      refine readValue_arr (skipWs_of_not (by decide) _) ?_ ?_ hread
      · rw [skipWs_newline, skipWs_of_not (isWs_of_opens hopen)]
      · rintro rfl
        revert hopen
        decide
  | obj members =>
    cases members with
    | nil =>
      rw [text_obj_nil]
      rfl
    | cons m ms =>
      obtain ⟨k, d⟩ := m
      rw [text_obj_cons] at hfuel ⊢
      simp only [List.length_cons, List.length_append] at hfuel
      have hread := hmembers (level + 1) level k d ms rest hfin (by rw [List.length_append]; omega)
      simp only [List.cons_append, List.append_assoc, List.nil_append]
      refine readValue_obj (skipWs_of_not (by decide) _) ?_ (by decide) hread
      rw [skipWs_newline, skipWs_of_not (by decide)]

theorem readsItems_step (hvalue : ReadsValue fuel) (hitems : ReadsItems fuel) :
    ReadsItems (fuel + 1) := by
  intro level close d ds rest hfin hfuel
  rw [itemsFinite, Bool.and_eq_true] at hfin
  rw [List.length_append] at hfuel
  cases ds with
  | nil =>
    have hd := hvalue level d (newline close ++ ']' :: rest) hfin.1 (stops_cons (by decide) _)
      (by omega)
    rw [itemsText_nil, List.nil_append]
    refine readItems_last hd ?_
    rw [skipWs_newline, skipWs_of_not (by decide)]
  | cons d' ds =>
    rw [itemsText_cons] at hfuel ⊢
    simp only [List.length_append, List.length_cons] at hfuel
    simp only [List.cons_append, List.append_assoc]
    have hd := hvalue level d (',' :: (newline level ++ (text level d' ++
      (itemsText level ds ++ (newline close ++ ']' :: rest))))) hfin.1
      (stops_cons (by decide) _) (by omega)
    have hds := hitems level close d' ds rest hfin.2 (by rw [List.length_append]; omega)
    refine readItems_more hd (skipWs_of_not (by decide) _) ?_
    rw [readItems_newline, hds]

theorem readsMembers_step (hvalue : ReadsValue fuel) (hmembers : ReadsMembers fuel) :
    ReadsMembers (fuel + 1) := by
  intro level close k d ms rest hfin hfuel
  rw [membersFinite, Bool.and_eq_true] at hfin
  rw [List.length_append] at hfuel
  cases ms with
  | nil =>
    have hd := hvalue level d (newline close ++ '\x7d' :: rest) hfin.1 (stops_cons (by decide) _)
      (by omega)
    rw [← readValue_space] at hd
    rw [membersText_nil, List.nil_append]
    refine readMembers_last (skipWs_of_not (by decide) _) hd ?_
    rw [skipWs_newline, skipWs_of_not (by decide)]
  | cons m ms =>
    obtain ⟨k', d'⟩ := m
    rw [membersText_cons] at hfuel ⊢
    simp only [List.length_append, List.length_cons] at hfuel
    simp only [List.cons_append, List.append_assoc]
    have hd := hvalue level d (',' :: (newline level ++ '"' :: (k'.flatMap escape ++
      '"' :: ':' :: ' ' :: (text level d' ++ (membersText level ms ++
        (newline close ++ '\x7d' :: rest)))))) hfin.1 (stops_cons (by decide) _) (by omega)
    have hms := hmembers level close k' d' ms rest hfin.2 (by rw [List.length_append]; omega)
    rw [← readValue_space] at hd
    refine readMembers_more (skipWs_of_not (by decide) _) hd (skipWs_of_not (by decide) _) ?_
    rw [readMembers_newline, hms]

theorem reads (fuel : Nat) : ReadsValue fuel ∧ ReadsItems fuel ∧ ReadsMembers fuel := by
  induction fuel with
  | zero =>
    refine ⟨?_, ?_, ?_⟩
    · intro level d rest hfin _ hfuel
      obtain ⟨c, t, ht, -⟩ := text_opens level hfin
      simp [ht] at hfuel
    · intro level close d ds rest _ hfuel
      exact absurd hfuel (Nat.not_lt_zero _)
    · intro level close k d ms rest _ hfuel
      exact absurd hfuel (Nat.not_lt_zero _)
  | succ fuel ih =>
    obtain ⟨hvalue, hitems, hmembers⟩ := ih
    exact ⟨readsValue_step hitems hmembers, readsItems_step hvalue hitems,
      readsMembers_step hvalue hmembers⟩

theorem loads_dumps (hfin : d.finite = true) : loads (dumps d) = some d := by
  have hread := (reads ((dumps d).length + 1)).1 0 d [] hfin stops_nil (Nat.le_succ _)
  rw [List.append_nil] at hread
  rw [loads, show readValue ((dumps d).length + 1) (dumps d) = some (d, []) from hread]
  rfl

theorem loads_dumps_newline (hfin : d.finite = true) : loads (dumps d ++ ['\n']) = some d := by
  have hread := (reads ((dumps d ++ ['\n']).length + 1)).1 0 d ['\n'] hfin (stops_cons (by decide) _)
    (by rw [List.length_append, dumps]; omega)
  rw [loads, show readValue _ (dumps d ++ ['\n']) = some (d, ['\n']) from hread]
  rfl

/-! A carriage return is always escaped. -/

theorem return_ne_hexDigit : ∀ n < 16, '\r' ≠ hexDigit n := by decide

theorem return_not_mem_escape (c : Char) : '\r' ∉ escape c := by
  by_cases hcontrol : c.toNat < 32
  · have hhigh := return_ne_hexDigit (c.toNat / 16) (by omega)
    have hlow := return_ne_hexDigit (c.toNat % 16) (by omega)
    have hdigits : '\r' ∉ ['\\', 'u', '0', '0', hexDigit (c.toNat / 16), hexDigit (c.toNat % 16)] := by
      simp [hhigh, hlow]
    unfold escape
    rw [if_pos hcontrol]
    repeat' split
    all_goals first | decide | exact hdigits
  · have hreturn : '\r' ≠ c := by
      rintro rfl
      exact hcontrol (by decide)
    unfold escape
    rw [if_neg hcontrol]
    repeat' split
    all_goals first | decide | exact fun h => hreturn (List.mem_singleton.1 h)

theorem return_not_mem_string (s : Text) : '\r' ∉ s.flatMap escape := by
  intro h
  obtain ⟨c, -, hc⟩ := List.mem_flatMap.1 h
  exact return_not_mem_escape c hc

theorem return_not_mem_newline (level : Nat) : '\r' ∉ newline level := by
  simp [newline, List.mem_replicate]

theorem return_not_mem_number (n : Number) : '\r' ∉ n.text := by
  cases n with
  | finite digits h =>
    intro hmem
    have := List.all_eq_true.1 (all_of_isNumber h) _ hmem
    revert this
    decide
  | nan => decide
  | infinity => decide
  | negInfinity => decide

mutual

theorem return_not_mem_text (level : Nat) : ∀ d : Doc, '\r' ∉ text level d
  | .null => by rw [text_null]; decide
  | .bool true => by rw [text_true]; decide
  | .bool false => by rw [text_false]; decide
  | .num n => by rw [text_num]; exact return_not_mem_number n
  | .str s => by
    rw [text_str]
    simp [return_not_mem_string s]
  | .arr [] => by rw [text_arr_nil]; decide
  | .arr (d :: ds) => by
    rw [text_arr_cons]
    simp [return_not_mem_newline, return_not_mem_text (level + 1) d,
      return_not_mem_items (level + 1) ds]
  | .obj [] => by rw [text_obj_nil]; decide
  | .obj ((k, d) :: ms) => by
    rw [text_obj_cons]
    simp [return_not_mem_newline, return_not_mem_string k, return_not_mem_text (level + 1) d,
      return_not_mem_members (level + 1) ms]

theorem return_not_mem_items (level : Nat) : ∀ ds : List Doc, '\r' ∉ itemsText level ds
  | [] => by rw [itemsText_nil]; exact List.not_mem_nil
  | d :: ds => by
    rw [itemsText_cons]
    simp [return_not_mem_newline, return_not_mem_text level d, return_not_mem_items level ds]

theorem return_not_mem_members (level : Nat) : ∀ ms : List (Text × Doc), '\r' ∉ membersText level ms
  | [] => by rw [membersText_nil]; exact List.not_mem_nil
  | (k, d) :: ms => by
    rw [membersText_cons]
    simp [return_not_mem_newline, return_not_mem_string k, return_not_mem_text level d,
      return_not_mem_members level ms]

end

end Archiviste.JsonText
