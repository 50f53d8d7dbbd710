import Mathlib.Algebra.Ring.Nat
import Mathlib.Data.List.DropRight

/-!
# Archiviste.Base.Text

Text as a list of characters, with the string methods of Python the modelled code calls:
`strip`, `rstrip`, `split`, `splitlines`, `startswith`, `index`, `join`.

`isSpace` is Python's `str.isspace` for one character, which is also the class `\s` of its
regular expressions; `isLineBreak` lists the boundaries `splitlines` cuts at.
-/

namespace Archiviste

abbrev Text := List Char

instance : LawfulBEq Text := inferInstance

/-- What holds of the characters of a text is decided along the text, not over all characters. -/
instance (priority := 2000) decidableForallMem {P : Char → Prop} [DecidablePred P] (s : Text) :
    Decidable (∀ c ∈ s, P c) := List.decidableBAll P s

namespace Text

def isSpace (c : Char) : Bool :=
  let n := c.toNat
  (9 ≤ n && n ≤ 13) || (28 ≤ n && n ≤ 32) || n == 0x85 || n == 0xa0 || n == 0x1680 ||
    (0x2000 ≤ n && n ≤ 0x200a) || n == 0x2028 || n == 0x2029 || n == 0x202f || n == 0x205f ||
    n == 0x3000

def isLineBreak (c : Char) : Bool :=
  let n := c.toNat
  (10 ≤ n && n ≤ 13) || (28 ≤ n && n ≤ 30) || n == 0x85 || n == 0x2028 || n == 0x2029

/-- `s.lstrip()`. -/
def lstrip (s : Text) : Text := s.dropWhile isSpace

/-- `s.rstrip()`. -/
def rstrip (s : Text) : Text := (s.reverse.dropWhile isSpace).reverse

/-- `s.strip()`. -/
def strip (s : Text) : Text := rstrip (lstrip s)

/-- `s.split(sep)` for a one-character separator: always at least one piece. -/
def splitOn (sep : Char) : Text → List Text
  | [] => [[]]
  | c :: cs =>
    if c = sep then [] :: splitOn sep cs
    else
      match splitOn sep cs with
      | [] => [[c]]
      | p :: ps => (c :: p) :: ps

/-- `s.splitlines()`. `\r\n` is one boundary, and a final boundary opens no last line. -/
def splitlines : Text → List Text
  | [] => []
  | '\r' :: '\n' :: cs => [] :: splitlines cs
  | c :: cs =>
    if isLineBreak c then [] :: splitlines cs
    else
      match splitlines cs with
      | [] => [[c]]
      | p :: ps => (c :: p) :: ps

example : splitlines "a\n\nb\r\nc\n".toList = ["a".toList, [], "b".toList, "c".toList] := by decide

/-- `sep.join(parts)`. -/
def join (sep : Text) : List Text → Text
  | [] => []
  | [p] => p
  | p :: q :: ps => p ++ sep ++ join sep (q :: ps)

/-- `s.startswith(p)`, returning what follows the prefix. -/
def dropPrefix? : Text → Text → Option Text
  | [], s => some s
  | _ :: _, [] => none
  | p :: ps, c :: cs => if p = c then dropPrefix? ps cs else none

/-- Cut `s` at the first occurrence of `p`: what stands before it and what follows it.
`none` where Python's `s.index(p)` raises. -/
def cutAt (p : Text) : Text → Option (Text × Text)
  | [] => if p = [] then some ([], []) else none
  | c :: cs =>
    match dropPrefix? p (c :: cs) with
    | some rest => some ([], rest)
    | none => (cutAt p cs).map fun r => (c :: r.1, r.2)

variable {sep c : Char} {t s : Text}

theorem splitOn_of_not_mem (h : sep ∉ t) : splitOn sep t = [t] := by
  induction t with
  | nil => rfl
  | cons c t ih =>
    have hc : c ≠ sep := fun he => h (by simp [he])
    simp [splitOn, hc, ih fun ht => h (List.mem_cons_of_mem c ht)]

theorem splitOn_append (h : sep ∉ t) (s : Text) :
    splitOn sep (t ++ sep :: s) = t :: splitOn sep s := by
  induction t with
  | nil => simp [splitOn]
  | cons c t ih =>
    have hc : c ≠ sep := fun he => h (by simp [he])
    simp [splitOn, hc, ih fun ht => h (List.mem_cons_of_mem c ht)]

theorem rstrip_eq_nil : rstrip s = [] ↔ ∀ c ∈ s, isSpace c = true :=
  List.rdropWhile_eq_nil_iff

theorem strip_eq_nil : strip s = [] ↔ ∀ c ∈ s, isSpace c = true := by
  rw [strip, rstrip_eq_nil, lstrip]
  induction s with
  | nil => simp
  | cons c s ih =>
    by_cases hc : isSpace c = true
    · simpa [List.dropWhile_cons, hc] using ih
    · simp [hc]

theorem rstrip_rstrip (s : Text) : rstrip (rstrip s) = rstrip s := List.rdropWhile_idempotent ..

theorem rstrip_ne_append_space (hc : isSpace c = true) : rstrip s ≠ t ++ [c] := by
  intro h
  have hshort : rstrip (t ++ [c]) = rstrip t := List.rdropWhile_concat_pos _ _ _ hc
  rw [← h, rstrip_rstrip] at hshort
  have hle : (rstrip t).length ≤ t.length := (List.rdropWhile_prefix _ _).length_le
  rw [← hshort, h, List.length_append, List.length_singleton] at hle
  omega

section
variable {p : Char → Bool} {s t : Text}

theorem rdropWhile_append_of_all (h : ∀ c ∈ t, p c = true) :
    (s ++ t).rdropWhile p = s.rdropWhile p := by
  have hnil : t.reverse.dropWhile p = [] :=
    List.dropWhile_eq_nil_iff.2 fun c hc => h c (List.mem_reverse.1 hc)
  simp [List.rdropWhile, List.dropWhile_append, hnil]

theorem rdropWhile_append_of_not_all (h : ¬ ∀ c ∈ t, p c = true) :
    (s ++ t).rdropWhile p = s ++ t.rdropWhile p := by
  have hne : t.reverse.dropWhile p ≠ [] := fun hnil =>
    h fun c hc => List.dropWhile_eq_nil_iff.1 hnil c (List.mem_reverse.2 hc)
  simp [List.rdropWhile, List.dropWhile_append, hne]

end

def trimBy (space : Char → Bool) (s : Text) : Text := (s.dropWhile space).rdropWhile space

section
variable {space : Char → Bool}

theorem trimBy_split (space : Char → Bool) (s : Text) :
    ∃ a b, s = a ++ trimBy space s ++ b ∧ ∀ c ∈ a ++ b, space c = true := by
  refine ⟨s.takeWhile space, (s.dropWhile space).rtakeWhile space, ?_, fun c hc => ?_⟩
  · rw [List.append_assoc, trimBy, List.rdropWhile_append_rtakeWhile, List.takeWhile_append_dropWhile]
  · rcases List.mem_append.1 hc with hc | hc
    · exact List.all_eq_true.1 List.all_takeWhile c hc
    · exact List.mem_rtakeWhile_imp hc

variable {s p : Text} {c : Char}

theorem trimBy_concat (hc : space c = true) : trimBy space (s ++ [c]) = trimBy space s := by
  rw [trimBy, trimBy, List.dropWhile_append]
  split
  · next hnil => simp [List.isEmpty_iff.1 hnil, hc]
  · exact List.rdropWhile_concat_pos _ _ _ hc

theorem trimBy_of_none (h : ∀ c ∈ s, space c = false) : trimBy space s = s := by
  have hfront : s.dropWhile space = s := by
    cases s with
    | nil => rfl
    | cons c s => rw [List.dropWhile_cons_of_neg (by simp [h c List.mem_cons_self])]
  rw [trimBy, hfront, List.rdropWhile_eq_self_iff]
  exact fun hne => by simp [h _ (List.getLast_mem hne)]

theorem trimBy_sublist (s : Text) : (trimBy space s).Sublist s :=
  (List.rdropWhile_prefix _ _).sublist.trans (List.dropWhile_sublist _)

theorem count_trimBy (hc : space c = false) (s : Text) : (trimBy space s).count c = s.count c := by
  obtain ⟨a, b, hs, hall⟩ := trimBy_split space s
  have hzero : (a ++ b).count c = 0 :=
    List.count_eq_zero.2 fun hmem => by simp [hall c hmem] at hc
  rw [List.count_append] at hzero
  conv_rhs => rw [hs]
  rw [List.count_append, List.count_append]
  omega

theorem dropWhile_append_stop {q : Text} (hq : q ≠ []) (hstop : q.dropWhile space = q) (a r : Text) :
    (a ++ (q ++ r)).dropWhile space = a.dropWhile space ++ (q ++ r) := by
  have hrest : (q ++ r).dropWhile space = q ++ r := by
    rw [List.dropWhile_append, hstop, if_neg (by simpa using hq)]
  rw [List.dropWhile_append, hrest]
  split
  · next hnil => rw [List.isEmpty_iff.1 hnil, List.nil_append]
  · rfl

theorem dropWhile_of_trimBy (h : trimBy space p = p) : p.dropWhile space = p := by
  refine (List.dropWhile_suffix _).eq_of_length_le ?_
  have hle := (List.rdropWhile_prefix space (p.dropWhile space)).length_le
  rwa [← trimBy, h] at hle

theorem trimBy_append (hp : p ≠ []) (htrim : trimBy space p = p) (a b : Text) :
    trimBy space (a ++ p ++ b) = a.dropWhile space ++ p ++ b.rdropWhile space := by
  have hfront := dropWhile_of_trimBy htrim
  have hback : p.reverse.dropWhile space = p.reverse := by
    rw [trimBy, hfront] at htrim
    exact List.reverse_eq_iff.1 htrim
  rw [trimBy, List.append_assoc, dropWhile_append_stop hp hfront, List.rdropWhile,
    ← List.append_assoc, List.reverse_append, List.reverse_append,
    dropWhile_append_stop (by simpa using hp) hback]
  simp [List.rdropWhile]

theorem trimBy_trimBy (s : Text) : trimBy space (trimBy space s) = trimBy space s := by
  have hfront : (trimBy space s).dropWhile space = trimBy space s := by
    obtain ⟨r, hr⟩ : trimBy space s <+: s.dropWhile space := List.rdropWhile_prefix _ _
    have hstop := List.dropWhile_idempotent space s
    cases ht : trimBy space s with
    | nil => rfl
    | cons d t =>
      rw [ht] at hr
      by_cases hd : space d = true
      · rw [← hr, List.cons_append, List.dropWhile_cons_of_pos hd] at hstop
        have hle := (List.dropWhile_suffix (l := t ++ r) space).length_le
        rw [hstop, List.length_cons] at hle
        omega
      · rw [List.dropWhile_cons_of_neg hd]
  rw [trimBy, hfront]
  exact List.rdropWhile_idempotent ..

theorem trimBy_append_eq (hp : p ≠ []) (htrim : trimBy space p = p) {a b : Text} :
    trimBy space (a ++ p ++ b) = p ↔ ∀ c ∈ a ++ b, space c = true := by
  rw [trimBy_append hp htrim]
  constructor
  · intro h
    have hlength := congrArg List.length h
    simp only [List.length_append] at hlength
    have ha : a.dropWhile space = [] := List.length_eq_zero_iff.1 (by omega)
    have hb : b.rdropWhile space = [] := List.length_eq_zero_iff.1 (by omega)
    intro c hc
    rcases List.mem_append.1 hc with hc | hc
    · exact List.dropWhile_eq_nil_iff.1 ha c hc
    · exact List.rdropWhile_eq_nil_iff.1 hb c hc
  · intro h
    rw [List.dropWhile_eq_nil_iff.2 fun c hc => h c (List.mem_append_left _ hc),
      List.rdropWhile_eq_nil_iff.2 fun c hc => h c (List.mem_append_right _ hc)]
    simp

end

theorem dropPrefix?_eq_some {p r : Text} : dropPrefix? p s = some r ↔ s = p ++ r := by
  induction p generalizing s with
  | nil => simp [dropPrefix?]
  | cons c p ih =>
    cases s with
    | nil => simp [dropPrefix?]
    | cons d s =>
      by_cases h : c = d
      · simp [dropPrefix?, h, ih]
      · simp [dropPrefix?, h, Ne.symm h]

theorem cutAt_eq_append {p a b : Text} (h : cutAt p s = some (a, b)) : s = a ++ p ++ b := by
  induction s generalizing a with
  | nil =>
    unfold cutAt at h
    split at h <;> simp_all
  | cons c s ih =>
    unfold cutAt at h
    split at h
    · rename_i rest hrest
      cases h
      simpa using dropPrefix?_eq_some.1 hrest
    · simp only [Option.map_eq_some_iff, Prod.mk.injEq] at h
      obtain ⟨⟨a', b'⟩, hcut, rfl, rfl⟩ := h
      simp [ih hcut]

/-- The characters an ASCII letter of a pattern matches under `re.IGNORECASE`: both cases, the
dotless and dotted Turkish letters for `i`, the long s for `s` and the Kelvin sign for `k`. -/
def ciEq (pat c : Char) : Bool :=
  c.toLower == pat.toLower || (pat.toLower == 'i' && (c == 'ı' || c == 'İ')) ||
    (pat.toLower == 's' && c == 'ſ') || (pat.toLower == 'k' && c.toNat == 0x212a)

/-- `str.upper` of these characters: the dotless `ı` and the long s become ASCII letters, the dotted
`İ` and the Kelvin sign are upper case already. -/
def upperChar (c : Char) : Char := if c = 'ı' then 'I' else if c = 'ſ' then 'S' else c.toUpper

theorem toNat_toLower (c : Char) :
    c.toLower.toNat = if 65 ≤ c.toNat ∧ c.toNat ≤ 90 then c.toNat + 32 else c.toNat := by
  unfold Char.toLower
  by_cases h : c.val ≥ 'A'.val ∧ c.val ≤ 'Z'.val
  · have hletter : 65 ≤ c.toNat ∧ c.toNat ≤ 90 := h
    have hle : c.val.toNat ≤ 90 := hletter.2
    rw [dif_pos h, if_pos hletter]
    change (c.val + 32).toNat = c.val.toNat + 32
    rw [UInt32.toNat_add]
    simp only [UInt32.reduceToNat]
    omega
  · have hletter : ¬ (65 ≤ c.toNat ∧ c.toNat ≤ 90) := h
    rw [dif_neg h, if_neg hletter]

theorem toNat_toUpper (c : Char) :
    c.toUpper.toNat = if 97 ≤ c.toNat ∧ c.toNat ≤ 122 then c.toNat - 32 else c.toNat := by
  unfold Char.toUpper
  by_cases h : 'a'.val ≤ c.val ∧ c.val ≤ 'z'.val
  · have hletter : 97 ≤ c.toNat ∧ c.toNat ≤ 122 := h
    have hle : 97 ≤ c.val.toNat ∧ c.val.toNat ≤ 122 := hletter
    rw [dif_pos h, if_pos hletter]
    change (c.val + ('A'.val - 'a'.val)).toNat = c.val.toNat - 32
    rw [UInt32.toNat_add]
    simp only [Char.reduceVal, UInt32.reduceSub, UInt32.reduceToNat]
    omega
  · have hletter : ¬ (97 ≤ c.toNat ∧ c.toNat ≤ 122) := h
    rw [dif_neg h, if_neg hletter]

theorem toUpper_of_toLower_eq {p : Char} (hp : 65 ≤ p.toNat ∧ p.toNat ≤ 90)
    (h : c.toLower = p.toLower) : c.toUpper = p := by
  have hlower := congrArg Char.toNat h
  rw [toNat_toLower, toNat_toLower, if_pos hp] at hlower
  apply Char.ext
  apply UInt32.toNat_inj.1
  change c.toUpper.toNat = p.toNat
  rw [toNat_toUpper]
  split at hlower <;> split <;> omega

/-- What an upper-case letter of a pattern matches is that letter again in upper case, the dotted `İ`
and the Kelvin sign apart. -/
theorem upperChar_of_ciEq {p : Char} (hp : 65 ≤ p.toNat ∧ p.toNat ≤ 90) (hk : p.toLower ≠ 'k')
    (h : ciEq p c = true) (hdot : c ≠ 'İ') : upperChar c = p := by
  simp only [ciEq, Bool.or_eq_true, Bool.and_eq_true, beq_iff_eq, hdot, hk, false_and, or_false] at h
  rcases h with (h | ⟨hi, rfl⟩) | ⟨hs, rfl⟩
  · have hascii : ∀ d : Char, 122 < d.toNat → c ≠ d := by
      rintro d hd rfl
      have hlower := congrArg Char.toNat h
      rw [toNat_toLower, toNat_toLower, if_pos hp] at hlower
      split at hlower <;> omega
    rw [upperChar, if_neg (hascii _ (by decide)), if_neg (hascii _ (by decide))]
    exact toUpper_of_toLower_eq hp h
  · exact toUpper_of_toLower_eq (c := 'I') hp hi.symm
  · exact toUpper_of_toLower_eq (c := 'S') hp hs.symm

end Text
end Archiviste
