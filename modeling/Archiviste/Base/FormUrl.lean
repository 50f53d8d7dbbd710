import Archiviste.Base.Text
import Mathlib.Data.List.Basic

/-!
# Archiviste.Base.FormUrl

`application/x-www-form-urlencoded`: what `URLSearchParams.toString` writes and what a form parser
reads, over the UTF-8 bytes of the texts.

* `parse`            — the pairs of a query; bytes that are no UTF-8 are read by the parameter `lossy`.
* `parse_serialize`  — what is written is read back.
-/

namespace Archiviste.FormUrl

/-! ## Bytes -/

def encodeUtf8 (t : Text) : List UInt8 := t.flatMap String.utf8EncodeChar

def decodeUtf8 (bytes : List UInt8) : Option Text :=
  bytes.toByteArray.utf8Decode?.map Array.toList

theorem decodeUtf8_encodeUtf8 (t : Text) : decodeUtf8 (encodeUtf8 t) = some t := by
  have hdecode : (encodeUtf8 t).toByteArray.utf8Decode? = some t.toArray :=
    List.utf8Decode?_utf8Encode
  rw [decodeUtf8, hdecode]
  rfl

/-! ## Writing -/

/-- The bytes that are written as they are: letters, digits and `*-._`. -/
def isPlain (b : UInt8) : Bool :=
  (48 ≤ b && b ≤ 57) || (65 ≤ b && b ≤ 90) || (97 ≤ b && b ≤ 122) ||
    b == 42 || b == 45 || b == 46 || b == 95

def hexDigit (n : Nat) : Char := if n < 10 then Char.ofNat (48 + n) else Char.ofNat (55 + n)

def encodeByte (b : UInt8) : Text :=
  if isPlain b then [Char.ofNat b.toNat]
  else if b = 32 then ['+']
  else ['%', hexDigit (b.toNat / 16), hexDigit (b.toNat % 16)]

def encode (t : Text) : Text := (encodeUtf8 t).flatMap encodeByte

def serializePair (p : Text × Text) : Text := encode p.1 ++ '=' :: encode p.2

def serialize (pairs : List (Text × Text)) : Text := Text.join ['&'] (pairs.map serializePair)

/-! ## Reading -/

def hexValue (c : Char) : Option Nat :=
  let n := c.toNat
  if 48 ≤ n ∧ n ≤ 57 then some (n - 48)
  else if 65 ≤ n ∧ n ≤ 70 then some (n - 55)
  else if 97 ≤ n ∧ n ≤ 102 then some (n - 87)
  else none

/-- `+` is a space, `%` with two digits a byte. -/
def decodeBytes : Text → List UInt8
  | [] => []
  | '%' :: h :: l :: t =>
    match hexValue h, hexValue l with
    | some a, some b => UInt8.ofNat (16 * a + b) :: decodeBytes t
    | _, _ => 37 :: decodeBytes (h :: l :: t)
  | '+' :: t => 32 :: decodeBytes t
  | c :: t => String.utf8EncodeChar c ++ decodeBytes t

section
variable (lossy : List UInt8 → Text)

def decode (t : Text) : Text := (decodeUtf8 (decodeBytes t)).getD (lossy (decodeBytes t))

def parsePair (piece : Text) : Text × Text :=
  (decode lossy (piece.takeWhile (· ≠ '=')), decode lossy ((piece.dropWhile (· ≠ '=')).tail))

def parse (query : Text) : List (Text × Text) :=
  ((Text.splitOn '&' query).filter (· ≠ [])).map (parsePair lossy)

end

example : serialize [("q".toList, "à & b=1".toList), ("p".toList, [])] =
    "q=%C3%A0+%26+b%3D1&p=".toList := by decide +kernel

/-! ## Round trip -/

theorem isPlain_char : ∀ n < 256, isPlain (UInt8.ofNat n) = true →
    String.utf8EncodeChar (Char.ofNat n) = [UInt8.ofNat n] ∧ Char.ofNat n ≠ '%' ∧
      Char.ofNat n ≠ '+' ∧ Char.ofNat n ≠ '&' ∧ Char.ofNat n ≠ '=' := by
  decide +kernel

theorem hexDigit_char : ∀ n < 16, hexValue (hexDigit n) = some n ∧ hexDigit n ≠ '&' ∧
    hexDigit n ≠ '=' := by
  decide

theorem plain_of {b : UInt8} (h : isPlain b = true) :
    String.utf8EncodeChar (Char.ofNat b.toNat) = [b] ∧ Char.ofNat b.toNat ≠ '%' ∧
      Char.ofNat b.toNat ≠ '+' ∧ Char.ofNat b.toNat ≠ '&' ∧ Char.ofNat b.toNat ≠ '=' := by
  have hplain := isPlain_char b.toNat b.toNat_lt
  rw [UInt8.ofNat_toNat] at hplain
  exact hplain h

theorem decodeBytes_plain {c : Char} (hpercent : c ≠ '%') (hplus : c ≠ '+') (t : Text) :
    decodeBytes (c :: t) = String.utf8EncodeChar c ++ decodeBytes t := by
  rw [decodeBytes.eq_def]
  split
  · contradiction
  · next heq => cases heq; exact absurd rfl hpercent
  · next heq => cases heq; exact absurd rfl hplus
  · next heq => cases heq; rfl

theorem decodeBytes_encodeByte (b : UInt8) (t : Text) :
    decodeBytes (encodeByte b ++ t) = b :: decodeBytes t := by
  unfold encodeByte
  split
  · next hplain =>
    obtain ⟨hutf8, hpercent, hplus, -⟩ := plain_of hplain
    rw [List.singleton_append, decodeBytes_plain hpercent hplus, hutf8, List.singleton_append]
  · split
    · next hspace =>
      rw [hspace]
      rfl
    · have hb := b.toNat_lt
      have hhigh := (hexDigit_char (b.toNat / 16) (by omega)).1
      have hlow := (hexDigit_char (b.toNat % 16) (by omega)).1
      have hbyte : 16 * (b.toNat / 16) + b.toNat % 16 = b.toNat := by omega
      show decodeBytes ('%' :: hexDigit (b.toNat / 16) :: hexDigit (b.toNat % 16) :: t) = _
      rw [decodeBytes, hhigh, hlow]
      dsimp only
      rw [hbyte, UInt8.ofNat_toNat]

theorem decodeBytes_encode (t : Text) : decodeBytes (encode t) = encodeUtf8 t := by
  have hbytes : ∀ bytes : List UInt8, decodeBytes (bytes.flatMap encodeByte) = bytes := by
    intro bytes
    induction bytes with
    | nil => rfl
    | cons b bytes ih => rw [List.flatMap_cons, decodeBytes_encodeByte, ih]
  exact hbytes _

theorem decode_encode (lossy : List UInt8 → Text) (t : Text) : decode lossy (encode t) = t := by
  rw [decode, decodeBytes_encode, decodeUtf8_encodeUtf8]
  rfl

theorem separators_not_mem_encodeByte (b : UInt8) : ∀ c ∈ encodeByte b, c ≠ '&' ∧ c ≠ '=' := by
  unfold encodeByte
  split
  · next hplain =>
    obtain ⟨-, -, -, hamp, heq⟩ := plain_of hplain
    intro c hc
    rw [List.mem_singleton.1 hc]
    exact ⟨hamp, heq⟩
  · split
    · exact fun c hc => List.mem_singleton.1 hc ▸ by decide
    · have hb := b.toNat_lt
      have hhigh := (hexDigit_char (b.toNat / 16) (by omega)).2
      have hlow := (hexDigit_char (b.toNat % 16) (by omega)).2
      intro c hc
      simp only [List.mem_cons, List.not_mem_nil, or_false] at hc
      rcases hc with rfl | rfl | rfl
      · decide
      · exact hhigh
      · exact hlow

theorem separators_not_mem_encode (t : Text) : '&' ∉ encode t ∧ '=' ∉ encode t := by
  have hmem : ∀ c ∈ encode t, c ≠ '&' ∧ c ≠ '=' := by
    intro c hc
    obtain ⟨b, -, hb⟩ := List.mem_flatMap.1 hc
    exact separators_not_mem_encodeByte b c hb
  exact ⟨fun h => (hmem _ h).1 rfl, fun h => (hmem _ h).2 rfl⟩

theorem parsePair_serializePair (lossy : List UInt8 → Text) (p : Text × Text) :
    parsePair lossy (serializePair p) = p := by
  have hname : ∀ c ∈ encode p.1, decide (c ≠ '=') = true := by
    intro c hc
    exact decide_eq_true fun heq => (separators_not_mem_encode p.1).2 (heq ▸ hc)
  have htake : (serializePair p).takeWhile (· ≠ '=') = encode p.1 := by
    rw [serializePair, List.takeWhile_append_of_pos hname, List.takeWhile_cons_of_neg (by decide),
      List.append_nil]
  have hdrop : (serializePair p).dropWhile (· ≠ '=') = '=' :: encode p.2 := by
    rw [serializePair, List.dropWhile_append_of_pos hname, List.dropWhile_cons_of_neg (by decide)]
  rw [parsePair, htake, hdrop, List.tail_cons, decode_encode, decode_encode]

theorem amp_not_mem_serializePair (p : Text × Text) : '&' ∉ serializePair p := by
  rw [serializePair, List.mem_append, List.mem_cons]
  rintro (h | h | h)
  · exact (separators_not_mem_encode p.1).1 h
  · cases h
  · exact (separators_not_mem_encode p.2).1 h

theorem splitOn_serialize {p : Text × Text} {pairs : List (Text × Text)} :
    Text.splitOn '&' (serialize (p :: pairs)) = (p :: pairs).map serializePair := by
  induction pairs generalizing p with
  | nil => exact Text.splitOn_of_not_mem (amp_not_mem_serializePair p)
  | cons q pairs ih =>
    have hjoin : serialize (p :: q :: pairs) = serializePair p ++ '&' :: serialize (q :: pairs) := by
      simp [serialize, Text.join]
    rw [hjoin, Text.splitOn_append (amp_not_mem_serializePair p), ih]
    rfl

theorem parse_serialize (lossy : List UInt8 → Text) (pairs : List (Text × Text)) :
    parse lossy (serialize pairs) = pairs := by
  cases pairs with
  | nil => rfl
  | cons p pairs =>
    have hpieces : ((p :: pairs).map serializePair).filter (· ≠ []) = (p :: pairs).map serializePair := by
      refine List.filter_eq_self.2 fun piece hpiece => ?_
      obtain ⟨q, -, rfl⟩ := List.mem_map.1 hpiece
      simp [serializePair]
    rw [parse, splitOn_serialize, hpieces, List.map_map]
    exact (List.map_congr_left fun q _ => parsePair_serializePair lossy q).trans (List.map_id _)

end Archiviste.FormUrl
