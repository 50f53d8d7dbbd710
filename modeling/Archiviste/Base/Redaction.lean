import Archiviste.Base.JsonText
import Archiviste.Base.Replace

/-!
# Archiviste.Base.Redaction

Words replaced in the text of a JSON document after it was written. The document is a list of
symbols: characters outside the strings, which are written as they are, and characters of strings,
some of which are escaped. As long as each word, when its turn comes, stands in the text only as
string characters written as they are, the text after the replacements is that of the document with
the words replaced in its strings. A word with an escaped character is never found then.

* `Symbol`, `symbols`      — the symbols of a document; `dumps_eq` writes them.
* `InStrings`, `Contained` — where one word stands in the text, and each word in its turn.
* `redact_dumps`           — replacing in the text is replacing in the strings.
-/

namespace Archiviste.JsonText

open Replace

/-! ## Symbols -/

inductive Symbol where
  | punct (c : Char)
  | chr (c : Char)
  deriving DecidableEq

def Symbol.text : Symbol → Text
  | .punct c => [c]
  | .chr c => escape c

def Chunk.symbols : Chunk → List Symbol
  | .punct t => t.map .punct
  | .str s => .punct '"' :: (s.map .chr ++ [.punct '"'])

def symbols (d : Doc) : List Symbol := (iterencode 0 d).flatMap Chunk.symbols

theorem escape_ne_nil (c : Char) : escape c ≠ [] := by
  unfold escape
  split_ifs <;> simp

theorem escape_plain {c : Char} (h : isEscaped c = false) : escape c = [c] := by
  simp only [isEscaped, Bool.or_eq_false_iff, beq_eq_false_iff_ne, decide_eq_false_iff_not,
    not_lt] at h
  obtain ⟨⟨hquote, hslash⟩, hprintable⟩ := h
  have hne : ∀ d : Char, d.toNat < 32 → c ≠ d := by
    rintro d hd rfl
    omega
  rw [escape, if_neg hquote, if_neg hslash, if_neg (hne '\n' (by decide)),
    if_neg (hne '\r' (by decide)), if_neg (hne '\t' (by decide)), if_neg (by omega),
    if_neg (by omega), if_neg (by omega)]

theorem Symbol.text_ne_nil (a : Symbol) : a.text ≠ [] := by
  cases a with
  | punct c => simp [Symbol.text]
  | chr c => exact escape_ne_nil c

theorem chr_injective : Function.Injective Symbol.chr := fun _ _ h => Symbol.chr.inj h

theorem flatMap_map_punct (t : Text) : (t.map Symbol.punct).flatMap Symbol.text = t := by
  simp [List.flatMap_map, Symbol.text]

theorem flatMap_map_chr (s : Text) : (s.map Symbol.chr).flatMap Symbol.text = s.flatMap escape := by
  simp [List.flatMap_map, Symbol.text]

theorem Chunk.text_eq (c : Chunk) : c.symbols.flatMap Symbol.text = c.text := by
  cases c with
  | punct t => exact flatMap_map_punct t
  | str s => simp [Chunk.symbols, Chunk.text, flatMap_map_chr, Symbol.text]

theorem dumps_eq (d : Doc) : dumps d = (symbols d).flatMap Symbol.text := by
  simp only [dumps, text, symbols, List.flatMap_assoc, Chunk.text_eq]

/-! ## Strings in their place -/

def Chunk.mapString (f : Text → Text) : Chunk → Chunk
  | .punct t => .punct t
  | .str s => .str (f s)

section MapStrings

variable (f : Text → Text)

mutual

theorem iterencode_mapStrings : ∀ (d : Doc) (level : Nat),
    iterencode level (d.mapStrings f) = (iterencode level d).map (Chunk.mapString f)
  | .null, _ => rfl
  | .bool true, _ => rfl
  | .bool false, _ => rfl
  | .num _, _ => rfl
  | .str _, _ => rfl
  | .arr [], _ => rfl
  | .arr (d :: ds), level => by
    have hitems := iterencodeList_mapItems (d :: ds) (level + 1) '['
    simpa [Doc.mapStrings, mapItems, iterencode, Chunk.mapString] using hitems
  | .obj [], _ => rfl
  | .obj ((k, d) :: ms), level => by
    have hmembers := iterencodeDict_mapMembers ((k, d) :: ms) (level + 1) '\x7b'
    simpa [Doc.mapStrings, mapMembers, iterencode, Chunk.mapString] using hmembers

theorem iterencodeList_mapItems : ∀ (ds : List Doc) (level : Nat) (lead : Char),
    iterencodeList level lead (mapItems f ds) =
      (iterencodeList level lead ds).map (Chunk.mapString f)
  | [], _, _ => rfl
  | d :: ds, level, lead => by
    simp [mapItems, iterencodeList, Chunk.mapString, iterencode_mapStrings d level,
      iterencodeList_mapItems ds level ',']

theorem iterencodeDict_mapMembers : ∀ (ms : List (Text × Doc)) (level : Nat) (lead : Char),
    iterencodeDict level lead (mapMembers f ms) =
      (iterencodeDict level lead ms).map (Chunk.mapString f)
  | [], _, _ => rfl
  | (k, d) :: ms, level, lead => by
    simp [mapMembers, iterencodeDict, Chunk.mapString, iterencode_mapStrings d level,
      iterencodeDict_mapMembers ms level ',']

end

mutual

theorem strings_mapStrings : ∀ d : Doc, (d.mapStrings f).strings = d.strings.map f
  | .null => rfl
  | .bool _ => rfl
  | .num _ => rfl
  | .str _ => rfl
  | .arr items => itemStrings_mapItems items
  | .obj members => memberStrings_mapMembers members

theorem itemStrings_mapItems : ∀ ds : List Doc,
    itemStrings (mapItems f ds) = (itemStrings ds).map f
  | [] => rfl
  | d :: ds => by
    simp [mapItems, itemStrings, strings_mapStrings d, itemStrings_mapItems ds]

theorem memberStrings_mapMembers : ∀ ms : List (Text × Doc),
    memberStrings (mapMembers f ms) = (memberStrings ms).map f
  | [] => rfl
  | (k, d) :: ms => by
    simp [mapMembers, memberStrings, strings_mapStrings d, memberStrings_mapMembers ms]

end

mutual

theorem finite_mapStrings : ∀ d : Doc, (d.mapStrings f).finite = d.finite
  | .null => rfl
  | .bool _ => rfl
  | .num _ => rfl
  | .str _ => rfl
  | .arr items => itemsFinite_mapItems items
  | .obj members => membersFinite_mapMembers members

theorem itemsFinite_mapItems : ∀ ds : List Doc, itemsFinite (mapItems f ds) = itemsFinite ds
  | [] => rfl
  | d :: ds => by
    simp [mapItems, itemsFinite, finite_mapStrings d, itemsFinite_mapItems ds]

theorem membersFinite_mapMembers : ∀ ms : List (Text × Doc),
    membersFinite (mapMembers f ms) = membersFinite ms
  | [] => rfl
  | (k, d) :: ms => by
    simp [mapMembers, membersFinite, finite_mapStrings d, membersFinite_mapMembers ms]

end

end MapStrings

/-! ## Replacing one word -/

section Word

variable {old new : Text}

theorem go_punct (hne : old ≠ []) (t : Text) (l : List Symbol) :
    go (old.map .chr) (new.map .chr) 0 (t.map .punct ++ l) =
      t.map .punct ++ go (old.map .chr) (new.map .chr) 0 l := by
  induction t with
  | nil => rfl
  | cons c t ih =>
    rw [List.map_cons, List.cons_append, List.cons_append, ← ih]
    refine go_copy ?_
    intro hpre
    rcases List.prefix_cons_iff.mp hpre with hnil | ⟨u, hu, -⟩
    · exact hne (by simpa using hnil)
    · have hmem : Symbol.punct c ∈ old.map Symbol.chr := by simp [hu]
      simp at hmem

theorem replace_symbols (hne : old ≠ []) (d : Doc) :
    replace (old.map .chr) (new.map .chr) (symbols d) =
      symbols (d.mapStrings (replace old new)) := by
  rw [symbols, symbols, iterencode_mapStrings]
  generalize iterencode 0 d = chunks
  induction chunks with
  | nil => rfl
  | cons chunk chunks ih =>
    rw [List.flatMap_cons, List.map_cons, List.flatMap_cons, ← ih]
    cases chunk with
    | punct t => exact go_punct hne t _
    | str s =>
      have hquote : Symbol.punct '"' ∉ old.map Symbol.chr := by simp
      have hne' : old.map Symbol.chr ≠ [] := by simpa using hne
      have hopen : go (old.map .chr) (new.map .chr) 0
          ([.punct '"'] ++ (s.map .chr ++ .punct '"' :: chunks.flatMap Chunk.symbols)) = _ :=
        go_punct hne ['"'] _
      rw [go_append_cons hquote hne' 0 (s.map .chr) _ (Nat.zero_le _), go_map chr_injective] at hopen
      simpa [Chunk.symbols, Chunk.mapString, replace] using hopen

end Word

/-! ## Words in the text -/

/-- A word with an escaped character is not found in the text of a string. -/
def Plain (s : Text) : Prop := ∀ c ∈ s, isEscaped c = false

instance (s : Text) : Decidable (Plain s) := inferInstanceAs (Decidable (∀ c ∈ s, _))

/-- Where the word starts in the text, string characters start that are written as they are and make
up the word. -/
def InStrings (s : Text) (l : List Symbol) : Prop :=
  ∀ x ∈ (l.flatMap Symbol.text).tails, s <+: x → Plain s ∧
    ∃ y ∈ l.tails, y.flatMap Symbol.text = x ∧ s.map .chr <+: y

instance (s : Text) (l : List Symbol) : Decidable (InStrings s l) :=
  inferInstanceAs (Decidable (∀ x ∈ _, _))

def replacePlain (mark s t : Text) : Text := if Plain s then replace s mark t else t

def redactStep (mark s : Text) (d : Doc) : Doc :=
  if Plain s then d.mapStrings (replace s mark) else d

theorem written_plain {s : Text} (h : Plain s) :
    (s.map Symbol.chr).flatMap Symbol.text = s := by
  rw [flatMap_map_chr]
  induction s with
  | nil => rfl
  | cons c s ih =>
    rw [List.flatMap_cons, escape_plain (h c (by simp)), ih fun d hd => h d (by simp [hd])]
    rfl

section Mark

variable {mark : Text} (hmark : Plain mark)
include hmark

/-- Replacing a word in the text is replacing it in the strings. -/
theorem InStrings.replace_dumps {s : Text} {d : Doc} (h : InStrings s (symbols d)) (hne : s ≠ []) :
    replace s mark (dumps d) = dumps (redactStep mark s d) := by
  by_cases hs : Plain s
  · have hsingle : ∀ a ∈ s.map Symbol.chr, ∃ b, a.text = [b] := by
      intro a ha
      obtain ⟨c, hc, rfl⟩ := List.mem_map.mp ha
      exact ⟨c, escape_plain (hs c hc)⟩
    have haligned : Aligned Symbol.text (s.map .chr) (symbols d) := by
      intro x hx hstart
      rw [written_plain hs] at hstart
      obtain ⟨-, y, hy, hyx⟩ := h x ((List.mem_tails _ _).mpr hx) hstart
      exact ⟨y, (List.mem_tails _ _).mp hy, hyx⟩
    have hcommute : replace ((s.map Symbol.chr).flatMap Symbol.text)
        ((mark.map Symbol.chr).flatMap Symbol.text) ((symbols d).flatMap Symbol.text) = _ :=
      replace_flatMap Symbol.text_ne_nil (by simpa using hne) hsingle haligned
    rw [written_plain hs, written_plain hmark, replace_symbols hne] at hcommute
    rw [redactStep, if_pos hs, dumps_eq, hcommute, dumps_eq]
  · have habsent : ¬ s <:+: dumps d := by
      intro hocc
      obtain ⟨x, hpre, hsuf⟩ := List.infix_iff_prefix_suffix.mp hocc
      rw [dumps_eq] at hsuf
      exact hs (h x ((List.mem_tails _ _).mpr hsuf) hpre).1
    rw [redactStep, if_neg hs, replace_absent habsent]

end Mark

/-! ## Replacing several words -/

def redact (mark : Text) (secrets : List Text) (t : Text) : Text :=
  secrets.foldl (fun t secret => replace secret mark t) t

def redactString (mark : Text) (secrets : List Text) (t : Text) : Text :=
  secrets.foldl (fun t secret => replacePlain mark secret t) t

def redactDoc (mark : Text) (secrets : List Text) (d : Doc) : Doc :=
  secrets.foldl (fun d secret => redactStep mark secret d) d

/-- Each word, when its turn comes, stands in the text only within strings. -/
def Contained (mark : Text) : List Text → Doc → Prop
  | [], _ => True
  | s :: secrets, d => InStrings s (symbols d) ∧ Contained mark secrets (redactStep mark s d)

theorem strings_redactDoc (mark : Text) (secrets : List Text) (d : Doc) :
    (redactDoc mark secrets d).strings = d.strings.map (redactString mark secrets) := by
  induction secrets generalizing d with
  | nil => exact (List.map_id _).symm
  | cons s secrets ih =>
    have hstep : (redactStep mark s d).strings = d.strings.map (replacePlain mark s) := by
      unfold redactStep replacePlain
      split
      · exact strings_mapStrings _ d
      · exact (List.map_id _).symm
    rw [redactDoc, List.foldl_cons, ← redactDoc, ih, hstep, List.map_map]
    rfl

theorem finite_redactDoc (mark : Text) (secrets : List Text) (d : Doc) :
    (redactDoc mark secrets d).finite = d.finite := by
  induction secrets generalizing d with
  | nil => rfl
  | cons s secrets ih =>
    rw [redactDoc, List.foldl_cons, ← redactDoc, ih, redactStep]
    split
    · exact finite_mapStrings _ d
    · rfl

theorem redact_dumps {mark : Text} (hmark : Plain mark)
    {secrets : List Text} (hne : ∀ s ∈ secrets, s ≠ []) {d : Doc} (h : Contained mark secrets d) :
    redact mark secrets (dumps d) = dumps (redactDoc mark secrets d) := by
  induction secrets generalizing d with
  | nil => rfl
  | cons s secrets ih =>
    have hrest := ih (fun r hr => hne r (by simp [hr])) h.2
    rw [← h.1.replace_dumps hmark (hne s (by simp))] at hrest
    exact hrest

end Archiviste.JsonText
