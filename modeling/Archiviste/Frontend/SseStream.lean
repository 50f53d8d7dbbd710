import Archiviste.Base.Framing
import Archiviste.Base.Js
import Archiviste.Generate.Pipeline
import Mathlib.Data.List.Infix
import Mathlib.Tactic.FinCases

/-!
# Archiviste.Frontend.SseStream

The event stream of an answer, from the text the worker writes (`sseEvent`) to the chunks the
frontend yields (`consumeSseStream`), over the bytes as they arrive, in reads of any size.

JSON is given by the two functions the languages have for it, and the laws a payload has to obey
are one structure, `Codec.Lawful`. All bytes written are ASCII, where a byte is a character.

* `consumeSseStream_eq` — what is yielded depends on the bytes alone, not on the reads.
* `sse_round_trip` — a whole stream yields its events, a cut one the first of them.
-/

namespace Archiviste.Frontend

open Framing
open Generate (Citation Event Usage)

/-- JSON as the two programs see it. -/
structure Codec where
  /-- `json.dumps`. -/
  dumps : Json → Text
  /-- `JSON.parse`; `none` where it throws. -/
  parse : Text → Option Json
  /-- `float(d)` of a decimal. -/
  toDouble : ℚ → ℚ
  /-- `String(v)` of a value that is no string. -/
  stringOf : Json → Text

/-- What the two functions guarantee for the text of an object. -/
structure Codec.Lawful (codec : Codec) (v : Json) : Prop where
  printable : ∀ c ∈ codec.dumps v, 32 ≤ c.toNat ∧ c.toNat < 127
  braces : ∃ inner, codec.dumps v = '{' :: inner ++ ['}']
  parse_dumps : codec.parse (codec.dumps v) = some v
  parse_part : ∀ t, t <+: codec.dumps v → t ≠ codec.dumps v → codec.parse t = none

section
variable (codec : Codec)

/-! ## Written by the worker -/

inductive EventKind where
  | sseMeta | sseToken | sseDone | sseError
  deriving DecidableEq

def EventKind.name : EventKind → String
  | .sseMeta => "meta"
  | .sseToken => "token"
  | .sseDone => "done"
  | .sseError => "error"

def eventKind : Event → EventKind
  | .sseMeta .. => .sseMeta
  | .sseToken _ => .sseToken
  | .sseDone .. => .sseDone
  | .sseError _ => .sseError

/-- `_sse_event`, without the empty line that ends it. -/
def sseBlock (event : EventKind) (data : Json) : Text :=
  "event: ".toList ++ event.name.toList ++ '\n' :: ("data: ".toList ++ codec.dumps data)

def sseEvent (event : EventKind) (data : Json) : Text := sseBlock codec event data ++ ['\n', '\n']

def citationDump (c : Citation) : Json :=
  .obj [("source_path".toList, .str c.sourcePath),
    ("chunk_ords".toList, .arr (c.chunkOrds.map fun ord => .num ord))]

def optionalInt : Option Int → Json
  | none => .null
  | some n => .num n

/-- A cost is a whole number of micro-euros. -/
def usageDump (u : Usage) : Json :=
  .obj [("prompt_tokens".toList, optionalInt u.promptTokens),
    ("completion_tokens".toList, optionalInt u.completionTokens),
    ("cost_eur".toList,
      match u.costEur with
      | none => .null
      | some n => .num (codec.toDouble (mkRat n 1000000)))]

def eventData : Event → Json
  | .sseMeta mode conversationId requestId =>
    .obj [("mode".toList, .str mode.name.toList), ("conversation_id".toList, .str conversationId),
      ("request_id".toList, .str requestId)]
  | .sseToken text => .obj [("text".toList, .str text)]
  | .sseDone citations usage retrieveMs llmMs followups =>
    .obj [("citations".toList, .arr (citations.map citationDump)),
      ("usage".toList, usageDump codec usage), ("retrieve_ms".toList, .num retrieveMs),
      ("llm_ms".toList, .num llmMs), ("followups".toList, .arr (followups.map .str))]
  | .sseError code => .obj [("error".toList, .str code.name.toList)]

def streamText (events : List Event) : Text :=
  events.flatMap fun e => sseEvent codec (eventKind e) (eventData codec e)

/-! ## Read by the frontend -/

inductive SseChunk where
  | metaChunk (mode conversationId requestId : Text)
  | tokenChunk (text : Text)
  | doneChunk (citations : List Json) (usage : Json) (retrieveMs llmMs : ℚ) (followups : List Text)
  | streamErrorChunk (error : Text)

/-- One line of a block, over the event name and the data read so far. -/
def sseLine (acc : Text × Text) (line : Text) : Text × Text :=
  match Text.dropPrefix? "event:".toList line with
  | some rest => (Js.trim rest, acc.2)
  | none =>
    match Text.dropPrefix? "data:".toList line with
    | some rest => (acc.1, Js.trim rest)
    | none => acc

def parseSseEvent (block : Text) : Option (Text × Text) :=
  let acc := (Text.splitOn '\n' block).foldl sseLine ([], [])
  if acc.1 = [] ∨ acc.2 = [] then none else some acc

/-- `String(p[key] ?? fallback)`. -/
def stringField (payload : Json) (key fallback : String) : Text :=
  match payload.get? key.toList with
  | none | some .null => fallback.toList
  | some (.str s) => s
  | some v => codec.stringOf v

def arrayField (payload : Json) (key : String) : List Json :=
  match payload.get? key.toList with
  | some (.arr items) => items
  | _ => []

def objectField (payload : Json) (key : String) : Json :=
  match payload.get? key.toList with
  | some (.obj ms) => .obj ms
  | some (.arr items) => .arr items
  | _ => .obj []

def numberField (payload : Json) (key : String) : ℚ :=
  match payload.get? key.toList with
  | some (.num q) => q
  | _ => 0

def strings (items : List Json) : List Text :=
  items.filterMap fun
    | .str s => some s
    | _ => none

def EventKind.ofName (event : Text) : Option EventKind :=
  [EventKind.sseMeta, .sseToken, .sseDone, .sseError].find? fun k => k.name.toList = event

/-- The chunk of an object or array, by the name of its event. -/
def payloadChunk (event : Text) (payload : Json) : Option SseChunk :=
  match EventKind.ofName event with
  | some .sseMeta =>
    some (.metaChunk (stringField codec payload "mode" "")
      (stringField codec payload "conversation_id" "") (stringField codec payload "request_id" ""))
  | some .sseToken => some (.tokenChunk (stringField codec payload "text" ""))
  | some .sseDone =>
    some (.doneChunk (arrayField payload "citations") (objectField payload "usage")
      (numberField payload "retrieve_ms") (numberField payload "llm_ms")
      (strings (arrayField payload "followups")))
  | some .sseError => some (.streamErrorChunk (stringField codec payload "error" "unknown"))
  | none => none

def toChunk (sse : Text × Text) : Option SseChunk :=
  match codec.parse sse.2 with
  | some (.obj ms) => payloadChunk codec sse.1 (.obj ms)
  | some (.arr items) => payloadChunk codec sse.1 (.arr items)
  | _ => none

/-- What the loop yields for one block, and the end for what is left. -/
def blockChunk (block : Text) : Option SseChunk :=
  let trimmed := Js.trim block
  if trimmed = [] then none else (parseSseEvent trimmed).bind (toChunk codec)

/-- `decoder.decode` of ASCII bytes. -/
def decode (bytes : List UInt8) : Text := bytes.map fun b => Char.ofNat b.toNat

def consumeFrom : Text → List (List UInt8) → List SseChunk
  | buffer, [] => (blockChunk codec buffer).toList
  | buffer, value :: reads =>
    let blocks := splitBlocks (buffer ++ decode value)
    blocks.dropLast.filterMap (blockChunk codec) ++ consumeFrom (blocks.getLastD []) reads

def consumeSseStream (reads : List (List UInt8)) : List SseChunk := consumeFrom codec [] reads

end

/-! ## The reads do not matter -/

theorem consumeFrom_eq (codec : Codec) (reads : List (List UInt8)) : ∀ buffer,
    splitBlocks buffer = [buffer] → consumeFrom codec buffer reads =
      (splitBlocks (buffer ++ decode reads.flatten)).filterMap (blockChunk codec) := by
  induction reads with
  | nil =>
    intro buffer hbuffer
    rw [List.flatten_nil, decode, List.map_nil, List.append_nil, hbuffer]
    cases h : blockChunk codec buffer <;> simp [consumeFrom, h]
  | cons value reads ih =>
    intro buffer hbuffer
    have hdecode : decode (value :: reads).flatten = decode value ++ decode reads.flatten := by
      simp [decode]
    rw [consumeFrom, hdecode, ← List.append_assoc, splitBlocks_append (buffer ++ decode value),
      List.filterMap_append]
    exact congrArg _ (ih _ (splitBlocks_lastBlock _))

theorem consumeSseStream_eq (codec : Codec) (reads : List (List UInt8)) :
    consumeSseStream codec reads =
      (splitBlocks (decode reads.flatten)).filterMap (blockChunk codec) :=
  consumeFrom_eq codec reads [] rfl

/-! ## One event -/

def chunkOf (codec : Codec) : Event → SseChunk
  | .sseMeta mode conversationId requestId =>
    .metaChunk mode.name.toList conversationId requestId
  | .sseToken text => .tokenChunk text
  | .sseDone citations usage retrieveMs llmMs followups =>
    .doneChunk (citations.map citationDump) (usageDump codec usage) retrieveMs llmMs followups
  | .sseError code => .streamErrorChunk code.name.toList

theorem strings_map_str (items : List Text) : strings (items.map .str) = items := by
  induction items with
  | nil => rfl
  | cons s items ih => exact congrArg (s :: ·) ih

theorem EventKind.ofName_name (k : EventKind) : ofName k.name.toList = some k := by
  cases k <;> decide

theorem payloadChunk_event (codec : Codec) (e : Event) :
    payloadChunk codec (eventKind e).name.toList (eventData codec e) = some (chunkOf codec e) := by
  rw [payloadChunk, EventKind.ofName_name]
  cases e with
  | sseMeta mode conversationId requestId => rfl
  | sseToken text => rfl
  | sseDone citations usage retrieveMs llmMs followups =>
    show some (SseChunk.doneChunk _ _ _ _ (strings (followups.map .str))) = _
    rw [strings_map_str]
    rfl
  | sseError code => rfl

variable {codec : Codec} {e : Event} {t : Text} {events : List Event}

theorem toChunk_event (h : codec.Lawful (eventData codec e)) :
    toChunk codec ((eventKind e).name.toList, codec.dumps (eventData codec e)) =
      some (chunkOf codec e) := by
  have hpayload := payloadChunk_event codec e
  obtain ⟨ms, hms⟩ : ∃ ms, eventData codec e = .obj ms := by cases e <;> exact ⟨_, rfl⟩
  rw [toChunk, h.parse_dumps, hms]
  rwa [hms] at hpayload

def nameLine (k : EventKind) : Text := "event: ".toList ++ k.name.toList

theorem newline_not_mem_nameLine (k : EventKind) : '\n' ∉ nameLine k := by
  cases k <;> decide

theorem sseLine_nameLine (k : EventKind) : sseLine ([], []) (nameLine k) = (k.name.toList, []) := by
  cases k <;> decide

theorem name_ne_nil (k : EventKind) : k.name.toList ≠ [] := by
  cases k <;> decide

theorem parseSseEvent_lines (k : EventKind) {line : Text} (hnl : '\n' ∉ line) :
    parseSseEvent (nameLine k ++ '\n' :: line) =
      let acc := sseLine (k.name.toList, []) line
      if acc.1 = [] ∨ acc.2 = [] then none else some acc := by
  rw [parseSseEvent, Text.splitOn_append (newline_not_mem_nameLine k), Text.splitOn_of_not_mem hnl,
    List.foldl_cons, List.foldl_cons, List.foldl_nil, sseLine_nameLine]

theorem sseLine_data (acc : Text × Text) (rest : Text) :
    sseLine acc ("data:".toList ++ rest) = (acc.1, Js.trim rest) := by
  rfl

section
variable {codec : Codec} {v : Json} (h : codec.Lawful v) (k : EventKind)
include h

theorem newline_not_mem_dumps : '\n' ∉ codec.dumps v := by
  intro hmem
  have hbounds := (h.printable _ hmem).1
  exact absurd hbounds (by decide)

theorem newline_not_mem_dataLine : '\n' ∉ "data: ".toList ++ codec.dumps v := by
  rw [List.mem_append, not_or]
  exact ⟨by decide, newline_not_mem_dumps h⟩

theorem count_sseBlock : (sseBlock codec k v).count '\n' = 1 := by
  show (nameLine k ++ '\n' :: ("data: ".toList ++ codec.dumps v)).count '\n' = 1
  rw [List.count_append, List.count_cons_self, List.count_eq_zero.2 (newline_not_mem_nameLine k),
    List.count_eq_zero.2 (newline_not_mem_dataLine h)]

theorem splitBlocks_sseBlock (s : Text) :
    splitBlocks (sseBlock codec k v ++ s) = pushText (sseBlock codec k v) (splitBlocks s) :=
  splitBlocks_lines (l := nameLine k) (newline_not_mem_nameLine k) (newline_not_mem_dataLine h)
    (List.cons_ne_nil _ _) s

theorem trim_dumps : Js.trim (' ' :: codec.dumps v) = codec.dumps v := by
  obtain ⟨inner, hinner⟩ := h.braces
  rw [hinner]
  show Js.trimEnd ('{' :: inner ++ ['}']) = _
  exact List.rdropWhile_concat_neg _ _ _ (by decide)

theorem trimEnd_sseBlock : Js.trimEnd (sseBlock codec k v) = sseBlock codec k v := by
  obtain ⟨inner, hinner⟩ := h.braces
  have hlines : sseBlock codec k v =
      nameLine k ++ '\n' :: "data: ".toList ++ '{' :: inner ++ ['}'] := by
    rw [List.append_assoc _ ('{' :: inner), ← hinner, List.append_assoc]
    rfl
  rw [hlines]
  exact List.rdropWhile_concat_neg _ _ _ (by decide)

theorem parseSseEvent_sseBlock :
    parseSseEvent (sseBlock codec k v) = some (k.name.toList, codec.dumps v) := by
  have hline : sseLine (k.name.toList, []) ("data: ".toList ++ codec.dumps v) =
      (k.name.toList, codec.dumps v) :=
    (sseLine_data _ (' ' :: codec.dumps v)).trans (by rw [trim_dumps h])
  have hne : codec.dumps v ≠ [] := by
    obtain ⟨inner, hinner⟩ := h.braces
    rw [hinner]
    exact List.cons_ne_nil _ _
  refine (parseSseEvent_lines k (newline_not_mem_dataLine h)).trans ?_
  rw [hline]
  exact if_neg (not_or.2 ⟨name_ne_nil k, hne⟩)

theorem trim_part {r : Text} (hr : r <+: ' ' :: codec.dumps v) (hne : r ≠ ' ' :: codec.dumps v) :
    Js.trim r = [] ∨ codec.parse (Js.trim r) = none := by
  cases r with
  | nil => exact .inl rfl
  | cons c j =>
    obtain ⟨rfl, hj⟩ := List.cons_prefix_cons.1 hr
    have hj' : j ≠ codec.dumps v := fun hj' => hne (by rw [hj'])
    cases j with
    | nil => exact .inl rfl
    | cons c j =>
      obtain ⟨inner, hinner⟩ := h.braces
      have hc : c = '{' := by
        rw [hinner] at hj
        exact (List.cons_prefix_cons.1 hj).1
      subst hc
      -- what is left after trimming is a shorter beginning still
      have htrim : Js.trim (' ' :: '{' :: j) = Js.trimEnd ('{' :: j) := rfl
      have hpart : Js.trimEnd ('{' :: j) <+: '{' :: j := List.rdropWhile_prefix _ _
      rw [htrim]
      refine .inr (h.parse_part _ (hpart.trans hj) fun heq => hj' ?_)
      exact hj.eq_of_length_le (heq ▸ hpart.length_le)

theorem parseSseEvent_part {d : Text} (hd : d <+: "data: ".toList ++ codec.dumps v)
    (hne : d ≠ "data: ".toList ++ codec.dumps v) :
    (parseSseEvent (nameLine k ++ '\n' :: d)).bind (toChunk codec) = none := by
  have hnl : '\n' ∉ d := fun hmem => newline_not_mem_dataLine h (hd.subset hmem)
  have hkey : "data:".toList <+: "data: ".toList ++ codec.dumps v := ⟨' ' :: codec.dumps v, rfl⟩
  rw [parseSseEvent_lines k hnl]
  rcases List.prefix_or_prefix_of_prefix hd hkey with hshort | ⟨r, rfl⟩
  · have hdata : (sseLine (k.name.toList, []) d).2 = [] := by
      have hmem : d ∈ List.inits "data:".toList := (List.mem_inits _ _).2 hshort
      fin_cases hmem <;> rfl
    simp [hdata]
  · have hr : r <+: ' ' :: codec.dumps v := (List.prefix_append_right_inj "data:".toList).1 hd
    have hr' : r ≠ ' ' :: codec.dumps v := fun hr' => hne (by rw [hr']; rfl)
    rw [sseLine_data]
    rcases trim_part h hr hr' with hempty | hnone
    · simp [hempty]
    · dsimp only
      split_ifs
      · rfl
      · simp [toChunk, hnone]

end

theorem parseSseEvent_nameLine (k : EventKind) (ht : t <+: nameLine k) :
    parseSseEvent t = none := by
  have hnl : '\n' ∉ t := fun hmem => newline_not_mem_nameLine k (ht.subset hmem)
  have hdata : (sseLine ([], []) t).2 = [] := by
    cases t with
    | nil => rfl
    | cons c t =>
      have hc : c = 'e' := by
        obtain ⟨rest, hrest⟩ := ht
        exact (List.cons.inj hrest).1
      subst hc
      unfold sseLine
      split
      · rfl
      · split
        · next hdrop => cases hdrop
        · rfl
  rw [parseSseEvent, Text.splitOn_of_not_mem hnl]
  exact if_pos (.inr hdata)

theorem blockChunk_eq (codec : Codec) (block : Text) :
    blockChunk codec block = (parseSseEvent (Js.trim block)).bind (toChunk codec) := by
  unfold blockChunk
  dsimp only
  split_ifs with hnil
  · rw [hnil]
    rfl
  · rfl

theorem trim_eq_trimEnd {k : EventKind} {data : Text} (ht : t <+: nameLine k ++ data) :
    Js.trim t = Js.trimEnd t := by
  cases t with
  | nil => rfl
  | cons c t =>
    obtain ⟨rest, hrest⟩ := ht
    have hc : c = 'e' := (List.cons.inj hrest).1
    subst hc
    exact Js.trim_cons (by decide) t

section
variable {codec : Codec} {v : Json} (h : codec.Lawful v) (k : EventKind)
include h

variable {t : Text}

theorem blockChunk_part (ht : t <+: sseBlock codec k v) (hne : t ≠ sseBlock codec k v) :
    blockChunk codec t = none := by
  have hblock : sseBlock codec k v = nameLine k ++ ['\n'] ++ ("data: ".toList ++ codec.dumps v) := by
    rw [List.append_assoc]
    rfl
  have hpart : Js.trimEnd t <+: t := List.rdropWhile_prefix _ _
  rw [blockChunk_eq, trim_eq_trimEnd (k := k) ht]
  rw [hblock] at ht hne
  rcases List.prefix_or_prefix_of_prefix ht (List.prefix_append _ _) with hshort | ⟨d, rfl⟩
  · -- the data line has not begun
    have hname : Js.trimEnd t <+: nameLine k := by
      rcases List.prefix_concat_iff.1 hshort with rfl | hname
      · rw [Js.trimEnd_append_space (by simp; decide)]
        exact List.rdropWhile_prefix _ _
      · exact hpart.trans hname
    rw [parseSseEvent_nameLine k hname]
    rfl
  · have hd : d <+: "data: ".toList ++ codec.dumps v := (List.prefix_append_right_inj _).1 ht
    have hd' : d ≠ "data: ".toList ++ codec.dumps v := fun hd' => hne (by rw [hd'])
    by_cases hspace : ∀ c ∈ d, Js.isSpace c = true
    · have hname : Js.trimEnd (nameLine k) <+: nameLine k := List.rdropWhile_prefix _ _
      rw [Js.trimEnd_append_space hspace, Js.trimEnd_append_space (by simp; decide),
        parseSseEvent_nameLine k hname]
      rfl
    · have hshorter : Js.trimEnd d <+: d := List.rdropWhile_prefix _ _
      rw [Js.trimEnd_append hspace, List.append_assoc]
      refine parseSseEvent_part h k (hshorter.trans hd) fun heq => hd' ?_
      exact hd.eq_of_length_le (heq ▸ hshorter.length_le)

theorem blockChunk_sseBlock (ht : ∀ c ∈ t, Js.isSpace c = true) :
    blockChunk codec (sseBlock codec k v ++ t) = toChunk codec (k.name.toList, codec.dumps v) := by
  have htrim : Js.trim (sseBlock codec k v ++ t) = sseBlock codec k v := by
    have hstart : sseBlock codec k v ++ t <+:
        nameLine k ++ ('\n' :: ("data: ".toList ++ codec.dumps v) ++ t) :=
      ⟨[], by rw [List.append_nil, ← List.append_assoc]; rfl⟩
    rw [trim_eq_trimEnd hstart, Js.trimEnd_append_space ht, trimEnd_sseBlock h k]
  rw [blockChunk_eq, htrim, parseSseEvent_sseBlock h k]
  rfl

end

/-! ## The stream -/

theorem yields_event (h : codec.Lawful (eventData codec e)) (s : Text) :
    (splitBlocks (sseEvent codec (eventKind e) (eventData codec e) ++ s)).filterMap
        (blockChunk codec) =
      chunkOf codec e :: (splitBlocks s).filterMap (blockChunk codec) := by
  have hblock := blockChunk_sseBlock h (eventKind e) (t := []) (by simp)
  rw [List.append_nil, toChunk_event h] at hblock
  rw [sseEvent, List.append_assoc, splitBlocks_sseBlock h]
  show (pushText _ ([] :: splitBlocks s)).filterMap _ = _
  rw [pushText, List.append_nil, List.filterMap_cons, hblock]

theorem yields_part (h : codec.Lawful (eventData codec e)) {s : Text}
    (hs : s <+: sseEvent codec (eventKind e) (eventData codec e)) :
    (splitBlocks s).filterMap (blockChunk codec) <+: [chunkOf codec e] := by
  -- the empty line is cut off, or half of it, or the block itself is cut
  have hcases : s = sseEvent codec (eventKind e) (eventData codec e) ++ [] ∨
      s = sseBlock codec (eventKind e) (eventData codec e) ++ ['\n'] ∨
      s <+: sseBlock codec (eventKind e) (eventData codec e) := by
    have hend : sseEvent codec (eventKind e) (eventData codec e) =
        sseBlock codec (eventKind e) (eventData codec e) ++ ['\n'] ++ ['\n'] := by
      rw [List.append_assoc]
      rfl
    rw [List.append_nil]
    rw [hend] at hs ⊢
    exact (List.prefix_concat_iff.1 hs).imp_right List.prefix_concat_iff.1
  rcases hcases with rfl | rfl | hs
  · rw [yields_event h]
    exact List.prefix_refl _
  · have hblock := blockChunk_sseBlock h (eventKind e) (t := ['\n']) (by simp; decide)
    rw [toChunk_event h] at hblock
    rw [splitBlocks_sseBlock h]
    show [_ ++ ['\n']].filterMap _ <+: _
    rw [List.filterMap_cons, hblock]
    exact List.prefix_refl _
  · by_cases hwhole : s = sseBlock codec (eventKind e) (eventData codec e)
    · have hblock := blockChunk_sseBlock h (eventKind e) (t := []) (by simp)
      rw [toChunk_event h] at hblock
      subst hwhole
      rw [← List.append_nil (sseBlock _ _ _), splitBlocks_sseBlock h]
      show [_ ++ []].filterMap _ <+: _
      rw [List.filterMap_cons, hblock]
      exact List.prefix_refl _
    · have hcount : s.count '\n' ≤ 1 := (hs.sublist.count_le _).trans (count_sseBlock h _).le
      rw [splitBlocks_of_count hcount, List.filterMap_cons, blockChunk_part h _ hs hwhole]
      exact List.nil_prefix

theorem ascii_streamText (h : ∀ e ∈ events, codec.Lawful (eventData codec e)) :
    ∀ c ∈ streamText codec events, c.toNat < 128 := by
  intro c hc
  obtain ⟨e, he, hc⟩ := List.mem_flatMap.1 hc
  have hline : ∀ k, ∀ c ∈ nameLine k, c.toNat < 128 := by
    intro k
    cases k <;> decide
  have hkey : ∀ c ∈ "data: ".toList, c.toNat < 128 := by decide
  rcases List.mem_append.1 hc with hc | hc
  · rcases List.mem_append.1 hc with hc | hc
    · exact hline _ c hc
    · rcases List.mem_cons.1 hc with rfl | hc
      · decide
      · rcases List.mem_append.1 hc with hc | hc
        · exact hkey c hc
        · exact ((h e he).printable c hc).2.trans (by decide)
  · have hnewlines : ∀ c ∈ ['\n', '\n'], c.toNat < 128 := by decide
    exact hnewlines c hc

theorem yields_stream (h : ∀ e ∈ events, codec.Lawful (eventData codec e)) :
    (splitBlocks (streamText codec events)).filterMap (blockChunk codec) =
      events.map (chunkOf codec) := by
  induction events with
  | nil => rfl
  | cons e events ih =>
    rw [streamText, List.flatMap_cons, yields_event (h e List.mem_cons_self), List.map_cons]
    exact congrArg _ (ih fun e' he' => h e' (List.mem_cons_of_mem e he'))

theorem yields_cut (h : ∀ e ∈ events, codec.Lawful (eventData codec e)) : ∀ {s : Text},
    s <+: streamText codec events →
      (splitBlocks s).filterMap (blockChunk codec) <+: events.map (chunkOf codec) := by
  induction events with
  | nil =>
    intro s hs
    cases List.prefix_nil.1 hs
    exact List.prefix_refl _
  | cons e events ih =>
    intro s hs
    have he := h e List.mem_cons_self
    rw [streamText, List.flatMap_cons] at hs
    rw [List.map_cons]
    rcases List.prefix_or_prefix_of_prefix hs (List.prefix_append _ _) with hpart | ⟨s', rfl⟩
    · exact (yields_part he hpart).trans (List.prefix_append [_] _)
    · rw [yields_event he, List.cons_prefix_cons]
      exact ⟨rfl, ih (fun e' he' => h e' (List.mem_cons_of_mem e he'))
        ((List.prefix_append_right_inj _).1 hs)⟩

def streamBytes (codec : Codec) (events : List Event) : List UInt8 :=
  (streamText codec events).map fun c => UInt8.ofNat c.toNat

theorem decode_streamBytes (h : ∀ e ∈ events, codec.Lawful (eventData codec e)) :
    decode (streamBytes codec events) = streamText codec events := by
  have hbyte : ∀ c ∈ streamText codec events, Char.ofNat (UInt8.ofNat c.toNat).toNat = c := by
    intro c hc
    have hsmall := ascii_streamText h c hc
    rw [UInt8.toNat_ofNat_of_lt' (hsmall.trans (by decide)), Char.ofNat_toNat]
  rw [decode, streamBytes, List.map_map]
  exact (List.map_congr_left hbyte).trans (List.map_id _)

/-- Read in whatever pieces, a stream yields the chunk of each event once and in order, and a
stream that is cut anywhere yields the first of them. -/
theorem sse_round_trip {codec : Codec} {events : List Event}
    (h : ∀ e ∈ events, codec.Lawful (eventData codec e)) (reads : List (List UInt8)) :
    (reads.flatten = streamBytes codec events →
      consumeSseStream codec reads = events.map (chunkOf codec)) ∧
    (reads.flatten <+: streamBytes codec events →
      consumeSseStream codec reads <+: events.map (chunkOf codec)) := by
  rw [consumeSseStream_eq]
  refine ⟨fun hreads => ?_, fun hreads => ?_⟩
  · rw [hreads, decode_streamBytes h, yields_stream h]
  · have htext : decode reads.flatten <+: streamText codec events :=
      decode_streamBytes h ▸ hreads.map _
    exact yields_cut h htext

def sampleDumps : Json → Text
  | .obj [(key, .str s)] => "\x7b\"".toList ++ key ++ "\": \"".toList ++ s ++ "\"\x7d".toList
  | _ => "\x7b\x7d".toList

def sampleEvents : List Event := [.sseToken "Oui.".toList, .sseError .internal]

def sampleCodec : Codec where
  dumps := sampleDumps
  parse t :=
    if t = "\x7b\"text\": \"Oui.\"\x7d".toList then
      some (.obj [("text".toList, .str "Oui.".toList)])
    else if t = "\x7b\"error\": \"internal\"\x7d".toList then
      some (.obj [("error".toList, .str "internal".toList)])
    else none
  toDouble q := q
  stringOf _ := []

theorem sampleCodec_lawful : ∀ e ∈ sampleEvents,
    sampleCodec.Lawful (eventData sampleCodec e) := by
  intro e he
  rcases List.mem_pair.1 he with rfl | rfl
  · refine ⟨by decide, ⟨"\"text\": \"Oui.\"".toList, by decide⟩, rfl, fun t ht hne => ?_⟩
    refine (if_neg hne).trans (if_neg fun heq => ?_)
    rw [heq] at ht
    exact absurd ht (by decide)
  · refine ⟨by decide, ⟨"\"error\": \"internal\"".toList, by decide⟩, rfl, fun t ht hne => ?_⟩
    refine (if_neg fun heq => ?_).trans (if_neg hne)
    rw [heq] at ht
    exact absurd ht (by decide)

/-- Two events in three reads, one of them empty, cut inside the first event. -/
theorem sse_round_trip_sample :
    consumeSseStream sampleCodec [(streamBytes sampleCodec sampleEvents).take 20, [],
      (streamBytes sampleCodec sampleEvents).drop 20] =
        [.tokenChunk "Oui.".toList, .streamErrorChunk "internal".toList] :=
  (sse_round_trip sampleCodec_lawful _).1 (by simp)

end Archiviste.Frontend
