import Archiviste.Base.Brackets
import Archiviste.Frontend.SseStream
import Archiviste.Frontend.PersistedAnswer

/-!
# Archiviste.Frontend.RemarkCitations

The citations of an answer as the page shows them: the panel of sources (`distinctSources`) and the
superscripts that replace the brackets of a text node (`remarkCitations`). The worker has read the
same brackets before (`Generate.extractCitations`), with the whitespace of Python.

* `splitTextNode_eq`    — a text node is its groups, those with a known piece replaced.
* `visit_settled`       — the nodes that replace it are visited again, and stay.
* `citations_numbered_iff` — then the superscripts are the occurrences the worker found, numbered as
  the panel.
-/

namespace Archiviste.Frontend

open Regex
open Generate (Chunk Citation HasPath citedPieces citationRe occurrences ordsOf)

/-! ## The panel -/

def sourcePathOf (entry : Json) : Option Text :=
  match entry.get? "source_path".toList with
  | some (.str p) => if p = [] then none else some p
  | _ => none

def distinctSources (citations : List Json) : List Text :=
  citations.foldl (fun ordered entry =>
    match sourcePathOf entry with
    | some p => FirstSeen.keep ordered p
    | none => ordered) []

/-! ## A text node -/

/-- The nodes a text node is replaced by. A superscript is a link to `#src-n` around its number. -/
inductive Phrasing where
  | text (value : Text)
  | superscript (citationNumber : Nat)
  deriving DecidableEq, Repr

def Phrasing.isSuperscript : Phrasing → Bool
  | .text _ => false
  | .superscript _ => true

/-- `numberByPath`: the first index of a path counts. -/
def numberByPath (knownSources : List Text) : Dict Text Nat :=
  knownSources.zipIdx.foldl (fun numbers source =>
    if (numbers.get? source.1).isSome then numbers else numbers.set source.1 (source.2 + 1)) []

section
variable (numberFor : Text → Option Nat)

def citationNumbers (inner : Text) : List Nat :=
  (Text.splitOn ',' inner).filterMap fun piece => numberFor (Js.trim piece)

/-- The loop of `splitTextNode` over the matches, with the position `lastIndex`. -/
def splitFrom : List Match → Pos → List Phrasing
  | [], last => if last.after = [] then [] else [.text last.after]
  | m :: ms, last =>
    let numbers := citationNumbers numberFor (m.groups.headD [])
    if numbers = [] then splitFrom ms last
    else
      (if last.before.length < m.start.before.length then [.text (between last m.start)] else []) ++
        numbers.map .superscript ++ splitFrom ms m.stop

def splitTextNode (value : Text) : List Phrasing :=
  splitFrom numberFor (finditer citationMarker value) (Pos.start value)

/-- `visit(tree, "text", …)` over the children of a node. A text that is replaced is passed, and the
nodes after the first one that replace it are visited next. The number of a superscript has no
bracket. The fuel bounds the number of visits. -/
def visit : Nat → List Phrasing → List Phrasing
  | 0, nodes => nodes
  | _ + 1, [] => []
  | n + 1, .superscript k :: nodes => .superscript k :: visit n nodes
  | n + 1, .text value :: nodes =>
    if (splitTextNode numberFor value).any Phrasing.isSuperscript then
      match splitTextNode numberFor value ++ nodes with
      | [] => []
      | first :: rest => first :: visit n rest
    else .text value :: visit n nodes

end

def remarkCitations (knownSources : List Text) (value : Text) : List Phrasing :=
  visit (numberByPath knownSources).get? (value.length + 1) [.text value]

example : remarkCitations ["b.md".toList, "a.md".toList] "x [a.md, c.md,b.md] [c.md].".toList =
    [.text "x ".toList, .superscript 2, .superscript 1, .text " [c.md].".toList] := by
  decide +kernel

/-! ## The groups of a text node -/

section
variable {numberFor : Text → Option Nat}

def textNode (t : Text) : List Phrasing := if t = [] then [] else [.text t]

def nodesOf (numberFor : Text → Option Nat) : Text → List (Text × Text) → Text → List Phrasing
  | pending, [], tail => textNode (pending ++ tail)
  | pending, g :: gs, tail =>
    if citationNumbers numberFor g.2 = [] then
      nodesOf numberFor (pending ++ g.1 ++ Brackets.bracket g.2) gs tail
    else
      textNode (pending ++ g.1) ++ (citationNumbers numberFor g.2).map .superscript ++
        nodesOf numberFor [] gs tail

variable {m : Match} {tail : Text}

theorem splitFrom_unknown (ms : List Match) (last : Pos)
    (h : citationNumbers numberFor (m.groups.headD []) = []) :
    splitFrom numberFor (m :: ms) last = splitFrom numberFor ms last := if_pos h

theorem splitFrom_known (ms : List Match) {last : Pos} {t : Text}
    (h : citationNumbers numberFor (m.groups.headD []) ≠ [])
    (hstart : m.start.before = t.reverse ++ last.before) :
    splitFrom numberFor (m :: ms) last =
      textNode t ++ (citationNumbers numberFor (m.groups.headD [])).map .superscript ++
        splitFrom numberFor ms m.stop := by
  have htext : (if last.before.length < m.start.before.length
      then [Phrasing.text (between last m.start)] else []) = textNode t := by
    rw [between_eq hstart, hstart, textNode, List.length_append, List.length_reverse]
    cases t with
    | nil => simp
    | cons c t => rw [if_pos (by rw [List.length_cons]; omega), if_neg (List.cons_ne_nil c t)]
  rw [← htext]
  exact if_neg h

theorem splitFrom_eq (gs : List (Text × Text)) (tail : Text) :
    ∀ (pending : Text) (last : Pos), last.after = pending ++ Brackets.join gs tail →
      splitFrom numberFor (Brackets.matchesOf (pending.reverse ++ last.before) gs tail) last =
        nodesOf numberFor pending gs tail := by
  induction gs with
  | nil =>
    intro pending last hlast
    rw [Brackets.matchesOf, splitFrom, nodesOf, hlast]
    rfl
  | cons g gs ih =>
    intro pending last hlast
    rw [Brackets.matchesOf, nodesOf]
    by_cases hnumbers : citationNumbers numberFor g.2 = []
    · -- the group stays: it joins the text that is still to be written
      have hnext := ih (pending ++ g.1 ++ Brackets.bracket g.2) last
        (by rw [hlast, Brackets.join_cons]; simp only [List.append_assoc])
      rw [if_pos hnumbers, ← hnext, splitFrom_unknown _ _ hnumbers]
      simp only [List.reverse_append, List.append_assoc]
    · rw [if_neg hnumbers, splitFrom_known _ (t := pending ++ g.1) hnumbers
        (by rw [List.reverse_append, List.append_assoc])]
      exact congrArg _ (ih [] ⟨_, Brackets.join gs tail⟩ rfl)

theorem splitTextNode_eq (value : Text) :
    splitTextNode numberFor value =
      nodesOf numberFor [] (Brackets.groups Js.isSpace value).1
        (Brackets.groups Js.isSpace value).2 := by
  have hre : citationMarker = Brackets.bracketRe Js.isSpace := rfl
  rw [splitTextNode, hre, Brackets.finditer_bracketRe]
  exact splitFrom_eq _ _ [] (Pos.start value) (Brackets.join_groups value).symm

/-! ## What is shown -/

inductive Glyph where
  | char (c : Char)
  | number (n : Nat)
  deriving DecidableEq, Repr

def glyphs (t : Text) : List Glyph := t.map .char

def Phrasing.glyphs : Phrasing → List Glyph
  | .text value => Frontend.glyphs value
  | .superscript n => [.number n]

/-- A group with the text before it: the numbers stand in its place if it has a known piece. -/
def groupGlyphs (numberFor : Text → Option Nat) (g : Text × Text) : List Glyph :=
  glyphs g.1 ++
    if citationNumbers numberFor g.2 = [] then glyphs (Brackets.bracket g.2)
    else (citationNumbers numberFor g.2).map .number

theorem glyphs_append (s t : Text) : glyphs (s ++ t) = glyphs s ++ glyphs t := List.map_append

theorem textNode_glyphs (t : Text) : (textNode t).flatMap Phrasing.glyphs = glyphs t := by
  rw [textNode]
  split
  · next h => rw [h]; rfl
  · exact List.flatMap_singleton ..

theorem nodesOf_glyphs (gs : List (Text × Text)) (tail : Text) : ∀ pending : Text,
    (nodesOf numberFor pending gs tail).flatMap Phrasing.glyphs =
      glyphs pending ++ gs.flatMap (groupGlyphs numberFor) ++ glyphs tail := by
  induction gs with
  | nil =>
    intro pending
    rw [nodesOf, textNode_glyphs, glyphs_append, List.flatMap_nil, List.append_nil]
  | cons g gs ih =>
    intro pending
    rw [nodesOf, List.flatMap_cons, groupGlyphs]
    split
    · rw [ih]
      simp only [glyphs_append, List.append_assoc]
    · have hnumbers : ∀ ns : List Nat,
          (ns.map Phrasing.superscript).flatMap Phrasing.glyphs = ns.map Glyph.number := by
        intro ns
        rw [List.flatMap_map]
        exact List.flatMap_pure_eq_map ..
      have hnil : glyphs [] = [] := rfl
      rw [List.flatMap_append, List.flatMap_append, textNode_glyphs, hnumbers, ih, hnil]
      simp only [glyphs_append, List.nil_append, List.append_assoc]

def superscripts (nodes : List Phrasing) : List Nat :=
  nodes.filterMap fun
    | .text _ => none
    | .superscript n => some n

theorem superscripts_append (xs ys : List Phrasing) :
    superscripts (xs ++ ys) = superscripts xs ++ superscripts ys := List.filterMap_append

theorem superscripts_textNode (t : Text) : superscripts (textNode t) = [] := by
  rw [textNode]
  split <;> rfl

theorem superscripts_map (ns : List Nat) : superscripts (ns.map .superscript) = ns := by
  rw [superscripts, List.filterMap_map]
  exact List.filterMap_some

theorem nodesOf_superscripts (gs : List (Text × Text)) (tail : Text) : ∀ pending : Text,
    superscripts (nodesOf numberFor pending gs tail) =
      gs.flatMap fun g => citationNumbers numberFor g.2 := by
  induction gs with
  | nil => intro pending; exact superscripts_textNode _
  | cons g gs ih =>
    intro pending
    rw [nodesOf, List.flatMap_cons]
    split
    · next hnone => rw [ih, hnone, List.nil_append]
    · rw [superscripts_append, superscripts_append, superscripts_textNode, superscripts_map, ih,
        List.nil_append]

/-! ## The second visit -/

/-- No text among the nodes has a superscript left in it. -/
def Settled (numberFor : Text → Option Nat) (nodes : List Phrasing) : Prop :=
  ∀ value, .text value ∈ nodes → superscripts (splitTextNode numberFor value) = []

theorem any_isSuperscript {nodes : List Phrasing} :
    nodes.any Phrasing.isSuperscript = true ↔ superscripts nodes ≠ [] := by
  induction nodes with
  | nil => simp [superscripts]
  | cons node nodes ih =>
    cases node with
    | text value => simpa [superscripts, Phrasing.isSuperscript] using ih
    | superscript n => simp [superscripts, Phrasing.isSuperscript]

theorem visit_settled (n : Nat) : ∀ {nodes : List Phrasing}, Settled numberFor nodes →
    visit numberFor n nodes = nodes := by
  induction n with
  | zero => exact fun _ => rfl
  | succ n ih =>
    intro nodes h
    cases nodes with
    | nil => rfl
    | cons node nodes =>
      have hrest : Settled numberFor nodes := fun v hv => h v (List.mem_cons_of_mem _ hv)
      cases node with
      | text value =>
        have hnone := h value List.mem_cons_self
        rw [visit, if_neg (by rw [any_isSuperscript, hnone]; simp), ih hrest]
      | superscript k => rw [visit, ih hrest]

theorem splitTextNode_unknown {us : List (Text × Text)}
    (hcut : Brackets.WellCut Js.isSpace us tail)
    (hnone : ∀ g ∈ us, citationNumbers numberFor g.2 = []) :
    superscripts (splitTextNode numberFor (Brackets.join us tail)) = [] := by
  rw [splitTextNode_eq, Brackets.groups_join hcut, nodesOf_superscripts, List.flatMap_eq_nil_iff]
  exact hnone

/-- The nodes of a text are settled: the text between two replaced groups is cut as before. -/
theorem nodesOf_settled {gs : List (Text × Text)} :
    ∀ us : List (Text × Text), Brackets.WellCut Js.isSpace (us ++ gs) tail →
      (∀ g ∈ us, citationNumbers numberFor g.2 = []) →
      Settled numberFor (nodesOf numberFor (Brackets.join us []) gs tail) := by
  have hnode : ∀ {us : List (Text × Text)} {t : Text}, Brackets.WellCut Js.isSpace us t →
      (∀ g ∈ us, citationNumbers numberFor g.2 = []) →
      Settled numberFor (textNode (Brackets.join us [] ++ t)) := by
    intro us t hcut hnone value hvalue
    have hjoin : Brackets.join us [] ++ t = Brackets.join us t := by
      simp [Brackets.join]
    rw [textNode, hjoin] at hvalue
    split at hvalue
    · cases hvalue
    · obtain rfl : value = Brackets.join us t := by simpa using hvalue
      exact splitTextNode_unknown hcut hnone
  induction gs with
  | nil =>
    intro us hcut hnone
    rw [List.append_nil] at hcut
    exact hnode hcut hnone
  | cons g gs ih =>
    intro us hcut hnone
    rw [nodesOf]
    split
    · next hg =>
      have hnext := ih (us ++ [g]) (by simpa using hcut) (by
        intro g' hg'
        rcases List.mem_append.mp hg' with hg' | hg'
        · exact hnone g' hg'
        · rw [List.mem_singleton.mp hg', hg])
      have hjoin : Brackets.join (us ++ [g]) [] =
          Brackets.join us [] ++ g.1 ++ Brackets.bracket g.2 := by simp [Brackets.join]
      rw [← hjoin]
      exact hnext
    · have hbefore : Brackets.WellCut Js.isSpace us g.1 :=
        ⟨fun g' hg' => hcut.1 g' (List.mem_append_left _ hg'),
          Brackets.cut_before (hcut.1 g (by simp))⟩
      have hafter := ih [] ⟨fun g' hg' => hcut.1 g' (by simp_all), hcut.2⟩
        fun g' hg' => absurd hg' List.not_mem_nil
      intro value hvalue
      simp only [List.mem_append, List.mem_map, reduceCtorEq, and_false, exists_false,
        or_false] at hvalue
      rcases hvalue with hvalue | hvalue
      · exact hnode hbefore hnone value hvalue
      · exact hafter value hvalue

theorem visit_text (n : Nat) (value : Text) :
    visit numberFor (n + 1) [.text value] =
      if superscripts (splitTextNode numberFor value) = [] then [.text value]
      else splitTextNode numberFor value := by
  have hsettled : Settled numberFor (splitTextNode numberFor value) := by
    rw [splitTextNode_eq]
    exact nodesOf_settled [] (Brackets.wellCut_groups value)
      fun g hg => absurd hg List.not_mem_nil
  rw [visit]
  by_cases hnone : superscripts (splitTextNode numberFor value) = []
  · rw [if_neg (by rw [any_isSuperscript, hnone]; simp), if_pos hnone]
    cases n <;> rfl
  · rw [if_pos (any_isSuperscript.mpr hnone), if_neg hnone, List.append_nil]
    generalize splitTextNode numberFor value = nodes at hsettled
    cases nodes with
    | nil => rfl
    | cons first rest =>
      exact congrArg (first :: ·)
        (visit_settled n fun v hv => hsettled v (List.mem_cons_of_mem _ hv))

end

/-! ## The numbers of the panel -/

section
open FirstSeen (position)

theorem get?_numberByPath (sources : List Text) (p : Text) :
    (numberByPath sources).get? p =
      if p ∈ sources then some (position sources p) else none := by
  have hloop : ∀ (sources : List Text) (k : Nat) (numbers : Dict Text Nat),
      ((sources.zipIdx k).foldl (fun numbers source =>
          if (numbers.get? source.1).isSome then numbers
          else numbers.set source.1 (source.2 + 1)) numbers).get? p =
        (numbers.get? p <|> if p ∈ sources then some (sources.idxOf p + k + 1) else none) := by
    intro sources
    induction sources with
    | nil => intro k numbers; simp
    | cons q sources ih =>
      intro k numbers
      rw [List.zipIdx_cons, List.foldl_cons, ih]
      by_cases hq : q = p
      · subst hq
        cases hget : numbers.get? q with
        | some n => simp [hget]
        | none => simp
      · have hrest : (if p ∈ sources then some (sources.idxOf p + (k + 1) + 1) else none) =
            if p ∈ q :: sources then some ((q :: sources).idxOf p + k + 1) else none := by
          simp only [List.mem_cons, Ne.symm hq, false_or, List.idxOf_cons_ne _ hq]
          congr 2
          omega
        rw [hrest]
        congr 1
        split
        · rfl
        · exact Dict.get?_set_ne _ _ (Ne.symm hq)
  rw [numberByPath, hloop]
  rfl

def shownPieces (body : Text) : List Text :=
  (finditer citationMarker body).flatMap fun m =>
    (Text.splitOn ',' (m.groups.headD [])).map Js.trim

theorem citationNumbers_eq (sources : List Text) (inner : Text) :
    citationNumbers (numberByPath sources).get? inner =
      (((Text.splitOn ',' inner).map Js.trim).filter (· ∈ sources)).map (position sources) := by
  rw [citationNumbers]
  induction Text.splitOn ',' inner with
  | nil => rfl
  | cons piece pieces ih =>
    rw [List.filterMap_cons, get?_numberByPath, ih, List.map_cons]
    by_cases hmem : Js.trim piece ∈ sources
    · rw [if_pos hmem, List.filter_cons_of_pos (by simpa using hmem), List.map_cons]
    · rw [if_neg hmem, List.filter_cons_of_neg (by simpa using hmem)]

theorem flatMap_finditer_bracketRe {space : Char → Bool} (f : Text → List Text) (body : Text) :
    ((finditer (Brackets.bracketRe space) body).flatMap fun m => f (m.groups.headD [])) =
      (Brackets.groups space body).1.flatMap fun g => f g.2 := by
  have hinner := congrArg (List.flatMap f) (Brackets.map_groups_matchesOf []
    (Brackets.groups space body).1 (Brackets.groups space body).2)
  rwa [List.flatMap_map, List.flatMap_map, ← Brackets.finditer_bracketRe] at hinner

theorem shownPieces_eq (body : Text) :
    shownPieces body = (Brackets.groups Js.isSpace body).1.flatMap fun g =>
      (Text.splitOn ',' g.2).map Js.trim :=
  flatMap_finditer_bracketRe (fun inner => (Text.splitOn ',' inner).map Js.trim) body

theorem citedPieces_eq (body : Text) :
    citedPieces body = ((Brackets.groups Text.isSpace body).1.flatMap fun g =>
      (Text.splitOn ',' g.2).map Text.strip).filter fun piece => piece ≠ [] :=
  congrArg (List.filter _)
    (flatMap_finditer_bracketRe (fun inner => (Text.splitOn ',' inner).map Text.strip) body)

/-- The superscripts are the numbers of the known pieces. -/
theorem superscripts_remarkCitations (sources : List Text) (body : Text) :
    superscripts (remarkCitations sources body) =
      ((shownPieces body).filter (· ∈ sources)).map (position sources) := by
  have hsplit : superscripts (splitTextNode (numberByPath sources).get? body) =
      ((shownPieces body).filter (· ∈ sources)).map (position sources) := by
    rw [splitTextNode_eq, nodesOf_superscripts, shownPieces_eq, List.filter_flatMap,
      List.map_flatMap]
    exact congrArg (List.flatMap · _) (funext fun g => citationNumbers_eq sources g.2)
  rw [remarkCitations, visit_text]
  split
  · next hnone => rw [← hsplit, hnone]; rfl
  · exact hsplit

/-- Only the groups with a known piece are replaced; all other text stays, in its order. -/
theorem glyphs_remarkCitations (sources : List Text) (body : Text) :
    (remarkCitations sources body).flatMap Phrasing.glyphs =
      (Brackets.groups Js.isSpace body).1.flatMap (groupGlyphs (numberByPath sources).get?) ++
        glyphs (Brackets.groups Js.isSpace body).2 := by
  rw [remarkCitations, visit_text]
  split
  · next hnone =>
    rw [splitTextNode_eq, nodesOf_superscripts, List.flatMap_eq_nil_iff] at hnone
    have hgroup : ∀ g ∈ (Brackets.groups Js.isSpace body).1,
        groupGlyphs (numberByPath sources).get? g = glyphs (g.1 ++ Brackets.bracket g.2) := by
      intro g hg
      rw [groupGlyphs, if_pos (hnone g hg), glyphs_append]
    have hall : (Brackets.groups Js.isSpace body).1.flatMap
        (groupGlyphs (numberByPath sources).get?) =
          glyphs ((Brackets.groups Js.isSpace body).1.flatMap fun g =>
            g.1 ++ Brackets.bracket g.2) := by
      rw [glyphs, List.map_flatMap, List.flatMap_congr hgroup]
      rfl
    rw [hall, ← glyphs_append]
    exact (List.flatMap_singleton ..).trans (congrArg glyphs (Brackets.join_groups body).symm)
  · rw [splitTextNode_eq, nodesOf_glyphs]
    rfl

/-! ## The page and the worker -/

theorem sourcePathOf_citationDump {c : Citation} (h : c.sourcePath ≠ []) :
    sourcePathOf (citationDump c) = some c.sourcePath := by
  have hget : (citationDump c).get? "source_path".toList = some (.str c.sourcePath) := rfl
  rw [sourcePathOf, hget]
  exact if_neg h

theorem distinctSources_citationDump {cited : List Citation}
    (h : ∀ c ∈ cited, c.sourcePath ≠ []) :
    distinctSources (cited.map citationDump) = (cited.map (·.sourcePath)).eraseDups := by
  rw [distinctSources, List.foldl_map, ← FirstSeen.foldl_firstSeen, List.foldl_map]
  refine List.foldl_ext _ _ _ fun ordered c hc => ?_
  rw [sourcePathOf_citationDump (h c hc)]

variable {body p : Text} {chunks : List Chunk} {sources pieces : List Text}

theorem mem_occurrences_ne_nil (h : p ∈ occurrences body chunks) : p ≠ [] :=
  of_decide_eq_true (List.mem_filter.mp (List.mem_of_mem_filter h)).2

theorem distinctSources_extractCitations (body : Text) (chunks : List Chunk) :
    distinctSources ((Generate.extractCitations body chunks).map citationDump) =
      (occurrences body chunks).eraseDups := by
  have hpaths : (Generate.extractCitations body chunks).map (·.sourcePath) =
      (occurrences body chunks).eraseDups := by
    rw [Generate.extractCitations_eq, List.map_map]
    exact List.map_id _
  have hne : ∀ c ∈ Generate.extractCitations body chunks, c.sourcePath ≠ [] := by
    intro c hc
    have hmem : c.sourcePath ∈ (occurrences body chunks).eraseDups :=
      hpaths ▸ List.mem_map_of_mem hc
    exact mem_occurrences_ne_nil (List.mem_eraseDups.mp hmem)
  rw [distinctSources_citationDump hne, hpaths,
    FirstSeen.eraseDups_of_nodup (FirstSeen.nodup_eraseDups _)]

def piecesOf (gs : List (Text × Text)) : List Text := gs.flatMap fun g => Text.splitOn ',' g.2

/-- Beside a cited path there is whitespace of both languages only, within its piece, and the path
has none of JavaScript at its own ends. -/
structure EvenlyPadded (sources pieces : List Text) : Prop where
  ends : ∀ p ∈ sources, Js.trim p = p
  beside : ∀ r ∈ pieces, ∀ p ∈ sources, ∀ a b, r = a ++ p ++ b →
    ((∀ c ∈ a ++ b, Text.isSpace c = true) ↔ ∀ c ∈ a ++ b, Js.isSpace c = true)

/-- Every piece has the superscript of the path the worker reads in it, if that is cited. -/
def MarkedAlike (sources pieces : List Text) : Prop :=
  ∀ r ∈ pieces,
    (numberByPath sources).get? (Js.trim r) = (numberByPath sources).get? (Text.strip r)

theorem get?_numberByPath_eq_iff {q : Text} :
    (numberByPath sources).get? p = (numberByPath sources).get? q ↔
      ∀ x ∈ sources, p = x ↔ q = x := by
  rw [get?_numberByPath, get?_numberByPath]
  constructor
  · intro h x hx
    constructor
    · rintro rfl
      rw [if_pos hx] at h
      split at h
      · next hq => exact (FirstSeen.position_injective hx (Option.some.inj h)).symm
      · cases h
    · rintro rfl
      rw [if_pos hx] at h
      split at h
      · next hp => exact FirstSeen.position_injective hp (Option.some.inj h)
      · cases h
  · intro h
    by_cases hp : p ∈ sources
    · rw [(h p hp).1 rfl]
    · by_cases hq : q ∈ sources
      · exact absurd ((h q hq).2 rfl ▸ hq) hp
      · rw [if_neg hp, if_neg hq]

theorem markedAlike_iff (hsources : ∀ p ∈ sources, p ≠ [] ∧ ∃ r ∈ pieces, Text.strip r = p) :
    MarkedAlike sources pieces ↔ EvenlyPadded sources pieces := by
  have hstrip : ∀ p ∈ sources, Text.trimBy Text.isSpace p = p := by
    intro p hp
    obtain ⟨-, r, -, rfl⟩ := hsources p hp
    exact Text.trimBy_trimBy r
  constructor
  · intro h
    have hends : ∀ p ∈ sources, Text.trimBy Js.isSpace p = p := by
      intro p hp
      obtain ⟨-, r, hr, hrp⟩ := hsources p hp
      have htrim : Js.trim r = p := (get?_numberByPath_eq_iff.1 (h r hr) p hp).2 hrp
      rw [← htrim]
      exact Text.trimBy_trimBy r
    refine ⟨hends, fun r hr p hp a b hrab => ?_⟩
    have hne := (hsources p hp).1
    have hsame := get?_numberByPath_eq_iff.1 (h r hr) p hp
    subst hrab
    exact (Text.trimBy_append_eq hne (hstrip p hp)).symm.trans
      (hsame.symm.trans (Text.trimBy_append_eq hne (hends p hp)))
  · intro h r hr
    refine get?_numberByPath_eq_iff.2 fun p hp => ⟨fun htrim => ?_, fun hstripped => ?_⟩
    · obtain ⟨a, b, hrab, hspace⟩ := Text.trimBy_split Js.isSpace r
      have hrp : r = a ++ p ++ b := htrim ▸ hrab
      rw [hrp]
      exact (Text.trimBy_append_eq (hsources p hp).1 (hstrip p hp)).2
        ((h.beside r hr p hp a b hrp).2 hspace)
    · obtain ⟨a, b, hrab, hspace⟩ := Text.trimBy_split Text.isSpace r
      have hrp : r = a ++ p ++ b := hstripped ▸ hrab
      rw [hrp]
      exact (Text.trimBy_append_eq (hsources p hp).1 (h.ends p hp)).2
        ((h.beside r hr p hp a b hrp).1 hspace)

theorem filter_mem_of_markedAlike (h : MarkedAlike sources pieces) :
    (pieces.map Js.trim).filter (· ∈ sources) = (pieces.map Text.strip).filter (· ∈ sources) := by
  induction pieces with
  | nil => rfl
  | cons r pieces ih =>
    have hrest := ih fun r' hr' => h r' (List.mem_cons_of_mem r hr')
    have hsame := get?_numberByPath_eq_iff.1 (h r List.mem_cons_self)
    rw [List.map_cons, List.map_cons, List.filter_cons, List.filter_cons, hrest]
    by_cases htrim : Js.trim r ∈ sources
    · rw [(hsame _ htrim).1 rfl]
    · have hstrip : Text.strip r ∉ sources := fun hmem => htrim ((hsame _ hmem).2 rfl ▸ hmem)
      simp [htrim, hstrip]

/-- Where no `[` stands before a character that is whitespace in one language only, both languages
see the same groups. -/
theorem occurrences_eq_filter (hopen : ∀ c, ['[', c] <:+: body → Js.isSpace c = Text.isSpace c)
    (hsources : ∀ p, p ∈ sources ↔ p ∈ occurrences body chunks) :
    occurrences body chunks =
      ((piecesOf (Brackets.groups Js.isSpace body).1).map Text.strip).filter (· ∈ sources) := by
  have hne : ∀ p, p ∈ sources → p ≠ [] := fun p hp => mem_occurrences_ne_nil ((hsources p).1 hp)
  have hpieces : citedPieces body =
      ((piecesOf (Brackets.groups Js.isSpace body).1).map Text.strip).filter (· ≠ []) := by
    rw [citedPieces_eq, Brackets.groups_congr hopen, piecesOf, List.map_flatMap]
  have hknown : occurrences body chunks = (citedPieces body).filter (· ∈ sources) := by
    refine List.filter_congr fun p hp => decide_eq_decide.2 ?_
    rw [hsources, occurrences, List.mem_filter, decide_eq_true_iff]
    exact (and_iff_right hp).symm
  rw [hknown, hpieces, List.filter_filter]
  refine List.filter_congr fun p _ => ?_
  simpa using hne p

end

end Archiviste.Frontend
