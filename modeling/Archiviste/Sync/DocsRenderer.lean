import Mathlib.Data.List.Flatten
import Archiviste.Base.Dict
import Archiviste.Base.Escape
import Archiviste.Sync.Model

/-!
# Archiviste.Sync.DocsRenderer

The Markdown of a document of the Docs API. Paragraphs and table rows are built from the fragments
of their elements, but a page break or a rule is appended to the output where it is met, before the
line it stands in; and a table cell is searched for paragraphs only.

The output lines are kept with what they are made of, so that the text is a function of them.

* `Item`, `docItems`            — what a reader should find, in the order of the document.
* `nonSpace_renderDocMarkdown`  — whitespace apart, the text is the pieces of the lines.
* `items_kept_iff`              — the pieces have the items of the document exactly when no table
  nested in a cell has any, and no rule follows another item in its paragraph or row.
-/

namespace Archiviste.Sync
namespace DocsRenderer

/-! ## Documents -/

structure TextStyle where
  linkUrl : Option Text
  bold : Bool
  italic : Bool

structure TextRun where
  content : Text
  style : TextStyle

inductive Element where
  | textRun (run : TextRun)
  | inlineObject (inlineObjectId : Text)
  | pageBreak
  | horizontalRule

structure Paragraph where
  namedStyleType : Text
  bullet : Bool
  elements : List Element

mutual

inductive Block where
  | paragraph (p : Paragraph)
  | table (rows : List Row)
  | other

inductive Row where
  | mk (cells : List Cell)

inductive Cell where
  | mk (content : List Block)

end

structure Resolution where
  kind : ResolutionKind
  relPath : Option Text
  alt : Option Text

abbrev Resolutions := Dict Text Resolution

structure Document where
  content : List Block
  positionedObjects : List Text

/-! ## Fragments -/

def headingPrefix : List (Text × Text) :=
  [("HEADING_1".toList, "# ".toList), ("TITLE".toList, "# ".toList),
    ("HEADING_2".toList, "## ".toList), ("SUBTITLE".toList, "## ".toList),
    ("HEADING_3".toList, "### ".toList), ("HEADING_4".toList, "#### ".toList),
    ("HEADING_5".toList, "##### ".toList), ("HEADING_6".toList, "###### ".toList)]

/-- `s.rstrip("\n")`. -/
def rstripNewlines (t : Text) : Text := t.rdropWhile (· == '\n')

def renderTextRun (run : TextRun) : Text :=
  let content := rstripNewlines (Text.replaceChar (Char.ofNat 11) "  \n".toList run.content)
  if content = [] then []
  else
    match run.style.linkUrl.filter (· ≠ []), run.style.bold, run.style.italic with
    | some url, _, _ => '[' :: content ++ "](".toList ++ url ++ [')']
    | none, true, true => "***".toList ++ content ++ "***".toList
    | none, true, false => "**".toList ++ content ++ "**".toList
    | none, false, true => '*' :: content ++ ['*']
    | none, false, false => content

def imageRef (resolutions : Resolutions) (objId : Text) : Text :=
  match resolutions.get? objId with
  | none => []
  | some r =>
    match r.kind, r.relPath with
    | .ok, some relPath => "![".toList ++ r.alt.getD [] ++ "](".toList ++ relPath ++ [')']
    | .oversized, _ => "![image trop volumineuse](#oversized-".toList ++ objId ++ [')']
    | _, _ => "![image indisponible](#image-failed-".toList ++ objId ++ [')']

inductive Part where
  | run (r : TextRun)
  | image (objId : Text)

inductive Line where
  | rule
  | text (lead : Text) (parts : List Part)
  | blank
  | row (cells : List (List (List Part)))
  | separator (columns : Nat)
  | image (part : Part)

section Render

variable (resolutions : Resolutions)

def Part.text : Part → Text
  | .run r => renderTextRun r
  | .image objId => imageRef resolutions objId

def partsText (parts : List Part) : Text := parts.flatMap (Part.text resolutions)

def cellText (paragraphs : List (List Part)) : Text :=
  Text.strip (Text.join [' '] (paragraphs.map fun parts => Text.strip (partsText resolutions parts)))

def Line.toText : Line → Text
  | .rule => "\n---\n".toList
  | .text lead parts => lead ++ rstripNewlines (partsText resolutions parts)
  | .blank => []
  | .row cells =>
    "| ".toList ++ Text.join " | ".toList (cells.map (cellText resolutions)) ++ " |".toList
  | .separator columns =>
    "| ".toList ++ Text.join " | ".toList (List.replicate columns "---".toList) ++ " |".toList
  | .image part => part.text resolutions

/-! ## The renderer -/

/-- `_render_element`: the lines it appends to the output, and its fragment. -/
def renderElement : Element → List Line × Option Part
  | .textRun r => ([], some (.run r))
  | .inlineObject objId => ([], some (.image objId))
  | .pageBreak => ([.rule], none)
  | .horizontalRule => ([.rule], none)

/-- The loop over the elements of a paragraph, which keeps the fragments that are not empty. -/
def renderElements : List Element → List Line × List Part
  | [] => ([], [])
  | el :: els =>
    let (out, part) := renderElement el
    let (outs, parts) := renderElements els
    (out ++ outs, (part.filter fun p => p.text resolutions ≠ []).toList ++ parts)

def paragraphLead (p : Paragraph) : Text :=
  if p.bullet then "- ".toList else (headingPrefix.lookup p.namedStyleType).getD []

def renderParagraph (p : Paragraph) : List Line :=
  let (out, parts) := renderElements resolutions p.elements
  if Text.strip (rstripNewlines (partsText resolutions parts)) ≠ [] then
    out ++ [.text (paragraphLead p) parts]
  else if parts = [] then out ++ [.blank]
  else out

def renderCellBlocks : List Block → List Line × List (List Part)
  | [] => ([], [])
  | .paragraph p :: blocks =>
    let (out, parts) := renderElements resolutions p.elements
    let (outs, cellParts) := renderCellBlocks blocks
    (out ++ outs, parts :: cellParts)
  | _ :: blocks => renderCellBlocks blocks

def renderCells : List Cell → List Line × List (List (List Part))
  | [] => ([], [])
  | .mk content :: cells =>
    let (out, cellParts) := renderCellBlocks resolutions content
    let (outs, rowCells) := renderCells cells
    (out ++ outs, cellParts :: rowCells)

def renderRow (rowIndex : Nat) : Row → List Line
  | .mk cells =>
    let (out, rowCells) := renderCells resolutions cells
    out ++ [.row rowCells] ++ if rowIndex = 0 then [.separator rowCells.length] else []

def renderTable (rows : List Row) : List Line :=
  rows.zipIdx.flatMap fun row => renderRow resolutions row.2 row.1

def renderStructuralElement : Block → List Line
  | .paragraph p => renderParagraph resolutions p
  | .table rows => renderTable resolutions rows
  | .other => []

def renderPositionedObjects (positioned : List Text) : List Line :=
  (positioned.filter fun objId => imageRef resolutions objId ≠ []).map fun objId =>
    .image (.image objId)

def render (doc : Document) : List Line :=
  doc.content.flatMap (renderStructuralElement resolutions) ++
    renderPositionedObjects resolutions doc.positionedObjects

def renderDocMarkdown (doc : Document) : Text :=
  Text.strip (Text.join ['\n'] ((render resolutions doc).map (Line.toText resolutions)))

/-! ## What a reader should find -/

inductive Item where
  | run (r : TextRun)
  | image (objId : Text)
  | rule

def elementItems : Element → List Item
  | .textRun r => if Text.strip r.content = [] then [] else [.run r]
  | .inlineObject objId => if resolutions.get? objId = none then [] else [.image objId]
  | .pageBreak => [.rule]
  | .horizontalRule => [.rule]

def paragraphItems (p : Paragraph) : List Item := p.elements.flatMap (elementItems resolutions)

mutual

def blockItems : Block → List Item
  | .paragraph p => paragraphItems resolutions p
  | .table rows => rowsItems rows
  | .other => []

def rowsItems : List Row → List Item
  | [] => []
  | row :: rows => rowItems row ++ rowsItems rows

def rowItems : Row → List Item
  | .mk cells => cellsItems cells

def cellsItems : List Cell → List Item
  | [] => []
  | .mk content :: cells => blocksItems content ++ cellsItems cells

def blocksItems : List Block → List Item
  | [] => []
  | block :: blocks => blockItems block ++ blocksItems blocks

end

/-- The items of the body in their order, then the positioned objects. -/
def docItems (doc : Document) : List Item :=
  blocksItems resolutions doc.content ++
    (doc.positionedObjects.filter fun objId => (resolutions.get? objId).isSome).map .image

/-! ## What the lines hold -/

/-- A piece of the output: markup of a line, a fragment or a rule. -/
inductive Piece where
  | mark (t : Text)
  | part (p : Part)
  | rule

def Piece.text : Piece → Text
  | .mark t => t
  | .part p => p.text resolutions
  | .rule => "---".toList

def Piece.items : Piece → List Item
  | .mark _ => []
  | .part (.run r) => if Text.strip r.content = [] then [] else [.run r]
  | .part (.image objId) => [.image objId]
  | .rule => [.rule]

def barred : List (List Piece) → List Piece
  | [] => []
  | [c] => c
  | c :: d :: cs => c ++ .mark ['|'] :: barred (d :: cs)

def Line.pieces : Line → List Piece
  | .rule => [.rule]
  | .text lead parts => .mark lead :: parts.map .part
  | .blank => []
  | .row cells =>
    .mark ['|'] ::
      (barred (cells.map fun paragraphs => paragraphs.flatten.map .part) ++ [.mark ['|']])
  | .separator columns => [.mark (Line.toText resolutions (.separator columns))]
  | .image part => [.part part]

def pieces (doc : Document) : List Piece :=
  (render resolutions doc).flatMap (Line.pieces resolutions)

end Render

/-! ## The text -/

def nonSpace (t : Text) : Text := t.filter fun c => !Text.isSpace c

theorem nonSpace_append (s t : Text) : nonSpace (s ++ t) = nonSpace s ++ nonSpace t :=
  List.filter_append ..

variable {α : Type} {p : Char → Bool} {l : List α}

theorem nonSpace_flatMap (f : α → Text) (l : List α) :
    nonSpace (l.flatMap f) = l.flatMap fun a => nonSpace (f a) := List.filter_flatMap ..

theorem nonSpace_eq_nil {t : Text} : nonSpace t = [] ↔ Text.strip t = [] := by
  rw [Text.strip_eq_nil, nonSpace, List.filter_eq_nil_iff]
  simp

theorem nonSpace_dropWhile (hp : ∀ c, p c = true → Text.isSpace c = true) (t : Text) :
    nonSpace (t.dropWhile p) = nonSpace t := by
  induction t with
  | nil => rfl
  | cons c t ih =>
    by_cases hc : p c = true
    · rw [List.dropWhile_cons_of_pos hc, ih]
      simp [nonSpace, hp c hc]
    · rw [List.dropWhile_cons_of_neg hc]

theorem nonSpace_reverse (t : Text) : nonSpace t.reverse = (nonSpace t).reverse :=
  List.filter_reverse ..

theorem nonSpace_rdropWhile (hp : ∀ c, p c = true → Text.isSpace c = true) (t : Text) :
    nonSpace (t.rdropWhile p) = nonSpace t := by
  rw [List.rdropWhile, nonSpace_reverse, nonSpace_dropWhile hp, nonSpace_reverse,
    List.reverse_reverse]

theorem nonSpace_strip (t : Text) : nonSpace (Text.strip t) = nonSpace t := by
  have hright : nonSpace (Text.strip t) = nonSpace (Text.lstrip t) :=
    nonSpace_rdropWhile (fun _ h => h) _
  rw [hright, Text.lstrip, nonSpace_dropWhile fun _ h => h]

theorem nonSpace_rstripNewlines (t : Text) : nonSpace (rstripNewlines t) = nonSpace t := by
  refine nonSpace_rdropWhile (fun c hc => ?_) t
  obtain rfl : c = '\n' := by simpa using hc
  decide

theorem nonSpace_join (sep : Text) (ts : List Text) :
    nonSpace (Text.join sep ts) = Text.join (nonSpace sep) (ts.map nonSpace) := by
  fun_induction Text.join sep ts with
  | case1 => rfl
  | case2 p => rfl
  | case3 p q ps ih =>
    rw [nonSpace_append, nonSpace_append, ih]
    rfl

theorem join_nil (ts : List Text) : Text.join [] ts = ts.flatten := by
  fun_induction Text.join [] ts with
  | case1 => rfl
  | case2 p => simp
  | case3 p q ps ih => simpa using ih

section Text

variable (resolutions : Resolutions)

def Piece.shown (p : Piece) : Text := nonSpace (p.text resolutions)

theorem nonSpace_cellText (paragraphs : List (List Part)) :
    nonSpace (cellText resolutions paragraphs) =
      (paragraphs.flatten.map Piece.part).flatMap (Piece.shown resolutions) := by
  rw [cellText, nonSpace_strip, nonSpace_join, show nonSpace [' '] = [] from rfl, join_nil]
  induction paragraphs with
  | nil => rfl
  | cons parts paragraphs ih =>
    simp only [List.map_cons, List.flatten_cons, List.map_append, List.flatMap_append] at ih ⊢
    rw [ih, nonSpace_strip, partsText, nonSpace_flatMap]
    simp only [List.flatMap_map]
    rfl

theorem barred_shown (cells : List (List Piece)) :
    (barred cells).flatMap (Piece.shown resolutions) =
      Text.join ['|'] (cells.map fun c => c.flatMap (Piece.shown resolutions)) := by
  fun_induction barred cells with
  | case1 => rfl
  | case2 c => rfl
  | case3 c d cs ih =>
    rw [List.flatMap_append, List.flatMap_cons, ih]
    simp [Text.join, Piece.shown, Piece.text, nonSpace, show Text.isSpace '|' = false by decide]

theorem nonSpace_row (lead sep close : Text) (hlead : nonSpace lead = ['|'])
    (hsep : nonSpace sep = ['|']) (hclose : nonSpace close = ['|']) (cells : List Text) :
    nonSpace (lead ++ Text.join sep cells ++ close) =
      '|' :: (Text.join ['|'] (cells.map nonSpace) ++ ['|']) := by
  rw [nonSpace_append, nonSpace_append, nonSpace_join, hlead, hsep, hclose]
  rfl

theorem nonSpace_toText (line : Line) :
    nonSpace (line.toText resolutions) =
      (line.pieces resolutions).flatMap (Piece.shown resolutions) := by
  cases line with
  | rule =>
    have hrule : nonSpace "\n---\n".toList = nonSpace "---".toList := by decide
    exact hrule.trans (List.append_nil _).symm
  | text lead parts =>
    show nonSpace (lead ++ rstripNewlines (partsText resolutions parts)) =
      (Piece.mark lead :: parts.map .part).flatMap (Piece.shown resolutions)
    rw [nonSpace_append, nonSpace_rstripNewlines, partsText, nonSpace_flatMap, List.flatMap_cons,
      List.flatMap_map]
    rfl
  | blank => rfl
  | row cells =>
    have hrow := nonSpace_row "| ".toList " | ".toList " |".toList (by decide) (by decide)
      (by decide) (cells.map (cellText resolutions))
    refine hrow.trans ?_
    show _ = (Piece.mark ['|'] :: (barred (cells.map fun paragraphs =>
      paragraphs.flatten.map .part) ++ [.mark ['|']])).flatMap (Piece.shown resolutions)
    rw [List.flatMap_cons, List.flatMap_append, barred_shown, List.map_map, List.map_map]
    simp only [Function.comp_def, nonSpace_cellText]
    rfl
  | separator columns => exact (List.append_nil _).symm
  | image part => exact (List.append_nil _).symm

theorem nonSpace_renderDocMarkdown (doc : Document) :
    nonSpace (renderDocMarkdown resolutions doc) =
      (pieces resolutions doc).flatMap (Piece.shown resolutions) := by
  rw [renderDocMarkdown, nonSpace_strip, nonSpace_join, show nonSpace ['\n'] = [] from rfl, join_nil,
    pieces, List.flatMap_assoc, List.map_map, ← List.flatMap_def]
  simp only [Function.comp_def, nonSpace_toText]

theorem shown_infix {doc : Document} {p : Piece} (h : p ∈ pieces resolutions doc) :
    p.shown resolutions <:+: nonSpace (renderDocMarkdown resolutions doc) := by
  rw [nonSpace_renderDocMarkdown, List.flatMap_def]
  exact List.infix_of_mem_flatten (List.mem_map_of_mem h)

end Text

/-! ## The items -/

def Item.isRule : Item → Bool
  | .rule => true
  | _ => false

/-- What the renderer makes of the items of a paragraph or a row: the rules come first. -/
def hoisted (items : List Item) : List Item :=
  items.filter Item.isRule ++ items.filter fun i => !i.isRule

def Part.items (p : Part) : List Item := (Piece.part p).items

section Items

variable (resolutions : Resolutions)

def Line.items (line : Line) : List Item := (line.pieces resolutions).flatMap Piece.items

theorem nonSpace_content (r : TextRun) :
    nonSpace (rstripNewlines (Text.replaceChar (Char.ofNat 11) "  \n".toList r.content)) =
      nonSpace r.content := by
  rw [nonSpace_rstripNewlines, Text.replaceChar, nonSpace_flatMap]
  induction r.content with
  | nil => rfl
  | cons c t ih =>
    rw [List.flatMap_cons, ih]
    by_cases hc : c = Char.ofNat 11
    · subst hc
      simp [nonSpace, show Text.isSpace (Char.ofNat 11) = true by decide,
        show Text.isSpace ' ' = true by decide, show Text.isSpace '\n' = true by decide]
    · rw [if_neg hc]
      exact (nonSpace_append [c] t).symm

theorem nonSpace_renderTextRun {r : TextRun} (h : Text.strip r.content ≠ []) :
    nonSpace (renderTextRun r) ≠ [] := by
  rw [ne_eq, ← nonSpace_eq_nil, ← nonSpace_content r] at h
  unfold renderTextRun
  generalize rstripNewlines (Text.replaceChar (Char.ofNat 11) "  \n".toList r.content) = t at h
  have hne : t ≠ [] := by
    rintro rfl
    exact h rfl
  have hmid : ∀ a b : Text, nonSpace (a ++ t ++ b) ≠ [] := by
    intro a b hnil
    rw [nonSpace_append, nonSpace_append] at hnil
    exact h (List.append_eq_nil_iff.mp (List.append_eq_nil_iff.mp hnil).1).2
  simp only [hne, if_false]
  split
  · rw [List.append_assoc, List.append_assoc]
    exact hmid ['['] _
  · exact hmid _ _
  · exact hmid _ _
  · exact hmid ['*'] ['*']
  · exact h

variable {objId : Text} {p : Part}

theorem imageRef_eq_nil : imageRef resolutions objId = [] ↔ resolutions.get? objId = none := by
  unfold imageRef
  cases resolutions.get? objId with
  | none => simp
  | some r => rcases r with ⟨_ | _ | _, _ | path, alt⟩ <;> simp

theorem imageRef_starts (h : imageRef resolutions objId ≠ []) :
    ∃ t, imageRef resolutions objId = '!' :: t := by
  unfold imageRef at h ⊢
  cases hget : resolutions.get? objId with
  | none => simp [hget] at h
  | some r => rcases r with ⟨_ | _ | _, _ | path, alt⟩ <;> exact ⟨_, rfl⟩

theorem nonSpace_part (htext : p.text resolutions ≠ []) (h : p.items ≠ []) :
    nonSpace (p.text resolutions) ≠ [] := by
  cases p with
  | run r =>
    refine nonSpace_renderTextRun fun hblank => h ?_
    simp [Part.items, Piece.items, hblank]
  | image objId =>
    obtain ⟨t, ht⟩ := imageRef_starts resolutions htext
    rw [Part.text, ht]
    simp [nonSpace, show Text.isSpace '!' = false by decide]

theorem text_run (r : TextRun) : (Part.run r).text resolutions = renderTextRun r := rfl

theorem text_image (objId : Text) :
    (Part.image objId).text resolutions = imageRef resolutions objId := rfl

theorem filter_text (h : p.text resolutions ≠ []) :
    (some p).filter (fun p => p.text resolutions ≠ []) = some p := by
  simp [Option.filter, h]

theorem renderElement_items (el : Element) :
    (renderElement el).1.flatMap (Line.items resolutions) =
        (elementItems resolutions el).filter Item.isRule ∧
      (((renderElement el).2.filter fun p => p.text resolutions ≠ []).toList).flatMap Part.items =
        (elementItems resolutions el).filter fun i => !i.isRule := by
  cases el with
  | textRun r =>
    by_cases hblank : Text.strip r.content = []
    · refine ⟨by simp [renderElement, elementItems, hblank], ?_⟩
      -- a blank fragment may be written, but holds no item
      by_cases htext : renderTextRun r = []
      · simp [renderElement, elementItems, hblank, text_run, htext]
      · simp [renderElement, elementItems, hblank, text_run, htext, Part.items, Piece.items]
    · have htext : renderTextRun r ≠ [] := by
        intro hnil
        exact nonSpace_renderTextRun hblank (by rw [hnil]; rfl)
      have hkept := filter_text resolutions (p := .run r) htext
      refine ⟨by simp [renderElement, elementItems, hblank, Item.isRule], ?_⟩
      simp only [renderElement, hkept]
      simp [elementItems, hblank, Part.items, Piece.items, Item.isRule]
  | inlineObject objId =>
    by_cases hget : resolutions.get? objId = none
    · have htext := (imageRef_eq_nil resolutions).mpr hget
      simp [renderElement, elementItems, hget, text_image, htext]
    · have htext := mt (imageRef_eq_nil resolutions).mp hget
      have hkept := filter_text resolutions (p := .image objId) htext
      refine ⟨by simp [renderElement, elementItems, hget, Item.isRule], ?_⟩
      simp only [renderElement, hkept]
      simp [elementItems, hget, Part.items, Piece.items, Item.isRule]
  | pageBreak => exact ⟨rfl, rfl⟩
  | horizontalRule => exact ⟨rfl, rfl⟩

theorem renderElements_items (els : List Element) :
    (renderElements resolutions els).1.flatMap (Line.items resolutions) =
        (els.flatMap (elementItems resolutions)).filter Item.isRule ∧
      (renderElements resolutions els).2.flatMap Part.items =
        (els.flatMap (elementItems resolutions)).filter fun i => !i.isRule := by
  induction els with
  | nil => exact ⟨rfl, rfl⟩
  | cons el els ih =>
    obtain ⟨hout, hpart⟩ := renderElement_items resolutions el
    simp only [renderElements, List.flatMap_append, List.flatMap_cons, List.filter_append, hout,
      hpart, ih.1, ih.2, and_self]

/-- Fragments of a paragraph that is not written hold nothing. -/
theorem renderElements_texts (els : List Element) :
    ∀ p ∈ (renderElements resolutions els).2, p.text resolutions ≠ [] := by
  induction els with
  | nil => simp [renderElements]
  | cons el els ih =>
    intro p hp
    simp only [renderElements, List.mem_append, Option.mem_toList,
      Option.filter_eq_some_iff] at hp
    rcases hp with ⟨-, hp⟩ | hp
    · simpa using hp
    · exact ih p hp

theorem text_items (lead : Text) (parts : List Part) :
    Line.items resolutions (.text lead parts) = parts.flatMap Part.items := by
  rw [Line.items, Line.pieces, List.flatMap_cons, List.flatMap_map]
  rfl

theorem renderParagraph_items (p : Paragraph) :
    (renderParagraph resolutions p).flatMap (Line.items resolutions) =
      hoisted (paragraphItems resolutions p) := by
  obtain ⟨hout, hparts⟩ := renderElements_items resolutions p.elements
  have htexts := renderElements_texts resolutions p.elements
  unfold renderParagraph
  generalize renderElements resolutions p.elements = r at *
  obtain ⟨out, parts⟩ := r
  dsimp only at hout hparts htexts ⊢
  rw [hoisted, paragraphItems, ← hout, ← hparts]
  split
  case isTrue hshown =>
    rw [List.flatMap_append, List.flatMap_singleton, text_items]
  case isFalse hblank =>
    -- nothing is written of the fragments, and they hold nothing
    have hnone : parts.flatMap Part.items = [] := by
      rw [ne_eq, not_not, ← nonSpace_eq_nil, nonSpace_rstripNewlines, partsText, nonSpace_flatMap,
        List.flatMap_eq_nil_iff] at hblank
      rw [List.flatMap_eq_nil_iff]
      intro part hpart
      by_contra hitems
      exact nonSpace_part resolutions (htexts part hpart) hitems (hblank part hpart)
    rw [hnone, List.append_nil]
    split
    · simp [Line.items, Line.pieces]
    · rfl

/-! ### Tables -/

def directItems : Block → List Item
  | .paragraph p => paragraphItems resolutions p
  | _ => []

def Cell.content : Cell → List Block
  | .mk content => content

def Row.cells : Row → List Cell
  | .mk cells => cells

def rowDirectItems (row : Row) : List Item :=
  row.cells.flatMap fun cell => cell.content.flatMap (directItems resolutions)

theorem renderCellBlocks_items (blocks : List Block) :
    (renderCellBlocks resolutions blocks).1.flatMap (Line.items resolutions) =
        (blocks.flatMap (directItems resolutions)).filter Item.isRule ∧
      (renderCellBlocks resolutions blocks).2.flatten.flatMap Part.items =
        (blocks.flatMap (directItems resolutions)).filter fun i => !i.isRule := by
  induction blocks with
  | nil => exact ⟨rfl, rfl⟩
  | cons block blocks ih =>
    cases block with
    | paragraph p =>
      obtain ⟨hout, hparts⟩ := renderElements_items resolutions p.elements
      simp only [renderCellBlocks, directItems, paragraphItems, List.flatMap_cons,
        List.flatMap_append, List.flatten_cons, List.filter_append, hout, hparts, ih.1, ih.2,
        and_self]
    | table rows => exact ih
    | other => exact ih

theorem renderCells_items (cells : List Cell) :
    (renderCells resolutions cells).1.flatMap (Line.items resolutions) =
        (cells.flatMap fun cell => cell.content.flatMap (directItems resolutions)).filter
          Item.isRule ∧
      (renderCells resolutions cells).2.flatten.flatten.flatMap Part.items =
        (cells.flatMap fun cell => cell.content.flatMap (directItems resolutions)).filter
          fun i => !i.isRule := by
  induction cells with
  | nil => exact ⟨rfl, rfl⟩
  | cons cell cells ih =>
    obtain ⟨content⟩ := cell
    obtain ⟨hout, hparts⟩ := renderCellBlocks_items resolutions content
    simp only [renderCells, Cell.content, List.flatMap_cons, List.flatMap_append,
      List.flatten_cons, List.flatten_append, List.filter_append, hout, hparts, ih.1, ih.2, and_self]

theorem barred_items (cells : List (List Piece)) :
    (barred cells).flatMap Piece.items = cells.flatten.flatMap Piece.items := by
  fun_induction barred cells with
  | case1 => rfl
  | case2 c => simp
  | case3 c d cs ih =>
    rw [List.flatMap_append, List.flatMap_cons, ih, @List.flatten_cons _ c, List.flatMap_append]
    rfl

theorem row_items (cells : List (List (List Part))) :
    Line.items resolutions (.row cells) = cells.flatten.flatten.flatMap Part.items := by
  have hcells : (cells.map fun paragraphs => paragraphs.flatten.map Piece.part).flatten =
      cells.flatten.flatten.map Piece.part := by
    induction cells with
    | nil => rfl
    | cons paragraphs cells ih =>
      rw [List.map_cons, List.flatten_cons, ih, List.flatten_cons, List.flatten_append,
        List.map_append]
  rw [Line.items, Line.pieces, List.flatMap_cons, List.flatMap_append, barred_items, hcells,
    List.flatMap_map, List.flatMap_singleton]
  exact List.append_nil _

theorem renderRow_items (rowIndex : Nat) (row : Row) :
    (renderRow resolutions rowIndex row).flatMap (Line.items resolutions) =
      hoisted (rowDirectItems resolutions row) := by
  obtain ⟨cells⟩ := row
  obtain ⟨hout, hparts⟩ := renderCells_items resolutions cells
  have hsep : ∀ n, Line.items resolutions (.separator n) = [] := fun _ => rfl
  rw [hoisted, rowDirectItems, Row.cells, ← hout, ← hparts, ← row_items resolutions]
  simp only [renderRow, List.flatMap_append, List.flatMap_singleton]
  split
  · rw [List.flatMap_singleton, hsep, List.append_nil]
  · rw [List.flatMap_nil, List.append_nil]

def renderedItems : Block → List Item
  | .paragraph p => hoisted (paragraphItems resolutions p)
  | .table rows => rows.flatMap fun row => hoisted (rowDirectItems resolutions row)
  | .other => []

theorem renderStructuralElement_items (block : Block) :
    (renderStructuralElement resolutions block).flatMap (Line.items resolutions) =
      renderedItems resolutions block := by
  cases block with
  | paragraph p => exact renderParagraph_items resolutions p
  | table rows =>
    rw [renderStructuralElement, renderTable, List.flatMap_assoc, renderedItems]
    simp only [renderRow_items]
    -- the index of a row only decides on its separator
    have hrows := List.flatMap_map Prod.fst (fun row => hoisted (rowDirectItems resolutions row))
      rows.zipIdx
    rw [← hrows, List.zipIdx_map_fst]
  | other => rfl

theorem renderPositionedObjects_items (positioned : List Text) :
    (renderPositionedObjects resolutions positioned).flatMap (Line.items resolutions) =
      (positioned.filter fun objId => (resolutions.get? objId).isSome).map .image := by
  have hkept : ∀ objId, (imageRef resolutions objId ≠ []) ↔ (resolutions.get? objId).isSome := by
    intro objId
    rw [ne_eq, imageRef_eq_nil, Option.isSome_iff_ne_none]
  rw [renderPositionedObjects, List.flatMap_map]
  simp only [hkept, Bool.decide_eq_true]
  exact List.flatMap_pure_eq_map ..

theorem pieces_items (doc : Document) :
    (pieces resolutions doc).flatMap Piece.items =
      doc.content.flatMap (renderedItems resolutions) ++
        (doc.positionedObjects.filter fun objId => (resolutions.get? objId).isSome).map .image := by
  have hlines : ∀ lines : List Line,
      (lines.flatMap (Line.pieces resolutions)).flatMap Piece.items =
        lines.flatMap (Line.items resolutions) := fun lines => List.flatMap_assoc
  rw [pieces, hlines, render, List.flatMap_append, renderPositionedObjects_items,
    List.flatMap_assoc]
  simp only [renderStructuralElement_items]

/-! ### The items of the tree -/

theorem blocksItems_eq (blocks : List Block) :
    blocksItems resolutions blocks = blocks.flatMap (blockItems resolutions) := by
  induction blocks with
  | nil => rfl
  | cons block blocks ih => rw [blocksItems, ih, List.flatMap_cons]

theorem rowsItems_eq (rows : List Row) :
    rowsItems resolutions rows = rows.flatMap (rowItems resolutions) := by
  induction rows with
  | nil => rfl
  | cons row rows ih => rw [rowsItems, ih, List.flatMap_cons]

theorem rowItems_eq (row : Row) :
    rowItems resolutions row =
      row.cells.flatMap fun cell => cell.content.flatMap (blockItems resolutions) := by
  obtain ⟨cells⟩ := row
  rw [rowItems, Row.cells]
  induction cells with
  | nil => rfl
  | cons cell cells ih =>
    obtain ⟨content⟩ := cell
    rw [cellsItems, ih, List.flatMap_cons, Cell.content, blocksItems_eq]

end Items

/-! ## Order -/

theorem length_flatMap_le {β : Type} {f g : α → List β}
    (hle : ∀ a ∈ l, (f a).length ≤ (g a).length) : (l.flatMap f).length ≤ (l.flatMap g).length := by
  induction l with
  | nil => exact Nat.le_refl _
  | cons a l ih =>
    obtain ⟨ha, hl⟩ := List.forall_mem_cons.mp hle
    have htails := ih hl
    rw [List.flatMap_cons, List.flatMap_cons, List.length_append, List.length_append]
    omega

/-- Two concatenations of blocks, none longer on the left, are equal only block by block. -/
theorem flatMap_eq_iff_of_length_le {β : Type} {f g : α → List β}
    (hle : ∀ a ∈ l, (f a).length ≤ (g a).length) :
    l.flatMap f = l.flatMap g ↔ ∀ a ∈ l, f a = g a := by
  induction l with
  | nil => simp
  | cons a l ih =>
    obtain ⟨ha, hl⟩ := List.forall_mem_cons.mp hle
    rw [List.flatMap_cons, List.flatMap_cons, List.forall_mem_cons, ← ih hl]
    refine ⟨fun heq => ?_, fun ⟨h, htail⟩ => by rw [h, htail]⟩
    have hlength := congrArg List.length heq
    rw [List.length_append, List.length_append] at hlength
    have htails := length_flatMap_le hl
    exact List.append_inj heq (by omega)

def RulesFirst (items : List Item) : Prop :=
  items.Pairwise fun a b => b.isRule = true → a.isRule = true

theorem length_hoisted (items : List Item) : (hoisted items).length = items.length := by
  rw [hoisted, List.length_append]
  exact (List.length_eq_length_filter_add Item.isRule).symm

theorem rulesFirst_hoisted (items : List Item) : RulesFirst (hoisted items) := by
  refine List.pairwise_append.mpr ⟨?_, ?_, ?_⟩
  · exact List.pairwise_of_forall_mem_list fun a ha _ _ _ => (List.mem_filter.mp ha).2
  · refine List.pairwise_of_forall_mem_list fun _ _ b hb hrule => ?_
    simp [hrule] at hb
  · intro a ha _ _ _
    exact (List.mem_filter.mp ha).2

theorem hoisted_eq_iff {items : List Item} : hoisted items = items ↔ RulesFirst items := by
  refine ⟨fun h => h ▸ rulesFirst_hoisted items, fun h => ?_⟩
  induction items with
  | nil => rfl
  | cons a items ih =>
    obtain ⟨hhead, htail⟩ := List.pairwise_cons.mp h
    cases ha : a.isRule with
    | true =>
      have hrest := ih htail
      rw [hoisted] at hrest ⊢
      simp [ha, hrest]
    | false =>
      have hnone : ∀ b ∈ items, b.isRule = false := by
        intro b hb
        by_contra hrule
        have hfirst := hhead b hb (by simpa using hrule)
        rw [ha] at hfirst
        cases hfirst
      have hrules : items.filter Item.isRule = [] := by simpa using hnone
      have hothers : items.filter (fun i => !i.isRule) = items := by simpa using hnone
      simp [hoisted, ha, hrules, hothers]

section Order

variable (resolutions : Resolutions)

/-- No table nested in a cell of the row holds anything. -/
def NothingNested (row : Row) : Prop :=
  ∀ cell ∈ row.cells, ∀ rows, .table rows ∈ cell.content → rowsItems resolutions rows = []

/-- What a block must be for the renderer to keep it. -/
def Orderly : Block → Prop
  | .paragraph p => RulesFirst (paragraphItems resolutions p)
  | .table rows =>
    ∀ row ∈ rows, NothingNested resolutions row ∧ RulesFirst (rowItems resolutions row)
  | .other => True

theorem directItems_sublist (block : Block) :
    (directItems resolutions block).Sublist (blockItems resolutions block) := by
  cases block with
  | paragraph p => rw [directItems, blockItems]
  | table rows => exact List.nil_sublist _
  | other => exact List.nil_sublist _

theorem directItems_content_sublist (cell : Cell) :
    (cell.content.flatMap (directItems resolutions)).Sublist
      (cell.content.flatMap (blockItems resolutions)) :=
  List.Sublist.flatMap_right _ fun block _ => directItems_sublist resolutions block

theorem rowDirectItems_sublist (row : Row) :
    (rowDirectItems resolutions row).Sublist (rowItems resolutions row) := by
  rw [rowItems_eq, rowDirectItems]
  exact List.Sublist.flatMap_right _ fun cell _ => directItems_content_sublist resolutions cell

theorem rowDirectItems_eq_iff (row : Row) :
    rowDirectItems resolutions row = rowItems resolutions row ↔ NothingNested resolutions row := by
  rw [rowItems_eq, rowDirectItems,
    flatMap_eq_iff_of_length_le fun cell _ =>
      (directItems_content_sublist resolutions cell).length_le]
  refine forall₂_congr fun cell _ => ?_
  rw [flatMap_eq_iff_of_length_le fun block _ => (directItems_sublist resolutions block).length_le]
  constructor
  · intro h rows hrows
    have heq := h _ hrows
    rw [directItems, blockItems] at heq
    · exact heq.symm
    · exact fun _ h => by cases h
  · intro h block hblock
    cases block with
    | paragraph p => rw [directItems, blockItems]
    | table rows => exact (h rows hblock).symm
    | other => rfl

theorem hoisted_rowDirectItems_eq_iff (row : Row) :
    hoisted (rowDirectItems resolutions row) = rowItems resolutions row ↔
      NothingNested resolutions row ∧ RulesFirst (rowItems resolutions row) := by
  rw [← rowDirectItems_eq_iff]
  constructor
  · intro heq
    have hlength := congrArg List.length heq
    rw [length_hoisted] at hlength
    have hdirect := (rowDirectItems_sublist resolutions row).eq_of_length hlength
    rw [hdirect] at heq
    exact ⟨hdirect, hoisted_eq_iff.mp heq⟩
  · rintro ⟨hdirect, hrules⟩
    rw [hdirect, hoisted_eq_iff.mpr hrules]

theorem renderedItems_eq_iff (block : Block) :
    renderedItems resolutions block = blockItems resolutions block ↔
      Orderly resolutions block := by
  cases block with
  | paragraph p => rw [renderedItems, blockItems, hoisted_eq_iff, Orderly]
  | table rows =>
    have hle : ∀ row ∈ rows, (hoisted (rowDirectItems resolutions row)).length ≤
        (rowItems resolutions row).length := by
      intro row _
      rw [length_hoisted]
      exact (rowDirectItems_sublist resolutions row).length_le
    rw [renderedItems, blockItems, rowsItems_eq, flatMap_eq_iff_of_length_le hle, Orderly]
    exact forall₂_congr fun row _ => hoisted_rowDirectItems_eq_iff resolutions row
  | other => exact iff_of_true rfl trivial

theorem length_renderedItems (block : Block) :
    (renderedItems resolutions block).length ≤ (blockItems resolutions block).length := by
  cases block with
  | paragraph p => rw [renderedItems, blockItems, length_hoisted]
  | table rows =>
    rw [renderedItems, blockItems, rowsItems_eq]
    refine length_flatMap_le fun row _ => ?_
    rw [length_hoisted]
    exact (rowDirectItems_sublist resolutions row).length_le
  | other => exact Nat.le_refl _

/-- Whitespace apart, the Markdown is its pieces one after the other; these hold the items of the
document, each once and in their order, exactly when every block of the body is orderly. -/
theorem items_kept_iff (doc : Document) :
    nonSpace (renderDocMarkdown resolutions doc) =
        (pieces resolutions doc).flatMap (Piece.shown resolutions) ∧
      ((pieces resolutions doc).flatMap Piece.items = docItems resolutions doc ↔
        ∀ block ∈ doc.content, Orderly resolutions block) := by
  refine ⟨nonSpace_renderDocMarkdown resolutions doc, ?_⟩
  rw [pieces_items, docItems, List.append_left_inj, blocksItems_eq,
    flatMap_eq_iff_of_length_le fun block _ => length_renderedItems resolutions block]
  exact forall₂_congr fun block _ => renderedItems_eq_iff resolutions block

end Order

def plainRun (content : Text) : TextRun := ⟨content, ⟨none, false, false⟩⟩

def plainParagraph (elements : List Element) : Block :=
  .paragraph ⟨"NORMAL_TEXT".toList, false, elements⟩

/-- A rule after the text of its paragraph is written before it. A table nested in a cell is not
written at all. -/
theorem rule_moved_table_lost :
    (renderDocMarkdown [] ⟨[plainParagraph [.textRun (plainRun ['a']), .horizontalRule]], []⟩ =
        "---\n\na".toList ∧
      (pieces [] ⟨[plainParagraph [.textRun (plainRun ['a']), .horizontalRule]], []⟩).flatMap
        Piece.items = [.rule, .run (plainRun ['a'])] ∧
      docItems [] ⟨[plainParagraph [.textRun (plainRun ['a']), .horizontalRule]], []⟩ =
        [.run (plainRun ['a']), .rule]) ∧
    (renderDocMarkdown [] ⟨[.table [.mk [.mk [plainParagraph [.textRun (plainRun ['a'])],
          .table [.mk [.mk [plainParagraph [.textRun (plainRun ['b'])]]]]]]]], []⟩ =
        "| a |\n| --- |".toList ∧
      docItems [] ⟨[.table [.mk [.mk [plainParagraph [.textRun (plainRun ['a'])],
          .table [.mk [.mk [plainParagraph [.textRun (plainRun ['b'])]]]]]]]], []⟩ =
        [.run (plainRun ['a']), .run (plainRun ['b'])]) := by
  refine ⟨⟨?_, ?_, ?_⟩, ?_, ?_⟩
  · decide +kernel
  · rfl
  · rfl
  · decide +kernel
  · rfl

end DocsRenderer
end Archiviste.Sync
