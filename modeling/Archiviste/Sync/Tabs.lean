import Archiviste.Base.Escape
import Archiviste.Sync.Tracking

/-!
# Archiviste.Sync.Tabs

The tabs of a workbook: the slugs they are given, and the table each becomes.

A tab whose slug was given before gets its gid as a suffix. `resolveTabCollisions_distinct_iff`: the
slugs are distinct except where a title has the suffixed slug of another tab as its own
(`SuffixTaken`), since suffixed slugs are not recorded.

A cell is normalised, its pipes are escaped and its newlines are replaced. `renderTabMarkdown_iff`:
the rows are the lines of the table, and a reader of the table finds the cells of each row again
except where a cell has an escaped pipe already, or where no row has a cell.
-/

namespace Archiviste.Sync

/-! ## Slugs of tabs -/

section
variable (u : Unicode)

def baseSlug (tab : Tab) : Text := slugify u tab.title (decimal tab.sheetId)

def suffixedSlug (tab : Tab) : Text := baseSlug u tab ++ '-' :: decimal tab.sheetId

def tabOrder (tabs : List Tab) : List Tab := tabs.insertionSort fun a b => a.index ≤ b.index

/-- The slug of `b` was given before, to a tab with the same one, and some tab has the suffixed slug
of `b` as its own. -/
def SuffixTaken (tabs : List Tab) : Prop :=
  ∃ a b c, List.Sublist [a, b] (tabOrder tabs) ∧ baseSlug u a = baseSlug u b ∧ c ∈ tabs ∧
    baseSlug u c = suffixedSlug u b

variable {u}

theorem hyphen_not_mem_decimal (n : Nat) : '-' ∉ decimal n := by
  intro h
  exact absurd (Nat.isDigit_of_mem_toDigits (by decide) (by decide) h) (by decide)

variable {b t : Tab} {seen : List Text} {tabs : List Tab}

/-- A suffixed slug tells the gid: the last hyphen stands before it. -/
theorem sheetId_eq_of_suffixedSlug {a : Tab} (h : suffixedSlug u a = suffixedSlug u b) :
    a.sheetId = b.sheetId := by
  have hcut : ∀ tab : Tab, (suffixedSlug u tab).reverse.takeWhile (· ≠ '-') =
      (decimal tab.sheetId).reverse := by
    intro tab
    rw [suffixedSlug, List.reverse_append, List.reverse_cons, List.append_assoc,
      List.takeWhile_append_of_pos]
    · simp
    · intro c hc
      have : c ≠ '-' := fun he => hyphen_not_mem_decimal tab.sheetId (by simpa [he] using hc)
      simpa using this
  have hrev := hcut a
  rw [h, hcut b, List.reverse_inj] at hrev
  exact (decimal_injective hrev).symm

theorem baseSlug_ne_suffixedSlug (tab : Tab) : baseSlug u tab ≠ suffixedSlug u tab := by
  intro h
  have := congrArg List.length h
  simp [suffixedSlug] at this

theorem assignTabSlugs_congr {seen' : List Text} (h : ∀ s, s ∈ seen ↔ s ∈ seen') (tabs : List Tab) :
    assignTabSlugs u seen tabs = assignTabSlugs u seen' tabs := by
  induction tabs generalizing seen seen' with
  | nil => rfl
  | cons tab tabs ih =>
    have hcons : ∀ b s, s ∈ b :: seen ↔ s ∈ b :: seen' := fun b s => by simp [h s]
    unfold assignTabSlugs
    dsimp only
    rw [ih h, ih (hcons _)]
    simp only [h]

theorem assignTabSlugs_cons (seen : List Text) (tab : Tab) (tabs : List Tab) :
    assignTabSlugs u seen (tab :: tabs) =
      (tab, if baseSlug u tab ∈ seen then suffixedSlug u tab else baseSlug u tab) ::
        assignTabSlugs u (baseSlug u tab :: seen) tabs := by
  conv_lhs => unfold assignTabSlugs
  by_cases hmem : baseSlug u tab ∈ seen
  · have hseen : ∀ s, s ∈ seen ↔ s ∈ baseSlug u tab :: seen := by
      intro s
      rw [List.mem_cons]
      exact ⟨.inr, fun h => h.elim (fun he => he ▸ hmem) id⟩
    rw [if_pos hmem, ← assignTabSlugs_congr hseen]
    exact if_neg (not_not.2 hmem)
  · rw [if_neg hmem]
    exact if_pos hmem

/-- The slug a tab gets: its own when it is the first to have it, else the suffixed one. -/
theorem assignTabSlugs_inv {s : Text} (h : (t, s) ∈ assignTabSlugs u seen tabs) :
    t ∈ tabs ∧ (s = baseSlug u t ∧ baseSlug u t ∉ seen ∨
      s = suffixedSlug u t ∧
        (baseSlug u t ∈ seen ∨ ∃ a, List.Sublist [a, t] tabs ∧ baseSlug u a = baseSlug u t)) := by
  induction tabs generalizing seen with
  | nil => cases h
  | cons tab tabs ih =>
    rw [assignTabSlugs_cons] at h
    rcases List.mem_cons.1 h with h | h
    · obtain ⟨rfl, rfl⟩ := Prod.mk.inj h
      refine ⟨List.mem_cons_self, ?_⟩
      split
      · next hmem => exact .inr ⟨rfl, .inl hmem⟩
      · next hmem => exact .inl ⟨rfl, hmem⟩
    · obtain ⟨hmem, hslug⟩ := ih h
      refine ⟨List.mem_cons_of_mem tab hmem, ?_⟩
      rcases hslug with ⟨rfl, hfresh⟩ | ⟨rfl, hseen | ⟨a, hsub, ha⟩⟩
      · exact .inl ⟨rfl, fun h => hfresh (List.mem_cons_of_mem _ h)⟩
      · rcases List.mem_cons.1 hseen with heq | hseen
        · exact .inr ⟨rfl, .inr ⟨tab, (List.singleton_sublist.2 hmem).cons_cons tab, heq.symm⟩⟩
        · exact .inr ⟨rfl, .inl hseen⟩
      · exact .inr ⟨rfl, .inr ⟨a, hsub.cons tab, ha⟩⟩

theorem mem_assignTabSlugs_seen (hb : b ∈ tabs) (hseen : baseSlug u b ∈ seen) :
    (b, suffixedSlug u b) ∈ assignTabSlugs u seen tabs := by
  induction tabs generalizing seen with
  | nil => cases hb
  | cons tab tabs ih =>
    rw [assignTabSlugs_cons]
    rcases List.mem_cons.1 hb with rfl | hb
    · rw [if_pos hseen]
      exact List.mem_cons_self
    · exact List.mem_cons_of_mem _ (ih hb (List.mem_cons_of_mem _ hseen))

theorem mem_assignTabSlugs_repeated {a : Tab} (hsub : List.Sublist [a, b] tabs)
    (hbase : baseSlug u a = baseSlug u b) : (b, suffixedSlug u b) ∈ assignTabSlugs u seen tabs := by
  induction tabs generalizing seen with
  | nil => cases hsub
  | cons tab tabs ih =>
    rw [assignTabSlugs_cons]
    refine List.mem_cons_of_mem _ ?_
    cases hsub with
    | cons _ hsub => exact ih hsub
    | cons_cons _ hsub =>
      exact mem_assignTabSlugs_seen (List.singleton_sublist.1 hsub) (by simp [hbase])

theorem mem_assignTabSlugs_first {c : Tab} (hc : c ∈ tabs) (hfresh : baseSlug u c ∉ seen) :
    ∃ t, baseSlug u t = baseSlug u c ∧ (t, baseSlug u c) ∈ assignTabSlugs u seen tabs := by
  induction tabs generalizing seen with
  | nil => cases hc
  | cons tab tabs ih =>
    rw [assignTabSlugs_cons]
    by_cases heq : baseSlug u tab = baseSlug u c
    · rw [heq, if_neg hfresh]
      exact ⟨tab, heq, List.mem_cons_self⟩
    · have hc : c ∈ tabs := (List.mem_cons.1 hc).resolve_left fun h => heq (h ▸ rfl)
      have hfresh' : baseSlug u c ∉ baseSlug u tab :: seen :=
        List.not_mem_cons_of_ne_of_not_mem (Ne.symm heq) hfresh
      obtain ⟨t, ht, hmem⟩ := ih hc hfresh'
      exact ⟨t, ht, List.mem_cons_of_mem _ hmem⟩

/-- Two tabs get the same slug only where one is suffixed and the other has that slug as its own. -/
theorem nodup_assignTabSlugs (hids : (tabs.map (·.sheetId)).Nodup) (hclear : ∀ b ∈ tabs,
      (baseSlug u b ∈ seen ∨ ∃ a, List.Sublist [a, b] tabs ∧ baseSlug u a = baseSlug u b) →
      ∀ c ∈ tabs, baseSlug u c ≠ suffixedSlug u b) :
    ((assignTabSlugs u seen tabs).map (·.2)).Nodup := by
  induction tabs generalizing seen with
  | nil => exact List.nodup_nil
  | cons tab tabs ih =>
    rw [List.map_cons, List.nodup_cons] at hids
    have hafter : ∀ {b}, b ∈ tabs → (baseSlug u b ∈ baseSlug u tab :: seen ∨
        ∃ a, List.Sublist [a, b] tabs ∧ baseSlug u a = baseSlug u b) →
        baseSlug u b ∈ seen ∨
          ∃ a, List.Sublist [a, b] (tab :: tabs) ∧ baseSlug u a = baseSlug u b := by
      intro b hb h
      rcases h with hseen | ⟨a, hsub, ha⟩
      · rcases List.mem_cons.1 hseen with heq | hseen
        · exact .inr ⟨tab, (List.singleton_sublist.2 hb).cons_cons tab, heq.symm⟩
        · exact .inl hseen
      · exact .inr ⟨a, hsub.cons tab, ha⟩
    rw [assignTabSlugs_cons, List.map_cons, List.nodup_cons]
    constructor
    · intro hmem
      obtain ⟨⟨t, s⟩, ht, hs⟩ := List.mem_map.1 hmem
      obtain ⟨htabs, ⟨rfl, hfresh⟩ | ⟨rfl, hrep⟩⟩ := assignTabSlugs_inv ht
      · -- the later tab has its own slug, so the head, which has the same one, is suffixed
        dsimp only at hs
        split at hs
        · next hseen =>
          exact hclear tab List.mem_cons_self (.inl hseen) t (List.mem_cons_of_mem _ htabs) hs
        · exact hfresh (hs ▸ List.mem_cons_self)
      · dsimp only at hs
        split at hs
        · have hid := sheetId_eq_of_suffixedSlug hs
          exact hids.1 (hid ▸ List.mem_map_of_mem htabs)
        · exact hclear t (List.mem_cons_of_mem _ htabs) (hafter htabs hrep) tab
            List.mem_cons_self hs.symm
    · exact ih hids.2 fun b hb hrep c hc =>
        hclear b (List.mem_cons_of_mem _ hb) (hafter hb hrep) c (List.mem_cons_of_mem _ hc)

theorem mem_tabOrder : t ∈ tabOrder tabs ↔ t ∈ tabs :=
  (List.perm_insertionSort _ tabs).mem_iff

theorem resolveTabCollisions_sorted (tabs : List Tab) :
    ((resolveTabCollisions u tabs).map (·.1)).Pairwise fun a b => a.index ≤ b.index := by
  rw [resolveTabCollisions, assignTabSlugs_tabs]
  have : Std.Total (fun a b : Tab => a.index ≤ b.index) := ⟨fun a b => Nat.le_total ..⟩
  have : IsTrans Tab (fun a b => a.index ≤ b.index) := ⟨fun _ _ _ => Nat.le_trans⟩
  exact List.pairwise_insertionSort _ tabs

theorem resolveTabCollisions_distinct_iff (u : Unicode) (tabs : List Tab)
    (hids : (tabs.map (·.sheetId)).Nodup) :
    ((resolveTabCollisions u tabs).map (·.1)).Perm tabs ∧
    ((resolveTabCollisions u tabs).map (·.1)).Pairwise (fun a b => a.index ≤ b.index) ∧
    (((resolveTabCollisions u tabs).map (·.2)).Nodup ↔ ¬ SuffixTaken u tabs) := by
  refine ⟨resolveTabCollisions_perm u tabs, resolveTabCollisions_sorted tabs, ?_, ?_⟩
  · rintro hnodup ⟨a, b, c, hsub, hbase, hc, hclash⟩
    -- `b` has its suffixed slug, and so has the first tab with the slug of `c`
    have hb : (b, suffixedSlug u b) ∈ resolveTabCollisions u tabs :=
      mem_assignTabSlugs_repeated hsub hbase
    obtain ⟨t, ht, hfirst⟩ := mem_assignTabSlugs_first (mem_tabOrder.2 hc) List.not_mem_nil
    have heq := List.inj_on_of_nodup_map hnodup hb hfirst hclash.symm
    obtain rfl := congrArg Prod.fst heq
    exact baseSlug_ne_suffixedSlug b (ht.trans hclash)
  · intro hclear
    have hids' : ((tabOrder tabs).map (·.sheetId)).Nodup :=
      ((List.perm_insertionSort _ tabs).map _).nodup_iff.2 hids
    refine nodup_assignTabSlugs hids' fun b hb hrep c hc hclash => hclear ?_
    obtain hnil | ⟨a, hsub, ha⟩ := hrep
    · cases hnil
    · exact ⟨a, b, c, hsub, ha, mem_tabOrder.1 hc, hclash⟩

end

def plainTabs : List Tab := [⟨"a".toList, 5, 2⟩, ⟨"b".toList, 1, 1⟩, ⟨"a".toList, 0, 0⟩]

theorem resolveTabCollisions_plainTabs :
    (plainTabs.map (·.sheetId)).Nodup ∧
    ((resolveTabCollisions plainUnicode plainTabs).map (·.1)).Perm plainTabs ∧
    ((resolveTabCollisions plainUnicode plainTabs).map (·.1)).Pairwise
      (fun a b => a.index ≤ b.index) ∧
    (((resolveTabCollisions plainUnicode plainTabs).map (·.2)).Nodup ↔
      ¬ SuffixTaken plainUnicode plainTabs) :=
  ⟨by decide, resolveTabCollisions_distinct_iff plainUnicode plainTabs (by decide)⟩

def clashingTabs : List Tab := [⟨"a".toList, 0, 0⟩, ⟨"a 5".toList, 1, 1⟩, ⟨"a".toList, 5, 2⟩]

theorem clashingTabs_same_slug :
    (clashingTabs.map (·.sheetId)).Nodup ∧
    (resolveTabCollisions plainUnicode clashingTabs).map (·.2) =
      ["a".toList, "a-5".toList, "a-5".toList] ∧
    ¬ ((resolveTabCollisions plainUnicode clashingTabs).map (·.2)).Nodup := by
  decide +kernel

/-! ## The table of a tab -/

section
variable (u : Unicode) (isCf : Char → Bool)

def plainCell (text : Text) : Text := (normalizeBody u text).filter fun c => !isCf c

def escapeCell (text : Text) : Text :=
  Text.replaceChar '\n' "<br>".toList (Text.replaceChar '|' ['\\', '|'] (plainCell u isCf text))

def padRow (row : List Text) (width : Nat) : List Text :=
  row ++ List.replicate (width - row.length) []

/-- `"| " + " | ".join(cells) + " |"`. -/
def rowLine (cells : List Text) : Text :=
  "| ".toList ++ Text.join " | ".toList cells ++ " |".toList

def tableWidth (values : List (List Text)) : Nat := (values.map List.length).foldr max 0

def traceParts : Option Text → Option Nat → List Text
  | some fileId, some gid =>
    ["<!-- gdrive: file=".toList ++ fileId ++ " tab=".toList ++ decimal gid ++ " -->".toList, []]
  | _, _ => []

def tableRow (width : Nat) (row : List Text) : Text :=
  rowLine ((padRow row width).map (escapeCell u isCf))

def tableParts (header : List Text) (rows : List (List Text)) : List Text :=
  let width := tableWidth (header :: rows)
  tableRow u isCf width header :: rowLine (List.replicate width "---".toList) ::
    rows.map (tableRow u isCf width)

def renderTabMarkdown (_workbookTitle _tabTitle : Text) (values : List (List Text))
    (fileId : Option Text) (gid : Option Nat) : Text :=
  match values with
  | [] => Text.join ['\n'] (traceParts fileId gid ++ ["*(empty sheet)*".toList])
  | header :: rows => Text.join ['\n'] (traceParts fileId gid ++ tableParts u isCf header rows)

/-! ### Reading a table -/

def lineCells (line : Text) : List Text := (Escape.split '\\' '|' false line).tail.dropLast

def framed (cell : Text) : Text := ' ' :: cell ++ [' ']

/-- The lines are those of the rows, with the delimiter line after the first, and each has the
escaped cells of its row, padded to the width. -/
def Tabulates (values : List (List Text)) (lines : List Text) : Prop :=
  ∃ first delimiter rest, lines = first :: delimiter :: rest ∧
    lineCells delimiter = List.replicate (tableWidth values) (framed "---".toList) ∧
    List.Forall₂ (fun row line => lineCells line =
      (padRow row (tableWidth values)).map fun cell => framed (escapeCell u isCf cell))
      values (first :: rest)

/-- A pipe of the cell stands escaped before the cell is written. -/
def HasEscapedPipe (cell : Text) : Prop :=
  Escape.escapedCount '\\' '|' false (plainCell u isCf cell) ≠ 0

instance (cell : Text) : Decidable (HasEscapedPipe u isCf cell) := inferInstanceAs (Decidable (_ ≠ 0))

variable {u isCf}

theorem newline_not_mem_escapeCell (cell : Text) : '\n' ∉ escapeCell u isCf cell :=
  Text.not_mem_replaceChar (by decide) _

theorem carriageReturn_not_mem_escapeCell (cell : Text) : '\r' ∉ escapeCell u isCf cell := by
  intro h
  rcases Text.mem_replaceChar h with h | h
  · exact absurd h (by decide)
  rcases Text.mem_replaceChar h with h | h
  · exact absurd h (by decide)
  · exact not_mem_normalizeBody u cell (List.mem_filter.1 h).1

theorem bareCount_escapeCell (cell : Text) :
    Escape.bareCount '\\' '|' false (escapeCell u isCf cell) =
      Escape.escapedCount '\\' '|' false (plainCell u isCf cell) := by
  rw [escapeCell, Escape.bareCount_replaceChar_plain (by decide) (by decide) (by decide)
    (by decide) (by decide), Escape.bareCount_replaceChar_escape (by decide)]

end

/-! ### The cells of a line -/

variable {cells row lines : List Text} {c : Char}

theorem join_row (h : cells ≠ []) :
    ' ' :: (Text.join " | ".toList cells ++ " |".toList) =
      cells.flatMap fun c => framed c ++ ['|'] := by
  induction cells with
  | nil => exact absurd rfl h
  | cons c cells ih =>
    cases cells with
    | nil => simp [Text.join, framed]
    | cons d cells =>
      rw [List.flatMap_cons, ← ih (by simp), Text.join]
      simp [framed]

theorem rowLine_eq (h : cells ≠ []) :
    rowLine cells = '|' :: cells.flatMap fun c => framed c ++ ['|'] := by
  rw [← join_row h]
  simp [rowLine]

theorem bareCount_framed (cell : Text) :
    Escape.bareCount '\\' '|' false (framed cell) = Escape.bareCount '\\' '|' false cell := by
  rw [framed, List.cons_append, Escape.bareCount, Escape.bareCount_append]
  simp [Escape.bareCount, Escape.next]

theorem after_framed (cell : Text) : Escape.after '\\' false (framed cell) = false :=
  Escape.after_concat_of_ne (by decide) false (' ' :: cell)

theorem split_cells (h : ∀ c ∈ cells, Escape.bareCount '\\' '|' false c = 0) :
    Escape.split '\\' '|' false (cells.flatMap fun c => framed c ++ ['|']) =
      cells.map framed ++ [[]] := by
  induction cells with
  | nil => rfl
  | cons c cells ih =>
    rw [List.flatMap_cons, List.append_assoc, List.singleton_append,
      Escape.split_append ((bareCount_framed c).trans (h c List.mem_cons_self)) (after_framed c),
      ih fun d hd => h d (List.mem_cons_of_mem c hd)]
    rfl

theorem bareCount_cells (cells : List Text) :
    Escape.bareCount '\\' '|' false (cells.flatMap fun c => framed c ++ ['|']) =
      cells.length + (cells.map (Escape.bareCount '\\' '|' false)).sum := by
  induction cells with
  | nil => rfl
  | cons c cells ih =>
    have hpipe : ∀ t, Escape.bareCount '\\' '|' false ('|' :: t) =
        1 + Escape.bareCount '\\' '|' false t := fun t => by
      rw [Escape.bareCount, Escape.next_of_ne (by decide)]
      simp
    rw [List.flatMap_cons, List.append_assoc, List.singleton_append, Escape.bareCount_append,
      after_framed, bareCount_framed, hpipe, ih, List.length_cons, List.map_cons, List.sum_cons]
    omega

/-- A line has the cells it was written from exactly when there are some and none has a pipe that
ends it. -/
theorem lineCells_rowLine_iff (cells : List Text) :
    lineCells (rowLine cells) = cells.map framed ↔
      cells ≠ [] ∧ ∀ c ∈ cells, Escape.bareCount '\\' '|' false c = 0 := by
  by_cases hnil : cells = []
  · subst hnil
    exact iff_of_false (by decide) (by simp)
  have hsplit : Escape.split '\\' '|' false (rowLine cells) =
      [] :: Escape.split '\\' '|' false (cells.flatMap fun c => framed c ++ ['|']) := by
    rw [rowLine_eq hnil, Escape.split, if_pos ⟨rfl, rfl⟩]
  rw [lineCells, hsplit, List.tail_cons]
  constructor
  · intro h
    have hlength := congrArg List.length h
    rw [List.length_dropLast, Escape.length_split (by decide), bareCount_cells, List.length_map,
      Nat.add_sub_cancel] at hlength
    have hsum : (cells.map (Escape.bareCount '\\' '|' false)).sum = 0 := by omega
    exact ⟨hnil, fun c hc => List.sum_eq_zero_iff_forall_eq_nat.1 hsum _ (List.mem_map_of_mem hc)⟩
  · rintro ⟨-, hclean⟩
    rw [split_cells hclean, List.dropLast_concat]

/-! ### The lines of a table -/

theorem le_tableWidth {values : List (List Text)} (h : row ∈ values) :
    row.length ≤ tableWidth values := by
  induction values with
  | nil => cases h
  | cons r values ih =>
    rw [tableWidth, List.map_cons, List.foldr_cons]
    rcases List.mem_cons.1 h with rfl | h
    · exact Nat.le_max_left ..
    · exact Nat.le_trans (ih h) (Nat.le_max_right ..)

theorem length_padRow {width : Nat} (h : row.length ≤ width) :
    (padRow row width).length = width := by
  rw [padRow, List.length_append, List.length_replicate]
  omega

theorem splitOn_join (hne : lines ≠ []) (h : ∀ l ∈ lines, '\n' ∉ l) :
    Text.splitOn '\n' (Text.join ['\n'] lines) = lines := by
  induction lines with
  | nil => exact absurd rfl hne
  | cons l lines ih =>
    have hl := h l List.mem_cons_self
    cases lines with
    | nil => exact Text.splitOn_of_not_mem hl
    | cons l' lines =>
      rw [Text.join, List.append_assoc, List.singleton_append, Text.splitOn_append hl,
        ih (by simp) fun k hk => h k (List.mem_cons_of_mem l hk)]

theorem join_append (parts : List Text) (h : lines ≠ []) :
    Text.join ['\n'] (parts ++ lines) =
      (parts.flatMap fun p => p ++ ['\n']) ++ Text.join ['\n'] lines := by
  induction parts with
  | nil => rfl
  | cons p parts ih =>
    obtain ⟨l, rest, hrest⟩ := List.exists_cons_of_ne_nil (List.append_ne_nil_of_right_ne_nil parts h)
    rw [List.cons_append, hrest, Text.join, ← hrest, ih]
    simp

theorem mem_join {sep : Text} {parts : List Text} (h : c ∈ Text.join sep parts) :
    c ∈ sep ∨ ∃ p ∈ parts, c ∈ p := by
  induction parts with
  | nil => cases h
  | cons p parts ih =>
    cases parts with
    | nil => exact .inr ⟨p, List.mem_cons_self, h⟩
    | cons q parts =>
      rw [Text.join] at h
      rcases List.mem_append.1 h with h | h
      · rcases List.mem_append.1 h with h | h
        · exact .inr ⟨p, List.mem_cons_self, h⟩
        · exact .inl h
      · exact (ih h).imp_right fun ⟨r, hr, hc⟩ => ⟨r, List.mem_cons_of_mem p hr, hc⟩

theorem not_mem_rowLine (hc : c ∉ "| ".toList) (h : ∀ cell ∈ cells, c ∉ cell) :
    c ∉ rowLine cells := by
  have hparts : c ≠ '|' ∧ c ≠ ' ' := by simpa using hc
  intro hmem
  rw [rowLine] at hmem
  rcases List.mem_append.1 hmem with hmem | hmem
  · rcases List.mem_append.1 hmem with hmem | hmem
    · exact hc hmem
    · rcases mem_join hmem with hsep | ⟨cell, hcell, hmem⟩
      · simp [hparts] at hsep
      · exact h cell hcell hmem
  · simp [hparts] at hmem

section
variable {u : Unicode} {isCf : Char → Bool}

variable {c : Char}

theorem not_mem_tableRow (hc : c ∉ "| ".toList) (h : ∀ cell, c ∉ escapeCell u isCf cell)
    (width : Nat) (row : List Text) : c ∉ tableRow u isCf width row := by
  refine not_mem_rowLine hc fun cell hcell => ?_
  obtain ⟨text, _, rfl⟩ := List.mem_map.1 hcell
  exact h text

theorem not_mem_tableParts (hc : c ∉ "| -".toList) (h : ∀ cell, c ∉ escapeCell u isCf cell)
    (header : List Text) (rows : List (List Text)) :
    ∀ line ∈ tableParts u isCf header rows, c ∉ line := by
  have hline : c ∉ "| ".toList := fun hmem => hc (List.mem_append_left ['-'] hmem)
  intro line hmem
  rw [tableParts, List.mem_cons, List.mem_cons, List.mem_map] at hmem
  rcases hmem with rfl | rfl | ⟨row, _, rfl⟩
  · exact not_mem_tableRow hline h _ _
  · refine not_mem_rowLine hline fun cell hcell => ?_
    have hplain : c ≠ '|' ∧ c ≠ ' ' ∧ c ≠ '-' := by simpa using hc
    rw [List.eq_of_mem_replicate hcell]
    simp [hplain.2.2]
  · exact not_mem_tableRow hline h _ _

theorem lineCells_tableRow_iff (width : Nat) (row : List Text) :
    lineCells (tableRow u isCf width row) =
        (padRow row width).map (fun cell => framed (escapeCell u isCf cell)) ↔
      padRow row width ≠ [] ∧ ∀ cell ∈ padRow row width, ¬ HasEscapedPipe u isCf cell := by
  have hmap : (padRow row width).map (fun cell => framed (escapeCell u isCf cell)) =
      ((padRow row width).map (escapeCell u isCf)).map framed := by
    rw [List.map_map]
    rfl
  rw [hmap, tableRow, lineCells_rowLine_iff]
  simp only [ne_eq, List.map_eq_nil_iff, List.forall_mem_map, bareCount_escapeCell, HasEscapedPipe,
    not_not]

theorem tabulates_tableParts_iff (header : List Text) (rows : List (List Text)) :
    Tabulates u isCf (header :: rows) (tableParts u isCf header rows) ↔
      0 < tableWidth (header :: rows) ∧ ∀ row ∈ header :: rows,
        ∀ cell ∈ padRow row (tableWidth (header :: rows)), ¬ HasEscapedPipe u isCf cell := by
  generalize hwidth : tableWidth (header :: rows) = width
  have hpad : 0 < width → ∀ row ∈ header :: rows, padRow row width ≠ [] := by
    intro hpos row hrow
    rw [← List.length_pos_iff, length_padRow (hwidth ▸ le_tableWidth hrow)]
    exact hpos
  have hdelimiter : lineCells (rowLine (List.replicate width "---".toList)) =
      List.replicate width (framed "---".toList) ↔ 0 < width := by
    have hframed : List.replicate width (framed "---".toList) =
        (List.replicate width "---".toList).map framed := List.map_replicate.symm
    rw [hframed, lineCells_rowLine_iff]
    have hplain : ∀ c ∈ List.replicate width "---".toList,
        Escape.bareCount '\\' '|' false c = 0 := fun c hc => by
      rw [List.eq_of_mem_replicate hc]
      rfl
    simp only [ne_eq, List.replicate_eq_nil_iff]
    exact ⟨fun h => Nat.pos_of_ne_zero h.1, fun h => ⟨Nat.ne_of_gt h, hplain⟩⟩
  have hrows : List.Forall₂ (fun row line => lineCells line =
      (padRow row width).map fun cell => framed (escapeCell u isCf cell))
      (header :: rows) (tableRow u isCf width header :: rows.map (tableRow u isCf width)) ↔
      ∀ row ∈ header :: rows, padRow row width ≠ [] ∧
        ∀ cell ∈ padRow row width, ¬ HasEscapedPipe u isCf cell := by
    rw [← List.map_cons, List.forall₂_map_right_iff, List.forall₂_same]
    exact forall₂_congr fun row _ => lineCells_tableRow_iff width row
  rw [tableParts, hwidth, Tabulates, hwidth]
  constructor
  · rintro ⟨first, delimiter, rest, hlines, hdel, hall⟩
    obtain ⟨rfl, rfl, rfl⟩ : _ = first ∧ _ = delimiter ∧ _ = rest := by simpa using hlines
    exact ⟨hdelimiter.1 hdel, fun row hrow => (hrows.1 hall row hrow).2⟩
  · rintro ⟨hpos, hclean⟩
    exact ⟨_, _, _, rfl, hdelimiter.2 hpos,
      hrows.2 fun row hrow => ⟨hpad hpos row hrow, hclean row hrow⟩⟩

end

/-- A grid becomes one line for each row and the delimiter line after the first, and the lines have
the cells of the rows, padded and escaped, exactly when there is a column and no cell has an escaped
pipe before it is written. -/
theorem renderTabMarkdown_iff (u : Unicode) (isCf : Char → Bool) (workbookTitle tabTitle : Text)
    (values : List (List Text)) (fileId : Option Text) (gid : Option Nat) (hne : values ≠ []) :
    ∃ table, renderTabMarkdown u isCf workbookTitle tabTitle values fileId gid =
        ((traceParts fileId gid).flatMap fun p => p ++ ['\n']) ++ table ∧
      '\r' ∉ table ∧
      (Text.splitOn '\n' table).length = values.length + 1 ∧
      (Text.splitOn '\n' table)[1]? =
        some (rowLine (List.replicate (tableWidth values) "---".toList)) ∧
      (Tabulates u isCf values (Text.splitOn '\n' table) ↔
        0 < tableWidth values ∧ ∀ row ∈ values, ∀ cell ∈ padRow row (tableWidth values),
          ¬ HasEscapedPipe u isCf cell) := by
  obtain ⟨header, rows, rfl⟩ := List.exists_cons_of_ne_nil hne
  have hlines : Text.splitOn '\n' (Text.join ['\n'] (tableParts u isCf header rows)) =
      tableParts u isCf header rows :=
    splitOn_join (by simp [tableParts])
      (not_mem_tableParts (by decide) newline_not_mem_escapeCell header rows)
  refine ⟨Text.join ['\n'] (tableParts u isCf header rows), ?_, ?_, ?_⟩
  · exact join_append (traceParts fileId gid) (by simp [tableParts])
  · intro hmem
    rcases mem_join hmem with hsep | ⟨line, hline, hmem⟩
    · exact absurd hsep (by decide)
    · exact not_mem_tableParts (by decide) carriageReturn_not_mem_escapeCell header rows line hline
        hmem
  · rw [hlines]
    exact ⟨by simp [tableParts], rfl, tabulates_tableParts_iff header rows⟩

def raggedGrid : List (List Text) := [["a|b".toList, "c".toList], ["d\ne".toList]]

theorem renderTabMarkdown_raggedGrid :
    ∃ table, renderTabMarkdown plainUnicode (fun _ => false) [] [] raggedGrid none none =
        ((traceParts none none).flatMap fun p => p ++ ['\n']) ++ table ∧
      '\r' ∉ table ∧
      (Text.splitOn '\n' table).length = raggedGrid.length + 1 ∧
      (Text.splitOn '\n' table)[1]? =
        some (rowLine (List.replicate (tableWidth raggedGrid) "---".toList)) ∧
      (Tabulates plainUnicode (fun _ => false) raggedGrid (Text.splitOn '\n' table) ↔
        0 < tableWidth raggedGrid ∧ ∀ row ∈ raggedGrid,
          ∀ cell ∈ padRow row (tableWidth raggedGrid),
            ¬ HasEscapedPipe plainUnicode (fun _ => false) cell) :=
  renderTabMarkdown_iff plainUnicode (fun _ => false) [] [] raggedGrid none none (by decide)

/-- A backslash before a pipe: the backslash written before the pipe is itself escaped by it, and
the row has a cell too many. -/
theorem escaped_pipe_splits_cell :
    (["a\\|b".toList, "c".toList].map (escapeCell plainUnicode fun _ => false)).length = 2 ∧
    renderTabMarkdown plainUnicode (fun _ => false) [] [] [["a\\|b".toList, "c".toList]] none none =
      "| a\\\\|b | c |\n| --- | --- |".toList ∧
    lineCells "| a\\\\|b | c |".toList = [" a\\\\".toList, "b ".toList, " c ".toList] := by
  decide +kernel

end Archiviste.Sync
