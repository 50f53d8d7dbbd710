import Archiviste.Generate.Memory
import Mathlib.Data.List.Infix

/-!
# Archiviste.Generate.MemoryWindow

What `load_memory_window` keeps of a conversation. Its loop takes rows from the newest on until the
budget is passed; with token counts that are not negative this is the longest run of newest rows
within the budget. Rendering then drops the assistant turns it would open with.

* `Longest`             — the run of newest rows that the loop takes.
* `WindowSpec`          — the window as a run of the conversation, and why no longer one would do.
* `memory_window_spec`  — every window is such a run.
-/

namespace Archiviste.Generate

def tokens (rows : List MessageRow) : Int := (rows.map (·.tokenCount)).sum

@[simp] theorem tokens_nil : tokens [] = 0 := rfl

@[simp] theorem tokens_cons (row : MessageRow) (rows : List MessageRow) :
    tokens (row :: rows) = row.tokenCount + tokens rows := List.sum_cons

@[simp] theorem tokens_append (rows rows' : List MessageRow) :
    tokens (rows ++ rows') = tokens rows + tokens rows' := by
  simp [tokens]

@[simp] theorem tokens_reverse (rows : List MessageRow) : tokens rows.reverse = tokens rows := by
  simp [tokens, List.sum_reverse]

variable {rows : List MessageRow} {budget : Int}

theorem tokens_nonneg (h : ∀ row ∈ rows, 0 ≤ row.tokenCount) : 0 ≤ tokens rows := by
  induction rows with
  | nil => exact le_refl _
  | cons row rows ih =>
    have hrow := h row List.mem_cons_self
    have hrest := ih fun r hr => h r (List.mem_cons_of_mem _ hr)
    rw [tokens_cons]
    omega

/-! ## The loop -/

/-- Of the runs of newest rows that fit the budget, `fitting` is the longest. -/
structure Longest (rows : List MessageRow) (budget : Int) (fitting : List MessageRow) : Prop where
  run : fitting <+: rows
  within : tokens fitting ≤ budget
  longest : ∀ run, run <+: rows → tokens run ≤ budget → run <+: fitting

theorem selectFrom_longest (h : ∀ row ∈ rows, 0 ≤ row.tokenCount) : ∀ total, total ≤ budget →
    Longest rows (budget - total) (selectFrom budget total rows) := by
  induction rows with
  | nil =>
    intro total htotal
    refine ⟨List.nil_prefix, ?_, fun run hrun _ => hrun⟩
    simp only [selectFrom, tokens_nil]
    omega
  | cons row rows ih =>
    intro total htotal
    have hrest : ∀ row ∈ rows, 0 ≤ row.tokenCount := fun r hr => h r (List.mem_cons_of_mem _ hr)
    rw [selectFrom]
    split
    case isTrue hover =>
      refine ⟨List.nil_prefix, ?_, fun run hrun hfits => ?_⟩
      · simp only [tokens_nil]
        omega
      · -- a run that is not empty has the newest row, and the later ones only add to it
        rcases run with _ | ⟨first, run⟩
        · exact List.nil_prefix
        · obtain ⟨rfl, htail⟩ := List.cons_prefix_cons.1 hrun
          have hnonneg : 0 ≤ tokens run := tokens_nonneg fun r hr => hrest r (htail.subset hr)
          rw [tokens_cons] at hfits
          omega
    case isFalse hfits =>
      obtain ⟨hrun, hwithin, hlongest⟩ := ih hrest (total + row.tokenCount) (by omega)
      refine ⟨List.cons_prefix_cons.2 ⟨rfl, hrun⟩, ?_, fun run hrun' hfits' => ?_⟩
      · rw [tokens_cons]
        omega
      · rcases run with _ | ⟨first, run⟩
        · exact List.nil_prefix
        · obtain ⟨rfl, htail⟩ := List.cons_prefix_cons.1 hrun'
          rw [tokens_cons] at hfits'
          exact List.cons_prefix_cons.2 ⟨rfl, hlongest run htail (by omega)⟩

theorem selectWithinBudget_longest (h : ∀ row ∈ rows, 0 ≤ row.tokenCount) (hbudget : 0 ≤ budget) :
    Longest rows budget (selectWithinBudget rows budget) := by
  have hlongest := selectFrom_longest h 0 hbudget
  rwa [Int.sub_zero] at hlongest

/-! ## The window -/

/-- `fitting` are the newest rows within the budget, and `kept` the rows of the window in
chronological order. -/
structure WindowSpec (rows : List MessageRow) (budget : Int) (w : MemoryWindow)
    (fitting kept : List MessageRow) : Prop where
  longest : Longest rows budget fitting
  messages : w.messages = kept.map toMessage
  /-- Only the assistant turns at the beginning are removed. -/
  trimmed : ∃ dropped, fitting.reverse = dropped ++ kept ∧ ∀ row ∈ dropped, row.role = .assistant
  opens : ∀ row ∈ kept.head?, row.role = .user
  contiguous : kept.reverse <+: rows
  within : tokens kept ≤ budget
  newest : kept ≠ [] → kept.getLast? = rows.head?
  /-- No longer run up to the newest row opens with a human turn and fits. -/
  maximal : ∀ run, run.reverse <+: rows → (∀ row ∈ run.head?, row.role = .user) →
    tokens run ≤ budget → run.length ≤ kept.length
  lastUser : (w.lastUserTurn = none ∧ ∀ row ∈ rows, row.role ≠ .user) ∨
    ∃ newer row older, rows = newer ++ row :: older ∧ (∀ r ∈ newer, r.role ≠ .user) ∧
      row.role = .user ∧ w.lastUserTurn = some row.content

theorem lastUserTurn_spec (rows : List MessageRow) :
    (lastUserTurn rows = none ∧ ∀ row ∈ rows, row.role ≠ .user) ∨
      ∃ newer row older, rows = newer ++ row :: older ∧ (∀ r ∈ newer, r.role ≠ .user) ∧
        row.role = .user ∧ lastUserTurn rows = some row.content := by
  rcases hfind : rows.find? fun row => row.role = .user with _ | row
  · refine .inl ⟨by rw [lastUserTurn, hfind]; rfl, fun row hrow => ?_⟩
    simpa using List.find?_eq_none.1 hfind row hrow
  · obtain ⟨huser, newer, older, hrows, hnewer⟩ := List.find?_eq_some_iff_append.1 hfind
    refine .inr ⟨newer, row, older, hrows, fun r hr => ?_, by simpa using huser, ?_⟩
    rotate_left
    · rw [lastUserTurn, hfind]
      rfl
    simpa using hnewer r hr

/-- A suffix that opens with a human turn does not reach into the assistant turns before it. -/
theorem length_le_dropWhile {run : List MessageRow} (hrun : run <:+ rows)
    (hopens : ∀ row ∈ run.head?, row.role = .user) :
    run.length ≤ (rows.dropWhile fun row => row.role = .assistant).length := by
  induction rows with
  | nil =>
    rw [List.suffix_nil.1 hrun]
    exact Nat.zero_le _
  | cons row rows ih =>
    rcases List.suffix_cons_iff.1 hrun with rfl | hrun
    · have huser : row.role = .user := hopens row rfl
      simp [huser]
    · have hle := ih hrun
      rw [List.dropWhile_cons]
      split
      · exact hle
      · exact hrun.length_le.trans (Nat.le_succ _)

/-- For every conversation with token counts that are not negative and every positive budget, the
window is the longest run of newest rows within the budget without the assistant turns it opens
with, and the last user turn is that of the whole list. -/
theorem memory_window_spec (rows : List MessageRow) (budget : Int)
    (h : ∀ row ∈ rows, 0 ≤ row.tokenCount) (hbudget : 0 < budget) :
    ∃ fitting kept, WindowSpec rows budget (loadMemoryWindow (some rows) budget) fitting kept := by
  have hload : loadMemoryWindow (some rows) budget =
      ⟨render (selectWithinBudget rows budget), lastUserTurn rows⟩ := by
    rcases rows with _ | ⟨row, rows⟩
    · simp [loadMemoryWindow, render, selectWithinBudget, selectFrom, lastUserTurn]
    · simp [loadMemoryWindow, not_le.2 hbudget]
  rw [hload]
  have hlongest := selectWithinBudget_longest h hbudget.le
  generalize selectWithinBudget rows budget = fitting at hlongest ⊢
  refine ⟨fitting, fitting.reverse.dropWhile fun row => row.role = .assistant, ?_⟩
  have hsplit := List.takeWhile_append_dropWhile
    (p := fun row : MessageRow => row.role = .assistant) (l := fitting.reverse)
  have hdropped : ∀ row ∈ fitting.reverse.takeWhile (fun row => row.role = .assistant),
      row.role = .assistant := fun row hrow => by simpa using List.mem_takeWhile_imp hrow
  have hopens : ∀ row ∈ (fitting.reverse.dropWhile fun row => row.role = .assistant).head?,
      row.role = .user := by
    intro row hrow
    have hnot := List.head?_dropWhile_not (fun row : MessageRow => row.role = .assistant)
      fitting.reverse
    rw [Option.mem_def.1 hrow] at hnot
    cases hrole : row.role with
    | user => rfl
    | assistant => simp [hrole] at hnot
  have hmaximal : ∀ run, run <:+ fitting.reverse → (∀ row ∈ run.head?, row.role = .user) →
      run.length ≤ (fitting.reverse.dropWhile fun row => row.role = .assistant).length :=
    fun run hrun hrunOpens => length_le_dropWhile hrun hrunOpens
  have hmessages : render fitting =
    (fitting.reverse.dropWhile fun row => row.role = .assistant).map toMessage := rfl
  generalize fitting.reverse.takeWhile (fun row => row.role = .assistant) = dropped
    at hsplit hdropped
  generalize fitting.reverse.dropWhile (fun row => row.role = .assistant) = kept
    at hsplit hopens hmaximal hmessages ⊢
  have hcontiguous : kept.reverse <+: fitting := by
    rw [← List.reverse_reverse fitting, List.reverse_prefix]
    exact ⟨dropped, hsplit⟩
  have htokens : tokens dropped + tokens kept = tokens fitting := by
    rw [← tokens_append, hsplit, tokens_reverse]
  constructor
  case longest => exact hlongest
  case messages => exact hmessages
  case trimmed => exact ⟨dropped, hsplit.symm, hdropped⟩
  case opens => exact hopens
  case contiguous => exact hcontiguous.trans hlongest.run
  case within =>
    have hnonneg : 0 ≤ tokens dropped := by
      refine tokens_nonneg fun row hrow => h row (hlongest.run.subset ?_)
      rw [← List.mem_reverse, ← hsplit]
      exact List.mem_append_left _ hrow
    have hwithin := hlongest.within
    omega
  case newest =>
    intro hkept
    have hlast : kept.getLast? = fitting.head? := by
      rw [← List.getLast?_reverse, ← hsplit, List.getLast?_append_of_ne_nil _ hkept]
    have hne : fitting ≠ [] := by
      rintro rfl
      exact hkept (List.append_eq_nil_iff.1 hsplit).2
    rw [hlast]
    obtain ⟨rest, rfl⟩ := hlongest.run
    rw [List.head?_append_of_ne_nil _ hne]
  case maximal =>
    intro run hrun hrunOpens hfits
    have hfitting := hlongest.longest run.reverse hrun (by rwa [tokens_reverse])
    rw [← List.reverse_reverse fitting, List.reverse_prefix] at hfitting
    exact hmaximal run hfitting hrunOpens
  case lastUser => exact lastUserTurn_spec rows

/-- Three turns fit, and the oldest of them, an answer, is dropped. -/
theorem memory_window_spec_turns :
    let rows : List MessageRow := [⟨.assistant, 3, "d".toList, 2⟩, ⟨.user, 2, "c".toList, 1⟩,
      ⟨.assistant, 1, "b".toList, 1⟩, ⟨.user, 0, "a".toList, 5⟩]
    loadMemoryWindow (some rows) 4 = ⟨[.human "c".toList, .ai "d".toList], some "c".toList⟩ ∧
      ∃ fitting kept, WindowSpec rows 4 (loadMemoryWindow (some rows) 4) fitting kept :=
  ⟨by decide +kernel, memory_window_spec _ 4 (by decide) (by decide)⟩

end Archiviste.Generate
