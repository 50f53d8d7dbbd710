import Archiviste.Frontend.ChatShell

/-!
# Archiviste.Frontend.Selection

The selected conversation under any number of requests for transcripts, answered in any order. Every
click on a conversation takes a new token, and a reply is applied only if its token is still the last
one taken.

* `LatestSelect`, `Cleared` — what the last click of a run was.
* `Returned`       — a transcript that came back, and the request it answered.
* `reply_cases`    — what a reply can do to the selection: nothing, unless it answers the latest
  request.
* `selection_spec` — the last click wins, whatever the order of the replies.

Deletions have a module of their own; chat turns may go on in between.
-/

namespace Archiviste.Frontend

open Run

def Action.isClick : Action → Bool
  | .select _ | .newConversation => true
  | _ => false

section
variable (cs : List ConversationSummary)

def LatestSelect (as before : List Action) (n : Nat) (id : Text) : Prop :=
  ∃ after, as = before ++ .select id :: after ∧ (∀ a ∈ after, a.isClick = false) ∧
    n = (pageAfter cs before).nextCall

def Cleared (as : List Action) : Prop :=
  (∀ a ∈ as, a.isClick = false) ∨
    ∃ before after, as = before ++ .newConversation :: after ∧ ∀ a ∈ after, a.isClick = false

def Returned (as : List Action) (n : Nat) (id conversationId : Text)
    (rows : List ConversationMessage) : Prop :=
  ∃ before after token, as = before ++ .reply n (.json (.transcript conversationId rows)) :: after ∧
    (pageAfter cs before).calls.get? n = some (.selectBody token id)

def Loaded (as : List Action) (n : Nat) (id : Text) : Prop :=
  ∃ conversationId rows, Returned cs as n id conversationId rows

/-- The transcript on the page is one returned for the selected id. -/
def Paired (as : List Action) (s : Shell) : Prop :=
  (s.selectedId = none ∧ s.loadedMessages = none) ∨
    ∃ n id conversationId rows, s.selectedId = some id ∧
      s.loadedMessages = some (mapTranscriptToMessages rows conversationId) ∧
      Returned cs as n id conversationId rows

/-- A step changes the selected id and the transcript together or not at all. -/
def Together (s s' : Shell) : Prop :=
  (s'.selectedId = s.selectedId ∧ s'.loadedMessages = s.loadedMessages) ∨
    (s'.selectedId = none ∧ s'.loadedMessages = none) ∨
    ∃ id messages, s'.selectedId = some id ∧ s'.loadedMessages = some messages

/-- What holds after every run without deletions. -/
structure SelectionSpec (as : List Action) : Prop where
  paired : Paired cs as (pageAfter cs as).shell
  together : ∀ a, a ≠ .confirmDelete →
    Together (pageAfter cs as).shell ((pageAfter cs as).step a).shell
  /-- A reply that changes the selection or the banner answers the request of the last click. -/
  latestOnly : ∀ n r,
    ((pageAfter cs as).step (.reply n r)).shell.selectedId ≠ (pageAfter cs as).shell.selectedId ∨
    ((pageAfter cs as).step (.reply n r)).shell.loadedMessages ≠
      (pageAfter cs as).shell.loadedMessages ∨
    ((pageAfter cs as).step (.reply n r)).shell.transcriptError ≠
      (pageAfter cs as).shell.transcriptError → ∃ before id, LatestSelect cs as before n id
  /-- When every request is answered, the last click decides: its own id if its transcript came,
  else what was selected before it. -/
  settled : (∀ n call, (pageAfter cs as).calls.get? n = some call → call.selects = none) →
    (Cleared as → (pageAfter cs as).shell.selectedId = none) ∧
    ∀ before n id, LatestSelect cs as before n id →
      (Loaded cs as n id → (pageAfter cs as).shell.selectedId = some id) ∧
      (¬ Loaded cs as n id →
        (pageAfter cs as).shell.selectedId = (pageAfter cs before).shell.selectedId)

end

/-! ## Runs with one action more -/

theorem concat_eq_split {α : Type} {as before after : List α} {a b : α} :
    as ++ [a] = before ++ b :: after ↔
      (after = [] ∧ before = as ∧ b = a) ∨ ∃ rest, after = rest ++ [a] ∧ as = before ++ b :: rest := by
  constructor
  · intro h
    rcases List.eq_nil_or_concat after with rfl | ⟨rest, c, rfl⟩
    · obtain ⟨rfl, hb⟩ := List.append_inj' h rfl
      exact .inl ⟨rfl, rfl, (List.singleton_inj.1 hb).symm⟩
    · rw [List.concat_eq_append, ← List.cons_append, ← List.append_assoc] at h
      obtain ⟨rfl, hc⟩ := List.append_inj' h rfl
      rw [List.concat_eq_append, List.singleton_inj.1 hc]
      exact .inr ⟨rest, rfl, rfl⟩
  · rintro (⟨rfl, rfl, rfl⟩ | ⟨rest, rfl, rfl⟩)
    · rfl
    · simp

section
variable {cs : List ConversationSummary} {as before : List Action} {a : Action} {n : Nat}
  {id conversationId : Text} {rows : List ConversationMessage}

theorem latestSelect_concat : LatestSelect cs (as ++ [a]) before n id ↔
    (a = .select id ∧ before = as ∧ n = (pageAfter cs as).nextCall) ∨
      (a.isClick = false ∧ LatestSelect cs as before n id) := by
  constructor
  · rintro ⟨after, heq, hafter, hn⟩
    rcases concat_eq_split.1 heq with ⟨-, rfl, rfl⟩ | ⟨rest, rfl, rfl⟩
    · exact .inl ⟨rfl, rfl, hn⟩
    · refine .inr ⟨hafter a (by simp), rest, rfl, fun b hb => hafter b (by simp [hb]), hn⟩
  · rintro (⟨rfl, rfl, hn⟩ | ⟨ha, after, rfl, hafter, hn⟩)
    · exact ⟨[], rfl, by simp, hn⟩
    · refine ⟨after ++ [a], by simp, fun b hb => ?_, hn⟩
      rcases List.mem_append.1 hb with hb | hb
      · exact hafter b hb
      · rwa [List.mem_singleton.1 hb]

theorem cleared_concat : Cleared (as ++ [a]) ↔
    a = .newConversation ∨ (a.isClick = false ∧ Cleared as) := by
  constructor
  · rintro (hnone | ⟨before, after, heq, hafter⟩)
    · exact .inr ⟨hnone a (by simp), .inl fun b hb => hnone b (by simp [hb])⟩
    · rcases concat_eq_split.1 heq with ⟨-, rfl, rfl⟩ | ⟨rest, rfl, rfl⟩
      · exact .inl rfl
      · exact .inr ⟨hafter a (by simp), .inr ⟨before, rest, rfl, fun b hb => hafter b (by simp [hb])⟩⟩
  · have hconcat : ∀ {l : List Action}, (∀ b ∈ l, b.isClick = false) → a.isClick = false →
        ∀ b ∈ l ++ [a], b.isClick = false := by
      intro l hl ha b hb
      rcases List.mem_append.1 hb with hb | hb
      · exact hl b hb
      · rwa [List.mem_singleton.1 hb]
    rintro (rfl | ⟨ha, hnone | ⟨before, after, rfl, hafter⟩⟩)
    · exact .inr ⟨as, [], rfl, by simp⟩
    · exact .inl (hconcat hnone ha)
    · exact .inr ⟨before, after ++ [a], by simp, hconcat hafter ha⟩

theorem returned_concat : Returned cs (as ++ [a]) n id conversationId rows ↔
    Returned cs as n id conversationId rows ∨
      (a = .reply n (.json (.transcript conversationId rows)) ∧
        ∃ token, (pageAfter cs as).calls.get? n = some (.selectBody token id)) := by
  constructor
  · rintro ⟨before, after, token, heq, hcall⟩
    rcases concat_eq_split.1 heq with ⟨-, rfl, rfl⟩ | ⟨rest, rfl, rfl⟩
    · exact .inr ⟨rfl, token, hcall⟩
    · exact .inl ⟨before, rest, token, rfl, hcall⟩
  · rintro (⟨before, after, token, rfl, hcall⟩ | ⟨rfl, token, hcall⟩)
    · exact ⟨before, after ++ [a], token, by simp, hcall⟩
    · exact ⟨as, [], token, rfl, hcall⟩

theorem LatestSelect.unique {before' : List Action} {n' : Nat} {id' : Text}
    (h : LatestSelect cs as before n id) (h' : LatestSelect cs as before' n' id') : n = n' := by
  induction as using List.reverseRecOn with
  | nil =>
    obtain ⟨after, heq, -⟩ := h
    simp at heq
  | append_singleton as a ih =>
    rcases latestSelect_concat.1 h with ⟨rfl, rfl, rfl⟩ | ⟨ha, h⟩
    · rcases latestSelect_concat.1 h' with ⟨-, rfl, rfl⟩ | ⟨ha', -⟩
      · rfl
      · cases ha'
    · rcases latestSelect_concat.1 h' with ⟨rfl, -, -⟩ | ⟨-, h'⟩
      · cases ha
      · exact ih h h'

theorem LatestSelect.not_cleared (h : LatestSelect cs as before n id) : ¬ Cleared as := by
  induction as using List.reverseRecOn with
  | nil =>
    obtain ⟨after, heq, -⟩ := h
    simp at heq
  | append_singleton as a ih =>
    intro hcleared
    rcases latestSelect_concat.1 h with ⟨rfl, -, -⟩ | ⟨ha, h⟩
    · rcases cleared_concat.1 hcleared with hnew | ⟨ha', -⟩
      · cases hnew
      · cases ha'
    · rcases cleared_concat.1 hcleared with rfl | ⟨-, hcleared⟩
      · cases ha
      · exact ih h hcleared

end

/-! ## What a step does to the selection -/

structure SameSelection (s s' : Shell) : Prop where
  selectedId : s'.selectedId = s.selectedId
  loadedMessages : s'.loadedMessages = s.loadedMessages
  transcriptError : s'.transcriptError = s.transcriptError
  selectionRequest : s'.selectionRequest = s.selectionRequest

theorem SameSelection.of_eq {s s' : Shell} (h : s' = s) : SameSelection s s' := by
  subst h
  exact ⟨rfl, rfl, rfl, rfl⟩

variable {p : Page}

/-- A reply is no concern of the selection, or it is the answer to the latest request, and then it
fails or brings the transcript. -/
theorem Resumed.selection {p' : Page} {call : Call} {r : Reply} {next : Option Call}
    (h : Resumed p call r p' next) (hdelete : call.deletes = none) :
    (SameSelection p.shell p'.shell ∧ (NoTranscript call r ∨
      ∃ token id, call.selects = some (token, id) ∧ token ≠ p.shell.selectionRequest)) ∨
    ∃ id, call.selects = some (p.shell.selectionRequest, id) ∧ next = none ∧
      p'.shell.selectionRequest = p.shell.selectionRequest ∧
      ((NoTranscript call r ∧ p'.shell.selectedId = p.shell.selectedId ∧
          p'.shell.loadedMessages = p.shell.loadedMessages) ∨
        ∃ token conversationId rows, call = .selectBody token id ∧
          r = .json (.transcript conversationId rows) ∧ p'.shell.selectedId = some id ∧
          p'.shell.loadedMessages = some (mapTranscriptToMessages rows conversationId)) := by
  cases h with
  | waits hr => exact .inl ⟨.of_eq rfl, .inl hr⟩
  | stale r hcall htoken => exact .inl ⟨.of_eq rfl, .inr ⟨_, _, hcall, htoken.symm⟩⟩
  | selectAnswered id r htoken => exact .inl ⟨.of_eq rfl, .inl fun _ _ _ _ => nofun⟩
  | selectFailed hcall htoken hr =>
    subst htoken
    exact .inr ⟨_, hcall, rfl, rfl, .inl ⟨hr, rfl, rfl⟩⟩
  | selectLoaded id conversationId rows htoken =>
    subst htoken
    exact .inr ⟨id, rfl, rfl, rfl, .inr ⟨_, conversationId, rows, rfl, rfl, rfl, rfl⟩⟩
  | chatAnswered => exact .inl ⟨.of_eq rfl, .inl fun _ _ _ _ => nofun⟩
  | chatRefused => exact .inl ⟨.of_eq (Page.setForm_shell _ _ _), .inl fun _ _ _ _ => nofun⟩
  | chatRead =>
    refine .inl ⟨.of_eq ?_, .inl fun _ _ _ _ => nofun⟩
    rw [Page.afterRead_fst, Page.setForm_shell]
  | refreshAnswered => exact .inl ⟨.of_eq rfl, .inl fun _ _ _ _ => nofun⟩
  | refreshFailed r hcall =>
    refine .inl ⟨.of_eq rfl, .inl ?_⟩
    rcases hcall with rfl | rfl <;> exact fun _ _ _ _ => nofun
  | refreshed => exact .inl ⟨⟨rfl, rfl, rfl, rfl⟩, .inl fun _ _ _ _ => nofun⟩
  | deleteAnswered => cases hdelete
  | deleteFailed => cases hdelete
  | reconcileAnswered => cases hdelete
  | reconciled => cases hdelete
  | reconcileFailed r hcall => rcases hcall with rfl | rfl <;> cases hdelete

/-- The selection stays, the calls under way go on or end, and new ones are not for a transcript. -/
structure Quiet (p p' : Page) : Prop where
  same : SameSelection p.shell p'.shell
  nextCall_le : p.nextCall ≤ p'.nextCall
  calls : ∀ n call', p'.calls.get? n = some call' →
    (p.nextCall ≤ n ∧ call'.selects = none ∧ call'.deletes = none) ∨
    ∃ call, p.calls.get? n = some call ∧ call'.selects = call.selects ∧
      call'.deletes = call.deletes

theorem Quiet.of_same {p' : Page} (hsame : SameSelection p.shell p'.shell)
    (hnext : p'.nextCall = p.nextCall) (hcalls : p'.calls = p.calls) : Quiet p p' :=
  ⟨hsame, hnext.ge, fun _ call' h => .inr ⟨call', hcalls ▸ h, rfl, rfl⟩⟩

theorem quiet_step (p : Page) {a : Action} (hclick : a.isClick = false) (ha : a ≠ .confirmDelete)
    (hreply : ∀ n r, a ≠ .reply n r) : Quiet p (p.step a) := by
  cases a with
  | select id => cases hclick
  | newConversation => cases hclick
  | send rawQuery =>
    rcases hsend : p.form.sendQuery rawQuery with _ | ⟨form, request⟩
    · simp only [Page.step, Page.act, hsend]
      exact .of_same (.of_eq (by simp)) (by simp) (by simp)
    · simp only [Page.step, Page.act, hsend]
      refine ⟨.of_eq (by simp [Page.issue]), by simp [Page.issue], fun n call' hcall => ?_⟩
      rw [Page.render_calls, Page.issue, Dict.get?_set] at hcall
      split_ifs at hcall with hn
      · cases hcall
        exact .inl ⟨hn.ge, rfl, rfl⟩
      · exact .inr ⟨call', hcall, rfl, rfl⟩
  | requestDelete id =>
    have hshell : ((p.act (.requestDelete id)).render).shell = _ := Page.render_shell _
    exact .of_same (by rw [Page.step, hshell]; exact ⟨rfl, rfl, rfl, rfl⟩)
      (Page.render_nextCall _) (Page.render_calls _)
  | cancelDelete =>
    have hshell : ((p.act .cancelDelete).render).shell = _ := Page.render_shell _
    exact .of_same (by rw [Page.step, hshell]; exact ⟨rfl, rfl, rfl, rfl⟩)
      (Page.render_nextCall _) (Page.render_calls _)
  | confirmDelete => exact absurd rfl ha
  | reply n r => exact absurd rfl (hreply n r)

structure Answered (p : Page) (n : Nat) (r : Reply) (id : Text) (p' : Page) : Prop where
  calls : ∀ m, p'.calls.get? m = if m = n then none else p.calls.get? m
  nextCall : p'.nextCall = p.nextCall
  selectionRequest : p'.shell.selectionRequest = p.shell.selectionRequest
  outcome : ∃ call, p.calls.get? n = some call ∧
    call.selects = some (p.shell.selectionRequest, id) ∧
    ((NoTranscript call r ∧ p'.shell.selectedId = p.shell.selectedId ∧
        p'.shell.loadedMessages = p.shell.loadedMessages) ∨
      ∃ token conversationId rows, call = .selectBody token id ∧
        r = .json (.transcript conversationId rows) ∧ p'.shell.selectedId = some id ∧
        p'.shell.loadedMessages = some (mapTranscriptToMessages rows conversationId))

theorem reply_cases (hdelete : ∀ n call, p.calls.get? n = some call → call.deletes = none)
    (n : Nat) (r : Reply) :
    (Quiet p (p.step (.reply n r)) ∧ ∀ token id conversationId rows,
      p.calls.get? n = some (.selectBody token id) →
        r = .json (.transcript conversationId rows) → token ≠ p.shell.selectionRequest) ∨
    ∃ id, Answered p n r id (p.step (.reply n r)) := by
  rcases hcall : p.calls.get? n with _ | call
  · rw [Page.step_reply_none hcall]
    exact .inl ⟨.of_same (.of_eq (by simp)) (by simp) (by simp), by simp⟩
  · obtain ⟨p', next, hr, hstep⟩ := Page.step_reply hcall r
    rw [hstep]
    obtain ⟨hcalls, hnextCall, -, -⟩ := hr.sameCalls
    have hnext' : (p'.settle n next).render.nextCall = p.nextCall := by
      rw [Page.render_nextCall]
      cases next <;> exact hnextCall
    have hget : ∀ m, (p'.settle n next).render.calls.get? m =
        if m = n then next else p.calls.get? m := by
      intro m
      rw [Page.render_calls, Page.get?_settle, hcalls]
    have hshell : (p'.settle n next).render.shell = p'.shell := by
      rw [Page.render_shell, Page.settle_shell]
    rcases hr.selection (hdelete n call hcall) with ⟨hsame, hwhy⟩ | ⟨id, hsel, rfl, hreq, hout⟩
    · refine .inl ⟨⟨hshell ▸ hsame, hnext'.ge, fun m call' hm => .inr ?_⟩, ?_⟩
      · rw [hget] at hm
        split_ifs at hm with heq
        · subst heq
          obtain ⟨hselects, hdeletes, -⟩ := hr.goes_on hm
          exact ⟨call, hcall, hselects, hdeletes⟩
        · exact ⟨call', hm, rfl, rfl⟩
      · rintro token id conversationId rows hbody rfl
        cases hbody
        rcases hwhy with hno | ⟨token', id', hsel, hne⟩
        · exact absurd rfl (hno token id conversationId rows rfl)
        · cases hsel
          exact hne
    · exact .inr ⟨id, hget, hnext', by rw [hshell]; exact hreq,
        call, hcall, hsel, by rw [hshell]; exact hout⟩

/-! ## Whole runs -/

section
variable (cs : List ConversationSummary)

/-- The latest request is under way or has failed, and the selection is the one before it; or its
transcript has come, and its conversation is selected. -/
def Fate (as : List Action) (p : Page) (before : List Action) (n : Nat) (id : Text) : Prop :=
  (¬ Loaded cs as n id ∧ p.shell.selectedId = (pageAfter cs before).shell.selectedId ∧
    ∀ call, p.calls.get? n = some call → call.selects = some (p.shell.selectionRequest, id)) ∨
  (Loaded cs as n id ∧ p.shell.selectedId = some id ∧ p.calls.get? n = none)

/-- `p` is the page after the run `as`. -/
structure SelectionInv (as : List Action) (p : Page) : Prop where
  browsing : ∀ n call, p.calls.get? n = some call → call.deletes = none
  current : ∀ n call id, p.calls.get? n = some call →
    call.selects = some (p.shell.selectionRequest, id) → ∃ before, LatestSelect cs as before n id
  latest_lt : ∀ before n id, LatestSelect cs as before n id → n < p.nextCall
  loaded_lt : ∀ n id, Loaded cs as n id → n < p.nextCall
  fate : ∀ before n id, LatestSelect cs as before n id → Fate cs as p before n id
  cleared : Cleared as → p.shell.selectedId = none
  paired : Paired cs as p.shell

end

section
variable {cs : List ConversationSummary} {as : List Action}

theorem Loaded.concat {n : Nat} {id : Text} (h : Loaded cs as n id) (a : Action) :
    Loaded cs (as ++ [a]) n id := by
  obtain ⟨conversationId, rows, h⟩ := h
  exact ⟨conversationId, rows, returned_concat.2 (.inl h)⟩

theorem Paired.concat {s s' : Shell} (h : Paired cs as s) (a : Action)
    (hselected : s'.selectedId = s.selectedId) (hloaded : s'.loadedMessages = s.loadedMessages) :
    Paired cs (as ++ [a]) s' := by
  rw [Paired, hselected, hloaded]
  rcases h with hnone | ⟨n, id, conversationId, rows, hsel, hload, hret⟩
  · exact .inl hnone
  · exact .inr ⟨n, id, conversationId, rows, hsel, hload, returned_concat.2 (.inl hret)⟩

section
variable {p : Page} (hp : p = pageAfter cs as) (h : SelectionInv cs as p)
include hp h

variable {a : Action} {n : Nat}

theorem SelectionInv.loaded_concat_lt {id : Text} (hloaded : Loaded cs (as ++ [a]) n id) :
    n < p.nextCall := by
  obtain ⟨conversationId, rows, hret⟩ := hloaded
  rcases returned_concat.1 hret with hret | ⟨-, token, hcall⟩
  · exact h.loaded_lt n id ⟨conversationId, rows, hret⟩
  · subst hp
    exact (wellNumbered_pageAfter cs as).number_lt n _ hcall

theorem SelectionInv.quiet (hclick : a.isClick = false) (hquiet : Quiet p (p.step a))
    (hreply : ∀ n token id conversationId rows, p.calls.get? n = some (.selectBody token id) →
      a = .reply n (.json (.transcript conversationId rows)) → token ≠ p.shell.selectionRequest) :
    SelectionInv cs (as ++ [a]) (p.step a) := by
  have hlatest : ∀ {before n id}, LatestSelect cs (as ++ [a]) before n id →
      LatestSelect cs as before n id := by
    intro before n id hl
    rcases latestSelect_concat.1 hl with ⟨rfl, -, -⟩ | ⟨-, hl⟩
    · cases hclick
    · exact hl
  constructor
  case browsing =>
    intro n call' hcall
    rcases hquiet.calls n call' hcall with ⟨-, -, hdel⟩ | ⟨call, hold, -, hdel⟩
    · exact hdel
    · rw [hdel]
      exact h.browsing n call hold
  case current =>
    intro n call' id hcall hsel
    rw [hquiet.same.selectionRequest] at hsel
    rcases hquiet.calls n call' hcall with ⟨-, hnone, -⟩ | ⟨call, hold, hsame, -⟩
    · rw [hnone] at hsel
      cases hsel
    · obtain ⟨before, hl⟩ := h.current n call id hold (hsame ▸ hsel)
      exact ⟨before, latestSelect_concat.2 (.inr ⟨hclick, hl⟩)⟩
  case latest_lt =>
    intro before n id hl
    exact (h.latest_lt before n id (hlatest hl)).trans_le hquiet.nextCall_le
  case loaded_lt =>
    intro n id hloaded
    exact (h.loaded_concat_lt hp hloaded).trans_le hquiet.nextCall_le
  case fate =>
    intro before n id hl
    have hl := hlatest hl
    have hlt := h.latest_lt before n id hl
    rw [Fate, hquiet.same.selectedId, hquiet.same.selectionRequest]
    rcases h.fate before n id hl with ⟨hnot, hsel, hcall⟩ | ⟨hload, hsel, hnone⟩
    · refine .inl ⟨?_, hsel, fun call' hcall' => ?_⟩
      · rintro ⟨conversationId, rows, hret⟩
        rcases returned_concat.1 hret with hret | ⟨ha, token, hbody⟩
        · exact hnot ⟨conversationId, rows, hret⟩
        · rw [← hp] at hbody
          have hcurrent := hcall _ hbody
          cases hcurrent
          exact hreply n _ id conversationId rows hbody ha rfl
      · rcases hquiet.calls n call' hcall' with ⟨hge, -⟩ | ⟨call, hold, hsame, -⟩
        · exact absurd hge (not_le.2 hlt)
        · rw [hsame]
          exact hcall call hold
    · refine .inr ⟨hload.concat a, hsel, ?_⟩
      rcases hnew : (p.step a).calls.get? n with _ | call'
      · rfl
      · rcases hquiet.calls n call' hnew with ⟨hge, -⟩ | ⟨call, hold, -⟩
        · exact absurd hge (not_le.2 hlt)
        · rw [hnone] at hold
          cases hold
  case cleared =>
    intro hcleared
    rw [hquiet.same.selectedId]
    rcases cleared_concat.1 hcleared with rfl | ⟨-, hcleared⟩
    · cases hclick
    · exact h.cleared hcleared
  case paired => exact h.paired.concat a hquiet.same.selectedId hquiet.same.loadedMessages

theorem SelectionInv.answered {r : Reply} {id : Text}
    (ha : Answered p n r id (p.step (.reply n r))) :
    SelectionInv cs (as ++ [.reply n r]) (p.step (.reply n r)) := by
  obtain ⟨call, hcall, hsel, hout⟩ := ha.outcome
  obtain ⟨before, hlatest⟩ := h.current n call id hcall hsel
  have hold : ∀ {before' n' id'}, LatestSelect cs (as ++ [.reply n r]) before' n' id' →
      LatestSelect cs as before' n' id' := by
    intro before' n' id' hl
    rcases latestSelect_concat.1 hl with ⟨hselect, -, -⟩ | ⟨-, hl⟩
    · cases hselect
    · exact hl
  constructor
  case browsing =>
    intro m call' hm
    rw [ha.calls] at hm
    split_ifs at hm
    exact h.browsing m call' hm
  case current =>
    intro m call' id' hm hsel'
    rw [ha.calls] at hm
    rw [ha.selectionRequest] at hsel'
    split_ifs at hm
    obtain ⟨before', hl⟩ := h.current m call' id' hm hsel'
    exact ⟨before', latestSelect_concat.2 (.inr ⟨rfl, hl⟩)⟩
  case latest_lt =>
    intro before' n' id' hl
    rw [ha.nextCall]
    exact h.latest_lt before' n' id' (hold hl)
  case loaded_lt =>
    intro n' id' hloaded
    rw [ha.nextCall]
    exact h.loaded_concat_lt hp hloaded
  case fate =>
    intro before' n' id' hnew
    have hl := hold hnew
    obtain rfl := hl.unique hlatest
    -- the latest request was under way, so its transcript has not come yet
    rcases h.fate before' n' id' hl with ⟨hnot, hsame, hcurrent⟩ | ⟨-, -, hnone⟩
    · obtain rfl : id' = id := by
        have heq := (hcurrent call hcall).symm.trans hsel
        cases heq
        rfl
      rcases hout with ⟨hno, hselected, -⟩ | ⟨token, conversationId, rows, rfl, rfl, hselected, -⟩
      · refine .inl ⟨?_, hselected.trans hsame, fun call' hcall' => ?_⟩
        · rintro ⟨conversationId, rows, hret⟩
          rcases returned_concat.1 hret with hret | ⟨hreply, token, hbody⟩
          · exact hnot ⟨conversationId, rows, hret⟩
          · rw [← hp, hcall] at hbody
            cases hbody
            cases hreply
            exact hno token id' conversationId rows rfl rfl
        · rw [ha.calls, if_pos rfl] at hcall'
          cases hcall'
      · refine .inr ⟨⟨conversationId, rows, returned_concat.2 (.inr ⟨rfl, token, ?_⟩)⟩, hselected, ?_⟩
        · rw [← hp]
          exact hcall
        · rw [ha.calls, if_pos rfl]
    · rw [hnone] at hcall
      cases hcall
  case cleared =>
    intro hcleared
    rcases cleared_concat.1 hcleared with hnew | ⟨-, hcleared⟩
    · cases hnew
    · exact absurd hcleared hlatest.not_cleared
  case paired =>
    rcases hout with ⟨-, hselected, hloaded⟩ |
      ⟨token, conversationId, rows, rfl, rfl, hselected, hloaded⟩
    · exact h.paired.concat _ hselected hloaded
    · refine .inr ⟨n, id, conversationId, rows, hselected, hloaded, ?_⟩
      exact returned_concat.2 (.inr ⟨rfl, token, hp ▸ hcall⟩)

theorem SelectionInv.select (id : Text) :
    SelectionInv cs (as ++ [.select id]) (p.step (.select id)) := by
  have hnumbers : WellNumbered p := hp ▸ wellNumbered_pageAfter cs as
  have hget : ∀ n, (p.step (.select id)).calls.get? n = if n = p.nextCall then
      some (.selectFetch (p.shell.selectionRequest + 1) id) else p.calls.get? n := by
    intro n
    rw [Page.step, Page.render_calls]
    exact Dict.get?_set _ _ _ _
  have hshell : (p.step (.select id)).shell = { p.shell with
      transcriptError := none, selectionRequest := p.shell.selectionRequest + 1 } :=
    Page.render_shell _
  have hnext : (p.step (.select id)).nextCall = p.nextCall + 1 := Page.render_nextCall _
  constructor
  case browsing =>
    intro n call hcall
    rw [hget] at hcall
    split_ifs at hcall
    · cases hcall
      rfl
    · exact h.browsing n call hcall
  case current =>
    intro n call id' hcall hsel
    rw [hget] at hcall
    rw [hshell] at hsel
    split_ifs at hcall with hn
    · cases hcall
      cases hsel
      exact ⟨as, latestSelect_concat.2 (.inl ⟨rfl, rfl, hp ▸ hn⟩)⟩
    · exact absurd (hnumbers.token_le n call _ id' hcall hsel) (Nat.not_succ_le_self _)
  case latest_lt =>
    intro before n id' hl
    rw [hnext]
    rcases latestSelect_concat.1 hl with ⟨-, -, rfl⟩ | ⟨hclick, -⟩
    · rw [hp]
      exact Nat.lt_succ_self _
    · cases hclick
  case loaded_lt =>
    intro n id' hloaded
    rw [hnext]
    exact Nat.lt_succ_of_lt (h.loaded_concat_lt hp hloaded)
  case fate =>
    intro before n id' hl
    rcases latestSelect_concat.1 hl with ⟨heq, rfl, hn⟩ | ⟨hclick, -⟩
    · cases heq
      rw [← hp] at hn
      refine .inl ⟨fun hloaded => ?_, by rw [hshell, ← hp], fun call hcall => ?_⟩
      · exact absurd (h.loaded_concat_lt hp hloaded) (hn ▸ lt_irrefl _)
      · rw [hget, if_pos hn] at hcall
        cases hcall
        rw [hshell]
        rfl
    · cases hclick
  case cleared =>
    intro hcleared
    rcases cleared_concat.1 hcleared with hnew | ⟨hclick, -⟩
    · cases hnew
    · cases hclick
  case paired => exact h.paired.concat _ (by rw [hshell]) (by rw [hshell])

theorem SelectionInv.newConversation :
    SelectionInv cs (as ++ [.newConversation]) (p.step .newConversation) := by
  have hnumbers : WellNumbered p := hp ▸ wellNumbered_pageAfter cs as
  have hcalls : (p.step .newConversation).calls = p.calls := Page.render_calls _
  have hshell : (p.step .newConversation).shell = p.shell.clearSelection := Page.render_shell _
  have hnext : (p.step .newConversation).nextCall = p.nextCall := Page.render_nextCall _
  have hnone : ∀ {before n id}, ¬ LatestSelect cs (as ++ [.newConversation]) before n id := by
    intro before n id hl
    rcases latestSelect_concat.1 hl with ⟨hselect, -⟩ | ⟨hclick, -⟩
    · cases hselect
    · cases hclick
  constructor
  case browsing =>
    rw [hcalls]
    exact h.browsing
  case current =>
    intro n call id hcall hsel
    rw [hcalls] at hcall
    rw [hshell] at hsel
    exact absurd (hnumbers.token_le n call _ id hcall hsel) (Nat.not_succ_le_self _)
  case latest_lt => exact fun before n id hl => absurd hl hnone
  case loaded_lt =>
    intro n id hloaded
    rw [hnext]
    exact h.loaded_concat_lt hp hloaded
  case fate => exact fun before n id hl => absurd hl hnone
  case cleared =>
    intro _
    rw [hshell]
    rfl
  case paired =>
    rw [hshell]
    exact .inl ⟨rfl, rfl⟩

theorem SelectionInv.step (ha : a ≠ .confirmDelete) : SelectionInv cs (as ++ [a]) (p.step a) := by
  by_cases hclick : a.isClick = true
  · cases a with
    | select id => exact h.select hp id
    | newConversation => exact h.newConversation hp
    | _ => cases hclick
  · rw [Bool.not_eq_true] at hclick
    by_cases hreply : ∃ n r, a = .reply n r
    · obtain ⟨n, r, rfl⟩ := hreply
      rcases reply_cases h.browsing n r with ⟨hquiet, hstale⟩ | ⟨id, hanswered⟩
      · refine h.quiet hp hclick hquiet ?_
        intro m token id conversationId rows hbody hr
        cases hr
        exact hstale token id conversationId rows hbody rfl
      · exact h.answered hp hanswered
    · rw [not_exists] at hreply
      have hreply' : ∀ n r, a ≠ .reply n r := fun n r heq => hreply n ⟨r, heq⟩
      exact h.quiet hp hclick (quiet_step p hclick ha hreply')
        fun n _ _ _ _ _ heq => absurd heq (hreply' n _)

end

theorem together_step {p : Page}
    (hdelete : ∀ n call, p.calls.get? n = some call → call.deletes = none) {a : Action}
    (ha : a ≠ .confirmDelete) : Together p.shell (p.step a).shell := by
  have hquiet : Quiet p (p.step a) → Together p.shell (p.step a).shell := fun hquiet =>
    .inl ⟨hquiet.same.selectedId, hquiet.same.loadedMessages⟩
  cases a with
  | select id =>
    rw [Page.step, Page.render_shell]
    exact .inl ⟨rfl, rfl⟩
  | newConversation =>
    rw [Page.step, Page.render_shell]
    exact .inr (.inl ⟨rfl, rfl⟩)
  | reply n r =>
    rcases reply_cases hdelete n r with ⟨hq, -⟩ | ⟨id, hanswered⟩
    · exact hquiet hq
    · obtain ⟨_, -, -, ⟨-, hselected, hloaded⟩ | ⟨_, _, _, -, -, hselected, hloaded⟩⟩ :=
        hanswered.outcome
      · exact .inl ⟨hselected, hloaded⟩
      · exact .inr (.inr ⟨_, _, hselected, hloaded⟩)
  | confirmDelete => exact absurd rfl ha
  | _ => exact hquiet (quiet_step p rfl ha fun _ _ h => by cases h)

theorem selectionInv_pageAfter (h : ∀ a ∈ as, a ≠ .confirmDelete) :
    SelectionInv cs as (pageAfter cs as) := by
  induction as using List.reverseRecOn with
  | nil =>
    have hnone : ∀ {before n id}, ¬ LatestSelect cs [] before n id := by
      rintro before n id ⟨after, heq, -⟩
      simp at heq
    have hnot : ∀ {n id}, ¬ Loaded cs [] n id := by
      rintro n id ⟨conversationId, rows, before, after, token, heq, -⟩
      simp at heq
    exact ⟨nofun, nofun, fun _ _ _ hl => absurd hl hnone, fun _ _ hl => absurd hl hnot,
      fun _ _ _ hl => absurd hl hnone, fun _ => rfl, .inl ⟨rfl, rfl⟩⟩
  | append_singleton as a ih =>
    rw [pageAfter_concat]
    exact (ih fun b hb => h b (by simp [hb])).step rfl (h a (by simp))

end

/-- After every run of selections, clicks for a new conversation and chat turns, with the replies in
any order: the transcript shown is that of the selected id, only the answer to the last click moves
them or raises the banner, and when every answer is in the last click has decided. -/
theorem selection_spec (cs : List ConversationSummary) (as : List Action)
    (h : ∀ a ∈ as, a ≠ .confirmDelete) : SelectionSpec cs as := by
  have hinv : SelectionInv cs as (pageAfter cs as) := selectionInv_pageAfter h
  constructor
  case paired => exact hinv.paired
  case together => exact fun a ha => together_step hinv.browsing ha
  case latestOnly =>
    intro n r hmoved
    rcases reply_cases hinv.browsing n r with ⟨hquiet, -⟩ | ⟨id, hanswered⟩
    · obtain ⟨hselected, hloaded, herror, -⟩ := hquiet.same
      rcases hmoved with hmoved | hmoved | hmoved
      · exact absurd hselected hmoved
      · exact absurd hloaded hmoved
      · exact absurd herror hmoved
    · obtain ⟨call, hcall, hsel, -⟩ := hanswered.outcome
      obtain ⟨before, hlatest⟩ := hinv.current n call id hcall hsel
      exact ⟨before, id, hlatest⟩
  case settled =>
    intro hdone
    refine ⟨hinv.cleared, fun before n id hlatest => ?_⟩
    rcases hinv.fate before n id hlatest with ⟨hnot, hsel, -⟩ | ⟨hload, hsel, -⟩
    · exact ⟨fun hload => absurd hload hnot, fun _ => hsel⟩
    · exact ⟨fun _ => hsel, fun hnot => absurd hload hnot⟩

def overtaken : List Action :=
  [.select "a".toList, .select "b".toList, .reply 1 (.response 200 true),
    .reply 1 (.json (.transcript "b".toList [⟨"user".toList, 0, "Qui est Blowen ?".toList⟩])),
    .reply 0 (.response 200 true)]

theorem selection_spec_overtaken :
    Along Page.step Page.Offers (.init [⟨"a".toList, [], false⟩, ⟨"b".toList, [], false⟩]) overtaken ∧
      (pageAfter [⟨"a".toList, [], false⟩, ⟨"b".toList, [], false⟩] overtaken).shell.selectedId =
        some "b".toList ∧
      SelectionSpec [⟨"a".toList, [], false⟩, ⟨"b".toList, [], false⟩] overtaken := by
  refine ⟨by decide +kernel, by decide +kernel, selection_spec _ overtaken ?_⟩
  simp [overtaken]

end Archiviste.Frontend
