import Archiviste.Base.Dict
import Archiviste.Base.Run
import Archiviste.Frontend.ChatForm
import Mathlib.Data.List.Sort

/-!
# Archiviste.Frontend.ChatShell

The chat page: the shell with its sidebar, and the form it mounts under the key of the selected
conversation. A handler that awaits is a `Call`: the values it has captured and the point it waits
at. Calls are numbered as they are made, and `Action.reply` resumes one of them, so that replies
come in any order. After every action the page is rendered.

* `resume`  — what a handler does with a reply, up to its next `await` or its end.
* `render`  — a form keeps its state while its key is unchanged and is mounted anew when it changes;
  what an older form still reads does not reach the one on the page.
* `Resumed` — everything a reply can do.
* `new_conversation_fresh_iff` — when the button for a new conversation gives one.
-/

namespace Archiviste.Frontend

open Run

structure ConversationSummary where
  id : Text
  title : Text
  hasTicket : Bool

structure ConversationMessage where
  role : Text
  ordinal : Int
  content : Text

/-! ## The transcript of a conversation -/

def assistantMessage (content conversationId : Text) : Message :=
  let answer := parsePersistedAnswer content
  { role := .assistant
    text := answer.text
    mode := none
    citations := nonEmpty (answer.citations.map fun path => .obj [("source_path".toList, .str path)])
    conversationId := some conversationId
    followups := nonEmpty answer.followups }

def mapTranscriptToMessages (rows : List ConversationMessage) (conversationId : Text) :
    List Message :=
  (rows.insertionSort (·.ordinal ≤ ·.ordinal)).map fun row =>
    if row.role = "user".toList then ⟨.user, row.content, none, none, none, none⟩
    else assistantMessage row.content conversationId

/-! ## The shell -/

structure Shell where
  conversations : List ConversationSummary
  selectedId : Option Text
  loadedMessages : Option (List Message)
  transcriptError : Option Text
  pendingDeleteId : Option Text
  deletingId : Option Text
  deleteError : Option Text
  selectionRequest : Nat

def transcriptLoadError : Text := "Impossible de charger la conversation. Veuillez réessayer.".toList

def deleteConflictMessage : Text :=
  "Suppression impossible : un signalement est en cours sur cette conversation.".toList

def deleteGenericError : Text := "La suppression a échoué. Veuillez réessayer.".toList

namespace Shell

def init (conversations : List ConversationSummary) : Shell :=
  ⟨conversations, none, none, none, none, none, none, 0⟩

def showTranscriptError (s : Shell) : Shell := { s with transcriptError := some transcriptLoadError }

def openConversation (s : Shell) (id : Text) (messages : List Message) : Shell :=
  { s with loadedMessages := some messages, selectedId := some id }

/-- `handleNew`; a deletion of the open conversation does the same. -/
def clearSelection (s : Shell) : Shell :=
  { s with
    selectionRequest := s.selectionRequest + 1
    selectedId := none
    loadedMessages := none
    transcriptError := none }

def finishDelete (s : Shell) (id : Text) (selectedThen : Option Text) : Shell :=
  { if selectedThen = some id then s.clearSelection else s with deletingId := none }

def failDelete (s : Shell) (message : Text) : Shell :=
  { s with deleteError := some message, deletingId := none }

def key (s : Shell) : Text := s.selectedId.getD "new".toList

end Shell

/-! ## The page -/

/-- A handler at one of its `await`s. -/
inductive Call where
  | selectFetch (token : Nat) (id : Text)
  | selectBody (token : Nat) (id : Text)
  | chatFetch (mount : Nat) (request : ChatRequest)
  | chatStream (mount : Nat) (request : ChatRequest) (turn : Turn)
  | refreshFetch
  | refreshBody
  | deleteFetch (id : Text) (selectedThen : Option Text)
  | reconcileFetch (id : Text) (selectedThen : Option Text)
  | reconcileBody (id : Text) (selectedThen : Option Text)

structure Page where
  shell : Shell
  form : ChatForm
  /-- The key the form was mounted under, and its number among the forms mounted so far. -/
  mountKey : Text
  mount : Nat
  calls : Dict Nat Call
  nextCall : Nat

/-- A parsed body, by the guard it passes. -/
inductive Body where
  | transcript (conversationId : Text) (messages : List ConversationMessage)
  | list (conversations : List ConversationSummary)
  | other

inductive Reply where
  | response (status : Nat) (hasBody : Bool)
  | json (body : Body)
  | chunk (c : SseChunk)
  | streamClosed
  | rejected

inductive Action where
  | select (id : Text)
  | newConversation
  | send (rawQuery : Text)
  | requestDelete (id : Text)
  | cancelDelete
  | confirmDelete
  | reply (call : Nat) (r : Reply)

def isOk (status : Nat) : Bool := 200 ≤ status && status < 300

namespace Page

def init (conversations : List ConversationSummary) : Page :=
  ⟨.init conversations, .mount [] none, "new".toList, 0, [], 0⟩

def onShell (p : Page) (f : Shell → Shell) : Page := { p with shell := f p.shell }

def setForm (p : Page) (mount : Nat) (form : ChatForm) : Page :=
  if mount = p.mount then { p with form := form } else p

def issue (p : Page) (call : Call) : Page :=
  { p with calls := p.calls.set p.nextCall call, nextCall := p.nextCall + 1 }

def settle (p : Page) (n : Nat) : Option Call → Page
  | some call => { p with calls := p.calls.set n call }
  | none => { p with calls := p.calls.erase n }

def afterRead (p : Page) (mount : Nat) (request : ChatRequest) :
    ChatForm × TurnState → Page × Option Call
  | (form, .reading turn) => (p.setForm mount form, some (.chatStream mount request turn))
  | (form, .committed) => (p.setForm mount form, some .refreshFetch)
  | (form, .failed) => (p.setForm mount form, none)

def resume (p : Page) : Call → Reply → Page × Option Call
  -- handleSelectConversation
  | .selectFetch token id, .response status _ =>
    if p.shell.selectionRequest ≠ token then (p, none)
    else if isOk status then (p, some (.selectBody token id))
    else (p.onShell Shell.showTranscriptError, none)
  | .selectFetch token _, .rejected =>
    if p.shell.selectionRequest ≠ token then (p, none)
    else (p.onShell Shell.showTranscriptError, none)
  | .selectBody token id, .json body =>
    if p.shell.selectionRequest ≠ token then (p, none)
    else
      match body with
      | .transcript conversationId messages =>
        (p.onShell (·.openConversation id (mapTranscriptToMessages messages conversationId)), none)
      | _ => (p.onShell Shell.showTranscriptError, none)
  | .selectBody token _, .rejected =>
    if p.shell.selectionRequest ≠ token then (p, none)
    else (p.onShell Shell.showTranscriptError, none)
  -- sendQuery
  | .chatFetch mount request, .response status hasBody =>
    if isOk status && hasBody then (p, some (.chatStream mount request {}))
    else (p.setForm mount p.form.fail, none)
  | .chatFetch mount _, .rejected => (p.setForm mount p.form.fail, none)
  | .chatStream mount request turn, .chunk c =>
    p.afterRead mount request (readChunk (p.form, .reading turn) c)
  | .chatStream mount request turn, .streamClosed =>
    p.afterRead mount request (streamEnds .closed (p.form, .reading turn))
  | .chatStream mount request turn, .rejected =>
    p.afterRead mount request (streamEnds .aborted (p.form, .reading turn))
  -- refreshConversations
  | .refreshFetch, .response status _ => (p, if isOk status then some .refreshBody else none)
  | .refreshFetch, .rejected => (p, none)
  | .refreshBody, .json (.list conversations) =>
    (p.onShell fun s => { s with conversations := conversations }, none)
  | .refreshBody, .json _ => (p, none)
  | .refreshBody, .rejected => (p, none)
  -- handleConfirmDelete
  | .deleteFetch id selectedThen, .response status _ =>
    if isOk status then (p, some (.reconcileFetch id selectedThen))
    else
      (p.onShell (·.failDelete (if status = 409 then deleteConflictMessage else deleteGenericError)),
        none)
  | .deleteFetch _ _, .rejected => (p.onShell (·.failDelete deleteGenericError), none)
  | .reconcileFetch id selectedThen, .response status _ =>
    if isOk status then (p, some (.reconcileBody id selectedThen))
    else (p.onShell (·.finishDelete id selectedThen), none)
  | .reconcileFetch id selectedThen, .rejected =>
    (p.onShell (·.finishDelete id selectedThen), none)
  | .reconcileBody id selectedThen, .json (.list conversations) =>
    (p.onShell fun s => { s with conversations := conversations }.finishDelete id selectedThen, none)
  | .reconcileBody id selectedThen, .json _ => (p.onShell (·.finishDelete id selectedThen), none)
  | .reconcileBody id selectedThen, .rejected => (p.onShell (·.finishDelete id selectedThen), none)
  -- no call waits for a reply of another kind
  | call, _ => (p, some call)

def act (p : Page) : Action → Page
  | .select id =>
    let token := p.shell.selectionRequest + 1
    (p.onShell fun s => { s with transcriptError := none, selectionRequest := token }).issue
      (.selectFetch token id)
  | .newConversation => p.onShell Shell.clearSelection
  | .send rawQuery =>
    match p.form.sendQuery rawQuery with
    | none => p
    | some (form, request) => { p with form := form }.issue (.chatFetch p.mount request)
  | .requestDelete id =>
    p.onShell fun s => { s with deleteError := none, pendingDeleteId := some id }
  | .cancelDelete => p.onShell fun s => { s with pendingDeleteId := none }
  | .confirmDelete =>
    match p.shell.pendingDeleteId with
    | none => p
    | some id =>
      (p.onShell fun s =>
        { s with pendingDeleteId := none, deleteError := none, deletingId := some id }).issue
          (.deleteFetch id p.shell.selectedId)
  | .reply n r =>
    match p.calls.get? n with
    | none => p
    | some call => (p.resume call r).1.settle n (p.resume call r).2

def render (p : Page) : Page :=
  if p.shell.key = p.mountKey then p
  else
    { p with
      form := .mount (p.shell.loadedMessages.getD []) p.shell.selectedId
      mountKey := p.shell.key
      mount := p.mount + 1 }

def step (p : Page) (a : Action) : Page := (p.act a).render

/-- What the page offers to click: the rows of the sidebar, except while they are being deleted, and
the buttons of the dialog while it is open. -/
def Offers (p : Page) : Action → Prop
  | .select id => (∃ s ∈ p.shell.conversations, s.id = id) ∧ p.shell.deletingId ≠ some id
  | .requestDelete id =>
    (∃ s ∈ p.shell.conversations, s.id = id ∧ s.hasTicket = false) ∧ p.shell.deletingId ≠ some id
  | .cancelDelete | .confirmDelete => ∃ s ∈ p.shell.conversations, p.shell.pendingDeleteId = some s.id
  | .reply n _ => (p.calls.get? n).isSome
  | .newConversation | .send _ => True

instance (p : Page) : (a : Action) → Decidable (p.Offers a)
  | .select _ => inferInstanceAs (Decidable (_ ∧ _))
  | .requestDelete _ => inferInstanceAs (Decidable (_ ∧ _))
  | .cancelDelete => inferInstanceAs (Decidable (∃ s ∈ p.shell.conversations, _))
  | .confirmDelete => inferInstanceAs (Decidable (∃ s ∈ p.shell.conversations, _))
  | .reply _ _ => inferInstanceAs (Decidable (_ = true))
  | .newConversation => .isTrue trivial
  | .send _ => .isTrue trivial

end Page

def pageAfter (conversations : List ConversationSummary) (as : List Action) : Page :=
  exec Page.step (.init conversations) as

/-! ## Rendering -/

namespace Page

@[simp] theorem render_shell (p : Page) : p.render.shell = p.shell := by
  unfold render
  split <;> rfl

@[simp] theorem render_calls (p : Page) : p.render.calls = p.calls := by
  unfold render
  split <;> rfl

@[simp] theorem render_nextCall (p : Page) : p.render.nextCall = p.nextCall := by
  unfold render
  split <;> rfl

theorem render_mountKey (p : Page) : p.render.mountKey = p.shell.key := by
  unfold render
  split
  case isTrue hkey => exact hkey.symm
  case isFalse => rfl

theorem render_cases (p : Page) :
    (p.shell.key = p.mountKey ∧ p.render = p) ∨
      (p.shell.key ≠ p.mountKey ∧ p.render.mount = p.mount + 1 ∧
        p.render.form = .mount (p.shell.loadedMessages.getD []) p.shell.selectedId) := by
  unfold render
  split
  case isTrue hkey => exact .inl ⟨hkey, rfl⟩
  case isFalse hkey => exact .inr ⟨hkey, rfl, rfl⟩

end Page

variable (cs : List ConversationSummary) (as : List Action)

theorem pageAfter_concat (a : Action) : pageAfter cs (as ++ [a]) = (pageAfter cs as).step a := by
  rw [pageAfter, exec_append]
  rfl

theorem pageAfter_mountKey : (pageAfter cs as).mountKey = (pageAfter cs as).shell.key := by
  refine exec_inv (P := fun p : Page => p.mountKey = p.shell.key) (fun p a _ => ?_) as _ rfl
  rw [Page.step, Page.render_mountKey, Page.render_shell]

/-! ## What a reply can do -/

def Call.selects : Call → Option (Nat × Text)
  | .selectFetch token id | .selectBody token id => some (token, id)
  | _ => none

def Call.deletes : Call → Option (Text × Option Text)
  | .deleteFetch id selectedThen | .reconcileFetch id selectedThen
  | .reconcileBody id selectedThen => some (id, selectedThen)
  | _ => none

def Call.mount? : Call → Option Nat
  | .chatFetch mount _ | .chatStream mount _ _ => some mount
  | _ => none

def NoTranscript (call : Call) (r : Reply) : Prop :=
  ∀ token id conversationId rows, call = .selectBody token id →
    r ≠ .json (.transcript conversationId rows)

inductive Read (form : ChatForm) (turn : Turn) : Reply → ChatForm × TurnState → Prop where
  | chunk (c : SseChunk) : Read form turn (.chunk c) (readChunk (form, .reading turn) c)
  | ends (ending : StreamEnd) (r : Reply) : Read form turn r (streamEnds ending (form, .reading turn))

/-- `Resumed p call r p' next`: on the reply `r` the handler `call` leaves the page as `p'` and goes
on as `next`. -/
inductive Resumed (p : Page) : Call → Reply → Page → Option Call → Prop where
  | waits {call : Call} {r : Reply} (hr : NoTranscript call r) : Resumed p call r p (some call)
  | stale {call : Call} {token : Nat} {id : Text} (r : Reply)
      (hcall : call.selects = some (token, id)) (htoken : p.shell.selectionRequest ≠ token) :
      Resumed p call r p none
  | selectAnswered {token : Nat} (id : Text) (r : Reply)
      (htoken : p.shell.selectionRequest = token) :
      Resumed p (.selectFetch token id) r p (some (.selectBody token id))
  | selectFailed {call : Call} {token : Nat} {id : Text} {r : Reply}
      (hcall : call.selects = some (token, id)) (htoken : p.shell.selectionRequest = token)
      (hr : NoTranscript call r) :
      Resumed p call r (p.onShell Shell.showTranscriptError) none
  | selectLoaded {token : Nat} (id conversationId : Text) (rows : List ConversationMessage)
      (htoken : p.shell.selectionRequest = token) :
      Resumed p (.selectBody token id) (.json (.transcript conversationId rows))
        (p.onShell (·.openConversation id (mapTranscriptToMessages rows conversationId))) none
  | chatAnswered (mount : Nat) (request : ChatRequest) (r : Reply) :
      Resumed p (.chatFetch mount request) r p (some (.chatStream mount request {}))
  | chatRefused (mount : Nat) (request : ChatRequest) (r : Reply) :
      Resumed p (.chatFetch mount request) r (p.setForm mount p.form.fail) none
  | chatRead (mount : Nat) (request : ChatRequest) {turn : Turn} {r : Reply}
      {s : ChatForm × TurnState} (hread : Read p.form turn r s) :
      Resumed p (.chatStream mount request turn) r (p.afterRead mount request s).1
        (p.afterRead mount request s).2
  | refreshAnswered (r : Reply) : Resumed p .refreshFetch r p (some .refreshBody)
  | refreshFailed {call : Call} (r : Reply) (hcall : call = .refreshFetch ∨ call = .refreshBody) :
      Resumed p call r p none
  | refreshed (conversations : List ConversationSummary) :
      Resumed p .refreshBody (.json (.list conversations))
        (p.onShell fun s => { s with conversations := conversations }) none
  | deleteAnswered (id : Text) (selectedThen : Option Text) (r : Reply) :
      Resumed p (.deleteFetch id selectedThen) r p (some (.reconcileFetch id selectedThen))
  | deleteFailed (id : Text) (selectedThen : Option Text) (r : Reply) (message : Text) :
      Resumed p (.deleteFetch id selectedThen) r (p.onShell (·.failDelete message)) none
  | reconcileAnswered (id : Text) (selectedThen : Option Text) (r : Reply) :
      Resumed p (.reconcileFetch id selectedThen) r p (some (.reconcileBody id selectedThen))
  | reconciled (id : Text) (selectedThen : Option Text)
      (conversations : List ConversationSummary) :
      Resumed p (.reconcileBody id selectedThen) (.json (.list conversations))
        (p.onShell fun s => { s with conversations := conversations }.finishDelete id selectedThen)
        none
  | reconcileFailed {call : Call} {id : Text} {selectedThen : Option Text} (r : Reply)
      (hcall : call = .reconcileFetch id selectedThen ∨ call = .reconcileBody id selectedThen) :
      Resumed p call r (p.onShell (·.finishDelete id selectedThen)) none

theorem resume_resumed (p : Page) (call : Call) (r : Reply) :
    Resumed p call r (p.resume call r).1 (p.resume call r).2 := by
  cases call with
  | selectFetch token id =>
    cases r with
    | response status hasBody =>
      simp only [Page.resume]
      split_ifs with htoken hok
      · exact .stale _ rfl htoken
      · exact .selectAnswered id _ (not_not.1 htoken)
      · exact .selectFailed rfl (not_not.1 htoken) fun _ _ _ _ => nofun
    | rejected =>
      simp only [Page.resume]
      split_ifs with htoken
      · exact .stale _ rfl htoken
      · exact .selectFailed rfl (not_not.1 htoken) fun _ _ _ _ => nofun
    | _ => exact .waits fun _ _ _ _ => nofun
  | selectBody token id =>
    cases r with
    | json body =>
      simp only [Page.resume]
      split_ifs with htoken
      · exact .stale _ rfl htoken
      · cases body with
        | transcript conversationId rows =>
          exact .selectLoaded id conversationId rows (not_not.1 htoken)
        | _ => exact .selectFailed rfl (not_not.1 htoken) fun _ _ _ _ _ => nofun
    | rejected =>
      simp only [Page.resume]
      split_ifs with htoken
      · exact .stale _ rfl htoken
      · exact .selectFailed rfl (not_not.1 htoken) fun _ _ _ _ _ => nofun
    | _ => exact .waits fun _ _ _ _ _ => nofun
  | chatFetch mount request =>
    cases r with
    | response status hasBody =>
      simp only [Page.resume]
      split_ifs
      · exact .chatAnswered mount request _
      · exact .chatRefused mount request _
    | rejected => exact .chatRefused mount request _
    | _ => exact .waits fun _ _ _ _ => nofun
  | chatStream mount request turn =>
    cases r with
    | chunk c => exact .chatRead mount request (.chunk c)
    | streamClosed => exact .chatRead mount request (.ends .closed _)
    | rejected => exact .chatRead mount request (.ends .aborted _)
    | _ => exact .waits fun _ _ _ _ => nofun
  | refreshFetch =>
    cases r with
    | response status hasBody =>
      simp only [Page.resume]
      split_ifs
      · exact .refreshAnswered _
      · exact .refreshFailed _ (.inl rfl)
    | rejected => exact .refreshFailed _ (.inl rfl)
    | _ => exact .waits fun _ _ _ _ => nofun
  | refreshBody =>
    cases r with
    | json body =>
      cases body with
      | list conversations => exact .refreshed conversations
      | _ => exact .refreshFailed _ (.inr rfl)
    | rejected => exact .refreshFailed _ (.inr rfl)
    | _ => exact .waits fun _ _ _ _ => nofun
  | deleteFetch id selectedThen =>
    cases r with
    | response status hasBody =>
      simp only [Page.resume]
      split_ifs
      · exact .deleteAnswered id selectedThen _
      · exact .deleteFailed id selectedThen _ _
      · exact .deleteFailed id selectedThen _ _
    | rejected => exact .deleteFailed id selectedThen _ _
    | _ => exact .waits fun _ _ _ _ => nofun
  | reconcileFetch id selectedThen =>
    cases r with
    | response status hasBody =>
      simp only [Page.resume]
      split_ifs
      · exact .reconcileAnswered id selectedThen _
      · exact .reconcileFailed _ (.inl rfl)
    | rejected => exact .reconcileFailed _ (.inl rfl)
    | _ => exact .waits fun _ _ _ _ => nofun
  | reconcileBody id selectedThen =>
    cases r with
    | json body =>
      cases body with
      | list conversations => exact .reconciled id selectedThen conversations
      | _ => exact .reconcileFailed _ (.inr rfl)
    | rejected => exact .reconcileFailed _ (.inr rfl)
    | _ => exact .waits fun _ _ _ _ => nofun

namespace Page

@[simp] theorem setForm_shell (p : Page) (m : Nat) (f : ChatForm) :
    (p.setForm m f).shell = p.shell := by
  unfold setForm
  split <;> rfl

theorem afterRead_fst (p : Page) (m : Nat) (request : ChatRequest) (s : ChatForm × TurnState) :
    (p.afterRead m request s).1 = p.setForm m s.1 := by
  rcases s with ⟨form, _ | _ | _⟩ <;> rfl

@[simp] theorem get?_settle (p : Page) (n m : Nat) (next : Option Call) :
    (p.settle n next).calls.get? m = if m = n then next else p.calls.get? m := by
  cases next with
  | none => exact Dict.get?_erase p.calls n m
  | some call => exact Dict.get?_set p.calls n m call

@[simp] theorem settle_shell (p : Page) (n : Nat) (next : Option Call) :
    (p.settle n next).shell = p.shell := by
  cases next <;> rfl

end Page

/-- A reply makes no call, mounts no form and answers no other call. -/
structure SameCalls (p p' : Page) : Prop where
  calls : p'.calls = p.calls
  nextCall : p'.nextCall = p.nextCall
  mount : p'.mount = p.mount
  mountKey : p'.mountKey = p.mountKey

theorem sameCalls_setForm (p : Page) (m : Nat) (f : ChatForm) : SameCalls p (p.setForm m f) := by
  unfold Page.setForm
  split <;> exact ⟨rfl, rfl, rfl, rfl⟩

section Resumed

variable {p p' : Page} {call : Call} {r : Reply} {next : Option Call}

theorem Resumed.sameCalls (h : Resumed p call r p' next) : SameCalls p p' := by
  cases h with
  | chatRefused mount request => exact sameCalls_setForm p mount _
  | chatRead mount request hread =>
    rw [Page.afterRead_fst]
    exact sameCalls_setForm p mount _
  | _ => exact ⟨rfl, rfl, rfl, rfl⟩

/-- A handler that goes on still does the same for the same conversation; a turn may become the
refresh that follows it. -/
theorem Resumed.goes_on (h : Resumed p call r p' next) {call' : Call} (hnext : next = some call') :
    call'.selects = call.selects ∧ call'.deletes = call.deletes ∧
      (call'.mount? = call.mount? ∨ call'.mount? = none) := by
  cases h with
  | waits => cases hnext; exact ⟨rfl, rfl, .inl rfl⟩
  | selectAnswered => cases hnext; exact ⟨rfl, rfl, .inl rfl⟩
  | chatAnswered => cases hnext; exact ⟨rfl, rfl, .inl rfl⟩
  | @chatRead mount request turn r s hread =>
    rcases s with ⟨form, turn' | _ | _⟩
    · cases hnext
      exact ⟨rfl, rfl, .inl rfl⟩
    · cases hnext
      exact ⟨rfl, rfl, .inr rfl⟩
    · cases hnext
  | refreshAnswered => cases hnext; exact ⟨rfl, rfl, .inl rfl⟩
  | deleteAnswered => cases hnext; exact ⟨rfl, rfl, .inl rfl⟩
  | reconcileAnswered => cases hnext; exact ⟨rfl, rfl, .inl rfl⟩
  | _ => cases hnext

theorem Shell.finishDelete_request (s : Shell) (id : Text) (selectedThen : Option Text) :
    s.selectionRequest ≤ (s.finishDelete id selectedThen).selectionRequest := by
  unfold Shell.finishDelete
  split
  · exact Nat.le_succ _
  · exact le_refl _

theorem Resumed.request_le (h : Resumed p call r p' next) :
    p.shell.selectionRequest ≤ p'.shell.selectionRequest := by
  cases h with
  | chatRefused => rw [Page.setForm_shell]
  | chatRead => rw [Page.afterRead_fst, Page.setForm_shell]
  | reconciled id selectedThen conversations =>
    exact Shell.finishDelete_request { p.shell with conversations := conversations } id selectedThen
  | reconcileFailed => exact Shell.finishDelete_request _ _ _
  | _ => exact le_refl _

end Resumed

variable {p : Page} {n : Nat} {call : Call}

theorem Page.step_reply (h : p.calls.get? n = some call) (r : Reply) :
    ∃ p' next, Resumed p call r p' next ∧
      p.step (.reply n r) = (p'.settle n next).render := by
  refine ⟨_, _, resume_resumed p call r, ?_⟩
  simp only [step, act, h]

theorem Page.step_reply_none (h : p.calls.get? n = none) (r : Reply) :
    p.step (.reply n r) = p.render := by
  simp only [step, act, h]

/-! ## Numbers -/

/-- Calls have numbers of the past, tokens of the past, and belong to forms of the past. -/
structure WellNumbered (p : Page) : Prop where
  number_lt : ∀ n call, p.calls.get? n = some call → n < p.nextCall
  token_le : ∀ n call token id, p.calls.get? n = some call → call.selects = some (token, id) →
    token ≤ p.shell.selectionRequest
  mount_le : ∀ n call m, p.calls.get? n = some call → call.mount? = some m → m ≤ p.mount

theorem WellNumbered.render (h : WellNumbered p) : WellNumbered p.render := by
  refine ⟨by simpa using h.number_lt, by simpa using h.token_le, ?_⟩
  intro n call m hcall hm
  rw [Page.render_calls] at hcall
  have hle := h.mount_le n call m hcall hm
  rcases p.render_cases with ⟨-, hsame⟩ | ⟨-, hmount, -⟩
  · rwa [hsame]
  · rw [hmount]
    exact Nat.le_succ_of_le hle

theorem WellNumbered.onShell (h : WellNumbered p) {f : Shell → Shell}
    (hf : p.shell.selectionRequest ≤ (f p.shell).selectionRequest) : WellNumbered (p.onShell f) :=
  ⟨h.number_lt, fun n call token id hcall hsel => (h.token_le n call token id hcall hsel).trans hf,
    h.mount_le⟩

theorem WellNumbered.issue (h : WellNumbered p)
    (htoken : ∀ token id, call.selects = some (token, id) → token ≤ p.shell.selectionRequest)
    (hmount : ∀ m, call.mount? = some m → m ≤ p.mount) : WellNumbered (p.issue call) := by
  have hget : ∀ n call', (p.issue call).calls.get? n = some call' →
      (n = p.nextCall ∧ call' = call) ∨ p.calls.get? n = some call' := by
    intro n call' hn
    rw [Page.issue, Dict.get?_set] at hn
    split_ifs at hn with hnext
    · exact .inl ⟨hnext, (Option.some.inj hn).symm⟩
    · exact .inr hn
  refine ⟨fun n call' hn => ?_, fun n call' token id hn => ?_, fun n call' m hn => ?_⟩
  · rcases hget n call' hn with ⟨rfl, -⟩ | hn
    · exact Nat.lt_succ_self _
    · exact Nat.lt_succ_of_lt (h.number_lt n call' hn)
  · rcases hget n call' hn with ⟨-, rfl⟩ | hn
    · exact htoken token id
    · exact h.token_le n call' token id hn
  · rcases hget n call' hn with ⟨-, rfl⟩ | hn
    · exact hmount m
    · exact h.mount_le n call' m hn

theorem WellNumbered.settle {p' : Page} {r : Reply} {next : Option Call} (h : WellNumbered p)
    (hcall : p.calls.get? n = some call) (hr : Resumed p call r p' next) :
    WellNumbered (p'.settle n next) := by
  obtain ⟨hcalls, hnext, hmount, -⟩ := hr.sameCalls
  have hfields : (p'.settle n next).nextCall = p.nextCall ∧ (p'.settle n next).mount = p.mount := by
    cases next <;> exact ⟨hnext, hmount⟩
  -- every call of the new page stands for one of the old page under the same number
  have hget : ∀ m call', (p'.settle n next).calls.get? m = some call' →
      ∃ old, p.calls.get? m = some old ∧ call'.selects = old.selects ∧
        (call'.mount? = old.mount? ∨ call'.mount? = none) := by
    intro m call' hm
    rw [Page.get?_settle, hcalls] at hm
    split_ifs at hm with heq
    · subst heq
      obtain ⟨hselects, -, hmount⟩ := hr.goes_on hm
      exact ⟨call, hcall, hselects, hmount⟩
    · exact ⟨call', hm, rfl, .inl rfl⟩
  refine ⟨fun m call' hm => ?_, fun m call' token id hm hsel => ?_, fun m call' k hm hk => ?_⟩
  · obtain ⟨old, hold, -⟩ := hget m call' hm
    rw [hfields.1]
    exact h.number_lt m old hold
  · obtain ⟨old, hold, hselects, -⟩ := hget m call' hm
    rw [Page.settle_shell]
    exact (h.token_le m old token id hold (hselects ▸ hsel)).trans hr.request_le
  · obtain ⟨old, hold, -, hm' | hm'⟩ := hget m call' hm
    · rw [hfields.2]
      exact h.mount_le m old k hold (hm' ▸ hk)
    · rw [hm'] at hk
      cases hk

theorem WellNumbered.step (h : WellNumbered p) (a : Action) : WellNumbered (p.step a) := by
  cases a with
  | select id =>
    have hshell : WellNumbered (p.onShell fun s =>
        { s with transcriptError := none, selectionRequest := p.shell.selectionRequest + 1 }) :=
      h.onShell (Nat.le_succ _)
    refine (hshell.issue (fun token id hsel => ?_) fun m hm => by cases hm).render
    cases hsel
    exact le_refl _
  | newConversation => exact (h.onShell (Nat.le_succ _)).render
  | send rawQuery =>
    rcases hsend : p.form.sendQuery rawQuery with _ | ⟨form, request⟩
    · simp only [Page.step, Page.act, hsend]
      exact h.render
    · simp only [Page.step, Page.act, hsend]
      have hform : WellNumbered { p with form := form } := ⟨h.number_lt, h.token_le, h.mount_le⟩
      refine (hform.issue (fun token id hsel => by cases hsel) fun m hm => ?_).render
      cases hm
      exact le_refl _
  | requestDelete id => exact (h.onShell (le_refl _)).render
  | cancelDelete => exact (h.onShell (le_refl _)).render
  | confirmDelete =>
    rcases hpending : p.shell.pendingDeleteId with _ | id
    · simp only [Page.step, Page.act, hpending]
      exact h.render
    · simp only [Page.step, Page.act, hpending]
      have hshell := h.onShell (f := fun s =>
        { s with pendingDeleteId := none, deleteError := none, deletingId := some id }) (le_refl _)
      exact (hshell.issue (fun token id hsel => by cases hsel) fun m hm => by cases hm).render
  | reply n r =>
    rcases hcall : p.calls.get? n with _ | call
    · rw [Page.step_reply_none hcall]
      exact h.render
    · obtain ⟨p', next, hr, hstep⟩ := Page.step_reply hcall r
      rw [hstep]
      exact (h.settle hcall hr).render

theorem wellNumbered_pageAfter : WellNumbered (pageAfter cs as) :=
  exec_inv (fun _ a h => h.step a) as _ ⟨nofun, nofun, nofun⟩

/-! ## A new conversation -/

/-- No thread is shown, and the next message belongs to no conversation yet. -/
structure Fresh (p : Page) : Prop where
  empty : p.form.hasConversation = false
  unsent : ∀ raw form request, p.form.sendQuery raw = some (form, request) →
    request.conversationId = none

theorem Fresh.of_form {q : Page} (h : Fresh p) (hform : q.form = p.form) : Fresh q :=
  ⟨hform ▸ h.empty, hform ▸ h.unsent⟩

theorem fresh_mount (h : p.form = .mount [] none) : Fresh p := by
  refine ⟨by rw [h]; rfl, ?_⟩
  intro raw form request hsend
  rw [h, ChatForm.sendQuery] at hsend
  split at hsend
  · cases hsend
  · cases hsend
    rfl

/-- After the button for a new conversation the page is fresh exactly when a conversation was
selected, or when it was fresh before: a thread started on the page has no selected id, and stays.
-/
theorem new_conversation_fresh_iff (cs : List ConversationSummary) (as : List Action) :
    Fresh ((pageAfter cs as).step .newConversation) ↔
      (∃ id, (pageAfter cs as).shell.selectedId = some id ∧ id ≠ "new".toList) ∨
        Fresh (pageAfter cs as) := by
  have hkey := pageAfter_mountKey cs as
  generalize pageAfter cs as = p at hkey ⊢
  have hcases := Page.render_cases (p.act .newConversation)
  change ("new".toList = p.mountKey ∧ p.step .newConversation = p.act .newConversation) ∨
    ("new".toList ≠ p.mountKey ∧ _ ∧ (p.step .newConversation).form = .mount [] none) at hcases
  rcases hcases with ⟨hnew, hsame⟩ | ⟨hnew, -, hform⟩
  · -- the key is the same as before, and so is the form
    rw [hsame]
    constructor
    · exact fun h => .inr (h.of_form rfl)
    · rintro (⟨id, hid, hne⟩ | h)
      · rw [hkey, Shell.key, hid] at hnew
        exact absurd hnew.symm hne
      · exact h.of_form rfl
  · refine ⟨fun _ => .inl ?_, fun _ => fresh_mount hform⟩
    rw [hkey, Shell.key] at hnew
    rcases hid : p.shell.selectedId with _ | id
    · rw [hid] at hnew
      exact absurd rfl hnew
    · rw [hid] at hnew
      exact ⟨id, rfl, fun h => hnew h.symm⟩

/-- A question is asked on the empty page and answered in conversation `c`. -/
def firstTurn : List Action :=
  [.send "Qui est Mara ?".toList, .reply 0 (.response 200 true),
    .reply 0 (.chunk (.metaChunk "canon".toList "c".toList "r".toList)),
    .reply 0 (.chunk (.tokenChunk "Une archiviste.".toList)),
    .reply 0 (.chunk (.doneChunk [] .null 0 0 []))]

/-- The button for a new conversation leaves the thread on the page, and the next question goes to
`c`. -/
theorem session_thread_stays :
    Along Page.step Page.Offers (.init []) (firstTurn ++ [.newConversation]) ∧
      ((pageAfter [] firstTurn).step .newConversation).form.messages.map (·.text) =
        ["Qui est Mara ?".toList, "Une archiviste.".toList] ∧
      (((pageAfter [] firstTurn).step .newConversation).form.sendQuery "Et Blowen ?".toList).map
        (·.2) = some ⟨"Et Blowen ?".toList, some "c".toList⟩ ∧
      ¬ Fresh ((pageAfter [] firstTurn).step .newConversation) := by
  refine ⟨by decide +kernel, by decide +kernel, by decide +kernel, fun h => ?_⟩
  exact absurd h.empty (by decide +kernel)

end Archiviste.Frontend
