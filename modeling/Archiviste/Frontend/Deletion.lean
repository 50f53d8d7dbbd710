import Archiviste.Frontend.ChatShell

/-!
# Archiviste.Frontend.Deletion

A conversation is deleted while transcripts, turns and lists are still on their way. The server no
longer returns it, except in answers to requests made before the deletion succeeded. The handler
goes by what was selected when the deletion was confirmed, and the form by the key it was mounted
under, so the conversation can come back on the page.

* `Gone`              — the conversation is not shown, not listed and gets no more messages.
* `Safe`              — it is gone and nothing under way brings it back; every step keeps this.
* `Deletion`          — a deletion from the answer to the request to the end of the handler.
* `deletion_gone_iff` — when a deleted conversation is gone for good.
* `gone_of_rejected`  — what is not gone at some point is not gone when every reply is in.
-/

namespace Archiviste.Frontend

open Run

def Call.lists : Call → Bool
  | .refreshFetch | .refreshBody | .reconcileFetch _ _ | .reconcileBody _ _ => true
  | _ => false

def Call.request? : Call → Option ChatRequest
  | .chatFetch _ request | .chatStream _ request _ => some request
  | _ => none

def Call.captured : Call → Option Text
  | .chatStream _ _ turn => turn.conversationId
  | _ => none

def Page.awaits (p : Page) (n : Nat) : Bool := (p.calls.get? n).isSome

def Page.awaitsList (p : Page) (n : Nat) : Bool := (p.calls.get? n).any Call.lists

/-- The server returns `c` only to a request that was under way on the page `d`. It answers for the
conversation it is asked about, if it is asked about one. -/
def NotReturned (d : Page) (c : Text) (p : Page) : Action → Prop
  | .reply n (.json (.list conversations)) =>
    (∃ s ∈ conversations, s.id = c) → d.awaitsList n = true
  | .reply n (.json (.transcript conversationId _)) =>
    ∀ x ∈ (p.calls.get? n).bind Call.selects,
      if x.2 = c then d.awaits n = true else conversationId ≠ c
  | .reply n (.chunk (.metaChunk _ conversationId _)) =>
    ∀ request ∈ (p.calls.get? n).bind Call.request?, conversationId = c →
      d.awaits n = true ∧ (request.conversationId = none ∨ request.conversationId = some c)
  | _ => True

structure ChatForm.Without (c : Text) (f : ChatForm) : Prop where
  current : f.currentConversationId ≠ some c
  messages : ∀ x ∈ f.messages, x.conversationId ≠ some c

structure Gone (c : Text) (p : Page) : Prop where
  unselected : p.shell.selectedId ≠ some c
  unlisted : ∀ s ∈ p.shell.conversations, s.id ≠ c
  unshown : p.form.Without c
  unsent : ∀ raw form request, p.form.sendQuery raw = some (form, request) →
    request.conversationId ≠ some c

/-- The turn has captured `c`, or its stream may still name it. -/
def Brings (d : Page) (c : Text) (n : Nat) (call : Call) : Prop :=
  call.captured = some c ∨
    (c ≠ [] ∧ d.awaits n = true ∧ ∃ request, call.request? = some request ∧
      (request.conversationId = none ∨ request.conversationId = some c))

/-- `c` is gone, and nothing under way brings it back. The last field is about a page that has yet
to be rendered. -/
structure Safe (d : Page) (c : Text) (p : Page) : Prop where
  unselected : p.shell.selectedId ≠ some c
  unlisted : ∀ s ∈ p.shell.conversations, s.id ≠ c
  unshown : p.form.Without c
  lists : ∀ n call, p.calls.get? n = some call → call.lists = true → d.awaitsList n = false
  selects : ∀ n call token, p.calls.get? n = some call → call.selects = some (token, c) →
    p.shell.selectionRequest ≤ token → d.awaits n = false
  turns : ∀ n call m, p.calls.get? n = some call → call.mount? = some m → p.mount ≤ m →
    ¬ Brings d c n call
  loaded : p.shell.key ≠ p.mountKey →
    ∀ x ∈ p.shell.loadedMessages.getD [], x.conversationId ≠ some c

/-- `p` comes after `d`: numbers are not given again, and a request for a list stays one. -/
structure Since (d p : Page) : Prop where
  number_lt : ∀ n, d.awaits n = true → n < p.nextCall
  lists : ∀ n call, p.calls.get? n = some call → d.awaitsList n = true → call.lists = true

variable {p : Page} {n : Nat} {call : Call} {c : Text}

theorem Page.awaitsList_iff :
    p.awaitsList n = true ↔ ∃ call, p.calls.get? n = some call ∧ call.lists = true := by
  rw [awaitsList, Option.any_eq_true]

theorem Page.awaits_of_awaitsList (h : p.awaitsList n = true) : p.awaits n = true := by
  obtain ⟨call, hcall, -⟩ := awaitsList_iff.1 h
  rw [awaits, hcall]
  rfl

/-! ## The form -/

section Form
variable {c : Text} {f : ChatForm}

variable {raw : Text} {form : ChatForm} {request : ChatRequest} {t : Turn} {r : Reply}
  {s : ChatForm × TurnState}

theorem ChatForm.Without.unsent (h : f.Without c) (hsend : f.sendQuery raw = some (form, request)) :
    request.conversationId ≠ some c := by
  rw [ChatForm.sendQuery] at hsend
  split at hsend
  · cases hsend
  · cases hsend
    intro heq
    obtain ⟨id, hid, htruthy⟩ := Option.bind_eq_some_iff.1 heq
    rw [truthy] at htruthy
    split_ifs at htruthy
    cases htruthy
    exact h.current hid

theorem ChatForm.Without.sendQuery (h : f.Without c)
    (hsend : f.sendQuery raw = some (form, request)) : form.Without c := by
  rw [ChatForm.sendQuery] at hsend
  split at hsend
  · cases hsend
  · cases hsend
    refine ⟨h.current, fun x hx => ?_⟩
    rcases List.mem_append.1 hx with hx | hx
    · exact h.messages x hx
    · rw [List.mem_singleton.1 hx]
      exact (Option.some_ne_none c).symm

theorem ChatForm.Without.commit (h : f.Without c) (ht : t.conversationId ≠ some c) :
    (f.commit t).Without c := by
  constructor
  case current =>
    intro heq
    change (t.conversationId <|> f.currentConversationId) = some c at heq
    rcases htc : t.conversationId with _ | id
    · rw [htc] at heq
      exact h.current heq
    · rw [htc] at heq
      exact ht (htc.trans heq)
  case messages =>
    intro x hx
    rcases List.mem_append.1 hx with hx | hx
    · exact h.messages x hx
    · rw [List.mem_singleton.1 hx]
      exact ht

theorem ChatForm.Without.read (h : f.Without c) (ht : t.conversationId ≠ some c)
    (hread : Read f t r s) : s.1.Without c := by
  cases hread with
  | chunk chunk =>
    cases chunk with
    | metaChunk => exact h
    | tokenChunk => exact ⟨h.current, h.messages⟩
    | streamErrorChunk => exact ⟨h.current, h.messages⟩
    | doneChunk => exact h.commit ht
  | ends ending =>
    cases ending with
    | closed => exact h.commit ht
    | aborted => exact ⟨h.current, h.messages⟩

theorem captured_read {t' : Turn} (hread : Read f t r s) (hs : s.2 = .reading t') :
    t'.conversationId = t.conversationId ∨
      ∃ mode id requestId, r = .chunk (.metaChunk mode id requestId) ∧ id ≠ [] ∧
        t'.conversationId = some id := by
  cases hread with
  | chunk chunk =>
    cases chunk with
    | metaChunk mode id requestId =>
      cases hs
      by_cases hid : id = []
      · refine .inl ?_
        simp [truthy, hid]
      · refine .inr ⟨mode, id, requestId, rfl, hid, ?_⟩
        simp [truthy, hid]
    | tokenChunk => cases hs; exact .inl rfl
    | streamErrorChunk => cases hs
    | doneChunk => cases hs
  | ends ending => cases ending <;> cases hs

theorem mapTranscriptToMessages_without {conversationId : Text} (h : conversationId ≠ c)
    (rows : List ConversationMessage) :
    ∀ x ∈ mapTranscriptToMessages rows conversationId, x.conversationId ≠ some c := by
  intro x hx
  obtain ⟨row, -, rfl⟩ := List.mem_map.1 hx
  split
  · nofun
  · exact fun heq => h (Option.some.inj heq)

end Form

/-! ## Steps -/

section Steps
variable {d p : Page} {c : Text}

theorem Safe.gone (h : Safe d c p) : Gone c p :=
  ⟨h.unselected, h.unlisted, h.unshown, fun _ _ _ hsend => h.unshown.unsent hsend⟩

theorem Safe.render (h : Safe d c p) : Safe d c p.render := by
  rcases p.render_cases with ⟨-, hsame⟩ | ⟨hkey, hmount, hform⟩
  · rwa [hsame]
  · constructor
    case unselected => rw [Page.render_shell]; exact h.unselected
    case unlisted => rw [Page.render_shell]; exact h.unlisted
    case unshown =>
      rw [hform]
      exact ⟨h.unselected, h.loaded hkey⟩
    case lists => rw [Page.render_calls]; exact h.lists
    case selects => rw [Page.render_calls, Page.render_shell]; exact h.selects
    case turns =>
      intro n call m hcall hm hle
      rw [Page.render_calls] at hcall
      rw [hmount] at hle
      exact h.turns n call m hcall hm (Nat.le_of_succ_le hle)
    case loaded =>
      intro hnew
      rw [Page.render_mountKey, Page.render_shell] at hnew
      exact absurd rfl hnew

variable {f : Shell → Shell} {call' : Call}

theorem Safe.onShell (h : Safe d c p) (hselected : (f p.shell).selectedId ≠ some c)
    (hlisted : ∀ s ∈ (f p.shell).conversations, s.id ≠ c)
    (hrequest : p.shell.selectionRequest ≤ (f p.shell).selectionRequest)
    (hloaded : (f p.shell).key ≠ p.mountKey →
      ∀ x ∈ (f p.shell).loadedMessages.getD [], x.conversationId ≠ some c) :
    Safe d c (p.onShell f) :=
  ⟨hselected, hlisted, h.unshown, h.lists,
    fun n call token hcall hsel hle => h.selects n call token hcall hsel (hrequest.trans hle),
    h.turns, hloaded⟩

theorem Safe.finishDelete (h : Safe d c p) (id : Text) (selectedThen : Option Text)
    (hf : ∃ conversations, (∀ s ∈ conversations, s.id ≠ c) ∧
      f p.shell = { p.shell with conversations := conversations }.finishDelete id selectedThen) :
    Safe d c (p.onShell f) := by
  obtain ⟨conversations, hlisted, heq⟩ := hf
  apply h.onShell <;> rw [heq, Shell.finishDelete] <;> split
  · nofun
  · exact h.unselected
  · exact hlisted
  · exact hlisted
  · exact Nat.le_succ _
  · exact le_refl _
  · exact fun _ => nofun
  · exact h.loaded

theorem Safe.setForm (h : Safe d c p) {m : Nat} {form : ChatForm}
    (hform : m = p.mount → form.Without c) : Safe d c (p.setForm m form) := by
  unfold Page.setForm
  split
  case isTrue hm =>
    exact ⟨h.unselected, h.unlisted, hform hm, h.lists, h.selects, h.turns, h.loaded⟩
  case isFalse => exact h

theorem Safe.issue (h : Safe d c p) (hsince : Since d p) {call : Call}
    (hcall : call.captured = none) : Safe d c (p.issue call) := by
  have hnew : d.awaits p.nextCall = false := by
    rw [← Bool.not_eq_true]
    exact fun hold => absurd (hsince.number_lt _ hold) (lt_irrefl _)
  have hget : ∀ n call', (p.issue call).calls.get? n = some call' →
      (d.awaits n = false ∧ call' = call) ∨ p.calls.get? n = some call' := by
    intro n call' hn
    rw [Page.issue, Dict.get?_set] at hn
    split_ifs at hn with hnext
    · exact .inl ⟨hnext ▸ hnew, (Option.some.inj hn).symm⟩
    · exact .inr hn
  refine ⟨h.unselected, h.unlisted, h.unshown, fun n call' hn hlists => ?_,
    fun n call' token hn hsel hle => ?_, fun n call' m hn hm hle => ?_, h.loaded⟩
  · rcases hget n call' hn with ⟨hno, -⟩ | hn
    · rw [← Bool.not_eq_true] at hno ⊢
      exact fun hlist => hno (Page.awaits_of_awaitsList hlist)
    · exact h.lists n call' hn hlists
  · rcases hget n call' hn with ⟨hno, -⟩ | hn
    · exact hno
    · exact h.selects n call' token hn hsel hle
  · rcases hget n call' hn with ⟨hno, rfl⟩ | hn
    · rintro (hcap | ⟨-, hold, -⟩)
      · rw [hcall] at hcap
        cases hcap
      · rw [hno] at hold
        cases hold
    · exact h.turns n call' m hn hm hle

variable {p' : Page} {n : Nat} {call : Call} {r : Reply} {next : Option Call}

theorem Safe.resumed (h : Safe d c p) (hcall : p.calls.get? n = some call)
    (hr : Resumed p call r p' next) (hret : NotReturned d c p (.reply n r)) : Safe d c p' := by
  have hlist : ∀ {conversations : List ConversationSummary}, call.lists = true →
      r = .json (.list conversations) → ∀ s ∈ conversations, s.id ≠ c := by
    rintro conversations hlists rfl s hs rfl
    have hold := hret ⟨s, hs, rfl⟩
    rw [h.lists n call hcall hlists] at hold
    cases hold
  cases hr with
  | selectFailed => exact h.onShell h.unselected h.unlisted (le_refl _) h.loaded
  | @selectLoaded token id conversationId rows htoken =>
    subst htoken
    have hreturned := hret (p.shell.selectionRequest, id) (by rw [hcall]; rfl)
    by_cases hid : id = c
    · -- the latest request is for `c`, and was not made in time
      subst hid
      rw [if_pos rfl, h.selects n _ _ hcall rfl (le_refl _)] at hreturned
      cases hreturned
    · rw [if_neg hid] at hreturned
      refine h.onShell (fun heq => hid (Option.some.inj heq)) h.unlisted (le_refl _) fun _ => ?_
      exact mapTranscriptToMessages_without hreturned rows
  | chatRefused => exact h.setForm fun _ => ⟨h.unshown.current, h.unshown.messages⟩
  | chatRead mount request hread =>
    rw [Page.afterRead_fst]
    refine h.setForm fun hm => h.unshown.read (fun hcap => ?_) hread
    exact h.turns n _ mount hcall rfl hm.ge (.inl hcap)
  | refreshed conversations =>
    exact h.onShell h.unselected (hlist rfl rfl) (le_refl _) h.loaded
  | deleteFailed => exact h.onShell h.unselected h.unlisted (le_refl _) h.loaded
  | reconciled id selectedThen conversations =>
    exact h.finishDelete id selectedThen ⟨conversations, hlist rfl rfl, rfl⟩
  | reconcileFailed r hwhich => exact h.finishDelete _ _ ⟨p.shell.conversations, h.unlisted, rfl⟩
  | _ => exact h

theorem Resumed.lists (hr : Resumed p call r p' next) (hnext : next = some call')
    (hlists : call.lists = true) : call'.lists = true := by
  cases hr with
  | waits => cases hnext; exact hlists
  | refreshAnswered => cases hnext; rfl
  | reconcileAnswered => cases hnext; rfl
  | selectAnswered => cases hlists
  | chatAnswered => cases hlists
  | chatRead => cases hlists
  | deleteAnswered => cases hlists
  | _ => cases hnext

/-- A turn that goes on brings no more than the turn before, unless a `meta` event names `c`. -/
theorem Resumed.brings (hr : Resumed p call r p' next) (hnext : next = some call')
    (hcall : p.calls.get? n = some call) (hret : NotReturned d c p (.reply n r))
    (hbrings : Brings d c n call') : Brings d c n call := by
  cases hr with
  | waits => cases hnext; exact hbrings
  | chatAnswered mount request =>
    cases hnext
    rcases hbrings with hcap | hmay
    · cases hcap
    · exact .inr hmay
  | @chatRead mount request turn r s hread =>
    rcases s with ⟨form, turn' | _ | _⟩
    · cases hnext
      rcases hbrings with hcap | hmay
      · rcases captured_read hread rfl with hsame | ⟨mode, id, requestId, rfl, hid, hnew⟩
        · exact .inl (hsame.symm.trans hcap)
        · obtain rfl : id = c := Option.some.inj (hnew.symm.trans hcap)
          obtain ⟨hold, hrequest⟩ := hret request (by rw [hcall]; rfl) rfl
          exact .inr ⟨hid, hold, request, rfl, hrequest⟩
      · exact .inr hmay
    · cases hnext
      rcases hbrings with hcap | ⟨-, -, request, hreq, -⟩
      · cases hcap
      · cases hreq
    · cases hnext
  | selectAnswered | refreshAnswered | deleteAnswered | reconcileAnswered =>
    cases hnext
    rcases hbrings with hcap | ⟨-, -, request, hreq, -⟩
    · cases hcap
    · cases hreq
  | _ => cases hnext

theorem Safe.settle (h : Safe d c p) (hsince : Since d p) (hcall : p.calls.get? n = some call)
    (hr : Resumed p call r p' next) (hret : NotReturned d c p (.reply n r)) :
    Safe d c (p'.settle n next) := by
  have h' := h.resumed hcall hr hret
  obtain ⟨hcalls, -, hmount, -⟩ := hr.sameCalls
  have hfields : (p'.settle n next).form = p'.form ∧ (p'.settle n next).mount = p'.mount ∧
      (p'.settle n next).mountKey = p'.mountKey := by
    cases next <;> exact ⟨rfl, rfl, rfl⟩
  constructor
  case unselected => rw [Page.settle_shell]; exact h'.unselected
  case unlisted => rw [Page.settle_shell]; exact h'.unlisted
  case unshown => rw [hfields.1]; exact h'.unshown
  case lists =>
    intro m call' hm hlists
    rw [Page.get?_settle] at hm
    split_ifs at hm with hmn
    · subst hmn
      -- a handler that comes to ask for a list asks only now
      rw [← Bool.not_eq_true]
      intro hold
      have hlist := hsince.lists m call hcall hold
      rw [h.lists m call hcall hlist] at hold
      cases hold
    · exact h'.lists m call' hm hlists
  case selects =>
    intro m call' token hm hsel hle
    rw [Page.get?_settle] at hm
    rw [Page.settle_shell] at hle
    split_ifs at hm with hmn
    · subst hmn
      obtain ⟨hselects, -⟩ := hr.goes_on hm
      exact h'.selects m call token (hcalls ▸ hcall) (hselects ▸ hsel) hle
    · exact h'.selects m call' token hm hsel hle
  case turns =>
    intro m call' k hm hk hle hbrings
    rw [Page.get?_settle] at hm
    rw [hfields.2.1] at hle
    split_ifs at hm with hmn
    · subst hmn
      obtain ⟨-, -, hsame | hnone⟩ := hr.goes_on hm
      · exact h'.turns m call k (hcalls ▸ hcall) (hsame ▸ hk) hle
          (hr.brings hm hcall hret hbrings)
      · rw [hnone] at hk
        cases hk
    · exact h'.turns m call' k hm hk hle hbrings
  case loaded =>
    rw [Page.settle_shell, hfields.2.2]
    exact h'.loaded

theorem Since.refl (h : WellNumbered d) : Since d d := by
  refine ⟨fun n hn => ?_, fun n call hcall hlist => ?_⟩
  · obtain ⟨call, hcall⟩ := Option.isSome_iff_exists.1 hn
    exact h.number_lt n call hcall
  · obtain ⟨call', hcall', hlists⟩ := Page.awaitsList_iff.1 hlist
    cases hcall.symm.trans hcall'
    exact hlists

theorem Since.congr (h : Since d p) (hnext : p'.nextCall = p.nextCall)
    (hcalls : p'.calls = p.calls) : Since d p' :=
  ⟨hnext ▸ h.number_lt, hcalls ▸ h.lists⟩

theorem Since.render (h : Since d p) : Since d p.render :=
  h.congr p.render_nextCall p.render_calls

theorem Since.issue (h : Since d p) (call : Call) : Since d (p.issue call) := by
  refine ⟨fun n hn => (h.number_lt n hn).trans (Nat.lt_succ_self _), fun n call' hn hlist => ?_⟩
  have hlt := h.number_lt n (Page.awaits_of_awaitsList hlist)
  rw [Page.issue, Dict.get?_set, if_neg hlt.ne] at hn
  exact h.lists n call' hn hlist

theorem Since.settle (h : Since d p) (hcall : p.calls.get? n = some call)
    (hr : Resumed p call r p' next) : Since d (p'.settle n next) := by
  obtain ⟨hcalls, hnext, -, -⟩ := hr.sameCalls
  have hnextCall : (p'.settle n next).nextCall = p.nextCall := by
    cases next <;> exact hnext
  refine ⟨fun m hm => ?_, fun m call' hm hlist => ?_⟩
  · rw [hnextCall]
    exact h.number_lt m hm
  · rw [Page.get?_settle, hcalls] at hm
    split_ifs at hm with hmn
    · subst hmn
      exact hr.lists hm (h.lists m call hcall hlist)
    · exact h.lists m call' hm hlist

theorem Since.step (h : Since d p) (a : Action) : Since d (p.step a) := by
  refine Since.render ?_
  cases a with
  | select id => exact Since.issue (p := p.onShell _) (h.congr rfl rfl) _
  | newConversation => exact h.congr rfl rfl
  | send rawQuery =>
    rcases hsend : p.form.sendQuery rawQuery with _ | ⟨form, request⟩
    · simp only [Page.act, hsend]
      exact h
    · simp only [Page.act, hsend]
      exact Since.issue (p := { p with form := form }) (h.congr rfl rfl) _
  | requestDelete id => exact h.congr rfl rfl
  | cancelDelete => exact h.congr rfl rfl
  | confirmDelete =>
    rcases hpending : p.shell.pendingDeleteId with _ | id
    · simp only [Page.act, hpending]
      exact h
    · simp only [Page.act, hpending]
      exact Since.issue (p := p.onShell _) (h.congr rfl rfl) _
  | reply n r =>
    rcases hcall : p.calls.get? n with _ | call
    · simp only [Page.act, hcall]
      exact h
    · simp only [Page.act, hcall]
      exact h.settle hcall (resume_resumed p call r)

theorem Safe.step (h : Safe d c p) (hsince : Since d p) {a : Action} (ha : NotReturned d c p a) :
    Safe d c (p.step a) := by
  refine Safe.render ?_
  cases a with
  | select id =>
    refine Safe.issue (p := p.onShell _) ?_ (hsince.congr rfl rfl) rfl
    exact h.onShell h.unselected h.unlisted (Nat.le_succ _) h.loaded
  | newConversation => exact h.onShell nofun h.unlisted (Nat.le_succ _) fun _ => nofun
  | send rawQuery =>
    rcases hsend : p.form.sendQuery rawQuery with _ | ⟨form, request⟩
    · simp only [Page.act, hsend]
      exact h
    · simp only [Page.act, hsend]
      have hform : Safe d c { p with form := form } :=
        ⟨h.unselected, h.unlisted, h.unshown.sendQuery hsend, h.lists, h.selects, h.turns, h.loaded⟩
      exact hform.issue (hsince.congr rfl rfl) rfl
  | requestDelete id =>
    rw [Page.act]
    exact h.onShell h.unselected h.unlisted (le_refl _) h.loaded
  | cancelDelete =>
    rw [Page.act]
    exact h.onShell h.unselected h.unlisted (le_refl _) h.loaded
  | confirmDelete =>
    rcases hpending : p.shell.pendingDeleteId with _ | id
    · simp only [Page.act, hpending]
      exact h
    · simp only [Page.act, hpending]
      refine Safe.issue (p := p.onShell _) ?_ (hsince.congr rfl rfl) rfl
      exact h.onShell h.unselected h.unlisted (le_refl _) h.loaded
  | reply n r =>
    rcases hcall : p.calls.get? n with _ | call
    · simp only [Page.act, hcall]
      exact h
    · simp only [Page.act, hcall]
      exact h.settle hsince hcall (resume_resumed p call r) ha

end Steps

/-! ## Gone for good -/

/-- The conversation stays away, whatever happens next. -/
def GoneForGood (d : Page) (c : Text) (p : Page) : Prop :=
  ∀ after, Along Page.step (NotReturned d c) p after → Gone c (exec Page.step p after)

section Forever
variable {d p : Page} {c : Text} {n : Nat}

theorem Safe.goneForGood (h : Safe d c p) (hsince : Since d p) : GoneForGood d c p := by
  intro after halong
  have hstep : ∀ q a, Since d q ∧ Safe d c q → NotReturned d c q a →
      Since d (q.step a) ∧ Safe d c (q.step a) :=
    fun q a hq ha => ⟨hq.1.step a, hq.2.step hq.1 ha⟩
  exact (always_of_along hstep after p ⟨hsince, h⟩ halong).last.2.gone

theorem GoneForGood.gone (h : GoneForGood d c p) : Gone c p := h [] trivial

theorem GoneForGood.step (h : GoneForGood d c p) {a : Action} (ha : NotReturned d c p a) :
    GoneForGood d c (p.step a) :=
  fun after halong => h (a :: after) ⟨ha, halong⟩

variable {call : Call}

theorem GoneForGood.lists (h : GoneForGood d c p) (hcall : p.calls.get? n = some call)
    (hlists : call.lists = true) : d.awaitsList n = false := by
  rw [← Bool.not_eq_true]
  intro hold
  have hbody : ∀ {q : Page} {call : Call}, GoneForGood d c q → q.calls.get? n = some call →
      (call = .refreshBody ∨ ∃ id sel, call = .reconcileBody id sel) → False := by
    intro q call hq hcall hwhich
    have hgone := (hq.step (a := .reply n (.json (.list [⟨c, [], false⟩]))) fun _ => hold).gone
    refine hgone.unlisted ⟨c, [], false⟩ ?_ rfl
    rcases hwhich with rfl | ⟨id, sel, rfl⟩
    · simp [Page.step, Page.act, hcall, Page.resume, Page.onShell]
    · simp only [Page.step, Page.act, hcall, Page.resume, Page.onShell, Page.render_shell,
        Page.settle_shell, Shell.finishDelete]
      split <;> exact List.mem_singleton_self _
  have hfetch := h.step (a := .reply n (.response 200 true)) trivial
  cases call with
  | refreshBody => exact hbody h hcall (.inl rfl)
  | reconcileBody id sel => exact hbody h hcall (.inr ⟨id, sel, rfl⟩)
  | refreshFetch =>
    have hnext : (p.step (.reply n (.response 200 true))).calls.get? n = some .refreshBody := by
      simp [Page.step, Page.act, hcall, Page.resume, isOk]
    exact hbody hfetch hnext (.inl rfl)
  | reconcileFetch id sel =>
    have hnext : (p.step (.reply n (.response 200 true))).calls.get? n =
        some (.reconcileBody id sel) := by
      simp [Page.step, Page.act, hcall, Page.resume, isOk]
    exact hbody hfetch hnext (.inr ⟨id, sel, rfl⟩)
  | _ => cases hlists

theorem GoneForGood.selects (h : GoneForGood d c p) (hcall : p.calls.get? n = some call)
    (hselects : call.selects = some (p.shell.selectionRequest, c)) : d.awaits n = false := by
  rw [← Bool.not_eq_true]
  intro hold
  have hbody : ∀ {q : Page}, GoneForGood d c q →
      q.calls.get? n = some (.selectBody q.shell.selectionRequest c) → False := by
    intro q hq hcall
    have hret : NotReturned d c q (.reply n (.json (.transcript c []))) := by
      intro x hx
      rw [hcall] at hx
      cases hx
      rw [if_pos rfl]
      exact hold
    refine (hq.step hret).gone.unselected ?_
    simp [Page.step, Page.act, hcall, Page.resume, Page.onShell, Shell.openConversation]
  cases call with
  | selectBody token id => cases hselects; exact hbody h hcall
  | selectFetch token id =>
    cases hselects
    refine hbody (h.step (a := .reply n (.response 200 true)) trivial) ?_
    simp [Page.step, Page.act, hcall, Page.resume, isOk]
  | _ => cases hselects

theorem Page.render_of_key {q : Page} (h : q.shell.key = q.mountKey) : q.render = q := if_pos h

theorem GoneForGood.turns (h : GoneForGood d c p) (hkey : p.shell.key = p.mountKey)
    (hcall : p.calls.get? n = some call) (hmount : call.mount? = some p.mount) :
    ¬ Brings d c n call := by
  -- the stream may end here, and the turn is committed
  have hclosed : ∀ {q : Page} (request : ChatRequest) (turn : Turn), GoneForGood d c q →
      q.shell.key = q.mountKey → q.calls.get? n = some (.chatStream q.mount request turn) →
      turn.conversationId ≠ some c := by
    intro q request turn hq hkey hcall hcap
    have hgone := (hq.step (a := .reply n .streamClosed) trivial).gone
    have hstep : (q.step (.reply n .streamClosed)).form = q.form.commit turn := by
      rw [Page.step, Page.render_of_key]
      · simp [Page.act, hcall, Page.resume, Page.afterRead, streamEnds, Page.setForm, Page.settle]
      · simp [Page.act, hcall, Page.resume, Page.afterRead, streamEnds, Page.setForm, Page.settle,
          hkey]
    refine hgone.unshown.current ?_
    rw [hstep, ChatForm.commit, hcap]
    rfl
  -- or name `c` first
  have hnamed : ∀ {q : Page} (request : ChatRequest) (turn : Turn), GoneForGood d c q →
      q.shell.key = q.mountKey → q.calls.get? n = some (.chatStream q.mount request turn) →
      c ≠ [] → d.awaits n = true →
      request.conversationId = none ∨ request.conversationId = some c → False := by
    intro q request turn hq hkey hcall hc hold hrequest
    have hret : NotReturned d c q (.reply n (.chunk (.metaChunk [] c []))) := by
      intro request' hmem _
      rw [hcall] at hmem
      cases hmem
      exact ⟨hold, hrequest⟩
    have hstep : q.step (.reply n (.chunk (.metaChunk [] c []))) =
        q.settle n (some (.chatStream q.mount request
          { turn with mode := truthy [], conversationId := some c })) := by
      rw [Page.step, Page.render_of_key]
      · simp [Page.act, hcall, Page.resume, Page.afterRead, readChunk, Page.setForm, truthy, hc]
      · simp [Page.act, hcall, Page.resume, Page.afterRead, readChunk, Page.setForm, hkey,
          Page.settle]
    have hnext := hq.step hret
    rw [hstep] at hnext
    refine hclosed request { turn with mode := truthy [], conversationId := some c } hnext hkey ?_ rfl
    rw [Page.get?_settle, if_pos rfl]
    rfl
  rintro (hcap | ⟨hc, hold, request, hreq, hrequest⟩)
  · cases call with
    | chatStream m request turn => cases hmount; exact hclosed request turn h hkey hcall hcap
    | _ => cases hcap
  · cases call with
    | chatStream m request' turn =>
      cases hmount
      cases hreq
      exact hnamed request turn h hkey hcall hc hold hrequest
    | chatFetch m request' =>
      cases hmount
      cases hreq
      have hstep : p.step (.reply n (.response 200 true)) =
          p.settle n (some (.chatStream p.mount request {})) := by
        rw [Page.step, Page.render_of_key]
        · simp [Page.act, hcall, Page.resume, isOk]
        · simp [Page.act, hcall, Page.resume, isOk, Page.settle, hkey]
      have hnext := h.step (a := .reply n (.response 200 true)) trivial
      rw [hstep] at hnext
      refine hnamed request {} hnext hkey ?_ hc hold hrequest
      rw [Page.get?_settle, if_pos rfl]
      rfl
    | _ => cases hreq

theorem GoneForGood.safe (h : GoneForGood d c p) (hnumbers : WellNumbered p)
    (hkey : p.shell.key = p.mountKey) : Safe d c p := by
  have hgone := h.gone
  refine ⟨hgone.unselected, hgone.unlisted, hgone.unshown, fun n call hcall => h.lists hcall,
    fun n call token hcall hsel hle => ?_, fun n call m hcall hm hle => ?_,
    fun hne => absurd hkey hne⟩
  · have htoken := le_antisymm (hnumbers.token_le n call token c hcall hsel) hle
    exact h.selects hcall (htoken ▸ hsel)
  · have hmount := le_antisymm (hnumbers.mount_le n call m hcall hm) hle
    exact h.turns hkey hcall (hmount ▸ hm)

end Forever

/-! ## The end of a deletion -/

def Call.served : Call → Reply → Option (List ConversationSummary)
  | .reconcileBody _ _, .json (.list conversations) => some conversations
  | _, _ => none

theorem resume_reconciling {r : Reply} {id : Text} {sel : Option Text}
    (hcall : call = .reconcileFetch id sel ∨ call = .reconcileBody id sel)
    (hnext : (p.resume call r).2 = none) :
    (p.resume call r).1 = p.onShell fun s =>
      { s with conversations := (call.served r).getD p.shell.conversations }.finishDelete id sel := by
  rcases hcall with rfl | rfl
  · cases r with
    | response status hasBody =>
      rw [Page.resume] at hnext ⊢
      split_ifs at hnext ⊢
      rfl
    | rejected => rfl
    | _ => cases hnext
  · cases r with
    | json body => cases body <;> rfl
    | rejected => rfl
    | _ => cases hnext

/-- A deletion of `c` that succeeds and is handled to its end, as the call `n`. Its answer comes
after `before`, and the reply `last` that ends the handler after `between`. -/
structure Deletion (cs : List ConversationSummary) (c : Text) where
  before : List Action
  between : List Action
  n : Nat
  /-- What was selected when the deletion was confirmed. -/
  selectedThen : Option Text
  status : Nat
  hasBody : Bool
  last : Reply
  asked : (pageAfter cs before).calls.get? n = some (.deleteFetch c selectedThen)
  ok : isOk status = true
  reconciling :
    (pageAfter cs (before ++ .reply n (.response status hasBody) :: between)).calls.get? n =
      some (.reconcileFetch c selectedThen) ∨
    (pageAfter cs (before ++ .reply n (.response status hasBody) :: between)).calls.get? n =
      some (.reconcileBody c selectedThen)
  ends :
    ((pageAfter cs (before ++ .reply n (.response status hasBody) :: between)).step
      (.reply n last)).calls.get? n = none

namespace Deletion

variable {cs : List ConversationSummary} {c : Text} (D : Deletion cs c)

def agreed : Page := pageAfter cs D.before

def page : Page :=
  pageAfter cs (D.before ++ .reply D.n (.response D.status D.hasBody) :: D.between)

def done : Page := D.page.step (.reply D.n D.last)

def listAfter : List ConversationSummary :=
  ((D.page.calls.get? D.n).bind (·.served D.last)).getD D.page.shell.conversations

def Remounts : Prop := D.selectedThen = some c ∧ D.page.shell.key ≠ "new".toList

/-- The list lacks `c` and no older one is on its way. What was selected at the confirmation was
`c`, or it is not selected now nor about to be. And the form is mounted anew, or its thread is not
`c` nor about to be. -/
structure Clean : Prop where
  listed : ∀ s ∈ D.listAfter, s.id ≠ c
  lists : ∀ n call, D.page.calls.get? n = some call → call.lists = true →
    D.agreed.awaitsList n = false
  selection : D.selectedThen = some c ∨ (D.page.shell.selectedId ≠ some c ∧
    ∀ n call, D.page.calls.get? n = some call →
      call.selects = some (D.page.shell.selectionRequest, c) → D.agreed.awaits n = false)
  thread : D.Remounts ∨ (D.page.form.Without c ∧
    ∀ n call, D.page.calls.get? n = some call → call.mount? = some D.page.mount →
      ¬ Brings D.agreed c n call)

theorem since : Since D.agreed D.done := by
  have hafter : D.page = exec Page.step D.agreed
      (.reply D.n (.response D.status D.hasBody) :: D.between) := by
    rw [page, pageAfter, exec_append]
    rfl
  have hpage : Since D.agreed D.page := by
    rw [hafter]
    exact exec_inv (fun _ a h => h.step a) _ _ (.refl (wellNumbered_pageAfter cs D.before))
  exact hpage.step _

theorem wellNumbered_page : WellNumbered D.page := wellNumbered_pageAfter cs _

theorem wellNumbered_done : WellNumbered D.done := D.wellNumbered_page.step _

theorem page_key : D.page.mountKey = D.page.shell.key := pageAfter_mountKey cs _

theorem done_key : D.done.shell.key = D.done.mountKey := by
  rw [done, Page.step, Page.render_mountKey, Page.render_shell]

theorem done_eq : D.done = ((D.page.onShell fun s =>
    { s with conversations := D.listAfter }.finishDelete c D.selectedThen).settle D.n none).render := by
  have hends : D.done.calls.get? D.n = none := D.ends
  have hresume : ∀ {call : Call}, D.page.calls.get? D.n = some call →
      (call = .reconcileFetch c D.selectedThen ∨ call = .reconcileBody c D.selectedThen) →
      D.done = ((D.page.onShell fun s =>
        { s with conversations := D.listAfter }.finishDelete c D.selectedThen).settle
          D.n none).render := by
    intro call hcall hwhich
    have hstep : D.done = ((D.page.resume call D.last).1.settle D.n
        (D.page.resume call D.last).2).render := by
      simp only [done, Page.step, Page.act, hcall]
    have hnext : (D.page.resume call D.last).2 = none := by
      rw [hstep, Page.render_calls, Page.get?_settle, if_pos rfl] at hends
      exact hends
    rw [hstep, hnext, resume_reconciling hwhich hnext, listAfter, hcall]
    rfl
  rcases D.reconciling with hcall | hcall
  · exact hresume hcall (.inl rfl)
  · exact hresume hcall (.inr rfl)

theorem done_conversations : D.done.shell.conversations = D.listAfter := by
  rw [D.done_eq, Page.render_shell, Page.settle_shell, Page.onShell, Shell.finishDelete]
  split <;> rfl

theorem done_calls (n : Nat) :
    D.done.calls.get? n = if n = D.n then none else D.page.calls.get? n := by
  rw [D.done_eq, Page.render_calls, Page.get?_settle]
  rfl

theorem done_selection : if D.selectedThen = some c then
      D.done.shell.selectedId = none ∧
        D.done.shell.selectionRequest = D.page.shell.selectionRequest + 1
    else D.done.shell.selectedId = D.page.shell.selectedId ∧
      D.done.shell.selectionRequest = D.page.shell.selectionRequest := by
  rw [D.done_eq, Page.render_shell, Page.settle_shell, Page.onShell, Shell.finishDelete]
  split <;> exact ⟨rfl, rfl⟩

theorem done_form : (D.Remounts ∧ D.done.form = .mount [] none ∧ D.done.mount = D.page.mount + 1) ∨
    (¬ D.Remounts ∧ D.done.form = D.page.form ∧ D.done.mount = D.page.mount) := by
  have hcases := Page.render_cases ((D.page.onShell fun s =>
    { s with conversations := D.listAfter }.finishDelete c D.selectedThen).settle D.n none)
  rw [← D.done_eq, Page.settle_shell, Page.settle, Page.onShell, D.page_key] at hcases
  by_cases hsel : D.selectedThen = some c
  · rw [Shell.finishDelete, if_pos hsel] at hcases
    rcases hcases with ⟨hkey, hsame⟩ | ⟨hkey, hmount, hform⟩
    · refine .inr ⟨fun hre => hre.2 hkey.symm, ?_⟩
      rw [hsame]
      exact ⟨rfl, rfl⟩
    · exact .inl ⟨⟨hsel, fun h => hkey h.symm⟩, hform, hmount⟩
  · rw [Shell.finishDelete, if_neg hsel] at hcases
    rcases hcases with ⟨-, hsame⟩ | ⟨hkey, -, -⟩
    · refine .inr ⟨fun hre => hsel hre.1, ?_⟩
      rw [hsame]
      exact ⟨rfl, rfl⟩
    · exact absurd rfl hkey

theorem agreed_awaitsList : D.agreed.awaitsList D.n = false := by
  rw [Page.awaitsList, agreed, D.asked]
  rfl

variable {call : Call} {n : Nat}

theorem reconciling_call (h : D.page.calls.get? D.n = some call) :
    call.selects = none ∧ call.mount? = none := by
  rcases D.reconciling with hcall | hcall <;> cases hcall.symm.trans h <;> exact ⟨rfl, rfl⟩

theorem done_call (h : D.page.calls.get? n = some call) (hn : n ≠ D.n) :
    D.done.calls.get? n = some call := by
  rw [D.done_calls, if_neg hn, h]

theorem page_call (h : D.done.calls.get? n = some call) : D.page.calls.get? n = some call := by
  rw [D.done_calls] at h
  split_ifs at h
  exact h

theorem clean_of_safe (h : Safe D.agreed c D.done) : D.Clean := by
  constructor
  case listed => exact D.done_conversations ▸ h.unlisted
  case lists =>
    intro n call hcall hlists
    by_cases hn : n = D.n
    · rw [hn]
      exact D.agreed_awaitsList
    · exact h.lists n call (D.done_call hcall hn) hlists
  case selection =>
    have hdone := D.done_selection
    split_ifs at hdone with hsel
    · exact .inl hsel
    · refine .inr ⟨hdone.1 ▸ h.unselected, fun n call hcall hselects => ?_⟩
      have hn : n ≠ D.n := by
        rintro rfl
        rw [(D.reconciling_call hcall).1] at hselects
        cases hselects
      exact h.selects n call _ (D.done_call hcall hn) hselects hdone.2.le
  case thread =>
    rcases D.done_form with ⟨hre, -⟩ | ⟨-, hform, hmount⟩
    · exact .inl hre
    · refine .inr ⟨hform ▸ h.unshown, fun n call hcall hm => ?_⟩
      have hn : n ≠ D.n := by
        rintro rfl
        rw [(D.reconciling_call hcall).2] at hm
        cases hm
      exact h.turns n call _ (D.done_call hcall hn) hm hmount.le

theorem Clean.safe (h : D.Clean) : Safe D.agreed c D.done := by
  have hnumbers := D.wellNumbered_page
  have hselection := D.done_selection
  constructor
  case unselected =>
    split_ifs at hselection with hsel
    · rw [hselection.1]
      nofun
    · rw [hselection.1]
      exact (h.selection.resolve_left hsel).1
  case unlisted => exact D.done_conversations ▸ h.listed
  case unshown =>
    rcases D.done_form with ⟨-, hform, -⟩ | ⟨hre, hform, -⟩
    · rw [hform]
      exact ⟨nofun, nofun⟩
    · rw [hform]
      exact (h.thread.resolve_left hre).1
  case lists => exact fun n call hcall => h.lists n call (D.page_call hcall)
  case selects =>
    intro n call token hcall hsel hle
    have htoken := hnumbers.token_le n call token c (D.page_call hcall) hsel
    split_ifs at hselection with hthen
    · -- the request was made before the selection was cleared
      rw [hselection.2] at hle
      exact absurd (hle.trans htoken) (Nat.not_succ_le_self _)
    · rw [hselection.2] at hle
      obtain rfl := le_antisymm htoken hle
      exact (h.selection.resolve_left hthen).2 n call (D.page_call hcall) hsel
  case turns =>
    intro n call m hcall hm hle
    have hmount := hnumbers.mount_le n call m (D.page_call hcall) hm
    rcases D.done_form with ⟨-, -, hnew⟩ | ⟨hre, -, hsame⟩
    · rw [hnew] at hle
      exact absurd (hle.trans hmount) (Nat.not_succ_le_self _)
    · rw [hsame] at hle
      obtain rfl := le_antisymm hmount hle
      exact (h.thread.resolve_left hre).2 n call (D.page_call hcall) hm
  case loaded => exact fun hkey => absurd D.done_key hkey

end Deletion

/-- A deleted conversation is gone for good exactly when the deletion is clean. -/
theorem deletion_gone_iff {cs : List ConversationSummary} {c : Text} (D : Deletion cs c) :
    (∀ after, Along Page.step (NotReturned D.agreed c) D.done after →
      Gone c (exec Page.step D.done after)) ↔ D.Clean := by
  constructor
  · intro h
    exact D.clean_of_safe (GoneForGood.safe h D.wellNumbered_done D.done_key)
  · intro h
    exact h.safe.goneForGood D.since

/-! ## When every reply is in -/

def Call.reconciles : Call → Bool
  | .reconcileFetch _ _ | .reconcileBody _ _ => true
  | _ => false

structure Alike (p q : Page) : Prop where
  selectedId : q.shell.selectedId = p.shell.selectedId
  conversations : q.shell.conversations = p.shell.conversations
  current : q.form.currentConversationId = p.form.currentConversationId
  messages : q.form.messages = p.form.messages
  mountKey : q.mountKey = p.mountKey

theorem Alike.gone {q : Page} (h : Alike p q) (hgone : Gone c q) : Gone c p := by
  have hunshown : p.form.Without c :=
    ⟨h.current ▸ hgone.unshown.current, h.messages ▸ hgone.unshown.messages⟩
  exact ⟨h.selectedId ▸ hgone.unselected, h.conversations ▸ hgone.unlisted, hunshown,
    fun _ _ _ hsend => hunshown.unsent hsend⟩

theorem Page.resume_rejected (p : Page) (hother : call.reconciles = false) :
    (p.resume call .rejected).2 = none ∧ (p.resume call .rejected).1.calls = p.calls ∧
      Alike p (p.resume call .rejected).1 := by
  have hsetForm : ∀ mount, (p.setForm mount p.form.fail).calls = p.calls ∧
      Alike p (p.setForm mount p.form.fail) := by
    intro mount
    unfold Page.setForm
    split <;> exact ⟨rfl, rfl, rfl, rfl, rfl, rfl⟩
  cases call with
  | selectFetch token id =>
    rw [Page.resume]
    split <;> exact ⟨rfl, rfl, rfl, rfl, rfl, rfl, rfl⟩
  | selectBody token id =>
    rw [Page.resume]
    split <;> exact ⟨rfl, rfl, rfl, rfl, rfl, rfl, rfl⟩
  | chatFetch mount request => exact ⟨rfl, hsetForm mount⟩
  | chatStream mount request turn => exact ⟨rfl, hsetForm mount⟩
  | refreshFetch => exact ⟨rfl, rfl, rfl, rfl, rfl, rfl, rfl⟩
  | refreshBody => exact ⟨rfl, rfl, rfl, rfl, rfl, rfl, rfl⟩
  | deleteFetch id sel => exact ⟨rfl, rfl, rfl, rfl, rfl, rfl, rfl⟩
  | reconcileFetch id sel => cases hother
  | reconcileBody id sel => cases hother

theorem Page.step_rejected (hkey : p.shell.key = p.mountKey) (hcall : p.calls.get? n = some call)
    (hother : call.reconciles = false) :
    (p.step (.reply n .rejected)).calls = p.calls.erase n ∧
      Alike p (p.step (.reply n .rejected)) := by
  obtain ⟨hnext, hcalls, halike⟩ := p.resume_rejected hother
  have hact : p.act (.reply n .rejected) = (p.resume call .rejected).1.settle n none := by
    rw [Page.act, hcall, ← hnext]
  have hrender : ((p.resume call .rejected).1.settle n none).render =
      (p.resume call .rejected).1.settle n none := by
    refine Page.render_of_key ?_
    rw [Page.settle_shell, Shell.key, halike.selectedId]
    exact hkey.trans halike.mountKey.symm
  rw [Page.step, hact, hrender]
  exact ⟨congrArg (Dict.erase · n) hcalls, halike.1, halike.2, halike.3, halike.4, halike.5⟩

/-- A conversation that is still there is there when the replies that are due have been rejected, so
that every request is handled. Another deletion that waits for its list could clear the selection.
-/
theorem gone_of_rejected {d : Page} (hkey : p.shell.key = p.mountKey)
    (hothers : ∀ n call, p.calls.get? n = some call → call.reconciles = false) :
    ∃ after, Along Page.step (NotReturned d c) p after ∧ (exec Page.step p after).calls = [] ∧
      (Gone c (exec Page.step p after) → Gone c p) := by
  -- by the number of calls under way
  induction hlength : p.calls.length using Nat.strong_induction_on generalizing p with
  | _ k ih =>
    rcases hcalls : p.calls with _ | ⟨⟨n, call⟩, rest⟩
    · exact ⟨[], trivial, hcalls, id⟩
    · have hcall : p.calls.get? n = some call := by rw [hcalls, Dict.get?_cons, if_pos rfl]
      obtain ⟨herase, halike⟩ := Page.step_rejected hkey hcall (hothers n call hcall)
      have hshorter : (p.step (.reply n .rejected)).calls.length < k := by
        rw [herase, ← hlength, hcalls]
        simp only [Dict.erase, ne_eq, not_true_eq_false, decide_false, Bool.false_eq_true,
          not_false_eq_true, List.filter_cons_of_neg, List.length_cons]
        exact Nat.lt_succ_of_le (List.length_filter_le ..)
      obtain ⟨after, halong, hdone, hback⟩ := ih _ hshorter
        (by rw [Shell.key, halike.selectedId, halike.mountKey]; exact hkey)
        (fun m call' hm => hothers m call' (by
          rw [herase, Dict.get?_erase] at hm
          split_ifs at hm
          exact hm)) rfl
      exact ⟨.reply n .rejected :: after, ⟨trivial, halong⟩, hdone, fun h => halike.gone (hback h)⟩

/-! ## Deletions, clean and not -/

instance (d : Page) (c : Text) (p : Page) : (a : Action) → Decidable (NotReturned d c p a)
  | .reply _ (.json (.list _)) => inferInstanceAs (Decidable (_ → _))
  | .reply _ (.json (.transcript _ _)) => inferInstanceAs (Decidable (∀ x ∈ _, _))
  | .reply _ (.json .other) => .isTrue trivial
  | .reply _ (.chunk (.metaChunk _ _ _)) => inferInstanceAs (Decidable (∀ x ∈ _, _))
  | .reply _ (.chunk (.tokenChunk _)) => .isTrue trivial
  | .reply _ (.chunk (.streamErrorChunk _)) => .isTrue trivial
  | .reply _ (.chunk (.doneChunk _ _ _ _ _)) => .isTrue trivial
  | .reply _ (.response _ _) => .isTrue trivial
  | .reply _ .streamClosed => .isTrue trivial
  | .reply _ .rejected => .isTrue trivial
  | .select _ => .isTrue trivial
  | .newConversation => .isTrue trivial
  | .send _ => .isTrue trivial
  | .requestDelete _ => .isTrue trivial
  | .cancelDelete => .isTrue trivial
  | .confirmDelete => .isTrue trivial

/-- A run that the page and the server allow, with every reply in at its end. -/
structure Deletion.Allowed {cs : List ConversationSummary} {c : Text} (D : Deletion cs c)
    (after : List Action) : Prop where
  offered : Along Page.step Page.Offers (.init cs)
    (D.before ++ .reply D.n (.response D.status D.hasBody) :: D.between ++
      .reply D.n D.last :: after)
  returned : Along Page.step (NotReturned D.agreed c) D.agreed
    (.reply D.n (.response D.status D.hasBody) :: D.between ++ .reply D.n D.last :: after)
  handled : (exec Page.step D.done after).calls.isEmpty = true

def threadDeletion : Deletion [] "c".toList where
  before := firstTurn ++
    [.reply 0 (.response 200 true), .reply 0 (.json (.list [⟨"c".toList, [], false⟩])),
      .requestDelete "c".toList, .confirmDelete]
  between := [.reply 1 (.response 200 true)]
  n := 1
  selectedThen := none
  status := 204
  hasBody := false
  last := .json (.list [])
  asked := by rfl
  ok := by rfl
  reconciling := .inr (by rfl)
  ends := by rfl

def openDeletion : Deletion [⟨"c".toList, [], false⟩] "c".toList where
  before := [.select "c".toList, .reply 0 (.response 200 true),
    .reply 0 (.json (.transcript "c".toList [])), .requestDelete "c".toList, .confirmDelete]
  between := [.reply 1 (.response 200 true)]
  n := 1
  selectedThen := some "c".toList
  status := 204
  hasBody := false
  last := .json (.list [])
  asked := by rfl
  ok := by rfl
  reconciling := .inr (by rfl)
  ends := by rfl

/-- It was selected when the deletion was confirmed, and no other request is under way. -/
theorem deletion_gone_iff_open : openDeletion.Allowed [] ∧ openDeletion.Clean ∧
    ∀ after, Along Page.step (NotReturned openDeletion.agreed "c".toList) openDeletion.done after →
      Gone "c".toList (exec Page.step openDeletion.done after) := by
  have hclean : openDeletion.Clean := by
    refine ⟨nofun, fun n call hcall _ => ?_, .inl rfl, .inl ⟨rfl, by decide⟩⟩
    have hone : openDeletion.page.calls = [(1, .reconcileBody "c".toList (some "c".toList))] := by rfl
    rw [hone, Dict.get?_cons] at hcall
    split_ifs at hcall with hn
    · exact hn ▸ openDeletion.agreed_awaitsList
    · cases hcall
  exact ⟨⟨by decide +kernel, by decide +kernel, by decide +kernel⟩, hclean,
    (deletion_gone_iff openDeletion).2 hclean⟩

/-- The conversation is deleted while its transcript is on the way. -/
def selectedDeletion : Deletion [⟨"c".toList, [], false⟩] "c".toList where
  before := [.select "c".toList, .requestDelete "c".toList, .confirmDelete]
  between := [.reply 0 (.response 200 true), .reply 0 (.json (.transcript "c".toList [])),
    .reply 1 (.response 200 true)]
  n := 1
  selectedThen := none
  status := 204
  hasBody := false
  last := .json (.list [])
  asked := by rfl
  ok := by rfl
  reconciling := .inr (by rfl)
  ends := by rfl

/-- A list is on its way from before the deletion. -/
def refreshedDeletion : Deletion [⟨"d".toList, [], false⟩] "d".toList where
  before := firstTurn ++ [.requestDelete "d".toList, .confirmDelete]
  between := [.reply 1 (.response 200 true)]
  n := 1
  selectedThen := none
  status := 204
  hasBody := false
  last := .json (.list [⟨"c".toList, [], false⟩])
  asked := by rfl
  ok := by rfl
  reconciling := .inr (by rfl)
  ends := by rfl

/-- The list cannot be fetched after the deletion. -/
def unlistedDeletion : Deletion [⟨"c".toList, [], false⟩] "c".toList where
  before := [.requestDelete "c".toList, .confirmDelete]
  between := []
  n := 0
  selectedThen := none
  status := 204
  hasBody := false
  last := .rejected
  asked := by rfl
  ok := by rfl
  reconciling := .inl (by rfl)
  ends := by rfl

/-- The deleted conversation gets the next message; it is selected; it is listed again; it is still
listed. -/
theorem deleted_conversation_stays :
    (threadDeletion.Allowed [] ∧
      (threadDeletion.done.form.sendQuery "Et Blowen ?".toList).map (·.2) =
        some ⟨"Et Blowen ?".toList, some "c".toList⟩ ∧ ¬ Gone "c".toList threadDeletion.done) ∧
    (selectedDeletion.Allowed [] ∧ selectedDeletion.done.shell.selectedId = some "c".toList ∧
      ¬ Gone "c".toList selectedDeletion.done) ∧
    (refreshedDeletion.Allowed [.reply 0 (.response 200 true), .reply 0 (.json (.list
        [⟨"c".toList, [], false⟩, ⟨"d".toList, [], false⟩]))] ∧
      ¬ Gone "d".toList (exec Page.step refreshedDeletion.done [.reply 0 (.response 200 true),
        .reply 0 (.json (.list [⟨"c".toList, [], false⟩, ⟨"d".toList, [], false⟩]))])) ∧
    unlistedDeletion.Allowed [] ∧ ¬ Gone "c".toList unlistedDeletion.done := by
  refine ⟨⟨⟨by decide +kernel, by decide +kernel, by decide +kernel⟩, by decide +kernel, ?_⟩,
    ⟨⟨by decide +kernel, by decide +kernel, by decide +kernel⟩, by decide +kernel, ?_⟩,
    ⟨⟨by decide +kernel, by decide +kernel, by decide +kernel⟩, ?_⟩,
    ⟨by decide +kernel, by decide +kernel, by decide +kernel⟩, ?_⟩
  · exact fun h => absurd h.unshown.current (by decide +kernel)
  · exact fun h => absurd h.unselected (by decide +kernel)
  · exact fun h => absurd h.unlisted (by decide +kernel)
  · exact fun h => absurd h.unlisted (by decide +kernel)

end Archiviste.Frontend
