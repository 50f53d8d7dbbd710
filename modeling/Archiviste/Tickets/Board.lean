import Archiviste.Base.FormUrl
import Archiviste.Base.Run
import Mathlib.Data.List.Dedup
import Mathlib.Data.List.Sort
import Mathlib.Data.Prod.Lex

/-!
# Archiviste.Tickets.Board

The board of open tickets, from the page to the query and back: the page writes its filter into a
query string, the gateway reads it, selects and orders the rows, and the page appends what it gets
to what it shows. Rows with the same place in the order come in any order, another one in each query:
a query has a `Plan`, which says in what order it scans the table.

* `filterFromParams`, `filterToParams`, `buildPaginationParams` — the filter in an address.
* `boardQuery`, `listOpen`    — the gateway's reading of a query, and its answer.
* `board_filter_read_back`    — the gateway and the page read what the page wrote.
* `step`                      — the button that loads more.
* `board_pages`               — what is shown in every run.
-/

namespace Archiviste.Tickets
namespace Board

/-! ## The filter in an address -/

inductive SortOrder where
  | priority
  | date
  deriving DecidableEq, Repr

def SortOrder.text : SortOrder → Text
  | .priority => "priority".toList
  | .date => "date".toList

def SortOrder.ofText? (t : Text) : Option SortOrder :=
  if t = "priority".toList then some .priority else if t = "date".toList then some .date else none

structure BoardFilter where
  category : Option Text
  sort : SortOrder
  deriving DecidableEq, Repr

abbrev Params := List (Text × Text)

def Params.get (ps : Params) (name : Text) : Option Text := (ps.find? (·.1 = name)).map (·.2)

def Params.delete (ps : Params) (name : Text) : Params := ps.filter (·.1 ≠ name)

/-- The first pair of that name takes the value and the others go; without one it is appended. -/
def Params.set (ps : Params) (name value : Text) : Params :=
  match ps with
  | [] => [(name, value)]
  | p :: ps =>
    if p.1 = name then (name, value) :: Params.delete ps name else p :: Params.set ps name value

def paramCategory : Text := "category".toList

def paramSort : Text := "sort".toList

def paramLimit : Text := "limit".toList

def paramOffset : Text := "offset".toList

def filterFromParams (ps : Params) : BoardFilter where
  category := (ps.get paramCategory).filter (· ≠ [])
  sort := ((ps.get paramSort).bind SortOrder.ofText?).getD .priority

def filterToParams (filter : BoardFilter) (existing : Params) : Params :=
  let next := match filter.category.filter (· ≠ []) with
    | some category => existing.set paramCategory category
    | none => existing.delete paramCategory
  if filter.sort = .priority then next.delete paramSort else next.set paramSort filter.sort.text

/-- `String` of a number below `2 ^ 53`, where JavaScript is exact. -/
def decimal (n : Nat) : Text := Nat.toDigits 10 n

def paginationParams (filter : BoardFilter) (limit offset : Nat) : Params :=
  let ps : Params := [(paramSort, filter.sort.text), (paramLimit, decimal limit),
    (paramOffset, decimal offset)]
  match filter.category with
  | some category => ps.set paramCategory category
  | none => ps

def buildPaginationParams (filter : BoardFilter) (limit offset : Nat) : Text :=
  FormUrl.serialize (paginationParams filter limit offset)

def buildGatewayParams (filter : BoardFilter) (limit : Nat) : Text :=
  buildPaginationParams filter limit 0

/-! ## The gateway -/

structure BoardQuery where
  limit : Option Int
  offset : Option Int
  category : Option Text
  sort : SortOrder
  deriving DecidableEq

/-- `str::parse::<i64>`. -/
def parseI64 (t : Text) : Option Int :=
  let (negative, digits) := match t with
    | '-' :: digits => (true, digits)
    | '+' :: digits => (false, digits)
    | digits => (false, digits)
  if digits ≠ [] ∧ digits.all Char.isDigit then
    let n : Int := Nat.ofDigitChars 10 digits 0
    let value := if negative then -n else n
    if -9223372036854775808 ≤ value ∧ value ≤ 9223372036854775807 then some value else none
  else none

/-- A field of the query: absent, or its value; a second one is refused. -/
def field (ps : Params) (name : Text) : Option (Option Text) :=
  match ps.filter (·.1 = name) with
  | [] => some none
  | [p] => some (some p.2)
  | _ => none

/-- `Option<i64>`. -/
def intField (ps : Params) (name : Text) : Option (Option Int) := do
  match ← field ps name with
  | none => some none
  | some t => (parseI64 t).map some

/-- `Query<BoardQuery>`: `none` is the 400 of the extractor. An unknown `sort` is refused; the
default is for an absent one. -/
def boardQuery (ps : Params) : Option BoardQuery := do
  let limit ← intField ps paramLimit
  let offset ← intField ps paramOffset
  let category ← field ps paramCategory
  let sort ← match ← field ps paramSort with
    | none => some .priority
    | some t => SortOrder.ofText? t
  return ⟨limit, offset, category, sort⟩

structure Row where
  id : Text
  conversationId : Text
  question : Text
  category : Text
  priorityScore : Int
  status : Text
  createdAt : Int
  updatedAt : Int
  judgesNotPassed : Bool
  deriving DecidableEq

structure Plan where
  scan : List Row → List Row
  perm : ∀ rows, (scan rows).Perm rows

def place (sort : SortOrder) (r : Row) : Int ×ₗ Int :=
  match sort with
  | .priority => toLex (-r.priorityScore, -r.createdAt)
  | .date => toLex (-r.createdAt, -r.priorityScore)

def isOpen (r : Row) : Bool := r.status = "open".toList

/-- `WHERE status = 'open'`, with `AND category = $1` for a category. -/
def visible (table : List Row) (category : Option Text) : List Row :=
  table.filter fun r => isOpen r && match category with
    | none => true
    | some c => r.category = c

/-- `ORDER BY`. -/
def ranked (plan : Plan) (sort : SortOrder) (rows : List Row) : List Row :=
  (plan.scan rows).insertionSort fun a b => place sort a ≤ place sort b

def fetchRows (plan : Plan) (table : List Row) (limit offset : Nat) (category : Option Text)
    (sort : SortOrder) : List Row :=
  ((ranked plan sort (visible table category)).drop offset).take limit

def fetchCount (table : List Row) (category : Option Text) : Nat := (visible table category).length

/-- `SELECT DISTINCT category … ORDER BY category`, in the collation of the database. -/
def fetchOpenCategories (collate : Text → Text → Bool) (table : List Row) : List Text :=
  ((table.filter isOpen).map (·.category)).dedup.insertionSort fun a b => collate a b

inductive ApiError where
  | invalidRequest
  | upstreamUnavailable
  deriving DecidableEq

structure TicketsResponse where
  items : List Row
  total : Nat
  limit : Int
  offset : Int
  categories : List Text

/-- How the database answers: whether there is a pool, the plan of the query for the rows, whether
the other two queries succeed. -/
structure DbReply where
  pool : Bool
  rows : Option Plan
  count : Bool
  categories : Bool

section
variable (collate : Text → Text → Bool)

/-- `list_board` and `list_tickets`, which differ in the largest limit and in who may call them. -/
def listOpen (cap : Int) (table : List Row) (db : DbReply) (query : BoardQuery) :
    Except ApiError TicketsResponse :=
  let limit := query.limit.getD 50
  let offset := query.offset.getD 0
  if ¬ (1 ≤ limit ∧ limit ≤ cap) ∨ offset < 0 then .error .invalidRequest
  else if !db.pool then .error .upstreamUnavailable
  else
    match db.rows with
    | none => .error .upstreamUnavailable
    | some plan =>
      if !db.count || !db.categories then .error .upstreamUnavailable
      else .ok ⟨fetchRows plan table limit.toNat offset.toNat query.category query.sort,
        fetchCount table query.category, limit, offset, fetchOpenCategories collate table⟩

def listBoard : List Row → DbReply → BoardQuery → Except ApiError TicketsResponse :=
  listOpen collate 100

def listTickets : List Row → DbReply → BoardQuery → Except ApiError TicketsResponse :=
  listOpen collate 200

end

/-! ## The button that loads more -/

def boardPageSize : Nat := 20

/-- How a request of the page ends: without a response, with a status that is no success, with a body
that is no page, or with what the gateway answers. The texts are its `x-request-id`. -/
inductive Reply where
  | network
  | refused (requestId : Option Text)
  | malformed (requestId : Option Text)
  | served (db : DbReply) (requestId : Option Text)

structure Button where
  tickets : List Row
  /-- The query that is on its way. -/
  pending : Option Text
  error : Option Text
  deriving DecidableEq

inductive Input where
  | click
  | answer (r : Reply)

/-- The route behind a page, for the author's dashboard or for the public board, with the collation of
the database and the decoding of bytes that are no UTF-8. -/
structure Route where
  dashboard : Bool
  collate : Text → Text → Bool
  lossy : List UInt8 → Text

def Route.handler (route : Route) : List Row → DbReply → BoardQuery → Except ApiError TicketsResponse :=
  if route.dashboard then listTickets route.collate else listBoard route.collate

/-- A query that reaches the gateway: `none` for any status that is no success. -/
def Route.get (route : Route) (table : List Row) (db : DbReply) (query : Text) :
    Option TicketsResponse := do
  let params ← boardQuery (FormUrl.parse route.lossy query)
  (route.handler table db params).toOption

def loadingFailed (requestId : Option Text) : Text :=
  "Échec du chargement (id: ".toList ++ requestId.getD "inconnu".toList ++ ")".toList

def unexpectedReply (requestId : Option Text) : Text :=
  "Réponse inattendue du serveur (id: ".toList ++ requestId.getD "inconnu".toList ++ ")".toList

def networkError : Text := "Erreur réseau. Veuillez réessayer.".toList

def Button.fail (s : Button) (error : Text) : Button := { s with pending := none, error := some error }

/-- The table does not change while the page is open, and neither does the filter. -/
def step (route : Route) (table : List Row) (filter : BoardFilter) (total : Nat) (s : Button) :
    Input → Button
  | .click =>
    -- the button is there while there is more, and disabled while it loads
    if s.tickets.length < total ∧ s.pending = none then
      { s with
        pending := some (buildPaginationParams filter boardPageSize s.tickets.length), error := none }
    else s
  | .answer r =>
    match s.pending with
    | none => s
    | some query =>
      match r with
      | .network => s.fail networkError
      | .refused requestId => s.fail (loadingFailed requestId)
      | .malformed requestId => s.fail (unexpectedReply requestId)
      | .served db requestId =>
        match route.get table db query with
        | none => s.fail (loadingFailed requestId)
        | some page => ⟨s.tickets ++ page.items, none, none⟩

def firstPage (route : Route) (table : List Row) (db : DbReply) (filter : BoardFilter) :
    Option (Button × Nat) :=
  (route.get table db (buildGatewayParams filter boardPageSize)).map fun page =>
    (⟨page.items, none, none⟩, page.total)

/-! ## The filter is read back -/

theorem ofText?_text (sort : SortOrder) : SortOrder.ofText? sort.text = some sort := by
  cases sort <;> decide

variable (ps : Params) (route : Route) (plan : Plan)

theorem get_set_self (name value : Text) : (ps.set name value).get name = some value := by
  induction ps with
  | nil => simp [Params.set, Params.get]
  | cons p ps ih =>
    unfold Params.set
    split
    · simp [Params.get]
    · next hne =>
      rw [Params.get, List.find?_cons_of_neg (by simpa using hne)]
      exact ih

theorem get_delete_self (name : Text) : (ps.delete name).get name = none := by
  rw [Params.get, Option.map_eq_none_iff, List.find?_eq_none]
  intro p hp
  have := (List.mem_filter.1 hp).2
  simpa using this

variable {name : Text} {offset : Nat} {table : List Row} {filter : BoardFilter} {s : Button}

theorem get_delete_of_ne {name' : Text} (h : name' ≠ name) :
    (ps.delete name).get name' = ps.get name' := by
  induction ps with
  | nil => rfl
  | cons p ps ih =>
    unfold Params.delete Params.get at ih ⊢
    by_cases hp : p.1 = name
    · have hp' : ¬ p.1 = name' := fun heq => h (heq.symm.trans hp)
      rw [List.filter_cons_of_neg (by simpa using hp), List.find?_cons_of_neg (by simpa using hp')]
      exact ih
    · rw [List.filter_cons_of_pos (by simpa using hp)]
      by_cases hp' : p.1 = name'
      · rw [List.find?_cons_of_pos (by simpa using hp'), List.find?_cons_of_pos (by simpa using hp')]
      · rw [List.find?_cons_of_neg (by simpa using hp'), List.find?_cons_of_neg (by simpa using hp')]
        exact ih

theorem get_set_of_ne {name' : Text} (value : Text) (h : name' ≠ name) :
    (ps.set name value).get name' = ps.get name' := by
  induction ps with
  | nil => simp [Params.set, Params.get, Ne.symm h]
  | cons p ps ih =>
    unfold Params.set
    split
    · next hp =>
      have hp' : ¬ p.1 = name' := fun heq => h (heq.symm.trans hp)
      have hdelete := get_delete_of_ne ps h
      unfold Params.get at hdelete ⊢
      rw [List.find?_cons_of_neg (by simpa using Ne.symm h), List.find?_cons_of_neg (by simpa using hp')]
      exact hdelete
    · unfold Params.get at ih ⊢
      by_cases hp' : p.1 = name'
      · rw [List.find?_cons_of_pos (by simpa using hp'), List.find?_cons_of_pos (by simpa using hp')]
      · rw [List.find?_cons_of_neg (by simpa using hp'), List.find?_cons_of_neg (by simpa using hp')]
        exact ih

theorem filterFromParams_filterToParams (filter : BoardFilter) (existing : Params) :
    filterFromParams (filterToParams filter existing) =
      { filter with category := filter.category.filter (· ≠ []) } := by
  have hne : paramCategory ≠ paramSort := by decide
  have hcategory : ∀ next : Params,
      (if filter.sort = .priority then next.delete paramSort
        else next.set paramSort filter.sort.text).get paramCategory = next.get paramCategory := by
    intro next
    split
    · exact get_delete_of_ne next hne
    · exact get_set_of_ne next _ hne
  have hsort : ∀ next : Params,
      (((if filter.sort = .priority then next.delete paramSort
        else next.set paramSort filter.sort.text).get paramSort).bind SortOrder.ofText?).getD .priority
        = filter.sort := by
    intro next
    split
    · next hpriority =>
      rw [get_delete_self, hpriority]
      rfl
    · rw [get_set_self, Option.bind_some, ofText?_text]
      rfl
  unfold filterFromParams filterToParams
  dsimp only
  rw [hcategory, hsort]
  congr 1
  cases hfilter : filter.category.filter (· ≠ []) with
  | none =>
    dsimp only
    rw [get_delete_self]
    rfl
  | some category =>
    have hnonempty := (Option.filter_eq_some_iff.1 hfilter).2
    dsimp only
    rw [get_set_self, Option.filter_some, if_pos hnonempty]

/-! ## The gateway reads what the page wrote -/

theorem parseI64_decimal {n : Nat} (h : n < 2 ^ 63) : parseI64 (decimal n) = some n := by
  have hdigit : ∀ c ∈ decimal n, c.isDigit = true := fun c hc =>
    Nat.isDigit_of_mem_toDigits (by decide) (by decide) hc
  have hvalue : Nat.ofDigitChars 10 (decimal n) 0 = n :=
    Nat.ofDigitChars_toDigits (by decide) (by decide)
  obtain ⟨c, t, hct⟩ : ∃ c t, decimal n = c :: t :=
    List.exists_cons_of_ne_nil Nat.toDigits_ne_nil
  have hc : c.isDigit = true := hdigit c (by rw [hct]; exact List.mem_cons_self)
  have hsign : (match decimal n with
      | '-' :: digits => (true, digits)
      | '+' :: digits => (false, digits)
      | digits => (false, digits)) = (false, decimal n) := by
    rw [hct]
    split
    · next heq => cases heq; exact absurd hc (by decide)
    · next heq => cases heq; exact absurd hc (by decide)
    · rfl
  have hdigits : decimal n ≠ [] ∧ (decimal n).all Char.isDigit = true :=
    ⟨Nat.toDigits_ne_nil, List.all_eq_true.2 hdigit⟩
  unfold parseI64
  rw [hsign]
  dsimp only
  rw [if_pos hdigits, hvalue, if_neg Bool.false_ne_true]
  exact if_pos ⟨by omega, by omega⟩

theorem boardQuery_pagination (filter : BoardFilter) {limit : Nat} (hlimit : limit < 2 ^ 63)
    (hoffset : offset < 2 ^ 63) :
    boardQuery (paginationParams filter limit offset) =
      some ⟨some limit, some offset, filter.category, filter.sort⟩ := by
  obtain ⟨category, sort⟩ := filter
  have hlimitField : intField (paginationParams ⟨category, sort⟩ limit offset) paramLimit =
      (parseI64 (decimal limit)).map some := by
    cases category <;> rfl
  have hoffsetField : intField (paginationParams ⟨category, sort⟩ limit offset) paramOffset =
      (parseI64 (decimal offset)).map some := by
    cases category <;> rfl
  have hcategoryField : field (paginationParams ⟨category, sort⟩ limit offset) paramCategory =
      some category := by
    cases category <;> rfl
  have hsortField : field (paginationParams ⟨category, sort⟩ limit offset) paramSort =
      some (some sort.text) := by
    cases category <;> rfl
  unfold boardQuery
  rw [hlimitField, hoffsetField, hcategoryField, hsortField, parseI64_decimal hlimit,
    parseI64_decimal hoffset]
  show (SortOrder.ofText? sort.text).bind _ = _
  rw [ofText?_text]
  rfl

theorem get_filterToParams (filter : BoardFilter) (existing : Params)
    (hcategory : name ≠ paramCategory) (hsort : name ≠ paramSort) :
    (filterToParams filter existing).get name = existing.get name := by
  have hnext : ∀ next : Params, next.get name = existing.get name →
      (if filter.sort = .priority then next.delete paramSort
        else next.set paramSort filter.sort.text).get name = existing.get name := by
    intro next hnext
    split
    · exact (get_delete_of_ne next hsort).trans hnext
    · exact (get_set_of_ne next _ hsort).trans hnext
  refine hnext _ ?_
  split
  · exact get_set_of_ne existing _ hcategory
  · exact get_delete_of_ne existing hcategory

theorem mem_fetchOpenCategories (collate : Text → Text → Bool) (table : List Row) (c : Text) :
    c ∈ fetchOpenCategories collate table ↔ visible table (some c) ≠ [] := by
  rw [fetchOpenCategories, List.mem_insertionSort, List.mem_dedup, List.mem_map]
  constructor
  · rintro ⟨r, hr, rfl⟩
    obtain ⟨hmem, hopen⟩ := List.mem_filter.1 hr
    refine List.ne_nil_of_mem (a := r) (List.mem_filter.2 ⟨hmem, ?_⟩)
    rw [hopen, Bool.true_and, decide_eq_true_eq]
  · intro hne
    obtain ⟨r, hr⟩ := List.exists_mem_of_ne_nil _ hne
    obtain ⟨hmem, hvisible⟩ := List.mem_filter.1 hr
    obtain ⟨hopen, hcategory⟩ := Bool.and_eq_true_iff.1 hvisible
    exact ⟨r, List.mem_filter.2 ⟨hmem, hopen⟩, of_decide_eq_true hcategory⟩

/-- A filter survives the address bar, with the other parameters there; the gateway reads from the
page's query the filter, the order, the limit and the offset; and a category is offered exactly when
a query for it finds something. -/
theorem board_filter_read_back (lossy : List UInt8 → Text) (filter : BoardFilter) (existing : Params)
    (collate : Text → Text → Bool) (table : List Row) {limit offset : Nat} (hlimit : limit < 2 ^ 53)
    (hoffset : offset < 2 ^ 53) :
    let address : Params := FormUrl.parse lossy (FormUrl.serialize (filterToParams filter existing))
    filterFromParams address = ⟨filter.category.filter (· ≠ []), filter.sort⟩ ∧
      (∀ name, name ≠ paramCategory → name ≠ paramSort → address.get name = existing.get name) ∧
      boardQuery (FormUrl.parse lossy (buildPaginationParams filter limit offset)) =
        some ⟨some limit, some offset, filter.category, filter.sort⟩ ∧
      ∀ c, c ∈ fetchOpenCategories collate table ↔ visible table (some c) ≠ [] := by
  dsimp only
  rw [FormUrl.parse_serialize, buildPaginationParams, FormUrl.parse_serialize]
  exact ⟨filterFromParams_filterToParams filter existing,
    fun name hcategory hsort => get_filterToParams filter existing hcategory hsort,
    boardQuery_pagination filter (by omega) (by omega), mem_fetchOpenCategories collate table⟩

theorem board_filter_read_back_date :
    boardQuery (FormUrl.parse (fun _ => [])
      (buildPaginationParams ⟨some "géo & co".toList, .date⟩ 20 40)) =
        some ⟨some 20, some 40, some "géo & co".toList, .date⟩ :=
  (board_filter_read_back (fun _ => []) ⟨some "géo & co".toList, .date⟩ [] (fun _ _ => true) []
    (show 20 < 2 ^ 53 by decide) (show 40 < 2 ^ 53 by decide)).2.2.1

theorem Route.handler_eq :
    ∃ cap, (boardPageSize : Int) ≤ cap ∧ route.handler = listOpen route.collate cap := by
  unfold Route.handler
  split
  · exact ⟨200, by decide, rfl⟩
  · exact ⟨100, by decide, rfl⟩

theorem Route.get_eq (table : List Row) (db : DbReply) (filter : BoardFilter)
    (hoffset : offset < 2 ^ 63) :
    route.get table db (buildPaginationParams filter boardPageSize offset) =
      (route.handler table db
        ⟨some boardPageSize, some offset, filter.category, filter.sort⟩).toOption := by
  have hquery := boardQuery_pagination filter (show boardPageSize < 2 ^ 63 by decide) hoffset
  rw [Route.get, buildPaginationParams, FormUrl.parse_serialize, hquery]
  rfl

theorem Route.get_pagination (table : List Row) (db : DbReply) (filter : BoardFilter)
    (hoffset : offset < 2 ^ 63) {page : TicketsResponse}
    (h : route.get table db (buildPaginationParams filter boardPageSize offset) = some page) :
    page.total = fetchCount table filter.category ∧ ∃ plan, page.items =
      fetchRows plan table boardPageSize offset filter.category filter.sort := by
  obtain ⟨cap, hlarge, hhandler⟩ := route.handler_eq
  rw [route.get_eq table db filter hoffset, hhandler] at h
  have hvalid : ¬ (¬ ((1 : Int) ≤ (boardPageSize : Int) ∧ (boardPageSize : Int) ≤ cap) ∨
      (offset : Int) < 0) := by
    have hone : (1 : Int) ≤ (boardPageSize : Int) := by decide
    omega
  unfold listOpen at h
  dsimp only [Option.getD_some] at h
  rw [if_neg hvalid] at h
  split at h
  · cases h
  · split at h
    · cases h
    · split at h
      · cases h
      · next plan _ _ =>
        cases h
        exact ⟨rfl, plan, rfl⟩

/-! ## Pages -/

theorem insertionSort_eq_of_perm {α : Type} [LinearOrder α] {l l' : List α} (h : l.Perm l') :
    l.insertionSort (· ≤ ·) = l'.insertionSort (· ≤ ·) :=
  ((List.perm_insertionSort _ l).trans (h.trans (List.perm_insertionSort _ l').symm)).eq_of_pairwise'
    (List.pairwise_insertionSort _ l) (List.pairwise_insertionSort _ l')

def places (sort : SortOrder) (rows : List Row) : List (Int ×ₗ Int) :=
  (rows.map (place sort)).insertionSort (· ≤ ·)

theorem ranked_places (sort : SortOrder) (rows : List Row) :
    (ranked plan sort rows).map (place sort) = places sort rows := by
  rw [ranked, List.map_insertionSort _ (· ≤ ·) _ _ fun a _ b _ => Iff.rfl]
  exact insertionSort_eq_of_perm ((plan.perm rows).map _)

theorem ranked_perm (sort : SortOrder) (rows : List Row) : (ranked plan sort rows).Perm rows :=
  (List.perm_insertionSort _ _).trans (plan.perm rows)

theorem fetchRows_places (table : List Row) (limit offset : Nat) (category : Option Text)
    (sort : SortOrder) :
    (fetchRows plan table limit offset category sort).map (place sort) =
      ((places sort (visible table category)).drop offset).take limit := by
  rw [fetchRows, List.map_take, List.map_drop, ranked_places]

theorem length_places (sort : SortOrder) (rows : List Row) : (places sort rows).length = rows.length := by
  rw [places, List.length_insertionSort, List.length_map]

structure ShownInv (table : List Row) (filter : BoardFilter) (s : Button) : Prop where
  mem : ∀ r ∈ s.tickets, r ∈ visible table filter.category
  inOrder : s.tickets.map (place filter.sort) =
    (places filter.sort (visible table filter.category)).take s.tickets.length
  whole : boardPageSize ∣ s.tickets.length ∨
    s.tickets.length = (visible table filter.category).length
  pending : ∀ query, s.pending = some query →
    query = buildPaginationParams filter boardPageSize s.tickets.length

theorem ShownInv.length_le (h : ShownInv table filter s) :
    s.tickets.length ≤ (visible table filter.category).length := by
  have hlength := congrArg List.length h.inOrder
  rw [List.length_map, List.length_take, length_places] at hlength
  omega

theorem ShownInv.append (h : ShownInv table filter s) (plan : Plan) :
    ShownInv table filter ⟨s.tickets ++ fetchRows plan table boardPageSize s.tickets.length
      filter.category filter.sort, none, none⟩ := by
  have hplaces := fetchRows_places plan table boardPageSize s.tickets.length filter.category
    filter.sort
  have hfetched : (fetchRows plan table boardPageSize s.tickets.length filter.category
      filter.sort).length =
        min boardPageSize ((visible table filter.category).length - s.tickets.length) := by
    have hlength := congrArg List.length hplaces
    rwa [List.length_map, List.length_take, List.length_drop, length_places] at hlength
  refine ⟨?_, ?_, ?_, fun query hquery => by cases hquery⟩
  · intro r hr
    rcases List.mem_append.1 hr with hr | hr
    · exact h.mem r hr
    · exact (ranked_perm plan _ _).mem_iff.1 (List.mem_of_mem_drop (List.mem_of_mem_take hr))
  · dsimp only
    rw [List.map_append, h.inOrder, hplaces, List.length_append, hfetched, ← List.take_add]
    have hle := h.length_le
    rw [List.take_eq_take_iff, length_places]
    omega
  · dsimp only
    rw [List.length_append, hfetched]
    have hle := h.length_le
    rcases h.whole with hdvd | hall
    · by_cases hpage : boardPageSize ≤ (visible table filter.category).length - s.tickets.length
      · rw [min_eq_left hpage]
        exact .inl (Nat.dvd_add hdvd (Nat.dvd_refl _))
      · right
        omega
    · right
      omega

theorem ShownInv.step {route : Route} {total : Nat} (h : ShownInv table filter s)
    (hsize : table.length < 2 ^ 53) (a : Input) :
    ShownInv table filter (step route table filter total s a) := by
  have hfail : ∀ error, ShownInv table filter (s.fail error) := fun error =>
    ⟨h.mem, h.inOrder, h.whole, fun query hquery => by cases hquery⟩
  have hvisible : (visible table filter.category).length ≤ table.length := List.length_filter_le ..
  cases a with
  | click =>
    unfold Board.step
    dsimp only
    split
    · refine ⟨h.mem, h.inOrder, h.whole, ?_⟩
      rintro query ⟨⟩
      rfl
    · exact h
  | answer r =>
    unfold Board.step
    dsimp only
    split
    · exact h
    · next query hquery =>
      split
      · exact hfail _
      · exact hfail _
      · exact hfail _
      · next db requestId =>
        split
        · exact hfail _
        · next page hpage =>
          rw [h.pending query hquery] at hpage
          have hoffset : s.tickets.length < 2 ^ 63 := by
            have := h.length_le
            omega
          obtain ⟨-, plan, hitems⟩ := route.get_pagination table db filter hoffset hpage
          rw [hitems]
          exact h.append plan

/-- What a visitor sees of the rows of their filter. -/
structure Paged (table : List Row) (filter : BoardFilter) (total : Nat) (s : Button) : Prop where
  count : total = (visible table filter.category).length
  mem : ∀ r ∈ s.tickets, r ∈ visible table filter.category
  inOrder : s.tickets.map (place filter.sort) =
    (places filter.sort (visible table filter.category)).take s.tickets.length
  more : s.tickets.length < total → boardPageSize ∣ s.tickets.length
  done : ¬ s.tickets.length < total → s.tickets.length = (visible table filter.category).length
  exact : ((visible table filter.category).map (place filter.sort)).Nodup → ∀ plan,
    s.tickets = (ranked plan filter.sort (visible table filter.category)).take s.tickets.length

theorem eq_of_places {sort : SortOrder} {rows : List Row} (hnodup : (rows.map (place sort)).Nodup) :
    ∀ {l l' : List Row}, (∀ r ∈ l, r ∈ rows) → (∀ r ∈ l', r ∈ rows) →
      l.map (place sort) = l'.map (place sort) → l = l' := by
  intro l
  induction l with
  | nil =>
    intro l' _ _ hmap
    exact (List.map_eq_nil_iff.1 hmap.symm).symm
  | cons r l ih =>
    intro l' hl hl' hmap
    cases l' with
    | nil => exact absurd hmap (by simp)
    | cons r' l' =>
      rw [List.map_cons, List.map_cons, List.cons.injEq] at hmap
      have hr := List.inj_on_of_nodup_map hnodup (hl r List.mem_cons_self)
        (hl' r' List.mem_cons_self) hmap.1
      rw [hr, ih (fun x hx => hl x (List.mem_cons_of_mem _ hx))
        (fun x hx => hl' x (List.mem_cons_of_mem _ hx)) hmap.2]

theorem ShownInv.paged (h : ShownInv table filter s) :
    Paged table filter (visible table filter.category).length s where
  count := rfl
  mem := h.mem
  inOrder := h.inOrder
  more := fun hlt => h.whole.resolve_right (Nat.ne_of_lt hlt)
  done := fun hge => le_antisymm h.length_le (not_lt.1 hge)
  exact := by
    intro hnodup plan
    refine eq_of_places hnodup h.mem (fun r hr => ?_) ?_
    · exact (ranked_perm plan _ _).mem_iff.1 (List.mem_of_mem_take hr)
    · rw [h.inOrder, List.map_take, ranked_places]

/-- Whatever is clicked and however the requests end, with rows of the same place in another order
each time: the rows shown are rows of the filter, whose places are the first ones in order; unless
all are shown, they are whole pages, and there is more to load exactly until then. Where no two rows
have the same place, the rows shown are the first ones of the order, each of them once. -/
theorem board_pages (route : Route) (table : List Row) (hsize : table.length < 2 ^ 53)
    (filter : BoardFilter) (db : DbReply) {start : Button} {total : Nat}
    (hstart : firstPage route table db filter = some (start, total)) (inputs : List Input) :
    Run.Always (step route table filter total) (Paged table filter total) start inputs := by
  obtain ⟨page, hpage, hfirst⟩ := Option.map_eq_some_iff.1 hstart
  obtain ⟨rfl, rfl⟩ := Prod.mk.inj hfirst
  obtain ⟨htotal, plan, hitems⟩ :=
    route.get_pagination table db filter (show 0 < 2 ^ 63 by decide) hpage
  have hempty : ShownInv table filter ⟨[], none, none⟩ :=
    ⟨fun r hr => (by cases hr), rfl, .inl (Nat.dvd_zero _), fun query hquery => (by cases hquery)⟩
  have hinv : ShownInv table filter ⟨page.items, none, none⟩ := by
    rw [hitems]
    exact hempty.append plan
  rw [htotal]
  refine Run.always_mono (fun s (h : ShownInv table filter s) => h.paged) inputs _ ?_
  exact Run.always_of_inv (fun s a h => h.step hsize a) inputs _ hinv

/-- Twenty-one tickets of one filter: the first page has all but the last one, which a click loads. -/
theorem board_pages_second :
    let route : Route := ⟨false, fun _ _ => true, fun _ => []⟩
    let row (n : Nat) : Row :=
      ⟨decimal n, "c".toList, "q".toList, "lore".toList, n, "open".toList, 5, 5, false⟩
    let table := (List.range 21).map row
    let filter : BoardFilter := ⟨some "lore".toList, .priority⟩
    let db : DbReply := ⟨true, some ⟨id, fun _ => .refl _⟩, true, true⟩
    let inputs : List Input := [.click, .answer (.served db none)]
    ∃ start, firstPage route table db filter = some (start, 21) ∧
      start.tickets = table.reverse.take 20 ∧
      (Run.exec (step route table filter 21) start inputs).tickets = table.reverse ∧
      Run.Always (step route table filter 21) (Paged table filter 21) start inputs := by
  intro route row table filter db inputs
  have hfirst : firstPage route table db filter = some (⟨table.reverse.take 20, none, none⟩, 21) := by
    rw [firstPage, buildGatewayParams, route.get_eq _ _ _ (by decide)]
    decide +kernel
  refine ⟨_, hfirst, rfl, ?_, board_pages route table (by decide) filter db hfirst inputs⟩
  decide +kernel

end Board
end Archiviste.Tickets
