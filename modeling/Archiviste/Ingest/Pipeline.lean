import Archiviste.Base.Run
import Archiviste.Ingest.Frontmatter
import Mathlib.Logic.Function.Basic

/-!
# Archiviste.Ingest.Pipeline

`process_file`: read, parse, normalise, hash, and insert, update or skip the document of a path.
NFKC, the hash, the splitter, the embedder and the YAML loader are parameters. How the file system
and each call of the repository end is part of the input of a step; a call that fails has no effect.

The skip looks at the hash of the body only, so an edit of the frontmatter alone is not stored.

* `DbInv` — what every reachable database keeps: ids are one per path, and the chunks of a document
  are those of a body with its hash.
* `processFile_inSync_iff` — for a reachable database, the row is in step with the file after a call
  that did not fail iff it was not a row of the same body with other metadata.
-/

namespace Archiviste.Ingest

/-! ## Normalisation -/

def isStrippedControl (c : Char) : Bool := c.toNat ≤ 0x1f || c.toNat = 0x7f

def normalizeBody (nfkc : Text → Text) (text : Text) : Text :=
  (nfkc text).filter fun c => c = '\n' || c = '\t' || !isStrippedControl c

/-! ## Tables -/

structure DocumentRecord where
  sourcePath : Text
  title : Text
  tags : List Text
  accessTier : Text
  contentHash : Text
  deriving DecidableEq

structure ChunkRecord (ε : Type) where
  ord : Nat
  text : Text
  embedding : ε
  deriving DecidableEq

structure DocumentRow where
  id : Nat
  title : Text
  tags : List Text
  accessTier : Text
  contentHash : Text
  deriving DecidableEq

structure Db (ε : Type) where
  documents : Text → Option DocumentRow
  chunks : Nat → List (ChunkRecord ε)
  nextId : Nat

def Db.empty {ε : Type} : Db ε := ⟨fun _ => none, fun _ => [], 0⟩

def DocumentRecord.row (doc : DocumentRecord) (id : Nat) : DocumentRow :=
  ⟨id, doc.title, doc.tags, doc.accessTier, doc.contentHash⟩

section
variable {ε : Type}

def insertDocumentWithChunks (db : Db ε) (doc : DocumentRecord) (chunks : List (ChunkRecord ε)) :
    Db ε where
  documents := Function.update db.documents doc.sourcePath (some (doc.row db.nextId))
  chunks := Function.update db.chunks db.nextId chunks
  nextId := db.nextId + 1

/-- The update of the row with this id, found at its path. -/
def updateDocumentReplaceChunks (db : Db ε) (id : Nat) (doc : DocumentRecord)
    (chunks : List (ChunkRecord ε)) : Db ε where
  documents := Function.update db.documents doc.sourcePath (some (doc.row id))
  chunks := Function.update db.chunks id chunks
  nextId := db.nextId

/-! ## The pipeline -/

structure Deps (ε : Type) where
  safeLoad : Text → Option Yaml
  nfkc : Text → Text
  hash : Text → Text
  splitText : Text → List Text
  encodeBatch : List Text → List ε

inductive ProcessStatus where
  | inserted
  | updated
  | skipped
  | error
  deriving DecidableEq, Repr

structure ProcessResult where
  relativePath : Text
  status : ProcessStatus
  chunksCount : Nat
  reason : Option String
  deriving DecidableEq, Repr

def errorResult (relative : Text) (reason : String) : ProcessResult :=
  ⟨relative, .error, 0, some reason⟩

def maxFileSizeBytes : Nat := 1024 * 1024

/-- A file as one call finds it; `none` is an `OSError` or a decoding error. -/
structure FileInput where
  relative : Text
  size : Option Nat
  raw : Option Text
  deriving DecidableEq

/-- How a call of the repository ends. `caught` is a `PostgresError` or a `RuntimeError`. -/
inductive RepoCall where
  | ok
  | caught
  | uncaught
  deriving DecidableEq, Repr

structure RepoCalls where
  fetch : RepoCall
  write : RepoCall
  deriving DecidableEq, Repr

/-- `_build_chunk_records`; `none` where `zip(strict=True)` raises. -/
def buildChunkRecords (deps : Deps ε) (normalized : Text) : Option (List (ChunkRecord ε)) :=
  let texts := deps.splitText normalized
  if texts = [] then some []
  else
    let embeddings := deps.encodeBatch texts
    if texts.length = embeddings.length then
      some ((texts.zip embeddings).zipIdx.map fun p => ⟨p.2, p.1.1, p.1.2⟩)
    else none

/-- The document after `_persist`, and the result; `none` is an exception that escapes. -/
def persist (deps : Deps ε) (db : Db ε) (relative : Text) (frontmatter : Frontmatter)
    (normalized contentHash : Text) (calls : RepoCalls) : Db ε × Option ProcessResult :=
  let doc : DocumentRecord :=
    ⟨relative, frontmatter.title, frontmatter.tags, frontmatter.accessTier, contentHash⟩
  if calls.fetch ≠ .ok then (db, none)
  else
    let existing := db.documents relative
    if existing.map (·.contentHash) = some contentHash then
      (db, some ⟨relative, .skipped, 0, some "unchanged"⟩)
    else
      match buildChunkRecords deps normalized with
      | none => (db, none)
      | some chunks =>
        match calls.write with
        | .uncaught => (db, none)
        | .caught => (db, some (errorResult relative "db error"))
        | .ok =>
          match existing with
          | none =>
            (insertDocumentWithChunks db doc chunks, some ⟨relative, .inserted, chunks.length, none⟩)
          | some row =>
            (updateDocumentReplaceChunks db row.id doc chunks,
              some ⟨relative, .updated, chunks.length, none⟩)

def processFile (deps : Deps ε) (db : Db ε) (file : FileInput) (calls : RepoCalls) :
    Db ε × Option ProcessResult :=
  match file.size with
  | none => (db, some (errorResult file.relative "stat failed"))
  | some size =>
    if maxFileSizeBytes < size then
      (db, some (errorResult file.relative "file exceeds 1 MiB cap"))
    else
      match file.raw with
      | none => (db, some (errorResult file.relative "read failed"))
      | some raw =>
        match parseFrontmatter deps.safeLoad raw with
        | .error (.frontmatter message) => (db, some (errorResult file.relative message))
        | .error .uncaught => (db, none)
        | .ok (frontmatter, body) =>
          let normalized := normalizeBody deps.nfkc body
          persist deps db file.relative frontmatter normalized (deps.hash normalized) calls

def ingestStep (deps : Deps ε) (db : Db ε) (a : FileInput × RepoCalls) : Db ε :=
  (processFile deps db a.1 a.2).1

/-! ## What a call does -/

def ChunksOf (deps : Deps ε) (normalized : Text) (chunks : List (ChunkRecord ε)) : Prop :=
  chunks.map (fun c => (c.text, c.ord)) = (deps.splitText normalized).zipIdx

variable {deps : Deps ε} {normalized body : Text} {frontmatter : Frontmatter} {db : Db ε}

theorem buildChunkRecords_chunksOf {chunks : List (ChunkRecord ε)}
    (h : buildChunkRecords deps normalized = some chunks) : ChunksOf deps normalized chunks := by
  unfold buildChunkRecords at h
  unfold ChunksOf
  dsimp only at h
  split at h
  · next hnil => cases h; simp [hnil]
  · split at h
    · next hlen =>
      cases h
      have hfst : ((deps.splitText normalized).zip
          (deps.encodeBatch (deps.splitText normalized))).map Prod.fst =
            deps.splitText normalized := List.map_fst_zip (Nat.le_of_eq hlen)
      conv_rhs => rw [← hfst]
      rw [List.zipIdx_map, List.map_map]
      rfl
    · cases h

/-- The four ways a call of `_persist` leaves the database. -/
inductive Persisted (deps : Deps ε) (db : Db ε) (relative : Text) (frontmatter : Frontmatter)
    (normalized contentHash : Text) : Db ε × Option ProcessResult → Prop where
  | failed {result : Option ProcessResult} (h : ∀ r ∈ result, r.status = .error) :
      Persisted deps db relative frontmatter normalized contentHash (db, result)
  | skipped {row : DocumentRow} {r : ProcessResult} (hrow : db.documents relative = some row)
      (hhash : row.contentHash = contentHash) :
      Persisted deps db relative frontmatter normalized contentHash (db, some r)
  | inserted {chunks : List (ChunkRecord ε)} {r : ProcessResult}
      (hrow : db.documents relative = none) (hchunks : ChunksOf deps normalized chunks) :
      Persisted deps db relative frontmatter normalized contentHash
        (insertDocumentWithChunks db ⟨relative, frontmatter.title, frontmatter.tags,
          frontmatter.accessTier, contentHash⟩ chunks, some r)
  | updated {row : DocumentRow} {chunks : List (ChunkRecord ε)} {r : ProcessResult}
      (hrow : db.documents relative = some row) (hhash : row.contentHash ≠ contentHash)
      (hchunks : ChunksOf deps normalized chunks) :
      Persisted deps db relative frontmatter normalized contentHash
        (updateDocumentReplaceChunks db row.id ⟨relative, frontmatter.title, frontmatter.tags,
          frontmatter.accessTier, contentHash⟩ chunks, some r)

theorem persist_persisted (deps : Deps ε) (db : Db ε) (relative : Text) (frontmatter : Frontmatter)
    (normalized contentHash : Text) (calls : RepoCalls) :
    Persisted deps db relative frontmatter normalized contentHash
      (persist deps db relative frontmatter normalized contentHash calls) := by
  unfold persist
  dsimp only
  split
  · exact .failed (by simp)
  · cases hrow : db.documents relative with
    | none =>
      rw [if_neg (by simp)]
      cases hc : buildChunkRecords deps normalized with
      | none => exact .failed (by simp)
      | some chunks =>
        cases calls.write with
        | ok => exact .inserted hrow (buildChunkRecords_chunksOf hc)
        | caught => exact .failed (by simp [errorResult])
        | uncaught => exact .failed (by simp)
    | some row =>
      by_cases hhash : row.contentHash = contentHash
      · rw [if_pos (by simp [hhash])]
        exact .skipped hrow hhash
      · rw [if_neg (by simp [hhash])]
        cases hc : buildChunkRecords deps normalized with
        | none => exact .failed (by simp)
        | some chunks =>
          cases calls.write with
          | ok => exact .updated hrow hhash (buildChunkRecords_chunksOf hc)
          | caught => exact .failed (by simp [errorResult])
          | uncaught => exact .failed (by simp)

def Parses (deps : Deps ε) (file : FileInput) (frontmatter : Frontmatter) (body : Text) : Prop :=
  (∃ size, file.size = some size ∧ size ≤ maxFileSizeBytes) ∧
    ∃ raw, file.raw = some raw ∧ parseFrontmatter deps.safeLoad raw = .ok (frontmatter, body)

theorem processFile_parses {file : FileInput} (h : Parses deps file frontmatter body) (db : Db ε)
    (calls : RepoCalls) :
    processFile deps db file calls =
      persist deps db file.relative frontmatter (normalizeBody deps.nfkc body)
        (deps.hash (normalizeBody deps.nfkc body)) calls := by
  obtain ⟨⟨size, hsize, hle⟩, raw, hraw, hparse⟩ := h
  simp only [processFile, hsize, hraw, hparse, if_neg (Nat.not_lt.mpr hle)]

theorem processFile_cases (deps : Deps ε) (db : Db ε) (file : FileInput) (calls : RepoCalls) :
    (processFile deps db file calls).1 = db ∨ ∃ frontmatter body, Parses deps file frontmatter body := by
  unfold processFile
  split
  · exact .inl rfl
  · next size hsize =>
    split
    · exact .inl rfl
    · next hle =>
      split
      · exact .inl rfl
      · next raw hraw =>
        split
        · exact .inl rfl
        · exact .inl rfl
        · next f body hparse =>
          exact .inr ⟨f, body, ⟨size, hsize, Nat.not_lt.mp hle⟩, raw, hraw, hparse⟩

/-! ## The invariant -/

structure DbInv (deps : Deps ε) (db : Db ε) : Prop where
  id_lt : ∀ path row, db.documents path = some row → row.id < db.nextId
  id_inj : ∀ p q r s, db.documents p = some r → db.documents q = some s → r.id = s.id → p = q
  chunks : ∀ path row, db.documents path = some row →
    ∃ normalized, row.contentHash = deps.hash normalized ∧
      ChunksOf deps normalized (db.chunks row.id)

theorem dbInv_empty (deps : Deps ε) : DbInv deps Db.empty where
  id_lt := by intro _ _ h; cases h
  id_inj := by intro _ _ _ _ h; cases h
  chunks := by intro _ _ h; cases h

section
variable {deps : Deps ε} {db : Db ε} {doc : DocumentRecord} {chunks : List (ChunkRecord ε)}

theorem DbInv.write {nextId id : Nat} (h : DbInv deps db) (hnext : db.nextId ≤ nextId)
    (hid : id < nextId) (hfree : ∀ q s, db.documents q = some s → s.id = id → q = doc.sourcePath)
    {normalized : Text} (hhash : doc.contentHash = deps.hash normalized)
    (hchunks : ChunksOf deps normalized chunks) :
    DbInv deps ⟨Function.update db.documents doc.sourcePath (some (doc.row id)),
      Function.update db.chunks id chunks, nextId⟩ where
  id_lt := by
    intro path row hrow
    by_cases hp : path = doc.sourcePath
    · subst hp
      obtain rfl : doc.row id = row := by simpa using hrow
      exact hid
    · exact Nat.lt_of_lt_of_le (h.id_lt path row (by simpa [hp] using hrow)) hnext
  id_inj := by
    intro p q r s hr hs heq
    by_cases hp : p = doc.sourcePath <;> by_cases hq : q = doc.sourcePath
    · rw [hp, hq]
    · subst hp
      obtain rfl : doc.row id = r := by simpa using hr
      exact (hfree q s (by simpa [hq] using hs) heq.symm).symm
    · subst hq
      obtain rfl : doc.row id = s := by simpa using hs
      exact hfree p r (by simpa [hp] using hr) heq
    · exact h.id_inj p q r s (by simpa [hp] using hr) (by simpa [hq] using hs) heq
  chunks := by
    intro path row hrow
    by_cases hp : path = doc.sourcePath
    · subst hp
      obtain rfl : doc.row id = row := by simpa using hrow
      exact ⟨normalized, hhash, by simpa [DocumentRecord.row] using hchunks⟩
    · have hrow' : db.documents path = some row := by simpa [hp] using hrow
      have hne : row.id ≠ id := fun heq => hp (hfree path row hrow' heq)
      simpa [hne] using h.chunks path row hrow'

end

theorem Persisted.inv {relative : Text} {r : Db ε × Option ProcessResult} (h : DbInv deps db)
    (hp : Persisted deps db relative frontmatter normalized (deps.hash normalized) r) :
    DbInv deps r.1 := by
  cases hp with
  | failed => exact h
  | skipped => exact h
  | inserted hrow hchunks =>
    refine h.write (Nat.le_succ _) (Nat.lt_succ_self _) ?_ rfl hchunks
    intro q s hs heq
    exact absurd heq (Nat.ne_of_lt (h.id_lt q s hs))
  | updated hrow hhash hchunks =>
    refine h.write (Nat.le_refl _) (h.id_lt _ _ hrow) ?_ rfl hchunks
    intro q s hs heq
    exact h.id_inj q relative s _ hs hrow heq

theorem ingestStep_inv (deps : Deps ε) (db : Db ε) (a : FileInput × RepoCalls) (h : DbInv deps db) :
    DbInv deps (ingestStep deps db a) := by
  rcases processFile_cases deps db a.1 a.2 with hsame | ⟨f, body, hparses⟩
  · rw [ingestStep, hsame]; exact h
  · rw [ingestStep, processFile_parses hparses]
    exact Persisted.inv h (persist_persisted _ _ _ _ _ _ _)

/-! ## Rows in step with their files -/

/-- The row of a path carries the metadata and the body of a file, and so do its chunks. -/
def InSync (deps : Deps ε) (db : Db ε) (path : Text) (frontmatter : Frontmatter) (body : Text) :
    Prop :=
  ∃ row, db.documents path = some row ∧ row.title = frontmatter.title ∧
    row.tags = frontmatter.tags ∧ row.accessTier = frontmatter.accessTier ∧
    row.contentHash = deps.hash (normalizeBody deps.nfkc body) ∧
    ChunksOf deps (normalizeBody deps.nfkc body) (db.chunks row.id)

/-- The path has no row, or a row of another body, or one with the metadata of the file. -/
def Refreshes (deps : Deps ε) (db : Db ε) (path : Text) (frontmatter : Frontmatter) (body : Text) :
    Prop :=
  ∀ row ∈ db.documents path, row.contentHash = deps.hash (normalizeBody deps.nfkc body) →
    row.title = frontmatter.title ∧ row.tags = frontmatter.tags ∧
      row.accessTier = frontmatter.accessTier

instance (deps : Deps ε) (db : Db ε) (path : Text) (frontmatter : Frontmatter) (body : Text) :
    Decidable (Refreshes deps db path frontmatter body) :=
  inferInstanceAs (Decidable (∀ row ∈ db.documents path, _))

theorem Persisted.inSync_iff (hinj : Function.Injective deps.hash) {path : Text} {db' : Db ε}
    {r : ProcessResult} (h : DbInv deps db) (hr : r.status ≠ .error)
    (hp : Persisted deps db path frontmatter (normalizeBody deps.nfkc body)
      (deps.hash (normalizeBody deps.nfkc body)) (db', some r)) :
    InSync deps db' path frontmatter body ↔ Refreshes deps db path frontmatter body := by
  cases hp with
  | failed hfail => exact absurd (hfail r rfl) hr
  | skipped hrow hhash =>
    next row =>
    obtain ⟨normalized, hn, hchunks⟩ := h.chunks path row hrow
    have hbody : normalized = normalizeBody deps.nfkc body := hinj (hn.symm.trans hhash)
    constructor
    · rintro ⟨row', hrow', ht, hg, ha, -, -⟩ row'' hrow'' -
      cases hrow'.symm.trans hrow''
      exact ⟨ht, hg, ha⟩
    · intro hfresh
      obtain ⟨ht, hg, ha⟩ := hfresh row hrow hhash
      exact ⟨row, hrow, ht, hg, ha, hhash, hbody ▸ hchunks⟩
  | inserted hrow hchunks =>
    refine iff_of_true ?_ ?_
    · exact ⟨_, Function.update_self .., rfl, rfl, rfl, rfl,
        by simpa [insertDocumentWithChunks, DocumentRecord.row] using hchunks⟩
    · intro row hrow'
      rw [hrow] at hrow'
      cases hrow'
  | updated hrow hhash hchunks =>
    refine iff_of_true ?_ ?_
    · exact ⟨_, Function.update_self .., rfl, rfl, rfl, rfl,
        by simpa [updateDocumentReplaceChunks, DocumentRecord.row] using hchunks⟩
    · intro row' hrow' hhash'
      cases hrow.symm.trans hrow'
      exact absurd hhash' hhash

/-- After any sequence of calls from the empty database, a call that returns no error leaves the row
of its path in step with the file iff the row it found did not have the same body with other
metadata. -/
theorem processFile_inSync_iff (deps : Deps ε) (hinj : Function.Injective deps.hash)
    (steps : List (FileInput × RepoCalls)) (file : FileInput) (calls : RepoCalls)
    (frontmatter : Frontmatter) (body : Text) (hparses : Parses deps file frontmatter body)
    (r : ProcessResult) (hr : r.status ≠ .error)
    (hresult : (processFile deps (Run.exec (ingestStep deps) Db.empty steps) file calls).2 = some r) :
    InSync deps (processFile deps (Run.exec (ingestStep deps) Db.empty steps) file calls).1
        file.relative frontmatter body ↔
      Refreshes deps (Run.exec (ingestStep deps) Db.empty steps) file.relative frontmatter body := by
  have hinv : DbInv deps (Run.exec (ingestStep deps) Db.empty steps) :=
    Run.exec_inv (ingestStep_inv deps) steps _ (dbInv_empty deps)
  generalize Run.exec (ingestStep deps) Db.empty steps = db at hinv hresult ⊢
  rw [processFile_parses hparses] at hresult ⊢
  have hp := persist_persisted deps db file.relative frontmatter (normalizeBody deps.nfkc body)
    (deps.hash (normalizeBody deps.nfkc body)) calls
  generalize persist deps db file.relative frontmatter (normalizeBody deps.nfkc body)
    (deps.hash (normalizeBody deps.nfkc body)) calls = out at hp hresult ⊢
  obtain ⟨db', result⟩ := out
  obtain rfl : result = some r := hresult
  exact hp.inSync_iff hinj hinv hr

end

/-! ## A small instance -/

def sampleDeps : Deps Unit where
  safeLoad block := some (.map [("title".toList, .str "Mara".toList),
    ("access_tier".toList, .str block)])
  nfkc := id
  hash := id
  splitText t := [t]
  encodeBatch ts := ts.map fun _ => ()

def sampleFile (tier : String) : FileInput where
  relative := "lore/mara.md".toList
  size := some 10
  raw := some ("---\n".toList ++ tier.toList ++ "\n---\nBody".toList)

def sampleFrontmatter (tier : String) : Frontmatter := ⟨"Mara".toList, [], tier.toList⟩

def sampleEdit : FileInput :=
  { sampleFile "author_only" with raw := some "---\nauthor_only\n---\nNew body".toList }

/-- After a first call with the public file, the call with the edited one updates its row. -/
theorem processFile_inSync_sample :
    let db := Run.exec (ingestStep sampleDeps) Db.empty [(sampleFile "public", ⟨.ok, .ok⟩)]
    (processFile sampleDeps db sampleEdit ⟨.ok, .ok⟩).2 =
        some ⟨"lore/mara.md".toList, .updated, 1, none⟩ ∧
      InSync sampleDeps (processFile sampleDeps db sampleEdit ⟨.ok, .ok⟩).1 "lore/mara.md".toList
        (sampleFrontmatter "author_only") "New body".toList := by
  intro db
  refine ⟨rfl, (processFile_inSync_iff sampleDeps Function.injective_id
    [(sampleFile "public", ⟨.ok, .ok⟩)] sampleEdit ⟨.ok, .ok⟩ (sampleFrontmatter "author_only")
    "New body".toList ⟨⟨10, rfl, by decide⟩, _, rfl, rfl⟩
    ⟨"lore/mara.md".toList, .updated, 1, none⟩ (by decide) rfl).mpr fun row hrow hhash => ?_⟩
  obtain rfl : _ = row := Option.some.inj hrow
  exact absurd hhash (by decide)

/-- A public file made `author_only` without a change of its body is skipped as unchanged, and its
row stays public. -/
theorem processFile_stale :
    Parses sampleDeps (sampleFile "author_only") (sampleFrontmatter "author_only") "Body".toList ∧
      (processFile sampleDeps
          (Run.exec (ingestStep sampleDeps) Db.empty [(sampleFile "public", ⟨.ok, .ok⟩)])
          (sampleFile "author_only") ⟨.ok, .ok⟩).2 =
        some ⟨"lore/mara.md".toList, .skipped, 0, some "unchanged"⟩ ∧
      ¬InSync sampleDeps (processFile sampleDeps
          (Run.exec (ingestStep sampleDeps) Db.empty [(sampleFile "public", ⟨.ok, .ok⟩)])
          (sampleFile "author_only") ⟨.ok, .ok⟩).1
        "lore/mara.md".toList (sampleFrontmatter "author_only") "Body".toList := by
  refine ⟨⟨⟨10, rfl, by decide⟩, _, rfl, rfl⟩, rfl, ?_⟩
  rintro ⟨row, hrow, -, -, htier, -, -⟩
  obtain rfl : _ = row := Option.some.inj hrow
  exact absurd htier (by decide)

end Archiviste.Ingest
