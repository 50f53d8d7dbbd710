import Archiviste.Base.Yaml

/-!
# Archiviste.Ingest.Frontmatter

The YAML frontmatter of a Markdown file, between two `---` lines at its head, and the body that
follows. `yaml.safe_load` is a parameter; it returns `none` on a `YAMLError`.

* `splitFrontmatter` — the pattern `\A---\r?\n(.*?)\r?\n---\r?\n(.*)\Z` under `re.DOTALL`.
* `parseFrontmatter` — the validated frontmatter and the body, or the error.
* `parseFrontmatter_valid` — what is accepted has a title and an allowed tier.
-/

namespace Archiviste.Ingest

structure Frontmatter where
  title : Text
  tags : List Text
  accessTier : Text
  deriving DecidableEq, Repr

/-- `FrontmatterError` with its message, or an exception `process_file` does not catch. -/
inductive ParseError where
  | frontmatter (message : String)
  | uncaught
  deriving DecidableEq, Repr

def allowedAccessTiers : List Text := ["public".toList, "members".toList, "author_only".toList]

def defaultAccessTier : Text := "public".toList

/-! ## Splitting -/

/-- `\r?\n`. -/
def dropNewline : Text → Option Text
  | '\n' :: rest => some rest
  | '\r' :: '\n' :: rest => some rest
  | _ => none

/-- `\r?\n---\r?\n`. -/
def dropClosing (s : Text) : Option Text :=
  ((dropNewline s).bind (Text.dropPrefix? "---".toList)).bind dropNewline

def cutClosing : Text → Option (Text × Text)
  | [] => none
  | c :: cs =>
    match dropClosing (c :: cs) with
    | some body => some ([], body)
    | none => (cutClosing cs).map fun r => (c :: r.1, r.2)

def splitFrontmatter (raw : Text) : Option (Text × Text) :=
  ((Text.dropPrefix? "---".toList raw).bind dropNewline).bind cutClosing

example : splitFrontmatter "---\ntitle: A\n---\nbody\n---\n".toList =
    some ("title: A".toList, "body\n---\n".toList) := by decide

/-! ## Validation -/

def strings (items : List Yaml) : Option (List Text) := items.mapM Yaml.str?

/-- `access_tier not in ALLOWED_ACCESS_TIERS`; a list or a mapping is not hashable. -/
def checkAccessTier : Yaml → Except ParseError Text
  | .str s =>
    if s ∈ allowedAccessTiers then .ok s
    else .error (.frontmatter
      "access_tier must be one of ['author_only', 'members', 'public']")
  | .seq _ | .map _ => .error .uncaught
  | _ => .error (.frontmatter "access_tier must be one of ['author_only', 'members', 'public']")

def buildFrontmatter (data : List (Text × Yaml)) : Except ParseError Frontmatter :=
  match Yaml.get? data "title".toList with
  | some (.str title) =>
    if Text.strip title = [] then
      .error (.frontmatter "title is required and must be a non-empty string")
    else
      match (Yaml.get? data "tags".toList).getD (.seq []) with
      | .seq items =>
        match strings items with
        | none => .error (.frontmatter "tags must be a list of strings")
        | some tags =>
          match checkAccessTier ((Yaml.get? data "access_tier".toList).getD (.str defaultAccessTier))
            with
          | .error e => .error e
          | .ok accessTier => .ok ⟨title, tags, accessTier⟩
      | _ => .error (.frontmatter "tags must be a list of strings")
  | _ => .error (.frontmatter "title is required and must be a non-empty string")

def parseFrontmatter (safeLoad : Text → Option Yaml) (raw : Text) :
    Except ParseError (Frontmatter × Text) :=
  match splitFrontmatter raw with
  | none => .error (.frontmatter "missing frontmatter delimiters")
  | some (yamlBlock, body) =>
    match safeLoad yamlBlock with
    | none => .error (.frontmatter "invalid frontmatter YAML")
    | some (.map data) =>
      match buildFrontmatter data with
      | .error e => .error e
      | .ok frontmatter => .ok (frontmatter, body)
    | some _ => .error (.frontmatter "frontmatter must be a YAML mapping")

theorem checkAccessTier_ok {value : Yaml} {tier : Text} (h : checkAccessTier value = .ok tier) :
    tier ∈ allowedAccessTiers := by
  unfold checkAccessTier at h
  repeat' split at h
  all_goals cases h
  assumption

variable {f : Frontmatter}

theorem buildFrontmatter_valid {data : List (Text × Yaml)} (h : buildFrontmatter data = .ok f) :
    Text.strip f.title ≠ [] ∧ f.accessTier ∈ allowedAccessTiers := by
  unfold buildFrontmatter at h
  repeat' split at h
  all_goals cases h
  exact ⟨by assumption, checkAccessTier_ok (by assumption)⟩

theorem parseFrontmatter_valid {safeLoad : Text → Option Yaml} {raw body : Text}
    (h : parseFrontmatter safeLoad raw = .ok (f, body)) :
    Text.strip f.title ≠ [] ∧ f.accessTier ∈ allowedAccessTiers := by
  unfold parseFrontmatter at h
  repeat' split at h
  all_goals cases h
  exact buildFrontmatter_valid (by assumption)

end Archiviste.Ingest
