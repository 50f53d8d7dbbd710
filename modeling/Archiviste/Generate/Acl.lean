import Archiviste.Generate.Models

/-!
# Archiviste.Generate.Acl

The access filter applied after retrieval. Chunks of an unknown tier, and every chunk for an
unknown user tier, count as blocked.

`visibleTo` says what the filter keeps; `filterChunksByTier_visible` and
`filterChunksByTier_blocked` are all that later proofs use of the loop.
-/

namespace Archiviste.Generate

/-- `ALLOWED_ACCESS_TIERS_BY_USER_TIER`. -/
def allowedAccessTiers (userTier : String) : List String :=
  if userTier = "anonymous" then ["public"]
  else if userTier = "members" then ["public", "members"]
  else if userTier = "author_only" then ["public", "members", "author_only"]
  else []

def knownAccessTiers : List String := ["public", "members", "author_only"]

structure FilterResult where
  visible : List Chunk
  blockedCount : Nat
  deriving DecidableEq

def filterStep (userTier : String) (r : FilterResult) (chunk : Chunk) : FilterResult :=
  if chunk.accessTier ∉ knownAccessTiers then { r with blockedCount := r.blockedCount + 1 }
  else if chunk.accessTier ∈ allowedAccessTiers userTier then
    { r with visible := r.visible ++ [chunk] }
  else { r with blockedCount := r.blockedCount + 1 }

def filterChunksByTier (chunks : List Chunk) (userTier : String) : FilterResult :=
  chunks.foldl (filterStep userTier) ⟨[], 0⟩

/-! ## What the filter keeps -/

def Visible (userTier : String) (chunk : Chunk) : Prop :=
  chunk.accessTier ∈ knownAccessTiers ∧ chunk.accessTier ∈ allowedAccessTiers userTier

instance (userTier : String) (chunk : Chunk) : Decidable (Visible userTier chunk) :=
  inferInstanceAs (Decidable (_ ∧ _))

def visibleTo (userTier : String) (chunks : List Chunk) : List Chunk :=
  chunks.filter fun c => Visible userTier c

/-- Nothing is visible and at least one chunk is blocked. -/
def OnlyBlocked (userTier : String) (chunks : List Chunk) : Prop :=
  visibleTo userTier chunks = [] ∧ chunks ≠ []

instance (userTier : String) (chunks : List Chunk) : Decidable (OnlyBlocked userTier chunks) :=
  inferInstanceAs (Decidable (_ ∧ _))

variable {userTier : String} {c : Chunk}

theorem filterStep_visible (h : Visible userTier c) (r : FilterResult) :
    filterStep userTier r c = { r with visible := r.visible ++ [c] } := by
  simp [filterStep, h.1, h.2]

theorem filterStep_blocked (h : ¬ Visible userTier c) (r : FilterResult) :
    filterStep userTier r c = { r with blockedCount := r.blockedCount + 1 } := by
  unfold filterStep
  by_cases hk : c.accessTier ∈ knownAccessTiers
  · have ha : c.accessTier ∉ allowedAccessTiers userTier := fun ha => h ⟨hk, ha⟩
    simp [hk, ha]
  · simp [hk]

theorem filterChunks_foldl (userTier : String) (chunks : List Chunk) :
    ∀ r : FilterResult, chunks.foldl (filterStep userTier) r =
      ⟨r.visible ++ visibleTo userTier chunks,
        r.blockedCount + (chunks.length - (visibleTo userTier chunks).length)⟩ := by
  induction chunks with
  | nil => intro r; simp [visibleTo]
  | cons c cs ih =>
    intro r
    have hle : (visibleTo userTier cs).length ≤ cs.length := List.length_filter_le _ _
    by_cases hv : Visible userTier c
    · rw [List.foldl_cons, filterStep_visible hv, ih]
      simp [visibleTo, hv]
    · rw [List.foldl_cons, filterStep_blocked hv, ih]
      simp only [visibleTo, hv, decide_false, Bool.false_eq_true, not_false_eq_true,
        List.filter_cons_of_neg, List.length_cons, FilterResult.mk.injEq, true_and]
      simp only [visibleTo] at hle
      omega

theorem filterChunksByTier_visible (chunks : List Chunk) (userTier : String) :
    (filterChunksByTier chunks userTier).visible = visibleTo userTier chunks := by
  simp [filterChunksByTier, filterChunks_foldl]

theorem filterChunksByTier_blocked (chunks : List Chunk) (userTier : String) :
    (filterChunksByTier chunks userTier).blockedCount =
      chunks.length - (visibleTo userTier chunks).length := by
  simp [filterChunksByTier, filterChunks_foldl]

theorem onlyBlocked_iff (chunks : List Chunk) (userTier : String) :
    ((filterChunksByTier chunks userTier).visible = [] ∧
      1 ≤ (filterChunksByTier chunks userTier).blockedCount) ↔ OnlyBlocked userTier chunks := by
  rw [filterChunksByTier_visible, filterChunksByTier_blocked, OnlyBlocked]
  constructor
  · rintro ⟨hv, hb⟩
    refine ⟨hv, ?_⟩
    rintro rfl
    simp at hb
  · rintro ⟨hv, hne⟩
    refine ⟨hv, ?_⟩
    have : 0 < chunks.length := List.length_pos_iff.mpr hne
    rw [hv, List.length_nil]
    omega

end Archiviste.Generate
