import Archiviste.Contradiction.Sources
import Archiviste.Generate.StreamRouter

/-!
# Archiviste.Generate.NonInterference

Two runs of an endpoint whose retrieval results show the caller the same chunks are the same run,
effect by effect, but for one bit: whether nothing was visible while something was blocked.

The number of blocked chunks does enter the prepared mode; `invokeAndFinalize_blockedCount` and
`streamBranch_blockedCount` say that it goes no further.
-/

namespace Archiviste.Generate

open Contradiction

def Services.withRetrieve (svc : Services) (retrieve : Text → Nat → UserTier → Text → HttpReply) :
    Services :=
  { svc with retrieve := retrieve }

variable (svc : Services) (ctx : Ctx) (clock : Clock) (intentResult : IntentResult)

/-! ## Blocked chunks stop at the prepared mode -/

theorem invokeAndFinalize_blockedCount (prepared : PreparedMode) (n : Nat) :
    invokeAndFinalize svc ctx clock { prepared with blockedCount := n } =
      invokeAndFinalize svc ctx clock prepared := rfl

theorem streamBranch_blockedCount (b : StreamBranch) (n : Nat) :
    streamBranch svc ctx clock { b with prepared := { b.prepared with blockedCount := n } } =
      streamBranch svc ctx clock b := rfl

theorem invokeAndFinalize_withRetrieve (retrieve : Text → Nat → UserTier → Text → HttpReply)
    (prepared : PreparedMode) :
    invokeAndFinalize (svc.withRetrieve retrieve) ctx clock prepared =
      invokeAndFinalize svc ctx clock prepared := rfl

theorem streamBranch_withRetrieve (retrieve : Text → Nat → UserTier → Text → HttpReply)
    (b : StreamBranch) :
    streamBranch (svc.withRetrieve retrieve) ctx clock b = streamBranch svc ctx clock b := rfl

/-! ## The mode depends on the visible chunks and the bit -/

variable {cs₁ cs₂ : List Chunk}

theorem lowScore_congr {userTier : String} (hv : visibleTo userTier cs₁ = visibleTo userTier cs₂) :
    lowScore userTier cs₁ = lowScore userTier cs₂ := by
  rw [lowScore, lowScore, hv]

section
variable (hv : visibleTo ctx.parsed.userTier.name cs₁ = visibleTo ctx.parsed.userTier.name cs₂)
  (hb : OnlyBlocked ctx.parsed.userTier.name cs₁ ↔ OnlyBlocked ctx.parsed.userTier.name cs₂)
include hv hb

theorem chooseMode_congr : ∃ n, chooseMode ctx clock intentResult cs₁ =
      { chooseMode ctx clock intentResult cs₂ with blockedCount := n } := by
  refine ⟨(filterChunksByTier cs₁ ctx.parsed.userTier.name).blockedCount, ?_⟩
  have hl := lowScore_congr hv
  rw [chooseMode_eq, chooseMode_eq]
  by_cases ho : OnlyBlocked ctx.parsed.userTier.name cs₂
  · rw [if_pos (hb.mpr ho), if_pos ho]
    rfl
  · rw [if_neg (mt hb.mp ho), if_neg ho, hl, hv]
    cases lowScore ctx.parsed.userTier.name cs₂ <;> rfl

theorem branchOf_congr : ∃ n, branchOf svc ctx clock intentResult cs₁ =
      { branchOf svc ctx clock intentResult cs₂ with
        prepared := { (branchOf svc ctx clock intentResult cs₂).prepared with blockedCount := n } } := by
  have hl := lowScore_congr hv
  by_cases ho : OnlyBlocked ctx.parsed.userTier.name cs₂
  · refine ⟨(filterChunksByTier cs₁ ctx.parsed.userTier.name).blockedCount, ?_⟩
    rw [branchOf, branchOf, if_pos (hb.mpr ho), if_pos ho]
    rfl
  · rw [branchOf, branchOf, if_neg (mt hb.mp ho), if_neg ho, hl, hv]
    cases lowScore ctx.parsed.userTier.name cs₂ with
    | true => exact ⟨0, rfl⟩
    | false => exact ⟨(filterChunksByTier cs₁ ctx.parsed.userTier.name).blockedCount, rfl⟩

/-! ## Two runs -/

variable {r₁ r₂ : Text → Nat → UserTier → Text → HttpReply}

theorem generate_congr
    (h₁ : (svc.withRetrieve r₁).searchFor ctx topK = .ok cs₁)
    (h₂ : (svc.withRetrieve r₂).searchFor ctx topK = .ok cs₂) :
    generate (svc.withRetrieve r₁) ctx clock intentResult =
      generate (svc.withRetrieve r₂) ctx clock intentResult := by
  cases hi : intentResult.intent with
  | offTopic =>
    rw [generate_offTopic hi, generate_offTopic hi, invokeAndFinalize_withRetrieve,
      invokeAndFinalize_withRetrieve]
  | inDomain =>
    obtain ⟨n, hn⟩ := chooseMode_congr ctx clock intentResult hv hb
    rw [generate_retrieved hi h₁, generate_retrieved hi h₂, invokeAndFinalize_withRetrieve,
      invokeAndFinalize_withRetrieve, hn, invokeAndFinalize_blockedCount]

theorem streamGenerate_congr
    (h₁ : (svc.withRetrieve r₁).searchFor ctx topKStream = .ok cs₁)
    (h₂ : (svc.withRetrieve r₂).searchFor ctx topKStream = .ok cs₂) :
    streamGenerate (svc.withRetrieve r₁) ctx clock intentResult =
      streamGenerate (svc.withRetrieve r₂) ctx clock intentResult := by
  cases hi : intentResult.intent with
  | offTopic =>
    rw [streamGenerate_offTopic hi, streamGenerate_offTopic hi, streamBranch_withRetrieve,
      streamBranch_withRetrieve]
    rfl
  | inDomain =>
    obtain ⟨n, hn⟩ := branchOf_congr svc ctx clock intentResult hv hb
    have hbr : ∀ r cs, branchOf (svc.withRetrieve r) ctx clock intentResult cs =
        branchOf svc ctx clock intentResult cs := fun _ _ => rfl
    rw [streamGenerate_retrieved hi h₁, streamGenerate_retrieved hi h₂,
      streamBranch_withRetrieve, streamBranch_withRetrieve, hbr, hbr, hn,
      streamBranch_blockedCount]

end

theorem judgeMessages_congr {E : Type} {be₁ be₂ : Backend E} {claim : Text} {userTier : String}
    {e₁ e₂ : E}
    (he₁ : be₁.encode claim = some e₁) (hs₁ : be₁.search e₁ retrievalTopK = some cs₁)
    (he₂ : be₂.encode claim = some e₂) (hs₂ : be₂.search e₂ retrievalTopK = some cs₂)
    (hv : visibleTo userTier cs₁ = visibleTo userTier cs₂) :
    judgeMessages be₁ [] userTier claim = judgeMessages be₂ [] userTier claim := by
  simp only [judgeMessages, resolveSources_uncited he₁ hs₁, resolveSources_uncited he₂ hs₂, hv]

/-- Two retrieval results with the same visible chunks in the same order, and the same answer to
"nothing visible, something blocked", give the same run of either endpoint, effects and response.
Two search results with the same visible chunks give the same messages to the judges. -/
theorem acl_noninterference (r₁ r₂ : Text → Nat → UserTier → Text → HttpReply)
    (cs₁ cs₂ : List Chunk)
    (h₁ : (svc.withRetrieve r₁).searchFor ctx topK = .ok cs₁)
    (h₂ : (svc.withRetrieve r₂).searchFor ctx topK = .ok cs₂)
    (hv : visibleTo ctx.parsed.userTier.name cs₁ = visibleTo ctx.parsed.userTier.name cs₂)
    (hb : OnlyBlocked ctx.parsed.userTier.name cs₁ ↔ OnlyBlocked ctx.parsed.userTier.name cs₂) :
    generate (svc.withRetrieve r₁) ctx clock intentResult =
        generate (svc.withRetrieve r₂) ctx clock intentResult ∧
      streamGenerate (svc.withRetrieve r₁) ctx clock intentResult =
        streamGenerate (svc.withRetrieve r₂) ctx clock intentResult ∧
      ∀ (E : Type) (be₁ be₂ : Backend E) (claim : Text) (userTier : String) (e₁ e₂ : E)
        (js₁ js₂ : List Chunk), be₁.encode claim = some e₁ →
        be₁.search e₁ retrievalTopK = some js₁ → be₂.encode claim = some e₂ →
        be₂.search e₂ retrievalTopK = some js₂ → visibleTo userTier js₁ = visibleTo userTier js₂ →
        judgeMessages be₁ [] userTier claim = judgeMessages be₂ [] userTier claim :=
  ⟨generate_congr svc ctx clock intentResult hv hb h₁ h₂,
    streamGenerate_congr svc ctx clock intentResult hv hb h₁ h₂,
    fun _ _ _ _ _ _ _ _ _ he₁ hs₁ he₂ hs₂ hj => judgeMessages_congr he₁ hs₁ he₂ hs₂ hj⟩

/-- A public chunk next to a members-only one, and the same chunk after one of an unknown tier. -/
theorem acl_noninterference_sample :
    let open_ : Chunk := ⟨"a.md".toList, 0, "Mara est née.".toList, .fin 1, "public"⟩
    let members : Chunk := ⟨"b.md".toList, 0, "Secret.".toList, .fin 2, "members"⟩
    let svc := sampleServices (answering ["Elle est née [a.md]."]) .transportError
    let r₁ := fun (_ : Text) (_ : Nat) (_ : UserTier) (_ : Text) =>
      chunksReply [chunkJson "a.md" "Mara est née." 1 "public",
        chunkJson "b.md" "Secret." 2 "members"]
    let r₂ := fun (_ : Text) (_ : Nat) (_ : UserTier) (_ : Text) =>
      chunksReply [chunkJson "z.md" "Autre." 3 "sealed",
        chunkJson "a.md" "Mara est née." 1 "public"]
    (svc.withRetrieve r₁).searchFor sampleCtx topK = .ok [open_, members] ∧
      generate (svc.withRetrieve r₁) sampleCtx sampleClock ⟨.inDomain, none, none, none, 7⟩ =
        generate (svc.withRetrieve r₂) sampleCtx sampleClock ⟨.inDomain, none, none, none, 7⟩ := by
  intro open_ members svc r₁ r₂
  refine ⟨rfl, (acl_noninterference svc sampleCtx sampleClock ⟨.inDomain, none, none, none, 7⟩
    r₁ r₂ [open_, members]
    [⟨"z.md".toList, 0, "Autre.".toList, .fin 3, "sealed"⟩, open_] rfl rfl ?_ ?_).1⟩
  · decide
  · decide

end Archiviste.Generate
