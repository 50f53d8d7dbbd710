import Archiviste.Base.Regex

/-!
# Archiviste.Base.Brackets

The bracket groups of a text: `[`, a character that is neither `]` nor in the class `space`, and all
up to the next `]`. A text is cut into its groups, each with the literal text before it, and a tail.

* `cut`, `groups`       — the first group, and all of them.
* `finditer_bracketRe`  — they are the matches of `\[([^\]\s][^\]]*)\]`.
-/

namespace Archiviste.Brackets

open Regex

def closing : Text → Option (Text × Text)
  | [] => none
  | c :: cs => if c = ']' then some ([], cs) else (closing cs).map fun r => (c :: r.1, r.2)

section

variable (space : Char → Bool)

def groupAt : Text → Option (Text × Text)
  | a :: c :: cs =>
    if a = '[' ∧ c ≠ ']' ∧ space c = false then (closing cs).map fun r => (c :: r.1, r.2) else none
  | _ => none

def cut : Text → Text × Option (Text × Text)
  | [] => ([], none)
  | c :: cs =>
    match groupAt space (c :: cs) with
    | some g => ([], some g)
    | none => (c :: (cut cs).1, (cut cs).2)

def groupsFrom : Nat → Text → List (Text × Text) × Text
  | 0, s => ([], s)
  | n + 1, s =>
    match cut space s with
    | (_, none) => ([], s)
    | (lit, some (inner, rest)) => ((lit, inner) :: (groupsFrom n rest).1, (groupsFrom n rest).2)

def groups (s : Text) : List (Text × Text) × Text := groupsFrom space (s.length + 1) s

/-- `\[([^\]\s][^\]]*)\]`. -/
def bracketRe : Re :=
  .seqs [.char '[', .group (.seq (.cls fun c => c != ']' && !space c) (.star fun c => c != ']')),
    .char ']']

end

/-! The equations of the scan. -/

theorem closing_cons (c : Char) (cs : Text) : closing (c :: cs) =
    if c = ']' then some ([], cs) else (closing cs).map fun r => (c :: r.1, r.2) := rfl

theorem cut_cons (space : Char → Bool) (c : Char) (cs : Text) : cut space (c :: cs) =
    match groupAt space (c :: cs) with
    | some g => ([], some g)
    | none => (c :: (cut space cs).1, (cut space cs).2) := rfl

theorem groupsFrom_succ (space : Char → Bool) (n : Nat) (s : Text) : groupsFrom space (n + 1) s =
    match cut space s with
    | (_, none) => ([], s)
    | (lit, some (inner, rest)) =>
      ((lit, inner) :: (groupsFrom space n rest).1, (groupsFrom space n rest).2) := rfl

def bracket (inner : Text) : Text := '[' :: (inner ++ [']'])

def join (gs : List (Text × Text)) (tail : Text) : Text :=
  gs.flatMap (fun g => g.1 ++ bracket g.2) ++ tail

theorem join_cons (g : Text × Text) (gs : List (Text × Text)) (tail : Text) :
    join (g :: gs) tail = g.1 ++ bracket g.2 ++ join gs tail := by
  simp [join]

/-! ## The parts -/

variable {space : Char → Bool}

variable {u s inner rest lit tail : Text} {g : Text × Text} {n : Nat} {gs : List (Text × Text)}

theorem closing_eq {cs v : Text} (h : closing cs = some (u, v)) : cs = u ++ ']' :: v := by
  induction cs generalizing u with
  | nil => cases h
  | cons c cs ih =>
    rw [closing_cons] at h
    split at h
    · next hc =>
      cases h
      rw [hc, List.nil_append]
    · obtain ⟨r, hr, heq⟩ := Option.map_eq_some_iff.mp h
      cases heq
      rw [List.cons_append, ← ih hr]

theorem closing_self (h : ']' ∉ u) (v : Text) : closing (u ++ ']' :: v) = some (u, v) := by
  induction u with
  | nil => rfl
  | cons c u ih =>
    obtain ⟨hc, hu⟩ := not_or.mp (mt List.mem_cons.mpr h)
    rw [List.cons_append, closing, if_neg (Ne.symm hc), ih hu]
    rfl

theorem not_mem_closing {cs v : Text} (h : closing cs = some (u, v)) : ']' ∉ u := by
  induction cs generalizing u with
  | nil => cases h
  | cons c cs ih =>
    rw [closing_cons] at h
    split at h
    · cases h
      exact List.not_mem_nil
    · next hc =>
      obtain ⟨r, hr, heq⟩ := Option.map_eq_some_iff.mp h
      cases heq
      exact fun hmem => (List.mem_cons.mp hmem).elim (fun heq => hc heq.symm) (ih hr)

theorem groupAt_eq_some :
    groupAt space s = some (inner, rest) ↔
      ∃ c u, c ≠ ']' ∧ space c = false ∧ ']' ∉ u ∧ inner = c :: u ∧
        s = bracket inner ++ rest := by
  constructor
  · intro h
    unfold groupAt at h
    split at h
    · next a c cs =>
      split at h
      · next hopen =>
        obtain ⟨rfl, hc, hspace⟩ := hopen
        obtain ⟨⟨u, v⟩, hr, heq⟩ := Option.map_eq_some_iff.mp h
        cases heq
        refine ⟨c, u, hc, hspace, not_mem_closing hr, rfl, ?_⟩
        rw [closing_eq hr]
        simp [bracket]
      · cases h
    · cases h
  · rintro ⟨c, u, hc, hspace, hu, rfl, rfl⟩
    have hs : bracket (c :: u) ++ rest = '[' :: c :: (u ++ ']' :: rest) := by simp [bracket]
    rw [hs, groupAt, if_pos ⟨rfl, hc, hspace⟩, closing_self hu]
    rfl

theorem groupAt_append (h : groupAt space s = some g) (w : Text) :
    groupAt space (s ++ w) = some (g.1, g.2 ++ w) := by
  obtain ⟨inner, rest⟩ := g
  obtain ⟨c, u, hc, hspace, hu, rfl, rfl⟩ := groupAt_eq_some.mp h
  exact groupAt_eq_some.mpr ⟨c, u, hc, hspace, hu, rfl, by rw [List.append_assoc]⟩

theorem groupAt_eq_none_of_append {w : Text} (h : groupAt space (s ++ w) = none) :
    groupAt space s = none := by
  cases hs : groupAt space s with
  | none => rfl
  | some g =>
    rw [groupAt_append hs w] at h
    cases h

theorem groupAt_of_append {p w : Text} (hclose : ']' ∈ p) (h : groupAt space (p ++ w) = some g) :
    ∃ r, groupAt space p = some (g.1, r) := by
  obtain ⟨inner, rest⟩ := g
  obtain ⟨c, u, hc, hspace, hu, rfl, heq⟩ := groupAt_eq_some.mp h
  have hinner : ']' ∉ '[' :: c :: u := by
    simp only [List.mem_cons, not_or]
    exact ⟨by decide, Ne.symm hc, hu⟩
  rcases List.append_eq_append_iff.mp heq with ⟨a, hp, -⟩ | ⟨r, hp, -⟩
  · -- the text would end before the `]` of the group
    rcases List.eq_nil_or_concat a with rfl | ⟨a, d, rfl⟩
    · refine ⟨[], groupAt_eq_some.mpr ⟨c, u, hc, hspace, hu, rfl, ?_⟩⟩
      rw [hp, List.append_nil, List.append_nil]
    · have hinit : '[' :: c :: u = p ++ a := by
        have hlast : ('[' :: c :: u) ++ [']'] = (p ++ a) ++ [d] := by
          rw [List.concat_eq_append] at hp
          rw [List.append_assoc]
          exact hp
        exact (List.append_inj' hlast rfl).1
      rw [hinit] at hinner
      exact absurd (List.mem_append_left a hclose) hinner
  · exact ⟨r, groupAt_eq_some.mpr ⟨c, u, hc, hspace, hu, rfl, hp⟩⟩

theorem cut_eq (h : cut space s = (lit, some (inner, rest))) :
    s = lit ++ bracket inner ++ rest := by
  induction s generalizing lit with
  | nil => cases h
  | cons c cs ih =>
    rw [cut_cons] at h
    split at h
    · next g hg =>
      cases h
      obtain ⟨_, _, -, -, -, -, hs⟩ := groupAt_eq_some.mp hg
      exact hs
    · obtain ⟨hlit, hcut⟩ := Prod.mk.inj h
      rw [← hlit, List.cons_append, List.cons_append, ← ih (Prod.ext rfl hcut)]

theorem cut_alone (h : cut space s = (lit, some (inner, rest))) (w : Text) :
    cut space (lit ++ bracket inner ++ w) = (lit, some (inner, w)) := by
  induction s generalizing lit with
  | nil => cases h
  | cons c cs ih =>
    have hs := cut_eq h
    rw [cut_cons] at h
    split at h
    · next g hg =>
      cases h
      obtain ⟨d, u, hd, hspace, hu, hinner, -⟩ := groupAt_eq_some.mp hg
      have hgroup : groupAt space (bracket inner ++ w) = some (inner, w) :=
        groupAt_eq_some.mpr ⟨d, u, hd, hspace, hu, hinner, rfl⟩
      rw [List.nil_append]
      unfold bracket at hgroup ⊢
      rw [List.cons_append, cut_cons]
      rw [List.cons_append] at hgroup
      rw [hgroup]
    · next hnone =>
      obtain ⟨rfl, hcut⟩ := Prod.mk.inj h
      have htail := ih (Prod.ext rfl hcut)
      have hhere : groupAt space (c :: (cut space cs).1 ++ bracket inner ++ w) = none := by
        cases hg : groupAt space (c :: (cut space cs).1 ++ bracket inner ++ w) with
        | none => rfl
        | some g =>
          obtain ⟨r, hr⟩ := groupAt_of_append (by simp [bracket]) hg
          rw [hs, groupAt_append hr] at hnone
          cases hnone
      rw [List.cons_append, List.cons_append] at hhere ⊢
      rw [cut, hhere]
      simp only [htail]

theorem cut_before (h : cut space s = (lit, some g)) : (cut space lit).2 = none := by
  induction s generalizing lit with
  | nil => cases h
  | cons c cs ih =>
    obtain ⟨inner, rest⟩ := g
    have hs := cut_eq h
    rw [cut_cons] at h
    split at h
    · cases h
      rfl
    · next hnone =>
      obtain ⟨rfl, hcut⟩ := Prod.mk.inj h
      rw [hs, List.append_assoc] at hnone
      rw [cut, groupAt_eq_none_of_append hnone]
      exact ih (Prod.ext rfl hcut)

theorem join_groupsFrom (n : Nat) (s : Text) :
    join (groupsFrom space n s).1 (groupsFrom space n s).2 = s := by
  induction n generalizing s with
  | zero => rfl
  | succ n ih =>
    rw [groupsFrom_succ]
    split
    · rfl
    · next lit inner rest hcut =>
      rw [join_cons, ih]
      exact (cut_eq hcut).symm

theorem join_groups (s : Text) : join (groups space s).1 (groups space s).2 = s :=
  join_groupsFrom _ s

/-- Each part is cut where its group ends, and the tail has no group. -/
def WellCut (space : Char → Bool) (gs : List (Text × Text)) (tail : Text) : Prop :=
  (∀ g ∈ gs, cut space (g.1 ++ bracket g.2) = (g.1, some (g.2, []))) ∧ (cut space tail).2 = none

theorem wellCut_groupsFrom (h : s.length < n) :
    WellCut space (groupsFrom space n s).1 (groupsFrom space n s).2 := by
  induction n generalizing s with
  | zero => omega
  | succ n ih =>
    rw [groupsFrom_succ]
    split
    · next hcut =>
      exact ⟨fun _ hg => absurd hg List.not_mem_nil, by rw [hcut]⟩
    · next lit inner rest hcut =>
      have hlength := congrArg List.length (cut_eq hcut)
      simp only [bracket, List.length_append, List.length_cons, List.length_nil] at hlength
      obtain ⟨hgroups, htail⟩ := ih (s := rest) (by omega)
      have halone := cut_alone hcut []
      rw [List.append_nil] at halone
      exact ⟨List.forall_mem_cons.mpr ⟨halone, hgroups⟩, htail⟩

theorem wellCut_groups (s : Text) : WellCut space (groups space s).1 (groups space s).2 :=
  wellCut_groupsFrom (Nat.lt_succ_self _)

theorem groupsFrom_join (h : WellCut space gs tail) (hn : gs.length < n) :
    groupsFrom space n (join gs tail) = (gs, tail) := by
  induction gs generalizing n with
  | nil =>
    obtain ⟨n, rfl⟩ := Nat.exists_eq_succ_of_ne_zero (by omega : n ≠ 0)
    have htail : cut space (join [] tail) = ((cut space tail).1, none) := Prod.ext rfl h.2
    rw [groupsFrom_succ, htail]
    rfl
  | cons g gs ih =>
    obtain ⟨n, rfl⟩ := Nat.exists_eq_succ_of_ne_zero (by omega : n ≠ 0)
    obtain ⟨hg, hgs⟩ := List.forall_mem_cons.mp h.1
    rw [join_cons, groupsFrom, cut_alone hg]
    dsimp only
    rw [ih ⟨hgs, h.2⟩ (by simpa using hn)]

theorem length_le_length_join (gs : List (Text × Text)) (tail : Text) :
    gs.length ≤ (join gs tail).length := by
  induction gs with
  | nil => exact Nat.zero_le _
  | cons g gs ih =>
    rw [join_cons]
    simp only [bracket, List.length_append, List.length_cons]
    omega

theorem groups_join (h : WellCut space gs tail) : groups space (join gs tail) = (gs, tail) :=
  groupsFrom_join h (Nat.lt_succ_of_le (length_le_length_join gs tail))

/-! ## The matches -/

def matchesOf : Text → List (Text × Text) → Text → List Match
  | _, [], _ => []
  | b, g :: gs, tail =>
    let start : Pos := ⟨g.1.reverse ++ b, bracket g.2 ++ join gs tail⟩
    let stop : Pos := ⟨(bracket g.2).reverse ++ start.before, join gs tail⟩
    ⟨start, stop, [g.2]⟩ :: matchesOf stop.before gs tail

/-- Of the ends of a run up to `]` only the longest is followed by `]`. -/
theorem flatMap_starWays {β : Type} (k : Pos → List β) (hk : ∀ b c cs, c ≠ ']' → k ⟨b, c :: cs⟩ = [])
    (hend : ∀ b, k ⟨b, []⟩ = []) (b cs : Text) :
    (starWays (fun c => c != ']') b cs).flatMap k =
      match closing cs with
      | none => []
      | some (u, v) => k ⟨u.reverse ++ b, ']' :: v⟩ := by
  induction cs generalizing b with
  | nil => simp [starWays, closing, hend]
  | cons c cs ih =>
    by_cases hc : c = ']'
    · subst hc
      simp [starWays, closing_cons]
    · rw [starWays, if_pos (by simpa using hc), List.flatMap_append, ih, List.flatMap_singleton,
        hk b c cs hc, List.append_nil, closing, if_neg hc]
      cases closing cs with
      | none => rfl
      | some r => simp

theorem ways_inner (b cs : Text) (c : Char) :
    ways (.seqs [.group (.seq (.cls fun c => c != ']' && !space c) (.star fun c => c != ']')),
        .char ']']) ⟨'[' :: b, c :: cs⟩ =
      if c ≠ ']' ∧ space c = false then
        match closing cs with
        | none => []
        | some (u, v) => [(⟨(bracket (c :: u)).reverse ++ b, v⟩, [c :: u])]
      else [] := by
  by_cases hfirst : c ≠ ']' ∧ space c = false
  · have hrun := flatMap_starWays
      (fun w => (ways (.seqs [.char ']']) w).map fun w' =>
        (w'.1, between ⟨'[' :: b, c :: cs⟩ w :: w'.2))
      (fun b c cs hc => by simp [Re.seqs, Re.char, hc]) (fun b => by simp [Re.seqs, Re.char])
      (c :: '[' :: b) cs
    have hways : ways (.seqs [.group (.seq (.cls fun c => c != ']' && !space c)
          (.star fun c => c != ']')), .char ']']) ⟨'[' :: b, c :: cs⟩ =
        (starWays (fun c => c != ']') (c :: '[' :: b) cs).flatMap fun w =>
          (ways (.seqs [.char ']']) w).map fun w' =>
            (w'.1, between ⟨'[' :: b, c :: cs⟩ w :: w'.2) := by
      simp [Re.seqs, hfirst, List.flatMap_map]
    rw [hways, hrun, if_pos hfirst]
    cases closing cs with
    | none => rfl
    | some r =>
      have hgroup : between ⟨'[' :: b, c :: cs⟩ ⟨r.1.reverse ++ c :: '[' :: b, ']' :: r.2⟩ =
          c :: r.1 := between_eq (by simp)
      simp [Re.seqs, Re.char, hgroup, bracket]
  · have hclass : (c != ']' && !space c) = false := by
      simpa [Bool.and_eq_false_iff, or_iff_not_imp_left] using hfirst
    rw [if_neg hfirst]
    simp [Re.seqs, hclass]

theorem matchAt_bracketRe (b s : Text) :
    matchAt (bracketRe space) ⟨b, s⟩ =
      (groupAt space s).map fun g =>
        ⟨⟨b, s⟩, ⟨(bracket g.1).reverse ++ b, g.2⟩, [g.1]⟩ := by
  unfold matchAt
  rcases s with _ | ⟨a, s⟩
  · rfl
  have hways : ways (bracketRe space) ⟨b, a :: s⟩ =
      if a = '[' then
        ways (.seqs [.group (.seq (.cls fun c => c != ']' && !space c) (.star fun c => c != ']')),
          .char ']']) ⟨'[' :: b, s⟩
      else [] := by
    by_cases ha : a = '[' <;> simp [bracketRe, Re.seqs, Re.char, ha]
  rw [hways]
  rcases s with _ | ⟨c, cs⟩
  · simp [Re.seqs, groupAt]
  · rw [groupAt, ways_inner]
    by_cases ha : a = '['
    · by_cases hfirst : c ≠ ']' ∧ space c = false
      · rw [if_pos ha, if_pos hfirst, if_pos ⟨ha, hfirst⟩]
        cases closing cs <;> rfl
      · rw [if_pos ha, if_neg hfirst, if_neg fun h => hfirst h.2]
        rfl
    · rw [if_neg ha, if_neg fun h => ha h.1]
      rfl

theorem searchFrom_bracketRe (b s : Text) :
    searchFrom (bracketRe space) b s =
      match cut space s with
      | (_, none) => none
      | (lit, some (inner, rest)) =>
        some ⟨⟨lit.reverse ++ b, bracket inner ++ rest⟩,
          ⟨(bracket inner).reverse ++ (lit.reverse ++ b), rest⟩, [inner]⟩ := by
  induction s generalizing b with
  | nil => rw [searchFrom, matchAt_bracketRe]; rfl
  | cons c cs ih =>
    rw [searchFrom, matchAt_bracketRe, cut_cons]
    cases hg : groupAt space (c :: cs) with
    | some g =>
      obtain ⟨_, _, -, -, -, -, hs⟩ := groupAt_eq_some.mp (hg.trans rfl)
      simp only [Option.map_some, hs]
      rfl
    | none =>
      simp only [Option.map_none]
      rw [ih]
      rcases cut space cs with ⟨lit, _ | ⟨inner, rest⟩⟩
      · rfl
      · simp

theorem iterFrom_bracketRe (n : Nat) (q : Pos) :
    iterFrom (bracketRe space) n q =
      matchesOf q.before (groupsFrom space n q.after).1 (groupsFrom space n q.after).2 := by
  induction n generalizing q with
  | zero => rfl
  | succ n ih =>
    rw [iterFrom, searchFrom_bracketRe, groupsFrom_succ]
    rcases hcut : cut space q.after with ⟨lit, _ | ⟨inner, rest⟩⟩
    · rfl
    · have hlength : (bracket inner ++ rest).length ≠ rest.length := by
        simp only [bracket, List.length_append, List.length_cons, List.length_nil]
        omega
      dsimp only
      rw [if_neg hlength, ih, matchesOf]
      simp only [join_groupsFrom]

theorem finditer_bracketRe (s : Text) :
    finditer (bracketRe space) s = matchesOf [] (groups space s).1 (groups space s).2 :=
  iterFrom_bracketRe _ _

theorem map_groups_matchesOf (b : Text) (gs : List (Text × Text)) (tail : Text) :
    (matchesOf b gs tail).map (fun m => m.groups.headD []) = gs.map (·.2) := by
  induction gs generalizing b with
  | nil => rfl
  | cons g gs ih => rw [matchesOf, List.map_cons, List.map_cons, ih]; rfl

theorem groups_congr {space' : Char → Bool} (h : ∀ c, ['[', c] <:+: s → space c = space' c) :
    groups space s = groups space' s := by
  have hgroupAt : ∀ t : Text, (∀ c, ['[', c] <:+: t → space c = space' c) →
      groupAt space t = groupAt space' t := by
    intro t ht
    rcases t with _ | ⟨a, _ | ⟨c, cs⟩⟩
    · rfl
    · rfl
    · by_cases ha : a = '['
      · subst ha
        rw [groupAt, groupAt, ht c ⟨[], cs, rfl⟩]
      · rw [groupAt, groupAt, if_neg fun hopen => ha hopen.1, if_neg fun hopen => ha hopen.1]
  have hcut : ∀ t : Text, (∀ c, ['[', c] <:+: t → space c = space' c) →
      cut space t = cut space' t := by
    intro t ht
    induction t with
    | nil => rfl
    | cons c t ih =>
      rw [cut_cons, cut_cons, hgroupAt _ ht,
        ih fun d hd => ht d (hd.trans (List.suffix_cons c t).isInfix)]
  have hfrom : ∀ (n : Nat) (t : Text), (∀ c, ['[', c] <:+: t → space c = space' c) →
      groupsFrom space n t = groupsFrom space' n t := by
    intro n
    induction n with
    | zero => exact fun _ _ => rfl
    | succ n ih =>
      intro t ht
      rw [groupsFrom_succ, groupsFrom_succ, ← hcut t ht]
      rcases hfound : cut space t with ⟨lit, _ | ⟨inner, rest⟩⟩
      · rfl
      · dsimp only
        rw [ih rest fun c hc => ht c (hc.trans ⟨lit ++ bracket inner, [], by
          rw [List.append_nil]; exact (cut_eq hfound).symm⟩)]
  exact hfrom _ s h

end Archiviste.Brackets
