import GenieClaw.Home.Resolve
import GenieClaw.Library.BestOf
import Mathlib.Algebra.Order.Field.Basic
import Mathlib.Tactic.Linarith

/-!
# Which devices a group target is for

A group is one room's devices of one domain or the devices of one domain in the whole home.

* `lt_bestAliasScore`: a threshold between the bounds separates the aliases that overlap the query.
* `group_target_words` (no assumption on the graph): which group a group target is.
-/

namespace GenieClaw.Home

open Library Library.Text Library.BestOf List

variable {fp : SinglePrecision} {tables : CharTables} {graph : HomeGraph} {query : String}
  {actionHint : Option HomeActionKind} {target : GraphTarget}

/-! ## Scores and overlaps -/

def overlaps (candidate queryLower : String) : Bool :=
  containsText candidate queryLower || containsText queryLower candidate

def AreaRef.Overlaps (area : AreaRef) (queryLower : String) : Prop :=
  ∃ candidate ∈ area.aliases, overlaps candidate queryLower = true

@[simp] theorem SinglePrecision.round_zero : fp.round 0 = 0 := by
  have h := fp.round_eighths 0 (by omega)
  simpa using h

@[simp] theorem SinglePrecision.round_one : fp.round 1 = 1 := by
  have h := fp.round_eighths 8 (by omega)
  norm_num at h
  exact h

theorem SinglePrecision.round_three_quarters : fp.round (75 / 100) = 3 / 4 := by
  have h := fp.round_eighths 6 (by omega)
  norm_num at h ⊢
  exact h

theorem SinglePrecision.round_nonneg {x : ℚ} (h : 0 ≤ x) : 0 ≤ fp.round x := by
  have := fp.mono h
  rwa [fp.round_zero] at this

theorem SinglePrecision.round_le_one {x : ℚ} (h : x ≤ 1) : fp.round x ≤ 1 := by
  have := fp.mono h
  rwa [fp.round_one] at this

theorem SinglePrecision.threshold_lt : fp.round (45 / 100) < 3 / 4 := by
  have h := fp.round_eighths 4 (by omega)
  norm_num at h
  have hmono : fp.round (45 / 100) ≤ fp.round (1 / 2) := fp.mono (by norm_num)
  rw [h] at hmono
  linarith

theorem containsText_refl (s : String) : containsText s s = true := by
  simp [containsText]

theorem containsText_of_startsWith {pre s : String} (h : startsWith pre s = true) :
    containsText s pre = true := by
  rw [startsWith, isPrefixOf_iff_prefix] at h
  exact decide_eq_true h.isInfix

theorem matchingWords_le (queryWords candidateWords : List String) :
    matchingWords queryWords candidateWords ≤ queryWords.length := length_filter_le _ _

/-- The share of the matching words, weighted. -/
def wordShare (fp : SinglePrecision) (queryWords : List String) (candidate : String) : ℚ :=
  fp.round (fp.round (fp.round (matchingWords queryWords (splitWhitespace candidate)) /
    fp.round queryWords.length) * fp.round (35 / 100))

variable {queryWords : List String}

theorem wordShare_bounds (fp : SinglePrecision) (hne : queryWords.isEmpty = false)
    (candidate : String) :
    0 ≤ wordShare fp queryWords candidate ∧
      wordShare fp queryWords candidate ≤ fp.round (35 / 100) := by
  have hlen : (1 : ℚ) ≤ queryWords.length := by
    have : 0 < queryWords.length := by
      cases queryWords with
      | nil => simp at hne
      | cons => simp
    exact_mod_cast this
  have hpos : 0 < fp.round queryWords.length := by
    have := fp.mono hlen
    rw [fp.round_one] at this
    linarith
  have hmatch : fp.round (matchingWords queryWords (splitWhitespace candidate)) ≤
      fp.round queryWords.length := fp.mono (by exact_mod_cast matchingWords_le _ _)
  have hnonneg : 0 ≤ fp.round (matchingWords queryWords (splitWhitespace candidate)) :=
    fp.round_nonneg (by positivity)
  have hratio : fp.round (fp.round (matchingWords queryWords (splitWhitespace candidate)) /
      fp.round queryWords.length) ≤ 1 := fp.round_le_one ((div_le_one hpos).mpr hmatch)
  have hratio0 : 0 ≤ fp.round (fp.round (matchingWords queryWords (splitWhitespace candidate)) /
      fp.round queryWords.length) := fp.round_nonneg (div_nonneg hnonneg hpos.le)
  have hweight : 0 ≤ fp.round (35 / 100) := fp.round_nonneg (by norm_num)
  refine ⟨fp.round_nonneg (mul_nonneg hratio0 hweight), ?_⟩
  have := fp.mono (mul_le_of_le_one_left hweight hratio)
  rwa [fp.round_round] at this

theorem fuzzyScore_le_of_not_overlaps (fp : SinglePrecision) (queryWords : List String)
    {queryLower candidate : String} (h : overlaps candidate queryLower = false) :
    fuzzyScore fp queryWords queryLower candidate ≤ fp.round (35 / 100) := by
  have hne : candidate ≠ queryLower := by
    rintro rfl
    simp [overlaps, containsText_refl] at h
  have hstart : startsWith queryLower candidate = false := by
    by_contra hs
    rw [Bool.not_eq_false] at hs
    simp [overlaps, containsText_of_startsWith hs] at h
  have hcontains : (containsText candidate queryLower || containsText queryLower candidate)
      = false := h
  have hweight : 0 ≤ fp.round (35 / 100) := fp.round_nonneg (by norm_num)
  simp only [fuzzyScore, if_neg hne, hcontains, hstart, Bool.false_eq_true, if_false]
  refine min_le_of_left_le ?_
  split
  · exact hweight
  · rename_i hwords
    rw [Bool.not_eq_true] at hwords
    have hshare := (wordShare_bounds fp hwords candidate).2
    rw [zero_add, fp.round_round]
    exact hshare

theorem three_quarters_le_fuzzyScore (fp : SinglePrecision) (queryWords : List String)
    {queryLower candidate : String} (h : overlaps candidate queryLower = true) :
    3 / 4 ≤ fuzzyScore fp queryWords queryLower candidate := by
  have htext : (3 : ℚ) / 4 ≤ if candidate = queryLower then 1
      else if containsText candidate queryLower || containsText queryLower candidate then
        fp.round (75 / 100)
      else 0 := by
    have hcontains : (containsText candidate queryLower || containsText queryLower candidate)
        = true := h
    rw [hcontains, if_pos rfl, fp.round_three_quarters]
    split <;> norm_num
  have hround : ∀ x : ℚ, 3 / 4 ≤ x → 3 / 4 ≤ fp.round x := by
    intro x hx
    have := fp.mono hx
    have h34 : fp.round (3 / 4) = 3 / 4 := by
      have := fp.round_three_quarters
      norm_num at this ⊢
      exact this
    rwa [h34] at this
  have hprefix : 0 ≤ fp.round (15 / 100) := fp.round_nonneg (by norm_num)
  simp only [fuzzyScore]
  refine le_min ?_ (by norm_num)
  generalize (if candidate = queryLower then (1 : ℚ)
      else if containsText candidate queryLower || containsText queryLower candidate then
        fp.round (75 / 100)
      else 0) = text at htext
  have hwords : 3 / 4 ≤ if queryWords.isEmpty = true then text
      else fp.round (text + fp.round (fp.round
        (fp.round (matchingWords queryWords (splitWhitespace candidate)) /
          fp.round queryWords.length) * fp.round (35 / 100))) := by
    split
    · exact htext
    · rename_i hne
      rw [Bool.not_eq_true] at hne
      have hshare := (wordShare_bounds fp hne candidate).1
      exact hround _ (by rw [wordShare] at hshare; linarith)
  split
  · exact hround _ (by linarith)
  · exact hwords

theorem lt_foldl_max {xs : List ℚ} {start x : ℚ} :
    x < xs.foldl max start ↔ x < start ∨ ∃ y ∈ xs, x < y := by
  induction xs generalizing start with
  | nil => simp
  | cons z rest ih =>
    rw [foldl_cons, ih, lt_max_iff]
    simp [or_assoc]

variable {queryLower : String}

/-- Every threshold between the two bounds on the scores separates the aliases that overlap the
query from the others. -/
theorem lt_bestAliasScore {threshold : ℚ} (hlow : fp.round (35 / 100) ≤ threshold)
    (hhigh : threshold < 3 / 4) {aliases : List String} :
    threshold < bestAliasScore fp queryWords queryLower aliases ↔
      ∃ candidate ∈ aliases, overlaps candidate queryLower = true := by
  have hzero : ¬ threshold < 0 := not_lt.mpr ((fp.round_nonneg (by norm_num)).trans hlow)
  rw [bestAliasScore, lt_foldl_max]
  constructor
  · rintro (h | ⟨y, hy, hlt⟩)
    · exact absurd h hzero
    · obtain ⟨candidate, hmem, rfl⟩ := List.mem_map.mp hy
      refine ⟨candidate, hmem, ?_⟩
      by_contra hno
      rw [Bool.not_eq_true] at hno
      have hle := fuzzyScore_le_of_not_overlaps fp queryWords hno
      linarith
  · rintro ⟨candidate, hmem, hover⟩
    refine .inr ⟨_, mem_map_of_mem hmem, ?_⟩
    have := three_quarters_le_fuzzyScore fp queryWords hover
    linarith

theorem threshold_lt_areaScore {area : AreaRef} :
    fp.round (45 / 100) < bestAliasScore fp queryWords queryLower area.aliases ↔
      area.Overlaps queryLower :=
  lt_bestAliasScore (fp.mono (by norm_num)) fp.threshold_lt

theorem threshold_lt_aliasScore {aliases : List String} :
    fp.round (42 / 100) < bestAliasScore fp queryWords queryLower aliases ↔
      ∃ candidate ∈ aliases, overlaps candidate queryLower = true := by
  refine lt_bestAliasScore (fp.mono (by norm_num)) ?_
  have hmono : fp.round (42 / 100) ≤ fp.round (45 / 100) := fp.mono (by norm_num)
  exact lt_of_le_of_lt hmono fp.threshold_lt

/-! ## The room -/

/-- A room as a candidate of the loop over the rooms. -/
def areaCandidate (fp : SinglePrecision) (query : String) (area : AreaRef) : ℚ × String :=
  (bestAliasScore fp (splitWhitespace query) query area.aliases, area.name)

theorem bestAreaMatch_eq (areas : List AreaRef) (query : String) :
    bestAreaMatch fp areas query =
      (bestOf (fp.round (45 / 100)) (areas.map (areaCandidate fp query))).map Prod.swap := by
  rw [bestAreaMatch, bestOf]
  induction areas using List.reverseRecOn with
  | nil => rfl
  | append_singleton areas area ih =>
    rw [foldl_append, ih, map_append, foldl_append]
    generalize (areas.map (areaCandidate fp query)).foldl _ none = best
    simp only [foldl_cons, foldl_nil, map_cons, map_nil, keepBest,
      areaCandidate]
    rw [apply_ite (Option.map Prod.swap)]
    have hbest : (∀ b ∈ best.map Prod.swap,
        b.2 < bestAliasScore fp (splitWhitespace query) query area.aliases) ↔
        ∀ b ∈ best, b.1 < bestAliasScore fp (splitWhitespace query) query area.aliases := by
      cases best <;> simp
    simp only [hbest]
    rfl

theorem bestAreaMatch_eq_none {areas : List AreaRef} :
    bestAreaMatch fp areas queryLower = none ↔ ∀ area ∈ areas, ¬ area.Overlaps queryLower := by
  rw [bestAreaMatch_eq, Option.map_eq_none_iff, bestOf_eq_none]
  simp only [mem_map, forall_exists_index, and_imp, forall_apply_eq_imp_iff₂, areaCandidate]
  exact forall₂_congr fun area _ => by rw [← not_lt, threshold_lt_areaScore]

variable {found : String × ℚ}

theorem overlaps_of_bestAreaMatch {areas : List AreaRef}
    (h : bestAreaMatch fp areas queryLower = some found) :
    ∃ area ∈ areas, area.name = found.1 ∧ area.Overlaps queryLower := by
  rw [bestAreaMatch_eq, Option.map_eq_some_iff] at h
  obtain ⟨c, hc, rfl⟩ := h
  have htop := bestOf_isTop hc
  obtain ⟨area, harea, rfl⟩ := List.mem_map.mp htop.mem
  exact ⟨area, harea, rfl, threshold_lt_areaScore.mp htop.above⟩

/-! ## Groups -/

/-- The words of the text that are of no domain and do not stand for themselves. -/
def placeWords (tables : CharTables) (text : String) : List String :=
  (queryTokens tables text).filter fun word =>
    (domainOfWord word).isNone && !(word == "warmer" || word == "cooler") &&
      !benignQueryTokens.contains word

/-- Whether the word is one for the domain. -/
def IsDomainWord (domain word : String) : Prop :=
  word ∈ (domainSynonyms domain).flatMap splitWhitespace ∨ domainOfWord word = some domain

/-- The devices of one domain in a room whose alias overlaps the query, where every word is one
of the room or of the domain, or nothing at all is named by the words. -/
structure RoomGroup (fp : SinglePrecision) (tables : CharTables) (graph : HomeGraph)
    (query : String) (actionHint : Option HomeActionKind) (target : GraphTarget) (area : AreaRef)
    (domain : String) : Prop where
  mem : area ∈ graph.areas
  overlaps : area.Overlaps (normalize query)
  area_eq : target.area = some area.name
  domain_eq : target.domain = some domain
  wanted : inferDomain tables (normalize query) = some domain ∨
    domain = "light" ∧ actionHint = none
  ids : target.entityIds = (graph.entities.filter fun entity =>
    entity.domain == domain && entity.area == some area.name).map EntityRef.entityId
  words : (∀ word ∈ splitWhitespace (normalize query),
      word ∈ splitWhitespace (normalize area.name) ∨
        inferDomain tables (normalize query) = some domain ∧ IsDomainWord domain word) ∨
    resolveNamedEntity fp graph query actionHint = none

/-- The devices of one domain in the whole home, where no room overlaps the query and every place
word is one of a room with such a device. -/
structure HomeGroup (tables : CharTables) (graph : HomeGraph) (query : String)
    (target : GraphTarget) (domain : String) : Prop where
  no_area : ∀ area ∈ graph.areas, ¬ area.Overlaps (normalize query)
  area_eq : target.area = none
  domain_eq : target.domain = some domain
  wanted : inferDomain tables (normalize query) = some domain
  ids : target.entityIds = (graph.entities.filter fun entity => entity.domain == domain).map
    EntityRef.entityId
  places : (queryTokens tables query).findSome? domainOfWord = some domain →
    ∀ word ∈ placeWords tables query, ∃ entity ∈ graph.entities, entity.domain = domain ∧
      ∃ area, entity.area = some area ∧ word ∈ queryTokens tables area

theorem resolveExactEntityId_kind (h : resolveExactEntityId graph query actionHint = some target) :
    target.kind ≠ .group := by
  obtain ⟨entity, -, h⟩ := Option.bind_eq_some_iff.mp h
  split at h
  · cases h
  split at h
  · cases h
  split at h
  · cases h
    simp
  split at h
  · obtain ⟨script, -, rfl⟩ := Option.map_eq_some_iff.mp h
    simp
  · cases h
    simp

theorem foldl_keeps {α β : Type} {P : β → Prop} {step : β → α → β} {xs : List α} {start : β}
    (hstart : P start) (hstep : ∀ b, ∀ x ∈ xs, P b → P (step b x)) : P (xs.foldl step start) := by
  induction xs generalizing start with
  | nil => exact hstart
  | cons x rest ih =>
    exact ih (hstep start x mem_cons_self hstart)
      fun b y hy => hstep b y (mem_cons_of_mem x hy)

theorem bestSceneOrScript_kind {found : ℚ × GraphTarget}
    (h : bestSceneOrScript fp graph query actionHint = some found) : found.2.kind ≠ .group := by
  simp only [bestSceneOrScript] at h
  split at h
  · cases h
  -- Both loops keep candidates of their own kind only.
  let P (best : Option (ℚ × GraphTarget)) : Prop := ∀ b ∈ best, b.2.kind ≠ .group
  have hnone : P none := fun b hb => by cases hb
  refine foldl_keeps (P := P) (foldl_keeps (P := P) hnone ?_) ?_ found h
  · intro best scene _ hbest b hb
    split at hb
    · cases hb
      simp
    · exact hbest b hb
  · intro best script _ hbest b hb
    unfold betterScript at hb
    split at hb
    · cases hb
      simp
    · exact hbest b hb

theorem resolveNamedEntity_kind (h : resolveNamedEntity fp graph query actionHint = some target) :
    target.kind ≠ .group := by
  simp only [resolveNamedEntity] at h
  obtain ⟨found, hfound, rfl⟩ := Option.map_eq_some_iff.mp h
  obtain hscene | ⟨-, hentity⟩ := Option.or_eq_some_iff.mp hfound
  · exact bestSceneOrScript_kind hscene
  · obtain ⟨c, -, rfl⟩ := Option.map_eq_some_iff.mp hentity
    simp

theorem resolveGroupTarget_eq_some {domain areaName : String} {confidence : ℚ}
    (h : resolveGroupTarget graph query domain areaName confidence = some target) :
    target.area = some areaName ∧ target.domain = some domain ∧
      target.entityIds = (graph.entities.filter fun entity =>
        entity.domain == domain && entity.area == some areaName).map EntityRef.entityId := by
  simp only [resolveGroupTarget] at h
  split at h
  · cases h
  · cases h
    exact ⟨rfl, rfl, rfl⟩

variable {domain : String}

theorem resolveDomainTarget_eq_some
    (h : resolveDomainTarget fp tables graph query domain = some target) :
    target.area = none ∧ target.domain = some domain ∧
      target.entityIds = (graph.entities.filter fun entity => entity.domain == domain).map
        EntityRef.entityId ∧
      wholeHomeResolutionIsTrustworthy tables (graph.entities.map EntityRef.domainArea) query =
        true := by
  simp only [resolveDomainTarget] at h
  split at h
  · cases h
  · split at h
    · cases h
    · rename_i htrust
      rw [Bool.not_eq_false] at htrust
      cases h
      exact ⟨rfl, rfl, rfl, htrust⟩

theorem mem_validPlace {entities : List EntityRef} {domain word : String}
    (h : word ∈ validPlace tables (entities.map EntityRef.domainArea) domain) :
    ∃ entity ∈ entities, entity.domain = domain ∧
      ∃ area, entity.area = some area ∧ word ∈ queryTokens tables area := by
  obtain ⟨area, harea, hword⟩ := List.mem_flatMap.mp h
  obtain ⟨view, hview, hsome⟩ := List.mem_filterMap.mp harea
  obtain ⟨hmem, hdomain⟩ := List.mem_filter.mp hview
  obtain ⟨entity, hentity, rfl⟩ := List.mem_map.mp hmem
  exact ⟨entity, hentity, beq_iff_eq.mp hdomain, area, hsome, hword⟩

theorem places_of_trustworthy {entities : List EntityRef}
    (h : wholeHomeResolutionIsTrustworthy tables (entities.map EntityRef.domainArea) query = true)
    (hfirst : (queryTokens tables query).findSome? domainOfWord = some domain) :
    ∀ word ∈ placeWords tables query, ∃ entity ∈ entities, entity.domain = domain ∧
      ∃ area, entity.area = some area ∧ word ∈ queryTokens tables area := by
  simp only [wholeHomeResolutionIsTrustworthy, hfirst, all_eq_true] at h
  intro word hword
  obtain ⟨hmem, hplace⟩ := List.mem_filter.mp hword
  simp only [Bool.and_eq_true, Bool.not_eq_true', Option.isNone_iff_eq_none] at hplace
  have htoken := h word hmem
  rw [hplace.1.1, hplace.2] at htoken
  simp only [Option.isSome_none, Bool.false_or, contains_eq_mem, decide_eq_true_eq] at htoken
  exact mem_validPlace htoken

theorem words_of_bareArea {queryLower areaName : String}
    (h : queryIsBareArea queryLower areaName = true) :
    ∀ word ∈ splitWhitespace queryLower, word ∈ splitWhitespace (normalize areaName) := by
  simp only [queryIsBareArea, all_eq_true, contains_eq_mem, decide_eq_true_eq] at h
  exact h

theorem words_of_bareAreaDomain {queryLower areaName domain : String}
    (h : queryIsBareAreaDomain queryLower areaName domain = true) :
    ∀ word ∈ splitWhitespace queryLower,
      word ∈ splitWhitespace (normalize areaName) ∨ IsDomainWord domain word := by
  simp only [queryIsBareAreaDomain, all_eq_true, contains_eq_mem, Bool.or_eq_true,
    decide_eq_true_eq, beq_iff_eq, or_assoc] at h
  exact h

theorem roomGroup_of_resolveInArea
    (harea : bestAreaMatch fp graph.areas (normalize query) = some found)
    (hdomain : inferDomain tables (normalize query) = some domain)
    (h : resolveInArea graph query (resolveNamedEntity fp graph query actionHint) found domain =
      some target)
    (hkind : target.kind = .group) :
    ∃ area, RoomGroup fp tables graph query actionHint target area domain := by
  obtain ⟨area, hmem, hname, hover⟩ := overlaps_of_bestAreaMatch harea
  unfold resolveInArea at h
  split at h
  case isTrue hbare =>
    obtain ⟨ha, hd, hids⟩ := resolveGroupTarget_eq_some h
    rw [← hname] at hbare ha hids
    refine ⟨area, hmem, hover, ha, hd, .inl hdomain, hids, .inl ?_⟩
    exact fun word hword => (words_of_bareAreaDomain hbare word hword).imp id fun hw =>
      ⟨hdomain, hw⟩
  case isFalse =>
    obtain hnamed | ⟨hnone, hgroup⟩ := Option.or_eq_some_iff.mp h
    · exact absurd hkind (resolveNamedEntity_kind hnamed)
    · obtain ⟨ha, hd, hids⟩ := resolveGroupTarget_eq_some hgroup
      rw [← hname] at ha hids
      exact ⟨area, hmem, hover, ha, hd, .inl hdomain, hids, .inr hnone⟩

theorem roomGroup_of_resolveStatusInArea
    (harea : bestAreaMatch fp graph.areas (normalize query) = some found)
    (h : resolveStatusInArea fp graph query (resolveNamedEntity fp graph query none) found =
      some target)
    (hkind : target.kind = .group) :
    ∃ area, RoomGroup fp tables graph query none target area "light" := by
  obtain ⟨area, hmem, hname, hover⟩ := overlaps_of_bestAreaMatch harea
  rw [resolveStatusInArea, Option.or_eq_some_iff] at h
  obtain hnamed | ⟨hnone, hgroup⟩ := h
  · split at hnamed
    · cases hnamed
    · exact absurd hkind (resolveNamedEntity_kind hnamed)
  · obtain ⟨ha, hd, hids⟩ := resolveGroupTarget_eq_some hgroup
    rw [← hname] at ha hids
    refine ⟨area, hmem, hover, ha, hd, .inr ⟨rfl, rfl⟩, hids, ?_⟩
    split at hnone
    case isTrue hbare =>
      rw [← hname] at hbare
      exact .inl fun word hword => .inl (words_of_bareArea hbare word hword)
    case isFalse => exact .inr hnone

theorem homeGroup_of_resolveDomainTarget
    (harea : bestAreaMatch fp graph.areas (normalize query) = none)
    (hdomain : inferDomain tables (normalize query) = some domain)
    (h : resolveDomainTarget fp tables graph query domain = some target) :
    HomeGroup tables graph query target domain := by
  obtain ⟨ha, hd, hids, htrust⟩ := resolveDomainTarget_eq_some h
  exact ⟨bestAreaMatch_eq_none.mp harea, ha, hd, hdomain, hids,
    fun hfirst => places_of_trustworthy htrust hfirst⟩

theorem resolveByWords_cases {areaMatch : Option (String × ℚ)} {named : Option GraphTarget}
    (h : resolveByWords fp tables graph query actionHint areaMatch named = some target) :
    (∃ found domain, areaMatch = some found ∧
        inferDomain tables (normalize query) = some domain ∧
        resolveInArea graph query named found domain = some target) ∨
      (∃ domain, areaMatch = none ∧ inferDomain tables (normalize query) = some domain ∧
        resolveDomainTarget fp tables graph query domain = some target) ∨
      (∃ found, actionHint = none ∧ areaMatch = some found ∧
        resolveStatusInArea fp graph query named found = some target) ∨
      named = some target := by
  unfold resolveByWords at h
  generalize inferDomain tables (normalize query) = inferred at h ⊢
  obtain hroom | ⟨-, h⟩ := Option.or_eq_some_iff.mp h
  · split at hroom
    · exact .inl ⟨_, _, rfl, rfl, hroom⟩
    · cases hroom
  obtain hhome | ⟨-, h⟩ := Option.or_eq_some_iff.mp h
  · split at hhome
    · exact .inr (.inl ⟨_, rfl, rfl, hhome⟩)
    · cases hhome
  obtain hstatus | ⟨-, hnamed⟩ := Option.or_eq_some_iff.mp h
  · split at hstatus
    · exact .inr (.inr (.inl ⟨_, rfl, rfl, hstatus⟩))
    · cases hstatus
  · exact .inr (.inr (.inr hnamed))

/-- A group is the devices of a room or of the whole home, as far as the words of the query say. -/
theorem group_target_words (h : resolveTargetInGraph fp tables graph query actionHint = some target)
    (hkind : target.kind = .group) :
    (∃ area domain, RoomGroup fp tables graph query actionHint target area domain) ∨
      ∃ domain, HomeGroup tables graph query target domain := by
  rw [resolveTargetInGraph, Option.or_eq_some_iff] at h
  cases h with
  | inl hexact => exact absurd hkind (resolveExactEntityId_kind hexact)
  | inr h =>
    obtain ⟨found, domain, harea, hdomain, hroom⟩ | ⟨domain, harea, hdomain, hhome⟩ |
      ⟨found, rfl, harea, hstatus⟩ | hnamed := resolveByWords_cases h.2
    · obtain ⟨area, hgroup⟩ := roomGroup_of_resolveInArea harea hdomain hroom hkind
      exact .inl ⟨area, domain, hgroup⟩
    · exact .inr ⟨domain, homeGroup_of_resolveDomainTarget harea hdomain hhome⟩
    · obtain ⟨area, hgroup⟩ := roomGroup_of_resolveStatusInArea harea hstatus hkind
      exact .inl ⟨area, "light", hgroup⟩
    · exact absurd hkind (resolveNamedEntity_kind hnamed)

/-! ## A kitchen -/

/-- Two lights, a coffee maker and a speaker in one room, with the aliases of such a graph. -/
def mixedDomainGraph : HomeGraph where
  areas := [⟨"Kitchen", ["kitchen"]⟩]
  entities := [
    ⟨"light.kitchen_ceiling", "Ceiling Light", "light", some "Kitchen",
      ["ceiling light", "light", "lights", "lamp", "lamps", "kitchen ceiling light",
        "kitchen light", "kitchen lights", "kitchen lamp", "kitchen lamps"]⟩,
    ⟨"light.kitchen_under_cabinet", "Under Cabinet", "light", some "Kitchen",
      ["under cabinet", "light", "lights", "lamp", "lamps", "kitchen under cabinet",
        "kitchen light", "kitchen lights", "kitchen lamp", "kitchen lamps"]⟩,
    ⟨"switch.kitchen_coffee_maker", "Coffee Maker", "switch", some "Kitchen",
      ["coffee maker", "switch", "switches", "plug", "outlet", "kitchen coffee maker",
        "kitchen switch", "kitchen switches", "kitchen plug", "kitchen outlet"]⟩,
    ⟨"media_player.kitchen_speaker", "Speaker", "media_player", some "Kitchen",
      ["speaker", "kitchen speaker"]⟩]
  scenes := []
  scripts := []

/-- The lights of the kitchen, as the group for a query. -/
def kitchenLights (query : String) (confidence : ℚ) : GraphTarget :=
  ⟨.group, query, "Kitchen lights", ["light.kitchen_ceiling", "light.kitchen_under_cabinet"],
    some "light", some "Kitchen", confidence, true⟩

theorem group_target_words_kitchen :
    (∃ area domain, RoomGroup .exact .ascii mixedDomainGraph "kitchen lights" (some .turnOn)
        (kitchenLights "kitchen lights" (37 / 40)) area domain) ∨
      ∃ domain, HomeGroup .ascii mixedDomainGraph "kitchen lights"
        (kitchenLights "kitchen lights" (37 / 40)) domain :=
  group_target_words (by decide +kernel) rfl

/-- A status query whose words name no room and no device besides the kitchen is about the
lights of the kitchen. -/
theorem status_ignores_unknown_word :
    resolveTargetInGraph .exact .ascii mixedDomainGraph "kitchen zzzz nonexistent" none =
        some (kitchenLights "kitchen zzzz nonexistent" (52 / 75)) ∧
      "zzzz" ∈ placeWords .ascii "kitchen zzzz nonexistent" ∧
      (∀ entity ∈ mixedDomainGraph.entities, ∀ candidate ∈ entity.aliases,
        "zzzz" ∉ splitWhitespace candidate) ∧
      ∀ area ∈ mixedDomainGraph.areas, ∀ name ∈ area.name :: area.aliases,
        "zzzz" ∉ splitWhitespace (normalize name) := by
  refine ⟨?_, ?_, ?_, ?_⟩
  · decide +kernel
  · decide +kernel
  · decide +kernel
  · decide

end GenieClaw.Home
