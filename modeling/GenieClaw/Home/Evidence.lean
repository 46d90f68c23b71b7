import GenieClaw.Home.ResolveGroups
import GenieClaw.Library.Words

/-!
# What speaks for a target

A target that is not named by its id is found by text that its alias, or the alias of its room, has
in common with the query, or by a word of its domain. The text lies within words: a word of the
alias holds a word of the query, or the other way round; it need not be the same word.

* `target_supported` (the query has a word and is no id): every target has something that speaks
  for it.
-/

namespace GenieClaw.Home

open Library Library.Text List Option String

variable {fp : SinglePrecision} {tables : CharTables} {graph : HomeGraph} {query : String}
  {actionHint : Option HomeActionKind} {target : GraphTarget}

/-- A word of an alias and a word of the query hold one another. An alias without words, which the
graph is never built with, touches every query. -/
def Touches (aliases : List String) (query : String) : Prop :=
  ∃ candidate ∈ aliases, splitWhitespace candidate = [] ∨
    ∃ word ∈ splitWhitespace candidate, ∃ asked ∈ splitWhitespace (normalize query),
      overlaps word asked = true

/-- What speaks for a target: a word of its domain, or an alias of its own or of its room. -/
inductive Supported (tables : CharTables) (graph : HomeGraph) (query : String)
    (target : GraphTarget) : Prop
  | domain {domain word : String} (hdomain : target.domain = some domain)
      (hword : word ∈ queryTokens tables (normalize query))
      (h : domainOfWord word = some domain ∨
        domain = "climate" ∧ (word = "warmer" ∨ word = "cooler"))
  | room {area : AreaRef} (mem : area ∈ graph.areas) (harea : target.area = some area.name)
      (h : Touches area.aliases query)
  | device {entity : EntityRef} (mem : entity ∈ graph.entities)
      (hid : target.entityIds = [entity.entityId]) (h : Touches entity.aliases query)
  | scene {scene : SceneRef} (mem : scene ∈ graph.scenes)
      (hid : target.entityIds = [scene.entityId]) (h : Touches scene.aliases query)
  | script {script : ScriptRef} (mem : script ∈ graph.scripts)
      (hid : target.entityIds = [script.entityId]) (h : Touches script.aliases query)

/-! ## Overlaps lie within words -/

theorem mem_splitWhitespace {w s : String} :
    w ∈ splitWhitespace s ↔ w.toList ∈ wordsBy isWhitespace s.toList := by
  unfold splitWhitespace wordsBy
  rw [List.mem_map]
  constructor
  · rintro ⟨cs, hcs, rfl⟩
    rwa [toList_ofList]
  · exact fun h => ⟨w.toList, h, ofList_toList⟩

theorem exists_word_of_containsText {hay needle word : String}
    (h : containsText hay needle = true) (hword : word ∈ splitWhitespace needle) :
    ∃ w ∈ splitWhitespace hay, containsText w word = true := by
  have hwithin : needle.toList <:+: hay.toList := of_decide_eq_true h
  rw [mem_splitWhitespace] at hword
  obtain ⟨hne, hblack⟩ := words_of_splitOnP needle.toList _ hword
  obtain ⟨w, hw, hin⟩ := (infix_iff_exists_word hne hblack).mp
    ((infix_of_mem_wordsBy hword).trans hwithin)
  refine ⟨String.ofList w, ?_, ?_⟩
  · rwa [mem_splitWhitespace, toList_ofList]
  · rw [containsText, toList_ofList]
    exact decide_eq_true hin

theorem splitWhitespace_normalize_ne_nil (hne : normalize query ≠ "") :
    splitWhitespace (normalize query) ≠ [] := by
  intro h
  refine hne ?_
  unfold normalize at h ⊢
  rw [splitWhitespace_joinWith_space] at h
  rw [h]
  rfl

theorem overlaps_touches (hne : normalize query ≠ "") {aliases : List String}
    (h : ∃ candidate ∈ aliases, overlaps candidate (normalize query) = true) :
    Touches aliases query := by
  obtain ⟨candidate, hmem, hover⟩ := h
  refine ⟨candidate, hmem, ?_⟩
  rw [overlaps, Bool.or_eq_true] at hover
  obtain hholds | hheld := hover
  · obtain ⟨asked, hasked⟩ := exists_mem_of_ne_nil _ (splitWhitespace_normalize_ne_nil hne)
    obtain ⟨word, hword, hcontains⟩ := exists_word_of_containsText hholds hasked
    exact .inr ⟨word, hword, asked, hasked, by rw [overlaps, hcontains, Bool.true_or]⟩
  · by_cases hblank : splitWhitespace candidate = []
    · exact .inl hblank
    · obtain ⟨word, hword⟩ := exists_mem_of_ne_nil _ hblank
      obtain ⟨asked, hasked, hcontains⟩ := exists_word_of_containsText hheld hword
      exact .inr ⟨word, hword, asked, hasked, by rw [overlaps, hcontains, Bool.or_true]⟩

/-! ## Where a target comes from -/

theorem supported_of_bestSceneOrScript (hne : normalize query ≠ "") {found : ℚ × GraphTarget}
    (h : bestSceneOrScript fp graph query actionHint = some found) :
    Supported tables graph query found.2 := by
  simp only [bestSceneOrScript] at h
  split at h
  · cases h
  let P (best : Option (ℚ × GraphTarget)) : Prop := ∀ b ∈ best, Supported tables graph query b.2
  have hnone : P none := fun b hb => by cases hb
  refine foldl_keeps (P := P) (foldl_keeps (P := P) hnone ?_) ?_ found h
  · intro best scene hmem hbest b hb
    split at hb
    · rename_i hbetter
      cases hb
      exact .scene hmem rfl (overlaps_touches hne (threshold_lt_aliasScore.mp hbetter.1))
    · exact hbest b hb
  · intro best script hmem hbest b hb
    unfold betterScript at hb
    split at hb
    · rename_i hbetter
      cases hb
      exact .script hmem rfl (overlaps_touches hne (threshold_lt_aliasScore.mp hbetter.2.1))
    · exact hbest b hb

theorem mem_tiedNamedEntityMatches {entity : EntityRef}
    (h : entity ∈ (tiedNamedEntityMatches fp graph (normalize query)
      (splitWhitespace (normalize query))).2) :
    entity ∈ graph.entities ∧
      ∃ candidate ∈ entity.aliases, overlaps candidate (normalize query) = true := by
  unfold tiedNamedEntityMatches at h
  refine foldl_keeps (P := fun kept : ℚ × List EntityRef => ∀ e ∈ kept.2, e ∈ graph.entities ∧
    ∃ candidate ∈ e.aliases, overlaps candidate (normalize query) = true) (by simp) ?_ entity h
  intro kept entity hmem hkept
  split
  · exact hkept
  · dsimp only
    split
    · exact hkept
    · rename_i hlow
      have hnew : entity ∈ graph.entities ∧
          ∃ candidate ∈ entity.aliases, overlaps candidate (normalize query) = true :=
        ⟨hmem, threshold_lt_aliasScore.mp (lt_of_not_ge hlow)⟩
      split
      · exact fun e he => List.mem_singleton.mp he ▸ hnew
      · split
        · intro e he
          obtain he | he := List.mem_append.mp he
          · exact hkept e he
          · exact List.mem_singleton.mp he ▸ hnew
        · exact hkept

theorem supported_of_resolveNamedEntity (hne : normalize query ≠ "")
    (h : resolveNamedEntity fp graph query actionHint = some target) :
    Supported tables graph query target := by
  simp only [resolveNamedEntity] at h
  obtain ⟨found, hfound, rfl⟩ := Option.map_eq_some_iff.mp h
  obtain hscene | ⟨-, hentity⟩ := Option.or_eq_some_iff.mp hfound
  · exact supported_of_bestSceneOrScript hne hscene
  · obtain ⟨⟨score, entity⟩, htop, rfl⟩ := Option.map_eq_some_iff.mp hentity
    unfold topNamedEntityMatch at htop
    split at htop
    · rename_i heq
      cases htop
      have hin : entity ∈ (tiedNamedEntityMatches fp graph (normalize query)
          (splitWhitespace (normalize query))).2 := by
        rw [heq]
        exact mem_singleton_self _
      obtain ⟨hmem, hover⟩ := mem_tiedNamedEntityMatches hin
      exact .device hmem rfl (overlaps_touches hne hover)
    · cases htop

theorem supported_of_inferDomain {domain : String}
    (hinferred : inferDomain tables (normalize query) = some domain)
    (hdomain : target.domain = some domain) : Supported tables graph query target := by
  have hany := find?_some hinferred
  obtain ⟨word, hword, h⟩ := List.any_eq_true.mp hany
  exact .domain hdomain hword (by simpa using h)

/-- Every target that is not found by its id has something that speaks for it, where the query has
a word at all. -/
theorem target_supported (hne : normalize query ≠ "")
    (hexact : resolveExactEntityId graph query actionHint = none)
    (h : resolveTargetInGraph fp tables graph query actionHint = some target) :
    Supported tables graph query target := by
  rw [resolveTargetInGraph, hexact, none_or] at h
  obtain ⟨found, domain, -, hinferred, hroom⟩ | ⟨domain, -, hinferred, hhome⟩ |
    ⟨found, -, harea, hstatus⟩ | hnamed := resolveByWords_cases h
  · unfold resolveInArea at hroom
    split at hroom
    · exact supported_of_inferDomain hinferred (resolveGroupTarget_eq_some hroom).2.1
    · obtain hnamed | ⟨-, hgroup⟩ := Option.or_eq_some_iff.mp hroom
      · exact supported_of_resolveNamedEntity hne hnamed
      · exact supported_of_inferDomain hinferred (resolveGroupTarget_eq_some hgroup).2.1
  · exact supported_of_inferDomain hinferred (resolveDomainTarget_eq_some hhome).2.1
  · rw [resolveStatusInArea, or_eq_some_iff] at hstatus
    obtain hnamed | ⟨-, hgroup⟩ := hstatus
    · split at hnamed
      · cases hnamed
      · exact supported_of_resolveNamedEntity hne hnamed
    · obtain ⟨area, hmem, hname, hover⟩ := overlaps_of_bestAreaMatch harea
      refine .room hmem ?_ (overlaps_touches hne hover)
      rw [(resolveGroupTarget_eq_some hgroup).1, hname]
  · exact supported_of_resolveNamedEntity hne hnamed

def kitchenSpeaker (query : String) (confidence : ℚ) : GraphTarget :=
  ⟨.entity, query, "Speaker", ["media_player.kitchen_speaker"], some "media_player",
    some "Kitchen", confidence, true⟩

theorem target_supported_speakers :
    normalize "speakers" ≠ "" ∧
      Supported .ascii mixedDomainGraph "speakers" (kitchenSpeaker "speakers" 1) := by
  have hne : normalize "speakers" ≠ "" := by decide +kernel
  have hexact : resolveExactEntityId mixedDomainGraph "speakers" (some .turnOn) = none := by
    decide +kernel
  have hfound : resolveTargetInGraph .exact .ascii mixedDomainGraph "speakers" (some .turnOn) =
      some (kitchenSpeaker "speakers" 1) := by decide +kernel
  exact ⟨hne, target_supported hne hexact hfound⟩

/-- A plural finds the speaker, though it is no word of any alias or room and no domain word. -/
theorem speakers_found :
    resolveExactEntityId mixedDomainGraph "speakers" (some .turnOn) = none ∧
      resolveTargetInGraph .exact .ascii mixedDomainGraph "speakers" (some .turnOn) =
        some (kitchenSpeaker "speakers" 1) ∧
      splitWhitespace (normalize "speakers") = ["speakers"] ∧
      (∀ entity ∈ mixedDomainGraph.entities, ∀ candidate ∈ entity.aliases,
        "speakers" ∉ splitWhitespace candidate) ∧
      (∀ area ∈ mixedDomainGraph.areas, ∀ name ∈ area.name :: area.aliases,
        "speakers" ∉ splitWhitespace (normalize name)) ∧
      domainOfWord "speakers" = none ∧ "speakers" ∉ domainSynonyms "media_player" := by
  refine ⟨?_, ?_, ?_, ?_, ?_, ?_, ?_⟩
  · decide +kernel
  · decide +kernel
  · decide +kernel
  · decide +kernel
  · decide +kernel
  · decide
  · decide

end GenieClaw.Home
