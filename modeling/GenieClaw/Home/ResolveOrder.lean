import GenieClaw.Home.ResolveGroups
import Mathlib.Data.List.Nodup

/-!
# Resolution and the order of the graph

The lists of the graph are in the order in which the home reports them. With exact scores, a
named device is never picked by that order; ids, rooms, scenes and scripts are, when they tie.

* `orderFree_iff` (distinct ids, exact scores): the order settles nothing exactly when no candidates
  tie.
-/

namespace GenieClaw.Home

open Library Library.Text Library.BestOf List Option

variable {tables : CharTables} {graph graph' : HomeGraph} {query : String}
  {actionHint : Option HomeActionKind}

/-! ## Orders and targets -/

/-- The same graph with its lists in another order. -/
structure Reordered (graph graph' : HomeGraph) : Prop where
  areas : graph.areas.Perm graph'.areas
  entities : graph.entities.Perm graph'.entities
  scenes : graph.scenes.Perm graph'.scenes
  scripts : graph.scripts.Perm graph'.scripts

structure DistinctIds (graph : HomeGraph) : Prop where
  entities : (graph.entities.map EntityRef.entityId).Nodup
  scenes : (graph.scenes.map SceneRef.entityId).Nodup
  scripts : (graph.scripts.map ScriptRef.entityId).Nodup

structure SameTarget (a b : GraphTarget) : Prop where
  kind : a.kind = b.kind
  displayName : a.displayName = b.displayName
  confidence : a.confidence = b.confidence
  entityIds : ∀ id, id ∈ a.entityIds ↔ id ∈ b.entityIds

theorem SameTarget.refl (a : GraphTarget) : SameTarget a a :=
  ⟨rfl, rfl, rfl, fun _ => Iff.rfl⟩

/-- Both resolve to the same target, or neither does. -/
def SameAnswer (a b : Option GraphTarget) : Prop := Option.Rel SameTarget a b

theorem SameAnswer.refl (a : Option GraphTarget) : SameAnswer a a := by
  cases a with
  | none => exact .none
  | some t => exact .some (SameTarget.refl t)

theorem SameAnswer.or {a a' b b' : Option GraphTarget} (ha : SameAnswer a a')
    (hb : a = none → SameAnswer b b') : SameAnswer (a.or b) (a'.or b') := by
  cases ha with
  | none => exact hb rfl
  | some h => exact .some h

/-! ## The loops -/

theorem find?_perm {α : Type} {p : α → Bool} {xs ys : List α} (hperm : xs.Perm ys)
    (hunique : ∀ x ∈ xs, ∀ y ∈ xs, p x = true → p y = true → x = y) : xs.find? p = ys.find? p := by
  cases hxs : xs.find? p with
  | none =>
    have hys : ys.find? p = none := by
      rw [find?_eq_none] at hxs ⊢
      exact fun y hy => hxs y (hperm.mem_iff.mpr hy)
    rw [hys]
  | some x =>
    have hx := mem_of_find?_eq_some hxs
    have hpx := find?_some hxs
    cases hys : ys.find? p with
    | none => exact absurd hpx (List.find?_eq_none.mp hys x (hperm.mem_iff.mp hx))
    | some y =>
      have hy := hperm.mem_iff.mpr (mem_of_find?_eq_some hys)
      rw [hunique x hx y hy hpx (find?_some hys)]

theorem exists_perm_find? {α : Type} {p : α → Bool} {xs : List α} {x : α} (hx : x ∈ xs)
    (hpx : p x = true) : ∃ ys, xs.Perm ys ∧ ys.find? p = some x := by
  obtain ⟨rest, hperm⟩ := exists_perm_cons hx
  exact ⟨x :: rest, hperm, find?_cons_of_pos hpx⟩

/-- The devices, without the scenes and scripts, with their scores. -/
def namedCandidates (graph : HomeGraph) (queryLower : String) (queryWords : List String) :
    List (ℚ × EntityRef) :=
  (graph.entities.filter fun entity => ¬ (entity.domain = "scene" ∨ entity.domain = "script")).map
    fun entity => (bestAliasScore .exact queryWords queryLower entity.aliases, entity)

theorem tiedNamedEntityMatches_eq (graph : HomeGraph) (queryLower : String)
    (queryWords : List String) :
    tiedNamedEntityMatches .exact graph queryLower queryWords =
      tiedOf (42 / 100) (1 / 1000) (namedCandidates graph queryLower queryWords) := by
  unfold tiedNamedEntityMatches tiedOf namedCandidates
  rw [foldl_map]
  induction graph.entities using List.reverseRecOn with
  | nil => rfl
  | append_singleton entities entity ih =>
    rw [foldl_append, ih, filter_append, foldl_append]
    generalize (entities.filter _).foldl _ _ = kept
    by_cases hdomain : entity.domain = "scene" ∨ entity.domain = "script"
    · rw [filter_cons, if_neg (by simp [hdomain])]
      simp only [List.foldl_cons, foldl_nil, filter_nil, if_pos hdomain]
    · rw [filter_cons, if_pos (by simp [hdomain])]
      simp only [List.foldl_cons, foldl_nil, filter_nil, if_neg hdomain]
      rfl

theorem topNamedEntityMatch_eq (graph : HomeGraph) (queryLower : String)
    (queryWords : List String) :
    topNamedEntityMatch .exact graph queryLower queryWords =
      uniqueTied (42 / 100) (1 / 1000) (namedCandidates graph queryLower queryWords) := by
  rw [topNamedEntityMatch, uniqueTied, tiedNamedEntityMatches_eq]
  obtain ⟨score, _ | ⟨entity, _ | ⟨other, rest⟩⟩⟩ :=
    tiedOf (42 / 100) (1 / 1000) (namedCandidates graph queryLower queryWords) <;> rfl

theorem topNamedEntityMatch_perm (h : Reordered graph graph') (queryLower : String)
    (queryWords : List String) :
    topNamedEntityMatch .exact graph queryLower queryWords =
      topNamedEntityMatch .exact graph' queryLower queryWords := by
  rw [topNamedEntityMatch_eq, topNamedEntityMatch_eq]
  exact uniqueTied_perm (by norm_num) (by norm_num) ((h.entities.filter _).map _)

def sceneCandidate (query : String) (scene : SceneRef) : ℚ × GraphTarget :=
  let score := bestAliasScore .exact (splitWhitespace (normalize query)) (normalize query)
    scene.aliases
  (score, ⟨.scene, query, scene.name, [scene.entityId], some "scene", scene.area, score, true⟩)

def scriptCandidate (query : String) (script : ScriptRef) : ℚ × GraphTarget :=
  let score := bestAliasScore .exact (splitWhitespace (normalize query)) (normalize query)
    script.aliases
  (score, ⟨.script, query, script.name, [script.entityId], some "script", script.area, score, true⟩)

/-- The scenes and then the scripts that may be activated by voice. -/
def activatable (graph : HomeGraph) (query : String) : List (ℚ × GraphTarget) :=
  graph.scenes.map (sceneCandidate query) ++
    (graph.scripts.filter ScriptRef.voiceSafe).map (scriptCandidate query)

theorem bestSceneOrScript_eq (graph : HomeGraph) (query : String) :
    bestSceneOrScript .exact graph query (some .activate) =
      bestOf (42 / 100) (activatable graph query) := by
  have hscenes : ∀ (scenes : List SceneRef) (start : Option (ℚ × GraphTarget)),
      (scenes.map (sceneCandidate query)).foldl (keepBest (42 / 100)) start =
        scenes.foldl (fun best scene => keepBest (42 / 100) best (sceneCandidate query scene))
          start := fun scenes start => foldl_map
  have hscripts : ∀ (scripts : List ScriptRef) (start : Option (ℚ × GraphTarget)),
      ((scripts.filter ScriptRef.voiceSafe).map (scriptCandidate query)).foldl
          (keepBest (42 / 100)) start =
        scripts.foldl (fun best script =>
          if script.voiceSafe = true ∧ 42 / 100 < (scriptCandidate query script).1 ∧
              ∀ b ∈ best, b.1 < (scriptCandidate query script).1 then
            some (scriptCandidate query script)
          else best) start := by
    intro scripts
    induction scripts with
    | nil => exact fun _ => rfl
    | cons script rest ih =>
      intro start
      rw [List.foldl_cons, ← ih, filter_cons]
      by_cases hsafe : script.voiceSafe = true
      · rw [if_pos hsafe, List.map_cons, List.foldl_cons, keepBest]
        simp only [hsafe, true_and]
      · rw [if_neg hsafe, if_neg fun h => hsafe h.1]
  rw [bestOf, activatable, foldl_append, hscenes, hscripts, bestSceneOrScript,
    if_neg (by simp)]
  rfl

/-! ## Ties -/

/-- The id is looked up among the scripts. -/
def ScriptAsked (graph : HomeGraph) (query : String) (actionHint : Option HomeActionKind) : Prop :=
  ∃ entity, exactEntity graph query = some entity ∧ entity.domain = "script" ∧
    activates actionHint = true

/-- No group was found for the words, so that names are tried. -/
def NamesReached (tables : CharTables) (graph : HomeGraph) (query : String)
    (areaMatch : Option (String × ℚ)) : Prop :=
  ∀ domain, inferDomain tables (normalize query) = some domain →
    (∀ area, areaMatch = some area →
      queryIsBareAreaDomain (normalize query) area.1 domain = true →
      resolveGroupTarget graph query domain area.1 area.2 = none) ∧
    (areaMatch = none → resolveDomainTarget .exact tables graph query domain = none)

/-- The scenes and scripts are tried. -/
structure ActivationAsked (tables : CharTables) (graph : HomeGraph) (query : String)
    (actionHint : Option HomeActionKind) : Prop where
  hint : actionHint = some .activate
  noId : resolveExactEntityId graph query actionHint = none
  reached : NamesReached tables graph query
    (bestAreaMatch .exact graph.areas (normalize query))

/-- Every loop that the resolution of the query runs picks the same candidate in both graphs. -/
structure SamePicks (tables : CharTables) (graph graph' : HomeGraph) (query : String)
    (actionHint : Option HomeActionKind) : Prop where
  entity : exactEntity graph query = exactEntity graph' query
  script : ScriptAsked graph query actionHint → exactScript graph query = exactScript graph' query
  area : resolveExactEntityId graph query actionHint = none →
    bestAreaMatch .exact graph.areas (normalize query) =
      bestAreaMatch .exact graph'.areas (normalize query)
  activated : ActivationAsked tables graph query actionHint →
    bestSceneOrScript .exact graph query actionHint =
      bestSceneOrScript .exact graph' query actionHint
  named : topNamedEntityMatch .exact graph (normalize query) (splitWhitespace (normalize query)) =
    topNamedEntityMatch .exact graph' (normalize query) (splitWhitespace (normalize query))

/-- Neither the target nor a pick on the way to it depends on the order. -/
def OrderFree (tables : CharTables) (graph : HomeGraph) (query : String)
    (actionHint : Option HomeActionKind) : Prop :=
  ∀ graph', Reordered graph graph' →
    SameAnswer (resolveTargetInGraph .exact tables graph query actionHint)
      (resolveTargetInGraph .exact tables graph' query actionHint) ∧
    SamePicks tables graph graph' query actionHint

/-- The room's score is above the threshold and the largest one. -/
def TopArea (graph : HomeGraph) (query : String) (area : AreaRef) : Prop :=
  area ∈ graph.areas ∧ IsTop (45 / 100)
    (graph.areas.map (areaCandidate .exact (normalize query)))
    (areaCandidate .exact (normalize query) area)

def TopScene (graph : HomeGraph) (query : String) (scene : SceneRef) : Prop :=
  scene ∈ graph.scenes ∧ IsTop (42 / 100) (activatable graph query) (sceneCandidate query scene)

/-- A script has to beat the scenes. -/
def TopScript (graph : HomeGraph) (query : String) (script : ScriptRef) : Prop :=
  script ∈ graph.scripts ∧ script.voiceSafe = true ∧
    IsTop (42 / 100) (activatable graph query) (scriptCandidate query script) ∧
    ∀ scene ∈ graph.scenes, (sceneCandidate query scene).1 < (scriptCandidate query script).1

/-- No two candidates tie in a loop that the resolution runs. -/
structure NoTies (tables : CharTables) (graph : HomeGraph) (query : String)
    (actionHint : Option HomeActionKind) : Prop where
  ids : ∀ e ∈ graph.entities, ∀ e' ∈ graph.entities,
    eqIgnoreAsciiCase e.entityId (trim query) = true →
    eqIgnoreAsciiCase e'.entityId (trim query) = true → e = e'
  scriptIds : ScriptAsked graph query actionHint → ∀ s ∈ graph.scripts, ∀ s' ∈ graph.scripts,
    eqIgnoreAsciiCase s.entityId (trim query) = true →
    eqIgnoreAsciiCase s'.entityId (trim query) = true → s = s'
  areas : resolveExactEntityId graph query actionHint = none →
    ∀ a b, TopArea graph query a → TopArea graph query b → a.name = b.name
  scenes : ActivationAsked tables graph query actionHint →
    ∀ s s', TopScene graph query s → TopScene graph query s' → s = s'
  scripts : ActivationAsked tables graph query actionHint →
    ∀ s s', TopScript graph query s → TopScript graph query s' → s = s'

/-! ## Without ties the order does not matter -/

section

variable (h : Reordered graph graph')

include h

theorem resolveGroupTarget_same (query domain areaName : String) (confidence : ℚ) :
    SameAnswer (resolveGroupTarget graph query domain areaName confidence)
      (resolveGroupTarget graph' query domain areaName confidence) := by
  have hperm : ((graph.entities.filter fun entity =>
      entity.domain == domain && entity.area == some areaName).map EntityRef.entityId).Perm
      ((graph'.entities.filter fun entity =>
        entity.domain == domain && entity.area == some areaName).map EntityRef.entityId) :=
    (h.entities.filter _).map _
  simp only [resolveGroupTarget]
  rw [hperm.isEmpty_eq, hperm.length_eq]
  split
  · exact .none
  · exact .some ⟨rfl, rfl, rfl, fun id => hperm.mem_iff⟩

theorem trustworthy_same (text : String) :
    wholeHomeResolutionIsTrustworthy tables (graph.entities.map EntityRef.domainArea) text =
      wholeHomeResolutionIsTrustworthy tables (graph'.entities.map EntityRef.domainArea) text := by
  have hmem : ∀ domain word,
      word ∈ validPlace tables (graph.entities.map EntityRef.domainArea) domain ↔
        word ∈ validPlace tables (graph'.entities.map EntityRef.domainArea) domain := by
    intro domain word
    unfold validPlace
    exact ((((h.entities.map _).filter _).filterMap _).flatMap_right _).mem_iff
  unfold wholeHomeResolutionIsTrustworthy
  simp only [contains_eq_mem, hmem]

theorem resolveDomainTarget_same (query domain : String) :
    SameAnswer (resolveDomainTarget .exact tables graph query domain)
      (resolveDomainTarget .exact tables graph' query domain) := by
  have hperm : ((graph.entities.filter fun entity => entity.domain == domain).map
      EntityRef.entityId).Perm ((graph'.entities.filter fun entity =>
        entity.domain == domain).map EntityRef.entityId) := (h.entities.filter _).map _
  simp only [resolveDomainTarget]
  rw [hperm.isEmpty_eq, trustworthy_same h]
  split
  · exact .none
  · split
    · exact .none
    · exact .some ⟨rfl, rfl, rfl, fun id => hperm.mem_iff⟩

variable {named named' : Option GraphTarget}

theorem resolveInArea_same {area : String × ℚ} {domain : String}
    (hnamed : queryIsBareAreaDomain (normalize query) area.1 domain = false →
      SameAnswer named named') :
    SameAnswer (resolveInArea graph query named area domain)
      (resolveInArea graph' query named' area domain) := by
  have hgroup := resolveGroupTarget_same h query domain area.1 area.2
  unfold resolveInArea
  split
  · exact hgroup
  · rename_i hbare
    rw [Bool.not_eq_true] at hbare
    exact (hnamed hbare).or fun _ => hgroup

theorem resolveStatusInArea_same {area : String × ℚ} (hnamed : SameAnswer named named') :
    SameAnswer (resolveStatusInArea .exact graph query named area)
      (resolveStatusInArea .exact graph' query named' area) := by
  unfold resolveStatusInArea
  refine SameAnswer.or ?_ fun _ => resolveGroupTarget_same h query "light" area.1 _
  split
  · exact .none
  · exact hnamed

/-- With the same room, the words lead to the same target; the named entity matters only when
names are reached. -/
theorem resolveByWords_same {areaMatch : Option (String × ℚ)}
    (hnamed : NamesReached tables graph query areaMatch → SameAnswer named named') :
    SameAnswer (resolveByWords .exact tables graph query actionHint areaMatch named)
      (resolveByWords .exact tables graph' query actionHint areaMatch named') := by
  by_cases hreached : NamesReached tables graph query areaMatch
  · have hname := hnamed hreached
    unfold resolveByWords
    generalize inferDomain tables (normalize query) = inferred
    refine SameAnswer.or ?_ fun _ => SameAnswer.or ?_ fun _ => SameAnswer.or ?_ fun _ => hname
    · cases areaMatch <;> cases inferred
      · exact .none
      · exact .none
      · exact .none
      · exact resolveInArea_same h fun _ => hname
    · cases areaMatch <;> cases inferred
      · exact .none
      · exact resolveDomainTarget_same h query _
      · exact .none
      · exact .none
    · cases actionHint <;> cases areaMatch
      · exact .none
      · exact resolveStatusInArea_same h hname
      · exact .none
      · exact .none
  · -- A group was found before any name was tried.
    unfold NamesReached at hreached
    push Not at hreached
    obtain ⟨domain, hdomain, hgroup⟩ := hreached
    unfold resolveByWords
    rw [hdomain]
    cases areaMatch with
    | none =>
      have hsome := (hgroup (by simp)).2
      refine SameAnswer.or .none fun _ => ?_
      exact (resolveDomainTarget_same h query domain).or fun hnone => absurd hnone hsome
    | some area =>
      by_cases hbare : queryIsBareAreaDomain (normalize query) area.1 domain = true ∧
          resolveGroupTarget graph query domain area.1 area.2 ≠ none
      · refine (resolveInArea_same h ?_).or ?_
        · intro hno
          rw [hbare.1] at hno
          cases hno
        · intro hnone
          simp only [resolveInArea, if_pos hbare.1] at hnone
          exact absurd hnone hbare.2
      · refine absurd (hgroup ?_).1 (by simp)
        intro other hother hbare'
        cases hother
        by_contra hne
        exact hbare ⟨hbare', hne⟩

end

theorem bestOf_activatable_same (h : Reordered graph graph')
    (hscenes : ∀ s s', TopScene graph query s → TopScene graph query s' → s = s')
    (hscripts : ∀ s s', TopScript graph query s → TopScript graph query s' → s = s') :
    bestOf (42 / 100) (activatable graph query) = bestOf (42 / 100) (activatable graph' query) := by
  have hperm : (activatable graph query).Perm (activatable graph' query) :=
    (h.scenes.map _).append ((h.scripts.filter _).map _)
  have hscore := bestOf_perm (t := 42 / 100) hperm
  -- A pick of either graph is a scene or a script at the top of the first one.
  have hpick : ∀ g, Reordered graph g → ∀ c, bestOf (42 / 100) (activatable g query) = some c →
      (∃ s, TopScene graph query s ∧ c = sceneCandidate query s) ∨
        ∃ s, TopScript graph query s ∧ c = scriptCandidate query s := by
    intro g hg c hc
    have hperm' : (activatable g query).Perm (activatable graph query) :=
      ((hg.scenes.map _).append ((hg.scripts.filter _).map _)).symm
    have htop := (bestOf_isTop hc).perm hperm'
    obtain hscene | ⟨hscript, hbeats⟩ := bestOf_append hc
    · obtain ⟨s, hs, rfl⟩ := List.mem_map.mp hscene
      exact .inl ⟨s, ⟨hg.scenes.mem_iff.mpr hs, htop⟩, rfl⟩
    · obtain ⟨s, hs, rfl⟩ := List.mem_map.mp hscript
      obtain ⟨hmem, hsafe⟩ := List.mem_filter.mp hs
      refine .inr ⟨s, ⟨hg.scripts.mem_iff.mpr hmem, hsafe, htop, ?_⟩, rfl⟩
      exact fun scene hscene =>
        hbeats _ (List.mem_map_of_mem (hg.scenes.mem_iff.mp hscene))
  cases hc : bestOf (42 / 100) (activatable graph query) with
  | none =>
    rw [hc, map_none] at hscore
    exact (Option.map_eq_none_iff.mp hscore.symm).symm
  | some c =>
    rw [hc, map_some] at hscore
    obtain ⟨d, hd, hcd⟩ := Option.map_eq_some_iff.mp hscore.symm
    rw [hd]
    obtain ⟨s, hs, rfl⟩ | ⟨s, hs, rfl⟩ := hpick graph ⟨.refl _, .refl _, .refl _, .refl _⟩ c hc <;>
    obtain ⟨s', hs', rfl⟩ | ⟨s', hs', rfl⟩ := hpick graph' h d hd
    · rw [hscenes s s' hs hs']
    · exact absurd hcd.symm (hs'.2.2.2 s hs.1).ne
    · exact absurd hcd (hs.2.2.2 s' hs'.1).ne
    · rw [hscripts s s' hs hs']

theorem bestAreaMatch_same (h : Reordered graph graph')
    (hareas : ∀ a b, TopArea graph query a → TopArea graph query b → a.name = b.name) :
    bestAreaMatch .exact graph.areas (normalize query) =
      bestAreaMatch .exact graph'.areas (normalize query) := by
  have hscore := bestOf_perm (t := 45 / 100)
    (h.areas.map (areaCandidate .exact (normalize query)))
  have hpick : ∀ g, Reordered graph g → ∀ c,
      bestOf (45 / 100) (g.areas.map (areaCandidate .exact (normalize query))) = some c →
      ∃ a, TopArea graph query a ∧ c = areaCandidate .exact (normalize query) a := by
    intro g hg c hc
    have htop := (bestOf_isTop hc).perm (hg.areas.map _).symm
    obtain ⟨a, ha, rfl⟩ := List.mem_map.mp htop.mem
    exact ⟨a, ⟨ha, htop⟩, rfl⟩
  rw [bestAreaMatch_eq, bestAreaMatch_eq]
  refine congrArg (Option.map Prod.swap) ?_
  change bestOf (45 / 100) _ = bestOf (45 / 100) _
  cases hc : bestOf (45 / 100) (graph.areas.map (areaCandidate .exact (normalize query))) with
  | none =>
    rw [hc, map_none] at hscore
    exact (Option.map_eq_none_iff.mp hscore.symm).symm
  | some c =>
    rw [hc, map_some] at hscore
    obtain ⟨d, hd, hcd⟩ := Option.map_eq_some_iff.mp hscore.symm
    rw [hd]
    obtain ⟨a, ha, rfl⟩ := hpick graph ⟨.refl _, .refl _, .refl _, .refl _⟩ c hc
    obtain ⟨b, hb, rfl⟩ := hpick graph' h d hd
    exact congrArg some (Prod.ext hcd.symm (hareas a b ha hb))

theorem samePicks_of_noTies (h : Reordered graph graph')
    (hties : NoTies tables graph query actionHint) :
    SamePicks tables graph graph' query actionHint where
  entity := find?_perm h.entities hties.ids
  script hasked := find?_perm h.scripts (hties.scriptIds hasked)
  area hnone := bestAreaMatch_same h (hties.areas hnone)
  activated hasked := by
    rw [hasked.hint, bestSceneOrScript_eq, bestSceneOrScript_eq]
    exact bestOf_activatable_same h (hties.scenes hasked) (hties.scripts hasked)
  named := topNamedEntityMatch_perm h _ _

theorem resolveExactEntityId_same (hpicks : SamePicks tables graph graph' query actionHint) :
    resolveExactEntityId graph query actionHint = resolveExactEntityId graph' query actionHint := by
  unfold resolveExactEntityId
  rw [← hpicks.entity]
  cases hentity : exactEntity graph query with
  | none => rfl
  | some entity =>
    simp only [bind_some]
    by_cases hscript : entity.domain = "script" ∧ activates actionHint = true
    · rw [hpicks.script ⟨entity, hentity, hscript⟩]
    · by_cases hdomain : entity.domain = "script"
      · have hno : activates actionHint = false := by
          rw [← Bool.not_eq_true]
          exact fun hyes => hscript ⟨hdomain, hyes⟩
        simp [hdomain, hno]
      · simp only [if_neg hdomain]

theorem sameAnswer_of_samePicks (h : Reordered graph graph')
    (hpicks : SamePicks tables graph graph' query actionHint) :
    SameAnswer (resolveTargetInGraph .exact tables graph query actionHint)
      (resolveTargetInGraph .exact tables graph' query actionHint) := by
  unfold resolveTargetInGraph
  rw [← resolveExactEntityId_same hpicks]
  refine (SameAnswer.refl _).or fun hnone => ?_
  rw [← hpicks.area hnone]
  refine resolveByWords_same h fun hreached => ?_
  have hscene : bestSceneOrScript .exact graph query actionHint =
      bestSceneOrScript .exact graph' query actionHint := by
    by_cases hhint : actionHint = some .activate
    · exact hpicks.activated ⟨hhint, hnone, hreached⟩
    · simp only [bestSceneOrScript, if_pos hhint]
  have hnamed : resolveNamedEntity .exact graph query actionHint =
      resolveNamedEntity .exact graph' query actionHint := by
    simp only [resolveNamedEntity, hscene, hpicks.named]
  rw [hnamed]
  exact SameAnswer.refl _

/-! ## A tie is settled by the order -/

theorem reordered_entities {entities : List EntityRef} (h : graph.entities.Perm entities) :
    Reordered graph { graph with entities := entities } := ⟨.refl _, h, .refl _, .refl _⟩

theorem reordered_areas {areas : List AreaRef} (h : graph.areas.Perm areas) :
    Reordered graph { graph with areas := areas } := ⟨h, .refl _, .refl _, .refl _⟩

theorem reordered_scenes {scenes : List SceneRef} (h : graph.scenes.Perm scenes) :
    Reordered graph { graph with scenes := scenes } := ⟨.refl _, .refl _, h, .refl _⟩

theorem reordered_scripts {scripts : List ScriptRef} (h : graph.scripts.Perm scripts) :
    Reordered graph { graph with scripts := scripts } := ⟨.refl _, .refl _, .refl _, h⟩

theorem exists_entity_first {e : EntityRef} (he : e ∈ graph.entities)
    (hid : eqIgnoreAsciiCase e.entityId (trim query) = true) :
    ∃ graph', Reordered graph graph' ∧ exactEntity graph' query = some e := by
  obtain ⟨entities, hperm, hfind⟩ := exists_perm_find?
    (p := fun entity : EntityRef => eqIgnoreAsciiCase entity.entityId (trim query)) he hid
  refine ⟨_, reordered_entities hperm, ?_⟩
  rw [exactEntity, hfind]

theorem exists_scriptId_first {s : ScriptRef} (hs : s ∈ graph.scripts)
    (hid : eqIgnoreAsciiCase s.entityId (trim query) = true) :
    ∃ graph', Reordered graph graph' ∧ exactScript graph' query = some s := by
  obtain ⟨scripts, hperm, hfind⟩ := exists_perm_find?
    (p := fun script : ScriptRef => eqIgnoreAsciiCase script.entityId (trim query)) hs hid
  refine ⟨_, reordered_scripts hperm, ?_⟩
  rw [exactScript, hfind]

theorem exists_scene_first {s : SceneRef} (hs : TopScene graph query s) :
    ∃ graph', Reordered graph graph' ∧
      bestSceneOrScript .exact graph' query (some .activate) = some (sceneCandidate query s) := by
  obtain ⟨rest, hperm⟩ := exists_perm_cons hs.1
  have h := reordered_scenes hperm
  refine ⟨_, h, ?_⟩
  have htop : IsTop (42 / 100) (activatable { graph with scenes := s :: rest } query)
      (sceneCandidate query s) :=
    hs.2.perm ((h.scenes.map _).append ((h.scripts.filter _).map _))
  rw [bestSceneOrScript_eq]
  refine bestOf_eq_some.mpr ⟨[], _, rfl, htop.above, by simp, ?_⟩
  exact fun d hd => htop.le d (mem_cons_of_mem _ hd)

theorem exists_script_first {s : ScriptRef} (hs : TopScript graph query s) :
    ∃ graph', Reordered graph graph' ∧
      bestSceneOrScript .exact graph' query (some .activate) = some (scriptCandidate query s) := by
  obtain ⟨hmem, hsafe, htop, hbeats⟩ := hs
  obtain ⟨rest, hperm⟩ := exists_perm_cons hmem
  have h := reordered_scripts hperm
  refine ⟨_, h, ?_⟩
  have hsplit : activatable { graph with scripts := s :: rest } query =
      graph.scenes.map (sceneCandidate query) ++ scriptCandidate query s ::
        (rest.filter ScriptRef.voiceSafe).map (scriptCandidate query) := by
    rw [activatable, filter_cons, if_pos hsafe, List.map_cons]
  have htop' : IsTop (42 / 100) (activatable { graph with scripts := s :: rest } query)
      (scriptCandidate query s) :=
    htop.perm ((h.scenes.map _).append ((h.scripts.filter _).map _))
  rw [bestSceneOrScript_eq]
  refine bestOf_eq_some.mpr ⟨_, _, hsplit, htop.above, ?_, ?_⟩
  · intro d hd
    obtain ⟨scene, hscene, rfl⟩ := List.mem_map.mp hd
    exact hbeats scene hscene
  · intro d hd
    refine htop'.le d ?_
    rw [hsplit]
    exact mem_append_right _ (mem_cons_of_mem _ hd)

theorem exists_area_first {a : AreaRef} (ha : TopArea graph query a) :
    ∃ graph', Reordered graph graph' ∧
      bestAreaMatch .exact graph'.areas (normalize query) =
        some (areaCandidate .exact (normalize query) a).swap := by
  obtain ⟨areas, hperm, hbest⟩ := exists_perm_bestOf ha.1 ha.2
  refine ⟨_, reordered_areas hperm, ?_⟩
  rw [bestAreaMatch_eq]
  change (bestOf (45 / 100) _).map Prod.swap = _
  rw [hbest]
  rfl

theorem noTies_of_orderFree (hids : DistinctIds graph)
    (hfree : OrderFree tables graph query actionHint) :
    NoTies tables graph query actionHint where
  ids := by
    -- Whichever of the two comes first is the one found.
    have hfound : ∀ e ∈ graph.entities, eqIgnoreAsciiCase e.entityId (trim query) = true →
        exactEntity graph query = some e := by
      intro e he hid
      obtain ⟨g, hg, hfind⟩ := exists_entity_first he hid
      rw [(hfree g hg).2.entity, hfind]
    intro e he e' he' hid hid'
    exact Option.some.inj ((hfound e he hid).symm.trans (hfound e' he' hid'))
  scriptIds := by
    intro hasked
    have hfound : ∀ s ∈ graph.scripts, eqIgnoreAsciiCase s.entityId (trim query) = true →
        exactScript graph query = some s := by
      intro s hs hid
      obtain ⟨g, hg, hfind⟩ := exists_scriptId_first hs hid
      rw [(hfree g hg).2.script hasked, hfind]
    intro s hs s' hs' hid hid'
    exact Option.some.inj ((hfound s hs hid).symm.trans (hfound s' hs' hid'))
  areas := by
    intro hnone a b ha hb
    obtain ⟨g, hg, hbest⟩ := exists_area_first ha
    obtain ⟨g', hg', hbest'⟩ := exists_area_first hb
    rw [← (hfree g hg).2.area hnone] at hbest
    rw [← (hfree g' hg').2.area hnone, hbest] at hbest'
    exact congrArg Prod.fst (Option.some.inj hbest')
  scenes := by
    intro hasked s s' hs hs'
    obtain ⟨g, hg, hbest⟩ := exists_scene_first hs
    obtain ⟨g', hg', hbest'⟩ := exists_scene_first hs'
    have hpick := (hfree g hg).2.activated hasked
    have hpick' := (hfree g' hg').2.activated hasked
    rw [hasked.hint] at hpick hpick'
    rw [hpick, hbest] at hpick'
    rw [hbest'] at hpick'
    have hid := congrArg (fun c => c.2.entityIds) (Option.some.inj hpick')
    exact inj_on_of_nodup_map hids.scenes hs.1 hs'.1 (List.singleton_inj.mp hid)
  scripts := by
    intro hasked s s' hs hs'
    obtain ⟨g, hg, hbest⟩ := exists_script_first hs
    obtain ⟨g', hg', hbest'⟩ := exists_script_first hs'
    have hpick := (hfree g hg).2.activated hasked
    have hpick' := (hfree g' hg').2.activated hasked
    rw [hasked.hint] at hpick hpick'
    rw [hpick, hbest] at hpick'
    rw [hbest'] at hpick'
    have hid := congrArg (fun c => c.2.entityIds) (Option.some.inj hpick')
    exact inj_on_of_nodup_map hids.scripts hs.1 hs'.1 (List.singleton_inj.mp hid)

/-- The order of the graph settles nothing exactly when no candidates tie. -/
theorem orderFree_iff (hids : DistinctIds graph) :
    OrderFree tables graph query actionHint ↔ NoTies tables graph query actionHint := by
  constructor
  · exact noTies_of_orderFree hids
  · intro hties graph' h
    have hpicks := samePicks_of_noTies h hties
    exact ⟨sameAnswer_of_samePicks h hpicks, hpicks⟩

/-! ## Two rooms -/

theorem orderFree_iff_kitchen :
    DistinctIds mixedDomainGraph ∧
      (OrderFree .ascii mixedDomainGraph "kitchen lights" (some .turnOn) ↔
        NoTies .ascii mixedDomainGraph "kitchen lights" (some .turnOn)) := by
  have hids : DistinctIds mixedDomainGraph := ⟨by decide, by decide, by decide⟩
  exact ⟨hids, orderFree_iff hids⟩

def lightRef (id name area : String) : EntityRef where
  entityId := id
  name := name
  domain := "light"
  area := some area
  aliases := [normalize name, "light", "lights", normalize area ++ " lights"]

/-- Two lights in each of two rooms. -/
def twoRooms (areas : List AreaRef) : HomeGraph where
  areas := areas
  entities := [lightRef "light.kitchen_ceiling" "Ceiling" "Kitchen",
    lightRef "light.kitchen_counter" "Counter" "Kitchen",
    lightRef "light.bedroom_desk" "Desk" "Bedroom",
    lightRef "light.bedroom_bed" "Bed" "Bedroom"]
  scenes := []
  scripts := []

/-- A query with both rooms is about the lights of the room that the graph lists first. -/
theorem rooms_tie :
    let areas : List AreaRef := [⟨"Kitchen", ["kitchen"]⟩, ⟨"Bedroom", ["bedroom"]⟩]
    DistinctIds (twoRooms areas) ∧ Reordered (twoRooms areas) (twoRooms areas.reverse) ∧
      (resolveTargetInGraph .exact .ascii (twoRooms areas) "kitchen and bedroom lights"
        (some .turnOn)).map GraphTarget.entityIds =
          some ["light.kitchen_ceiling", "light.kitchen_counter"] ∧
      (resolveTargetInGraph .exact .ascii (twoRooms areas.reverse) "kitchen and bedroom lights"
        (some .turnOn)).map GraphTarget.entityIds =
          some ["light.bedroom_desk", "light.bedroom_bed"] := by
  refine ⟨⟨by decide, by decide, by decide⟩, ?_, ?_, ?_⟩
  · exact ⟨(reverse_perm _).symm, .refl _, .refl _, .refl _⟩
  · decide +kernel
  · decide +kernel

end GenieClaw.Home
