import GenieClaw.Home.ResolveGroups

/-!
# Queries that name several devices alike

When several devices tie for a query, the named matcher reports none of them, as if nothing had
been named, and each of its callers goes on with a fallback of its own.

* `Leads.mem_tied`: the devices that lead are those the loop over the devices keeps.
* `ambiguous_declines_iff` (the query is `Ambiguous`): it is declined exactly when no fallback has
  anything.
-/

namespace GenieClaw.Home

open Library Library.Text Library.BestOf List Option

variable {fp : SinglePrecision} {tables : CharTables} {graph : HomeGraph} {query : String}
  {actionHint : Option HomeActionKind}

def deviceScore (fp : SinglePrecision) (query : String) (entity : EntityRef) : ℚ :=
  bestAliasScore fp (splitWhitespace (normalize query)) (normalize query) entity.aliases

/-- A device with an alias that matches the query. -/
structure Matches (fp : SinglePrecision) (graph : HomeGraph) (query : String) (entity : EntityRef) :
    Prop where
  listed : entity ∈ graph.entities
  device : ¬ (entity.domain = "scene" ∨ entity.domain = "script")
  above : namedEntityMatchThreshold fp < deviceScore fp query entity

/-- No device that matches the query beats this one by more than the epsilon, and one that does not
tie with it has a worse score. -/
structure Leads (fp : SinglePrecision) (graph : HomeGraph) (query : String) (entity : EntityRef) :
    Prop extends Matches fp graph query entity where
  unbeaten : ∀ other, Matches fp graph query other →
    deviceScore fp query other ≤ fp.round (deviceScore fp query entity + namedEntityTieEpsilon fp)
  beats : ∀ other, Matches fp graph query other →
    |fp.round (deviceScore fp query entity - deviceScore fp query other)| ≤
        namedEntityTieEpsilon fp ∨
      fp.round (deviceScore fp query other + namedEntityTieEpsilon fp) <
        deviceScore fp query entity

theorem leads_iff {entity : EntityRef} :
    Leads fp graph query entity ↔
      entity ∈ graph.entities ∧ ¬ (entity.domain = "scene" ∨ entity.domain = "script") ∧
      namedEntityMatchThreshold fp < deviceScore fp query entity ∧
      ∀ other ∈ graph.entities, ¬ (other.domain = "scene" ∨ other.domain = "script") →
        namedEntityMatchThreshold fp < deviceScore fp query other →
        deviceScore fp query other ≤
            fp.round (deviceScore fp query entity + namedEntityTieEpsilon fp) ∧
          (|fp.round (deviceScore fp query entity - deviceScore fp query other)| ≤
              namedEntityTieEpsilon fp ∨
            fp.round (deviceScore fp query other + namedEntityTieEpsilon fp) <
              deviceScore fp query entity) := by
  constructor
  · intro h
    exact ⟨h.listed, h.device, h.above, fun other hlisted hdevice habove =>
      ⟨h.unbeaten other ⟨hlisted, hdevice, habove⟩, h.beats other ⟨hlisted, hdevice, habove⟩⟩⟩
  · rintro ⟨hlisted, hdevice, habove, hall⟩
    exact ⟨⟨hlisted, hdevice, habove⟩,
      fun other h => (hall other h.listed h.device h.above).1,
      fun other h => (hall other h.listed h.device h.above).2⟩

instance (entity : EntityRef) : Decidable (Leads fp graph query entity) :=
  decidable_of_iff _ leads_iff.symm

/-- Two different devices tie for the best score of the query. -/
def Tied (fp : SinglePrecision) (graph : HomeGraph) (query : String) : Prop :=
  ∃ a b, Leads fp graph query a ∧ Leads fp graph query b ∧ a.entityId ≠ b.entityId

/-- The queries that ought to be asked back: no id, two devices that tie, and more words than a
room and a domain have. -/
structure Ambiguous (fp : SinglePrecision) (tables : CharTables) (graph : HomeGraph)
    (query : String) : Prop where
  not_id : exactEntity graph query = none
  tied : Tied fp graph query
  not_area : ∀ area ∈ graph.areas, queryIsBareArea (normalize query) area.name = false
  not_area_domain : ∀ area ∈ graph.areas, ∀ domain,
    inferDomain tables (normalize query) = some domain →
      queryIsBareAreaDomain (normalize query) area.name domain = false
  not_domain : ∀ domain, inferDomain tables (normalize query) = some domain →
    ∃ word ∈ splitWhitespace (normalize query), ¬ IsDomainWord domain word

def areaScore (fp : SinglePrecision) (query : String) (area : AreaRef) : ℚ :=
  bestAliasScore fp (splitWhitespace (normalize query)) (normalize query) area.aliases

/-- The room of the query: it overlaps the query and is the first of those with the best score. -/
structure RoomOf (fp : SinglePrecision) (graph : HomeGraph) (query : String) (area : AreaRef) :
    Prop where
  overlaps : area.Overlaps (normalize query)
  first : ∃ before after, graph.areas = before ++ area :: after ∧
    (∀ b ∈ before, areaScore fp query b < areaScore fp query area) ∧
    ∀ a ∈ after, areaScore fp query a ≤ areaScore fp query area

/-- No fallback has anything: no scene or script of that name is to be activated, the room of the
query has no device of the domain (without an action, no light either), and where there is no room
the home has no device of the domain or the guard refuses the words. -/
structure NoFallback (fp : SinglePrecision) (tables : CharTables) (graph : HomeGraph)
    (query : String) (actionHint : Option HomeActionKind) : Prop where
  no_scene : actionHint = some .activate → ∀ scene ∈ graph.scenes,
    ∀ candidate ∈ scene.aliases, overlaps candidate (normalize query) = false
  no_script : actionHint = some .activate → ∀ script ∈ graph.scripts, script.voiceSafe = true →
    ∀ candidate ∈ script.aliases, overlaps candidate (normalize query) = false
  no_room : ∀ area, RoomOf fp graph query area → ∀ domain,
    (inferDomain tables (normalize query) = some domain ∨ actionHint = none ∧ domain = "light") →
      ∀ entity ∈ graph.entities, entity.domain = domain → entity.area ≠ some area.name
  no_home : (∀ area ∈ graph.areas, ¬ area.Overlaps (normalize query)) → ∀ domain,
    inferDomain tables (normalize query) = some domain →
      (∀ entity ∈ graph.entities, entity.domain ≠ domain) ∨
        wholeHomeResolutionIsTrustworthy tables (graph.entities.map EntityRef.domainArea) query =
          false

/-! ## What each fallback needs -/

/-- One round of the loop over the devices. -/
def keepNamed (fp : SinglePrecision) (query : String) (kept : ℚ × List EntityRef)
    (entity : EntityRef) : ℚ × List EntityRef :=
  if entity.domain = "scene" ∨ entity.domain = "script" then kept
  else if deviceScore fp query entity ≤ namedEntityMatchThreshold fp then kept
  else if fp.round (kept.1 + namedEntityTieEpsilon fp) < deviceScore fp query entity then
    (deviceScore fp query entity, [entity])
  else if |fp.round (deviceScore fp query entity - kept.1)| ≤ namedEntityTieEpsilon fp then
    (max kept.1 (deviceScore fp query entity), kept.2 ++ [entity])
  else kept

theorem tiedNamedEntityMatches_eq_foldl :
    tiedNamedEntityMatches fp graph (normalize query) (splitWhitespace (normalize query)) =
      graph.entities.foldl (keepNamed fp query) (0, []) := rfl

/-- What the loop has for a score: none yet, or that of a device that matches. -/
theorem keepNamed_score {kept : ℚ × List EntityRef} {entity : EntityRef}
    (hentity : entity ∈ graph.entities)
    (h : kept.1 = 0 ∨ ∃ e, Matches fp graph query e ∧ deviceScore fp query e = kept.1) :
    (keepNamed fp query kept entity).1 = 0 ∨
      ∃ e, Matches fp graph query e ∧
        deviceScore fp query e = (keepNamed fp query kept entity).1 := by
  unfold keepNamed
  split
  · exact h
  · rename_i hdevice
    split
    · exact h
    · rename_i habove
      have hmatches : Matches fp graph query entity := ⟨hentity, hdevice, lt_of_not_ge habove⟩
      split
      · exact .inr ⟨entity, hmatches, rfl⟩
      · split
        · rcases max_choice kept.1 (deviceScore fp query entity) with hmax | hmax
          · simpa only [hmax] using h
          · exact .inr ⟨entity, hmatches, hmax.symm⟩
        · exact h

theorem Leads.kept_at {a : EntityRef} (h : Leads fp graph query a) {kept : ℚ × List EntityRef}
    (hkept : kept.1 = 0 ∨ ∃ e, Matches fp graph query e ∧ deviceScore fp query e = kept.1) :
    a ∈ (keepNamed fp query kept a).2 ∧
      deviceScore fp query a ≤ (keepNamed fp query kept a).1 := by
  have hnew : fp.round (kept.1 + namedEntityTieEpsilon fp) < deviceScore fp query a ∨
      |fp.round (deviceScore fp query a - kept.1)| ≤ namedEntityTieEpsilon fp := by
    rcases hkept with hzero | ⟨e, hmatches, hscore⟩
    · have hsmall : fp.round (1 / 1000) ≤ fp.round (42 / 100) := fp.mono (by norm_num)
      rw [hzero, zero_add, namedEntityTieEpsilon, fp.round_round]
      exact .inl (hsmall.trans_lt h.above)
    · rw [← hscore]
      exact (h.beats e hmatches).symm
  unfold keepNamed
  rw [if_neg h.device, if_neg (not_le.mpr h.above)]
  split
  · exact ⟨mem_singleton_self a, le_rfl⟩
  · rename_i hjump
    rw [if_pos (hnew.resolve_left hjump)]
    exact ⟨mem_append_right _ (mem_singleton_self a), le_max_right _ _⟩

theorem Leads.kept_after {a entity : EntityRef} (h : Leads fp graph query a)
    (hentity : entity ∈ graph.entities) {kept : ℚ × List EntityRef}
    (hkept : a ∈ kept.2 ∧ deviceScore fp query a ≤ kept.1) :
    a ∈ (keepNamed fp query kept entity).2 ∧
      deviceScore fp query a ≤ (keepNamed fp query kept entity).1 := by
  unfold keepNamed
  split
  · exact hkept
  · rename_i hdevice
    split
    · exact hkept
    · rename_i habove
      have hle := h.unbeaten entity ⟨hentity, hdevice, lt_of_not_ge habove⟩
      have hmono : fp.round (deviceScore fp query a + namedEntityTieEpsilon fp) ≤
          fp.round (kept.1 + namedEntityTieEpsilon fp) := fp.mono (by linarith [hkept.2])
      rw [if_neg (not_lt.mpr (hle.trans hmono))]
      split
      · exact ⟨mem_append_left _ hkept.1, le_max_of_le_left hkept.2⟩
      · exact hkept

theorem Leads.mem_tied {a : EntityRef} (h : Leads fp graph query a) :
    a ∈ (tiedNamedEntityMatches fp graph (normalize query)
      (splitWhitespace (normalize query))).2 := by
  obtain ⟨front, back, hsplit⟩ := append_of_mem h.listed
  have hmem : ∀ e ∈ front ++ a :: back, e ∈ graph.entities := fun e he => hsplit ▸ he
  have hfront : (front.foldl (keepNamed fp query) (0, [])).1 = 0 ∨
      ∃ e, Matches fp graph query e ∧
        deviceScore fp query e = (front.foldl (keepNamed fp query) (0, [])).1 :=
    foldl_keeps (P := fun kept : ℚ × List EntityRef =>
      kept.1 = 0 ∨ ∃ e, Matches fp graph query e ∧ deviceScore fp query e = kept.1) (.inl rfl)
      fun _ e he => keepNamed_score (hmem e (mem_append_left _ he))
  rw [tiedNamedEntityMatches_eq_foldl, hsplit, foldl_append, foldl_cons]
  refine (foldl_keeps (P := fun kept : ℚ × List EntityRef =>
    a ∈ kept.2 ∧ deviceScore fp query a ≤ kept.1) (h.kept_at hfront) ?_).1
  exact fun _ e he =>
    h.kept_after (hmem e (mem_append_right _ (mem_cons_of_mem a he)))

theorem topNamedEntityMatch_eq_none (h : Tied fp graph query) :
    topNamedEntityMatch fp graph (normalize query) (splitWhitespace (normalize query)) = none := by
  obtain ⟨a, b, hleads, hleads', hne⟩ := h
  have ha := hleads.mem_tied
  have hb := hleads'.mem_tied
  unfold topNamedEntityMatch
  split
  · rename_i score entity heq
    rw [heq] at ha hb
    rw [List.mem_singleton.mp ha, List.mem_singleton.mp hb] at hne
    exact absurd rfl hne
  · rfl

theorem foldl_eq_none_iff {α β : Type} {step : Option β → α → Option β} {p : α → Prop}
    (hkeep : ∀ b x, step (some b) x ≠ none) (hstart : ∀ x, step none x = none ↔ ¬ p x)
    {xs : List α} {start : Option β} :
    xs.foldl step start = none ↔ start = none ∧ ∀ x ∈ xs, ¬ p x := by
  induction xs generalizing start with
  | nil => simp
  | cons x rest ih =>
    rw [foldl_cons, ih, forall_mem_cons]
    cases start with
    | none => rw [hstart, and_iff_right (rfl : (none : Option β) = none)]
    | some b => simp [hkeep b x]

theorem not_exists_overlaps {aliases : List String} {queryLower : String} :
    (¬ ∃ candidate ∈ aliases, overlaps candidate queryLower = true) ↔
      ∀ candidate ∈ aliases, overlaps candidate queryLower = false := by
  simp

theorem bestSceneOrScript_eq_none :
    bestSceneOrScript fp graph query (some .activate) = none ↔
      (∀ scene ∈ graph.scenes, ∀ candidate ∈ scene.aliases,
        overlaps candidate (normalize query) = false) ∧
      ∀ script ∈ graph.scripts, script.voiceSafe = true → ∀ candidate ∈ script.aliases,
        overlaps candidate (normalize query) = false := by
  simp only [bestSceneOrScript, ne_eq, not_true_eq_false, if_false]
  rw [foldl_eq_none_iff (p := fun script : ScriptRef => script.voiceSafe = true ∧
      ∃ candidate ∈ script.aliases, overlaps candidate (normalize query) = true),
    foldl_eq_none_iff (p := fun scene : SceneRef =>
      ∃ candidate ∈ scene.aliases, overlaps candidate (normalize query) = true)]
  · simp only [true_and, not_exists_overlaps, not_and]
  · intro b scene h
    split at h <;> cases h
  · intro scene
    rw [ite_eq_right_iff]
    simp [threshold_lt_aliasScore]
  · intro b script h
    unfold betterScript at h
    split at h <;> cases h
  · intro script
    rw [betterScript, ite_eq_right_iff]
    simp [threshold_lt_aliasScore]

theorem resolveNamedEntity_eq_none (h : Tied fp graph query) :
    resolveNamedEntity fp graph query actionHint = none ↔
      (actionHint = some .activate → ∀ scene ∈ graph.scenes, ∀ candidate ∈ scene.aliases,
        overlaps candidate (normalize query) = false) ∧
      (actionHint = some .activate → ∀ script ∈ graph.scripts, script.voiceSafe = true →
        ∀ candidate ∈ script.aliases, overlaps candidate (normalize query) = false) := by
  simp only [resolveNamedEntity, topNamedEntityMatch_eq_none h, map_none, or_none,
    map_eq_none_iff]
  by_cases hhint : actionHint = some .activate
  · rw [hhint, bestSceneOrScript_eq_none]
    simp only [true_implies]
  · simp [bestSceneOrScript, hhint]

theorem resolveGroupTarget_eq_none {domain areaName : String} {confidence : ℚ} :
    resolveGroupTarget graph query domain areaName confidence = none ↔
      ∀ entity ∈ graph.entities, entity.domain = domain → entity.area ≠ some areaName := by
  simp [resolveGroupTarget, filter_eq_nil_iff]

theorem resolveDomainTarget_eq_none {domain : String} :
    resolveDomainTarget fp tables graph query domain = none ↔
      (∀ entity ∈ graph.entities, entity.domain ≠ domain) ∨
        wholeHomeResolutionIsTrustworthy tables (graph.entities.map EntityRef.domainArea) query =
          false := by
  have hempty : (graph.entities.filter fun entity => entity.domain == domain) = [] ↔
      ∀ entity ∈ graph.entities, entity.domain ≠ domain := by
    simp [filter_eq_nil_iff]
  simp only [← hempty, resolveDomainTarget, List.isEmpty_iff, map_eq_nil_iff]
  split
  · rename_i hnil
    exact iff_of_true rfl (.inl hnil)
  · rename_i hnil
    split
    · rename_i htrust
      exact iff_of_true rfl (.inr htrust)
    · rename_i htrust
      exact iff_of_false (some_ne_none _) (not_or.mpr ⟨hnil, htrust⟩)

theorem bestAreaMatch_eq_some {found : String × ℚ} :
    bestAreaMatch fp graph.areas (normalize query) = some found ↔
      ∃ area, RoomOf fp graph query area ∧ found = (area.name, areaScore fp query area) := by
  rw [bestAreaMatch_eq, map_eq_some_iff]
  constructor
  · rintro ⟨c, hc, rfl⟩
    obtain ⟨before, after, hsplit, habove, hbefore, hafter⟩ := bestOf_eq_some.mp hc
    obtain ⟨areas₁, rest, hareas, rfl, hrest⟩ := List.map_eq_append_iff.mp hsplit
    obtain ⟨area, areas₂, rfl, rfl, rfl⟩ := List.map_eq_cons_iff.mp hrest
    refine ⟨area, ⟨threshold_lt_areaScore.mp habove, areas₁, areas₂, hareas, ?_, ?_⟩, rfl⟩
    · exact fun b hb => hbefore _ (List.mem_map_of_mem hb)
    · exact fun a ha => hafter _ (List.mem_map_of_mem ha)
  · rintro ⟨area, ⟨hover, before, after, hareas, hbefore, hafter⟩, rfl⟩
    refine ⟨areaCandidate fp (normalize query) area, bestOf_eq_some.mpr
      ⟨before.map (areaCandidate fp (normalize query)),
        after.map (areaCandidate fp (normalize query)), by rw [hareas]; simp,
        threshold_lt_areaScore.mpr hover, ?_, ?_⟩, rfl⟩
    · intro d hd
      obtain ⟨b, hb, rfl⟩ := List.mem_map.mp hd
      exact hbefore b hb
    · intro d hd
      obtain ⟨a, ha, rfl⟩ := List.mem_map.mp hd
      exact hafter a ha

/-! ## Nothing is returned -/

theorem resolveInArea_of_unnamed {area : String × ℚ} {domain : String} :
    resolveInArea graph query none area domain =
      resolveGroupTarget graph query domain area.1 area.2 := by
  unfold resolveInArea
  split <;> simp

theorem resolveStatusInArea_of_unnamed {area : String × ℚ} :
    resolveStatusInArea fp graph query none area =
      resolveGroupTarget graph query "light" area.1 (fp.round (area.2 * fp.round (8 / 10))) := by
  unfold resolveStatusInArea
  split <;> simp

theorem resolveByWords_eq_none {areaMatch : Option (String × ℚ)} {named : Option GraphTarget} :
    resolveByWords fp tables graph query actionHint areaMatch named = none ↔
      named = none ∧
      (∀ found, areaMatch = some found → ∀ domain,
        (inferDomain tables (normalize query) = some domain ∨
          actionHint = none ∧ domain = "light") →
        ∀ entity ∈ graph.entities, entity.domain = domain → entity.area ≠ some found.1) ∧
      (areaMatch = none → ∀ domain, inferDomain tables (normalize query) = some domain →
        resolveDomainTarget fp tables graph query domain = none) := by
  unfold resolveByWords
  generalize inferDomain tables (normalize query) = inferred
  simp only [or_eq_none_iff]
  constructor
  · rintro ⟨hinArea, hinHome, hstatus, rfl⟩
    refine ⟨rfl, ?_, ?_⟩
    · rintro found rfl domain (rfl | ⟨rfl, rfl⟩)
      · exact resolveGroupTarget_eq_none.mp (resolveInArea_of_unnamed.symm.trans hinArea)
      · exact resolveGroupTarget_eq_none.mp (resolveStatusInArea_of_unnamed.symm.trans hstatus)
    · rintro rfl domain rfl
      exact hinHome
  · rintro ⟨rfl, hroom, hhome⟩
    refine ⟨?_, ?_, ?_, rfl⟩
    · split
      · rw [resolveInArea_of_unnamed]
        exact resolveGroupTarget_eq_none.mpr (hroom _ rfl _ (.inl rfl))
      · rfl
    · split
      · exact hhome rfl _ rfl
      · rfl
    · split
      · rw [resolveStatusInArea_of_unnamed]
        exact resolveGroupTarget_eq_none.mpr (hroom _ rfl _ (.inr ⟨rfl, rfl⟩))
      · rfl

theorem resolve_eq_none_of_tied (hid : exactEntity graph query = none) (h : Tied fp graph query) :
    resolveTargetInGraph fp tables graph query actionHint = none ↔
      NoFallback fp tables graph query actionHint := by
  have hexact : resolveExactEntityId graph query actionHint = none := by
    rw [resolveExactEntityId, hid]
    rfl
  rw [resolveTargetInGraph, hexact, none_or, resolveByWords_eq_none,
    resolveNamedEntity_eq_none h]
  constructor
  · rintro ⟨⟨hscene, hscript⟩, hroom, hhome⟩
    refine ⟨hscene, hscript, fun area harea => ?_, fun hno domain hdomain => ?_⟩
    · exact hroom _ (bestAreaMatch_eq_some.mpr ⟨area, harea, rfl⟩)
    · exact resolveDomainTarget_eq_none.mp (hhome (bestAreaMatch_eq_none.mpr hno) domain hdomain)
  · intro hno
    refine ⟨⟨hno.no_scene, hno.no_script⟩, fun found hfound => ?_, fun hnone domain hdomain => ?_⟩
    · obtain ⟨area, harea, rfl⟩ := bestAreaMatch_eq_some.mp hfound
      exact hno.no_room area harea
    · exact resolveDomainTarget_eq_none.mpr
        (hno.no_home (bestAreaMatch_eq_none.mp hnone) domain hdomain)

/-- A query that ought to be asked back is, exactly when no fallback has anything. -/
theorem ambiguous_declines_iff (h : Ambiguous fp tables graph query) :
    resolveTargetInGraph fp tables graph query actionHint = none ↔
      NoFallback fp tables graph query actionHint :=
  resolve_eq_none_of_tied h.not_id h.tied

/-! ## Two lamps of one name -/

/-- A light of the bedroom, with the aliases that the graph gives it. -/
def bedroomLight (id name : String) : EntityRef where
  entityId := id
  name := name
  domain := "light"
  area := some "Bedroom"
  aliases := [normalize name, "light", "lights", "lamp", "lamps", "bedroom " ++ normalize name,
    "bedroom light", "bedroom lights", "bedroom lamp", "bedroom lamps"]

/-- Two reading lamps and a ceiling light in one room. -/
def bedroomGraph (areas : List AreaRef) : HomeGraph where
  areas := areas
  entities := [bedroomLight "light.reading_lamp" "Reading Lamp",
    bedroomLight "light.reading_lamp_2" "Reading Lamp",
    bedroomLight "light.bedroom_ceiling" "Ceiling Light"]
  scenes := []
  scripts := []

def bedroom : AreaRef := ⟨"Bedroom", ["bedroom"]⟩

theorem Ambiguous.of_light (hid : exactEntity graph query = none) (htied : Tied fp graph query)
    (hlight : inferDomain tables (normalize query) = some "light")
    (harea : ∀ area ∈ graph.areas,
      queryIsBareAreaDomain (normalize query) area.name "light" = false)
    (hword : ∃ word ∈ splitWhitespace (normalize query), ¬ IsDomainWord "light" word) :
    Ambiguous fp tables graph query where
  not_id := hid
  tied := htied
  not_area := by
    intro area hmem
    by_contra hbare
    rw [Bool.not_eq_false] at hbare
    have hno := harea area hmem
    simp only [queryIsBareAreaDomain, queryIsBareArea, List.all_eq_true, List.all_eq_false] at *
    obtain ⟨token, htoken, hfalse⟩ := hno
    exact hfalse (by simp only [hbare token htoken, Bool.true_or])
  not_area_domain := by
    intro area hmem domain hdomain
    rw [hlight] at hdomain
    cases hdomain
    exact harea area hmem
  not_domain := by
    intro domain hdomain
    rw [hlight] at hdomain
    cases hdomain
    exact hword

theorem tied_reading_lamps {query : String}
    (h : Leads .exact (bedroomGraph [bedroom]) query
        (bedroomLight "light.reading_lamp" "Reading Lamp") ∧
      Leads .exact (bedroomGraph [bedroom]) query
        (bedroomLight "light.reading_lamp_2" "Reading Lamp")) :
    Tied .exact (bedroomGraph [bedroom]) query :=
  ⟨_, _, h.1, h.2, by decide⟩

theorem ambiguous_declines_iff_reading_lamp :
    Ambiguous .exact .ascii (bedroomGraph [bedroom]) "reading lamp" ∧
      resolveTargetInGraph .exact .ascii (bedroomGraph [bedroom]) "reading lamp" (some .turnOn) =
        none := by
  have h : Ambiguous .exact .ascii (bedroomGraph [bedroom]) "reading lamp" := by
    refine .of_light (by decide +kernel) (tied_reading_lamps (by decide +kernel))
      (by decide +kernel) (by decide +kernel) ⟨"reading", by decide +kernel, ?_⟩
    unfold IsDomainWord
    decide +kernel
  refine ⟨h, (ambiguous_declines_iff h).mpr ⟨?_, ?_, ?_, ?_⟩⟩
  · decide
  · decide
  · intro area harea
    have hno : ∀ area ∈ (bedroomGraph [bedroom]).areas, ∀ candidate ∈ area.aliases,
        overlaps candidate (normalize "reading lamp") = false := by decide +kernel
    obtain ⟨before, after, hareas, -⟩ := harea.first
    have hmem : area ∈ (bedroomGraph [bedroom]).areas := hareas ▸ by simp
    obtain ⟨candidate, hcandidate, hover⟩ := harea.overlaps
    rw [hno area hmem candidate hcandidate] at hover
    cases hover
  · intro _ domain _
    exact .inr (by decide +kernel)

/-- The two lamps tie, but all the lights of their room are switched, the third one too. -/
theorem reading_lamp_switches_bedroom :
    Ambiguous .exact .ascii (bedroomGraph [bedroom]) "bedroom reading lamp" ∧
      (resolveTargetInGraph .exact .ascii (bedroomGraph [bedroom]) "bedroom reading lamp"
        (some .turnOn)).map GraphTarget.entityIds =
          some ["light.reading_lamp", "light.reading_lamp_2", "light.bedroom_ceiling"] ∧
      ¬ Leads .exact (bedroomGraph [bedroom]) "bedroom reading lamp"
        (bedroomLight "light.bedroom_ceiling" "Ceiling Light") := by
  refine ⟨?_, ?_, ?_⟩
  · refine .of_light (by decide +kernel) (tied_reading_lamps (by decide +kernel))
      (by decide +kernel) (by decide +kernel) ⟨"reading", by decide +kernel, ?_⟩
    unfold IsDomainWord
    decide +kernel
  · decide +kernel
  · decide +kernel

end GenieClaw.Home
