import GenieClaw.Home.Provider
import GenieClaw.Library.Text
import Mathlib.Algebra.Order.Field.Rat
import Mathlib.Tactic.NormNum

/-!
# Resolving a target in the home graph

`resolve_target_in_graph` of `ha/provider.rs` and the fidelity guard of
`ha/entity_fidelity.rs`. The graph keeps what the resolution reads. A score is a rational
number that is rounded after every operation, and `SinglePrecision` says what is known about
the rounding; `SinglePrecision.exact` rounds nothing. Lower case and letters beyond ASCII are
the parameter `CharTables`.
-/

namespace GenieClaw.Home

open Library.Text

/-! ## The graph -/

structure AreaRef where
  name : String
  aliases : List String
deriving DecidableEq

structure EntityRef where
  entityId : String
  name : String
  domain : String
  area : Option String
  aliases : List String
deriving DecidableEq

structure SceneRef where
  entityId : String
  name : String
  area : Option String
  aliases : List String
deriving DecidableEq

structure ScriptRef where
  entityId : String
  name : String
  area : Option String
  aliases : List String
  voiceSafe : Bool
deriving DecidableEq

structure HomeGraph where
  areas : List AreaRef
  entities : List EntityRef
  scenes : List SceneRef
  scripts : List ScriptRef
deriving DecidableEq

/-- The source's `HomeTarget`, with the score as a number. -/
structure GraphTarget where
  kind : HomeTargetKind
  query : String
  displayName : String
  entityIds : List String
  domain : Option String
  area : Option String
  confidence : ℚ
  voiceSafe : Bool
deriving DecidableEq

/-! ## Numbers and letters -/

structure SinglePrecision where
  round : ℚ → ℚ
  mono : Monotone round
  round_round : ∀ x, round (round x) = round x
  round_eighths : ∀ n : ℕ, n ≤ 8 → round (n / 8) = n / 8

def SinglePrecision.exact : SinglePrecision where
  round x := x
  mono _ _ h := h
  round_round _ := rfl
  round_eighths _ _ := rfl

structure CharTables where
  toLowercase : String → String
  isAlphanumeric : Char → Bool

/-- The tables on text without letters beyond ASCII. -/
def CharTables.ascii : CharTables := ⟨toAsciiLowercase, isAsciiAlphanumeric⟩

variable (fp : SinglePrecision) (tables : CharTables)

def wholeHomeDomainConfidence : ℚ := fp.round (90 / 100)

def namedEntityMatchThreshold : ℚ := fp.round (42 / 100)

def namedEntityTieEpsilon : ℚ := fp.round (1 / 1000)

/-! ## Words -/

def benignQueryTokens : List String :=
  ["all", "the", "a", "an", "every", "any", "my", "our", "this", "that", "please", "now", "here",
    "turn", "switch", "set", "get", "status", "of", "to", "in"]

def queryTokens (text : String) : List String :=
  (((tables.toLowercase text).toList.splitOnP fun c => !tables.isAlphanumeric c).filter
    fun w => !w.isEmpty).map String.ofList

def domainOfWord (word : String) : Option String :=
  if word ∈ ["light", "lights", "lamp", "lamps"] then some "light"
  else if word ∈ ["fan", "fans"] then some "fan"
  else if word ∈ ["thermostat", "temperature", "heat", "heating", "cooling", "ac"] then
    some "climate"
  else if word ∈ ["blind", "blinds", "shade", "shades", "curtain", "curtains", "cover", "covers",
      "garage"] then some "cover"
  else if word ∈ ["lock", "locks", "unlock"] then some "lock"
  else if word ∈ ["switch", "switches", "plug", "outlet"] then some "switch"
  else none

structure DomainArea where
  domain : String
  area : Option String

def EntityRef.domainArea (entity : EntityRef) : DomainArea := ⟨entity.domain, entity.area⟩

/-- The words of the areas in which some entity of the domain is. -/
def validPlace (entities : List DomainArea) (domain : String) : List String :=
  ((entities.filter fun entity => entity.domain == domain).filterMap DomainArea.area).flatMap
    (queryTokens tables)

def wholeHomeResolutionIsTrustworthy (entities : List DomainArea) (text : String) : Bool :=
  let tokens := queryTokens tables text
  match tokens.findSome? domainOfWord with
  | none => true
  | some domain => tokens.all fun token =>
      (domainOfWord token).isSome || benignQueryTokens.contains token ||
        (validPlace tables entities domain).contains token

def normalize (input : String) : String :=
  joinWith " " (splitWhitespace (String.ofList ((toLowercase input).toList.map fun ch =>
    if isAsciiAlphanumeric ch || isAsciiWhitespace ch then ch else ' ')))

def domainSynonyms (domain : String) : List String :=
  if domain = "light" then ["light", "lights", "lamp", "lamps"]
  else if domain = "switch" then ["switch", "switches", "plug", "outlet"]
  else if domain = "fan" then ["fan", "fans"]
  else if domain = "climate" then ["thermostat", "temperature", "heater"]
  else if domain = "cover" then ["cover", "covers", "blind", "blinds"]
  else if domain = "lock" then ["lock", "locks", "door lock"]
  else if domain = "scene" then ["scene", "scenes"]
  else if domain = "script" then ["script", "routine"]
  else []

def inferDomain (query : String) : Option String :=
  let tokens := queryTokens tables query
  ["light", "switch", "fan", "climate", "cover", "lock"].find? fun domain =>
    tokens.any fun token =>
      domainOfWord token == some domain ||
        (domain == "climate" && (token == "warmer" || token == "cooler"))

/-! ## Scores -/

/-- How many of the query's words overlap some word of the candidate. -/
def matchingWords (queryWords candidateWords : List String) : ℕ :=
  (queryWords.filter fun queryWord => candidateWords.any fun candidateWord =>
    containsText candidateWord queryWord || containsText queryWord candidateWord).length

def fuzzyScore (queryWords : List String) (queryLower candidate : String) : ℚ :=
  let candidateWords := splitWhitespace candidate
  let text :=
    if candidate = queryLower then 1
    else if containsText candidate queryLower || containsText queryLower candidate then
      fp.round (75 / 100)
    else 0
  let words :=
    if queryWords.isEmpty then text
    else
      let ratio := fp.round (fp.round (matchingWords queryWords candidateWords) /
        fp.round queryWords.length)
      fp.round (text + fp.round (ratio * fp.round (35 / 100)))
  let score :=
    if startsWith queryLower candidate then fp.round (words + fp.round (15 / 100)) else words
  min score 1

def bestAliasScore (queryWords : List String) (queryLower : String) (aliases : List String) : ℚ :=
  (aliases.map fun candidate => fuzzyScore fp queryWords queryLower candidate).foldl max 0

/-! ## Areas and named entities -/

def bestAreaMatch (areas : List AreaRef) (query : String) : Option (String × ℚ) :=
  let queryWords := splitWhitespace query
  areas.foldl (fun best area =>
    let score := bestAliasScore fp queryWords query area.aliases
    if fp.round (45 / 100) < score ∧ ∀ b ∈ best, b.2 < score then some (area.name, score)
    else best) none

/-- Whether every word is one of the area's name. -/
def queryIsBareArea (queryLower areaName : String) : Bool :=
  let areaTokens := splitWhitespace (normalize areaName)
  (splitWhitespace queryLower).all fun token => areaTokens.contains token

/-- Whether every word is one of the area's name or one of the domain. -/
def queryIsBareAreaDomain (queryLower areaName domain : String) : Bool :=
  let areaTokens := splitWhitespace (normalize areaName)
  let domainTokens := (domainSynonyms domain).flatMap splitWhitespace
  (splitWhitespace queryLower).all fun token =>
    areaTokens.contains token || domainTokens.contains token || domainOfWord token == some domain

def tiedNamedEntityMatches (graph : HomeGraph) (queryLower : String) (queryWords : List String) :
    ℚ × List EntityRef :=
  graph.entities.foldl (fun kept entity =>
    if entity.domain = "scene" ∨ entity.domain = "script" then kept
    else
      let score := bestAliasScore fp queryWords queryLower entity.aliases
      if score ≤ namedEntityMatchThreshold fp then kept
      else if fp.round (kept.1 + namedEntityTieEpsilon fp) < score then (score, [entity])
      else if |fp.round (score - kept.1)| ≤ namedEntityTieEpsilon fp then
        (max kept.1 score, kept.2 ++ [entity])
      else kept) (0, [])

def topNamedEntityMatch (graph : HomeGraph) (queryLower : String) (queryWords : List String) :
    Option (ℚ × EntityRef) :=
  match tiedNamedEntityMatches fp graph queryLower queryWords with
  | (score, [entity]) => some (score, entity)
  | _ => none

/-! ## Targets -/

def domainLabel (domain : String) (count : ℕ) : String :=
  if domain = "light" then if count = 1 then "light" else "lights"
  else if domain = "switch" then if count = 1 then "switch" else "switches"
  else if domain = "fan" then if count = 1 then "fan" else "fans"
  else if domain = "cover" then if count = 1 then "cover" else "covers"
  else if domain = "lock" then if count = 1 then "lock" else "locks"
  else if domain = "climate" then if count = 1 then "thermostat" else "thermostats"
  else "devices"

def domainPluralLabel (domain : String) : String :=
  if domain = "light" then "lights"
  else if domain = "switch" then "switches"
  else if domain = "fan" then "fans"
  else if domain = "cover" then "covers"
  else if domain = "lock" then "locks"
  else if domain = "climate" then "thermostats"
  else "devices"

/-- Whether a scene or a script may be the target at all. -/
def activates (actionHint : Option HomeActionKind) : Bool :=
  actionHint == some .activate || actionHint == none

/-- The entity whose id the query is. -/
def exactEntity (graph : HomeGraph) (query : String) : Option EntityRef :=
  graph.entities.find? fun entity => eqIgnoreAsciiCase entity.entityId (trim query)

def exactScript (graph : HomeGraph) (query : String) : Option ScriptRef :=
  graph.scripts.find? fun script => eqIgnoreAsciiCase script.entityId (trim query)

def resolveExactEntityId (graph : HomeGraph) (query : String)
    (actionHint : Option HomeActionKind) : Option GraphTarget :=
  (exactEntity graph query).bind fun entity =>
    if entity.domain = "scene" ∧ activates actionHint = false then none
    else if entity.domain = "script" ∧ activates actionHint = false then none
    else if entity.domain = "scene" then
      some ⟨.scene, trim query, entity.name, [entity.entityId], some entity.domain, entity.area, 1,
        true⟩
    else if entity.domain = "script" then
      (exactScript graph query).map fun script =>
        ⟨.script, trim query, script.name, [script.entityId], some "script", script.area, 1,
          script.voiceSafe⟩
    else
      some ⟨.entity, trim query, entity.name, [entity.entityId], some entity.domain, entity.area,
        1, entity.domain != "lock"⟩

def resolveDomainTarget (graph : HomeGraph) (query domain : String) : Option GraphTarget :=
  let entityIds := (graph.entities.filter fun entity => entity.domain == domain).map
    EntityRef.entityId
  if entityIds.isEmpty then none
  else if wholeHomeResolutionIsTrustworthy tables (graph.entities.map EntityRef.domainArea) query
      = false then none
  else
    some ⟨.group, query, "All " ++ domainPluralLabel domain, entityIds, some domain, none,
      wholeHomeDomainConfidence fp, domain != "lock"⟩

def resolveGroupTarget (graph : HomeGraph) (query domain areaName : String) (confidence : ℚ) :
    Option GraphTarget :=
  let entityIds := (graph.entities.filter fun entity =>
    entity.domain == domain && entity.area == some areaName).map EntityRef.entityId
  if entityIds.isEmpty then none
  else
    some ⟨.group, query, areaName ++ " " ++ domainLabel domain entityIds.length, entityIds,
      some domain, some areaName, confidence, domain != "lock"⟩

/-- The best so far, or the script where it may be activated by voice and its score is higher. -/
def betterScript (query : String) (best : Option (ℚ × GraphTarget)) (script : ScriptRef)
    (score : ℚ) : Option (ℚ × GraphTarget) :=
  if script.voiceSafe = true ∧ fp.round (42 / 100) < score ∧ ∀ b ∈ best, b.1 < score then
    some (score, ⟨.script, query, script.name, [script.entityId], some "script", script.area,
      score, true⟩)
  else best

/-- The loops over the scenes and, with the same best so far, over the scripts. -/
def bestSceneOrScript (graph : HomeGraph) (query : String)
    (actionHint : Option HomeActionKind) : Option (ℚ × GraphTarget) :=
  let queryLower := normalize query
  let queryWords := splitWhitespace queryLower
  if actionHint ≠ some .activate then none
  else
    let bestScene := graph.scenes.foldl (fun best scene =>
      let score := bestAliasScore fp queryWords queryLower scene.aliases
      if fp.round (42 / 100) < score ∧ ∀ b ∈ best, b.1 < score then
        some (score, ⟨.scene, query, scene.name, [scene.entityId], some "scene", scene.area, score,
          true⟩)
      else best) none
    graph.scripts.foldl (fun best script => betterScript fp query best script
      (bestAliasScore fp queryWords queryLower script.aliases)) bestScene

def resolveNamedEntity (graph : HomeGraph) (query : String)
    (actionHint : Option HomeActionKind) : Option GraphTarget :=
  let queryLower := normalize query
  let queryWords := splitWhitespace queryLower
  let bestScene := bestSceneOrScript fp graph query actionHint
  let bestEntity := (topNamedEntityMatch fp graph queryLower queryWords).map fun found =>
    (found.1, (⟨.entity, query, found.2.name, [found.2.entityId], some found.2.domain,
      found.2.area, found.1, found.2.domain != "lock"⟩ : GraphTarget))
  (bestScene.or bestEntity).map Prod.snd

/-- The target of an area and a domain: the group for a bare phrase, otherwise a named entity
first. -/
def resolveInArea (graph : HomeGraph) (query : String) (named : Option GraphTarget)
    (area : String × ℚ) (domain : String) : Option GraphTarget :=
  if queryIsBareAreaDomain (normalize query) area.1 domain = true then
    resolveGroupTarget graph query domain area.1 area.2
  else named.or (resolveGroupTarget graph query domain area.1 area.2)

/-- The target of an area when there is no action: its lights, unless something is named. -/
def resolveStatusInArea (graph : HomeGraph) (query : String) (named : Option GraphTarget)
    (area : String × ℚ) : Option GraphTarget :=
  (if queryIsBareArea (normalize query) area.1 = true then none else named).or
    (resolveGroupTarget graph query "light" area.1 (fp.round (area.2 * fp.round (8 / 10))))

/-- Everything after the exact id, for the area and the named entity that were found. -/
def resolveByWords (graph : HomeGraph) (query : String) (actionHint : Option HomeActionKind)
    (areaMatch : Option (String × ℚ)) (named : Option GraphTarget) : Option GraphTarget :=
  let inArea := match areaMatch, inferDomain tables (normalize query) with
    | some area, some domain => resolveInArea graph query named area domain
    | _, _ => none
  let inHome := match areaMatch, inferDomain tables (normalize query) with
    | none, some domain => resolveDomainTarget fp tables graph query domain
    | _, _ => none
  let status := match actionHint, areaMatch with
    | none, some area => resolveStatusInArea fp graph query named area
    | _, _ => none
  inArea.or (inHome.or (status.or named))

def resolveTargetInGraph (graph : HomeGraph) (query : String)
    (actionHint : Option HomeActionKind) : Option GraphTarget :=
  (resolveExactEntityId graph query actionHint).or
    (resolveByWords fp tables graph query actionHint
      (bestAreaMatch fp graph.areas (normalize query))
      (resolveNamedEntity fp graph query actionHint))

end GenieClaw.Home
