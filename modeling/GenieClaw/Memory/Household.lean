import GenieClaw.Memory.DeviceAlias
import GenieClaw.Memory.Policy

/-!
# What the derived tables take from a memory

`memory/structured.rs` and the parsers under it. Each derived table has rows that are read
out of the text of one memory, and all but the app-only secret references have them only for
a memory that may be spoken of in a shared room. The parsers of household profiles, device
aliases and shopping lists are here; those of the other tables are a parameter, as nothing
below depends on what they find in a text.
-/

namespace GenieClaw.Memory

open Library Library.Text

/-- The tables keyed by `source_memory_id`, in the order in which they are maintained. -/
inductive DerivedTable where
  | householdProfiles
  | deviceAliases
  | householdProfileAttributes
  | householdRules
  | householdNotes
  | appOnlySecretReferences
  | mediaProfileItems
  | familyCalendarEvents
  | shoppingListItems
  | householdInventoryItems
  | accessPermissions
  | householdTaskLogs
  | householdScheduleItems
  | householdEventLogs
  | embeddedMemories
deriving DecidableEq

def DerivedTable.all : List DerivedTable :=
  [.householdProfiles, .deviceAliases, .householdProfileAttributes, .householdRules,
    .householdNotes, .appOnlySecretReferences, .mediaProfileItems, .familyCalendarEvents,
    .shoppingListItems, .householdInventoryItems, .accessPermissions, .householdTaskLogs,
    .householdScheduleItems, .householdEventLogs, .embeddedMemories]

theorem DerivedTable.mem_all (table : DerivedTable) : table ∈ all := by
  cases table <;> decide

/-- A value in a column. -/
inductive Value where
  | null
  | integer (n : Int)
  | text (s : String)
  | blob (bytes : List UInt8)
deriving DecidableEq

/-- The columns of a derived row between its memory and its time. -/
abbrev Columns := List Value

/-- The parts of the text handling that are not modelled: lower case and letters beyond
ASCII, and the parsers of the remaining derived tables. -/
structure TextTools where
  toLowercase : String → String
  isAlphanumeric : Char → Bool
  rows : DerivedTable → String → String → MemoryPolicyMetadata → List Columns

/-! ## Phrases -/

def isSentenceEnd (c : Char) : Bool := c == '.' || c == '!' || c == '?'

def isSentenceMark (c : Char) : Bool :=
  c == '"' || c == '\'' || c == '.' || c == ',' || c == ':' || c == ';' || c == '?' || c == '!'

/-- The content without white space and sentence ends around it. -/
def statementOf (content : String) : String := trimMatches isSentenceEnd (trim content)

def normalizeMemoryContent (content : String) : String := joinWith " " (splitWhitespace content)

def cleanSentenceValue (value : String) : String :=
  normalizeMemoryContent (trimMatches isSentenceMark (trim value))

def withoutArticle (value : String) : String :=
  trimStartMatches "an " (trimStartMatches "a " (trimStartMatches "the " value))

def splitListItems (value : String) : List String :=
  let pieces := (replaceText " and " "," value).toList.splitOnP fun c => c == ',' || c == ';'
  (pieces.map fun piece => withoutArticle (cleanSentenceValue (String.ofList piece))).filter
    fun item => item ≠ ""

/-! ## Shopping lists -/

def shoppingStatus (lower : String) : String :=
  if containsAny lower [" removed:", " remove:", " taken off:"] then "removed"
  else if containsAny lower [" done:", " bought:", " completed:", " purchased:"] then "done"
  else "pending"

def textAfter (marker statement : String) : Option String :=
  (splitOnceIgnoreCase marker statement).map Prod.snd

/-- The items of `add … to the shopping list`. -/
def addedItems (statement : String) : Option String :=
  if startsWith "add " (toAsciiLowercase statement) then
    (splitOnceIgnoreCase " to the shopping list"
      (String.ofList (statement.toList.drop 4))).map Prod.fst
  else none

def itemsText (statement : String) : String :=
  ((textAfter "shopping list pending:" statement).or
    ((textAfter "shopping list removed:" statement).or
      ((textAfter "shopping list remove:" statement).or
        ((textAfter "shopping list:" statement).or (addedItems statement))))).getD statement

/-- The columns `item`, `normalized_item` and `status`. -/
def shoppingListItemsFromMemory (kind content : String) : List Columns :=
  let statement := statementOf content
  let lower := toAsciiLowercase statement
  if toAsciiLowercase kind = "shopping" ∨ containsText lower "shopping list" = true then
    (splitListItems (itemsText statement)).map fun item =>
      [.text item, .text (normalizeAliasKey item), .text (shoppingStatus lower)]
  else []

/-! ## Household profiles -/

def householdRoles : List (List String × String) :=
  [(["dad", "father"], "dad"), (["mom", "mother", "mum"], "mom"), (["son", "sons"], "son"),
    (["daughter", "daughters"], "daughter"), (["child", "children", "kid", "kids"], "child"),
    (["wife"], "wife"), (["husband"], "husband"), (["partner"], "partner"),
    (["dog", "dogs"], "dog"), (["cat", "cats"], "cat"), (["pet", "pets"], "pet")]

def normalizeHouseholdRole (value : String) : Option String :=
  let word := (splitWhitespace (withoutArticle (trim value))).head?.getD ""
  let normalized := trimMatches (fun c => isSentenceEnd c || c == ',' || c == ':' || c == ';') word
  (householdRoles.find? fun role => role.1.contains normalized).map Prod.snd

def cleanProfileName (value : String) : String :=
  joinWith " " ((splitWhitespace (trimMatches
    (fun c => isSentenceEnd c || c == ',' || c == '"' || c == '\'')
    (trimStartMatches "named " (trim value)))).take 4)

/-- The row of a role and a name that are both there. -/
def profileRow (role : Option String) (name : String) : Option (String × String) :=
  role.bind fun role => if name = "" then none else some (name, role)

def possessiveNamedProfile (content : String) : Option (String × String) :=
  (splitOnceIgnoreCase " is named " content).bind fun parts =>
    let left := trim (toAsciiLowercase parts.1)
    ((stripPrefix "user's " left).or ((stripPrefix "my " left).or (stripPrefix "our " left))).bind
      fun rolePhrase => profileRow (normalizeHouseholdRole rolePhrase) (cleanProfileName parts.2)

def definiteRoleProfile (content : String) : Option (String × String) :=
  (splitOnceIgnoreCase " is " content).bind fun parts =>
    (stripPrefix "the " (trim (toAsciiLowercase parts.1))).bind fun rolePhrase =>
      profileRow (normalizeHouseholdRole rolePhrase) (cleanProfileName parts.2)

/-- A marker whose phrase is no role ends the search, one without a name does not. -/
def subjectRoleProfileFrom (content : String) : List String → Option (String × String)
  | [] => none
  | marker :: markers =>
    match splitOnceIgnoreCase marker content with
    | none => subjectRoleProfileFrom content markers
    | some (left, right) =>
      (normalizeHouseholdRole (trim (toAsciiLowercase right))).bind fun role =>
        let name := cleanProfileName left
        if name = "" then subjectRoleProfileFrom content markers else some (name, role)

def subjectRoleProfile (content : String) : Option (String × String) :=
  subjectRoleProfileFrom content [" is the ", " is our ", " is my "]

/-- The columns `name` and `role`. -/
def householdProfileFromMemory (content : String) : Option Columns :=
  ((possessiveNamedProfile content).or
    ((definiteRoleProfile content).or (subjectRoleProfile content))).map fun profile =>
      [.text profile.1, .text profile.2]

/-! ## Device aliases -/

def aliasMarkers : List String :=
  [" maps to ", " points to ", " targets ", " target is ", " entity is ", " device is ",
    " means ", " = ", " -> ", " is "]

def cleanDeviceAlias (value : String) : String :=
  normalizeMemoryContent (trimMatches (fun c => c == '"' || c == '\'')
    (trimStartMatches "the " (trimStartMatches "remember "
      (trimStartMatches "remember that " (trim value)))))

def cleanDeviceTarget (value : String) : String :=
  (splitWhitespace (trimMatches
    (fun c => isSentenceEnd c || c == '"' || c == '\'' || c == ',')
    (trimStartMatches "the " (trim value)))).head?.getD ""

def aliasTerms : List String :=
  ["light", "lights", "lamp", "plug", "switch", "outlet", "thermostat", "scene", "routine", "fan"]

def isValidDeviceAliasPair (aliasText target : String) (broadMarker : Bool) : Bool :=
  let targetLower := toAsciiLowercase target
  let looksLikeTarget := containsText targetLower "." || startsWith "smartplug_" targetLower
  let looksLikeAlias := containsAny (toAsciiLowercase aliasText) aliasTerms
  let explicitAliasShape := !broadMarker && (splitWhitespace aliasText).length ≤ 6
  !(aliasText = "" || target = "" || eqIgnoreAsciiCase aliasText target) && looksLikeTarget &&
    (looksLikeAlias || explicitAliasShape)

def deviceAliasFromMemory (content : String) : Option (String × String) :=
  aliasMarkers.findSome? fun marker =>
    (splitOnceIgnoreCase marker (statementOf content)).bind fun parts =>
      let aliasText := cleanDeviceAlias parts.1
      let target := cleanDeviceTarget parts.2
      if isValidDeviceAliasPair aliasText target (marker = " is ") then some (aliasText, target)
      else none

def deviceAliasKind (targetId : String) : String :=
  match splitOnce ['.'] targetId.toList with
  | some (domain, _) => String.ofList domain
  | none => "entity"

/-- The columns `alias`, `normalized_alias`, `target_id` and `kind`. -/
def deviceAliasColumns (content : String) : Option Columns :=
  (deviceAliasFromMemory content).bind fun found =>
    let normalized := normalizeAliasKey found.1
    if normalized = "" ∨ found.2 = "" then none
    else some [.text found.1, .text normalized, .text found.2, .text (deviceAliasKind found.2)]

/-! ## The rows of a memory -/

/-- The rows of a memory that may be spoken of in a shared room. -/
def sharedRoomOnly (metadata : MemoryPolicyMetadata) (rows : List Columns) : List Columns :=
  if (assessMemoryRead metadata MemoryReadContext.sharedRoomVoice).allowed then rows else []

/-- The rows that the upsert of a table inserts for a memory. -/
def derive (tools : TextTools) (table : DerivedTable) (kind content : String)
    (metadata : MemoryPolicyMetadata) : List Columns :=
  match table with
  | .householdProfiles => sharedRoomOnly metadata (householdProfileFromMemory content).toList
  | .deviceAliases => sharedRoomOnly metadata (deviceAliasColumns content).toList
  | .shoppingListItems => sharedRoomOnly metadata (shoppingListItemsFromMemory kind content)
  | .appOnlySecretReferences => tools.rows .appOnlySecretReferences kind content metadata
  | table => sharedRoomOnly metadata (tools.rows table kind content metadata)

theorem derive_of_refused {tools : TextTools} {table : DerivedTable} {kind content : String}
    {metadata : MemoryPolicyMetadata} (htable : table ≠ .appOnlySecretReferences)
    (hrefused : (assessMemoryRead metadata MemoryReadContext.sharedRoomVoice).allowed = false) :
    derive tools table kind content metadata = [] := by
  cases table <;> simp_all [derive, sharedRoomOnly]

end GenieClaw.Memory
