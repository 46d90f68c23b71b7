import GenieClaw.Json
import GenieClaw.Library.Machine
import GenieClaw.Memory.Store
import GenieClaw.Memory.Extract

/-!
# Writing what is said

The two ways in which the words of a user become memories: `exec_memory_store`, the tool, in
`tools/dispatch/memory.rs`, and `extract_and_store`, which looks through every utterance, in
`memory/extract.rs`. Both ask the write policy about the text as it was given and then hand it
to `store_resolved`.
-/

namespace GenieClaw.Memory

open Library Library.Program Library.Text

/-! ## The arguments of the tool -/

/-- A text that is not blank. -/
def nonBlank (text : String) : Option String := if trim text = "" then none else some (trim text)

/-- The first text among the arguments other than the category. -/
def anyContent : Json → Option String
  | .object fields =>
    ((fields.filter fun field => field.1 ≠ "category").findSome? fun field =>
      field.2.asStr).bind nonBlank
  | _ => none

def primaryContent (args : Json) : Option String :=
  ((["content", "fact", "text", "memory", "note"].findSome? fun key =>
    (args.get key).bind Json.asStr).bind nonBlank).or (anyContent args)

def nameMemory (args : Json) : List ExtractedFact :=
  (((args.get "name").bind Json.asStr).bind nonBlank).toList.map fun name =>
    identityFact ("User's name is " ++ name)

/-- `identity_confidence < Medium`, unless a person is named. -/
def personVerified (context : MemoryReadContext) : Bool :=
  context.explicitNamedPerson || decide (.medium ≤ context.identityConfidence)

def verifiedIdentityRequired (category : String) : String :=
  "memory_store: person-linked category '" ++ category ++ "' requires a verified identity " ++
    "context; use the voice pipeline or supply an authenticated person context."

def countNoun (count : Nat) (singular plural : String) : String :=
  if count = 1 then "1 " ++ singular else toString count ++ " " ++ plural

/-- What became of the memories of one call. -/
structure Tally where
  stored : List ExtractedFact := []
  rejected : List String := []
  replaced : Nat := 0

section

variable (tools : FactTools)

def normalizeMemoriesToStore (args : Json) : List ExtractedFact :=
  match primaryContent args with
  | some content =>
    match extractFacts tools content with
    | [] => [⟨(((args.get "category").bind Json.asStr).getD "fact"), content⟩]
    | extracted => extracted
  | none => nameMemory args

/-! ## The tool -/

/-- The loop over the memories. The category is checked for each, once the policy has allowed
it, and what was stored before a memory that is refused stays. -/
def storeMemories (context : MemoryReadContext) : List ExtractedFact → Op Tally
  | [] => pure {}
  | memory :: rest =>
    let decision := assessMemoryWrite memory.category memory.content
    if decision.allowed = false then do
      let tally ← storeMemories context rest
      pure { tally with rejected := decision.reason :: tally.rejected }
    else if (inferMetadata memory.category memory.content).scope = .person ∧
        personVerified context = false then
      fail (.bail (verifiedIdentityRequired memory.category))
    else do
      let outcome ← storeResolved tools.toTextTools memory.category memory.content
      let tally ← storeMemories context rest
      pure { tally with
        stored := memory :: tally.stored
        replaced := outcome.replaced + tally.replaced }

/-- A count that cannot be read is zero. -/
def shoppingListPendingCount : Op Nat := do
  let count ← attempt (query fun db => (shoppingListItems (db.derived .shoppingListItems)).length)
  pure (count.toOption.getD 0)

def shoppingReply (stored : List ExtractedFact) : Op String := do
  let count ← shoppingListPendingCount
  let added := ", ".intercalate (stored.map fun memory =>
    trim (trimStartMatches "shopping list removed:"
      (trimStartMatches "shopping list pending:" memory.content)))
  let total := countNoun count "item" "items"
  if stored.any fun memory =>
      startsWith "shopping list removed:" (toAsciiLowercase (trimStart memory.content)) then
    pure ("Removed " ++ added ++ " from the shopping list. You have " ++ total ++ " total.")
  else pure ("Added " ++ added ++ " to the shopping list. You have " ++ total ++ " total.")

def lowercaseFirst (text : String) : String :=
  match text.toList with
  | [] => ""
  | c :: cs => tools.toLowercase (String.singleton c) ++ String.ofList cs

def storedReply (tally : Tally) : List ExtractedFact → String
  | [] => tally.rejected.headD "I could not store that memory."
  | [memory] =>
    (if 0 < tally.replaced then "I've updated that memory: " else "I'll remember that ") ++
      lowercaseFirst tools memory.content ++ "."
  | stored =>
    (if 0 < tally.replaced then "I've updated these details" else "I'll remember these details") ++
      ":\n- " ++ "\n- ".intercalate (stored.map ExtractedFact.content) ++
      (tally.rejected.head?.map fun reason => "\nSkipped one memory: " ++ reason).getD ""

def execMemoryStore (args : Json) (context : Option MemoryReadContext) : Op String :=
  match normalizeMemoriesToStore tools args with
  | [] => fail (.bail "memory_store requires non-empty string argument 'content'")
  | memories => do
    let tally ← storeMemories tools (context.getD .sharedRoomVoice) memories
    if tally.stored.any fun memory => memory.category = "shopping" then shoppingReply tally.stored
    else pure (storedReply tools tally tally.stored)

/-! ## The auto-capture -/

/-- Similar memories do not keep a single-valued fact from being corrected. -/
def alreadyKnown (fact : ExtractedFact) : Op Bool :=
  if (memorySlot tools.toTextTools fact.category (normalizeMemoryContent fact.content)).isSome then
    pure false
  else do
    let similar ← attempt (hasSimilar tools.toTextTools fact.content)
    match similar with
    | .ok similar => pure similar
    | .error _ => pure true

/-- One fact, and whether it was stored. Failures are logged. -/
def captureFact (fact : ExtractedFact) : Op Bool := do
  let known ← alreadyKnown tools fact
  if known then pure false
  else if (assessMemoryWrite fact.category fact.content).allowed = false then pure false
  else do
    let outcome ← attempt (storeResolved tools.toTextTools fact.category fact.content)
    match outcome with
    | .ok outcome => pure !outcome.duplicate
    | .error _ => pure false

def captureFacts : List ExtractedFact → Op Nat
  | [] => pure 0
  | fact :: rest => do
    let stored ← captureFact tools fact
    let count ← captureFacts rest
    pure (if stored then count + 1 else count)

def extractAndStore (text : String) : Op Nat := captureFacts tools (extractFacts tools text)

/-! ## Calls -/

inductive CaptureCommand where
  | memoryStore (args : Json) (context : Option MemoryReadContext)
  | autoCapture (text : String)

/-- The memories that the command hands on, as they are given. -/
def CaptureCommand.memories : CaptureCommand → List ExtractedFact
  | .memoryStore args _ => normalizeMemoriesToStore tools args
  | .autoCapture text => extractFacts tools text

structure CaptureCall where
  command : CaptureCommand
  sql : List Bool := []
  files : List Bool := []
  clock : List Nat := []

inductive CaptureReply where
  | answer (text : String)
  | stored (count : Nat)

def capture : CaptureCommand → Op CaptureReply
  | .memoryStore args context => CaptureReply.answer <$> execMemoryStore tools args context
  | .autoCapture text => CaptureReply.stored <$> extractAndStore tools text

def captureMachine : Machine Database CaptureCall (Except MemoryError CaptureReply) where
  step db call :=
    let (reply, c) := capture tools call.command
      { db, sql := call.sql, files := call.files, clock := call.clock }
    (reply, c.db)

end

end GenieClaw.Memory
