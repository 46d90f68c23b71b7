import GenieClaw.Library.Statements
import GenieClaw.Memory.Household
import Mathlib.Data.List.Sort

/-!
# The memory store

`genie-core/src/memory/mod.rs`: the operations that create, change and remove memories. Each
SQL statement commits on its own, so a call that fails in the middle leaves behind what it
has done. The connection carries what its next calls will meet: which statements and which
changes of the canonical files succeed, and the clock. A list that has run out means that
all is well, and a clock that has run out stands at the epoch. What is written to the
canonical files is left out, as none of the operations reads it.
-/

namespace GenieClaw.Memory

open Library Library.Program Library.Text

/-- A row of `memories`. -/
structure MemoryEntry where
  id : Nat
  kind : String
  content : String
  accessedMs : Nat
  promoted : Bool := false
  evergreen : Bool := false
  metadata : MemoryPolicyMetadata
deriving DecidableEq

structure DerivedRow where
  sourceMemoryId : Nat
  columns : Columns
  updatedMs : Nat
deriving DecidableEq

structure Database where
  memories : List MemoryEntry := []
  derived : DerivedTable → List DerivedRow := fun _ => []

namespace Database

/-- The row id that SQLite gives to the next memory. -/
def nextId (db : Database) : Nat := (db.memories.map MemoryEntry.id).foldr max 0 + 1

def getById (db : Database) (id : Nat) : Option MemoryEntry := db.memories.find? fun m => m.id = id

/-- `get_by_kind`: the most recently used first. -/
def getByKind (db : Database) (kind : String) (limit : Nat) : List MemoryEntry :=
  ((db.memories.filter fun m => m.kind = kind).insertionSort
    fun a b => b.accessedMs ≤ a.accessedMs).take limit

def insertMemory (db : Database) (memory : MemoryEntry) : Database :=
  { db with memories := db.memories ++ [memory] }

def updateMemory (db : Database) (id : Nat) (kind content : String)
    (metadata : MemoryPolicyMetadata) : Database :=
  { db with memories := db.memories.map fun m =>
      if m.id = id then { m with kind, content, metadata } else m }

def deleteMemories (db : Database) (p : MemoryEntry → Bool) : Database :=
  { db with memories := db.memories.filter fun m => !p m }

def deleteDerived (db : Database) (table : DerivedTable) (id : Nat) : Database :=
  { db with derived := fun t =>
      if t = table then (db.derived t).filter fun row => row.sourceMemoryId ≠ id
      else db.derived t }

def insertDerived (db : Database) (table : DerivedTable) (row : DerivedRow) : Database :=
  { db with derived := fun t => if t = table then db.derived t ++ [row] else db.derived t }

end Database

structure Connection where
  db : Database := {}
  sql : List Bool := []
  files : List Bool := []
  clock : List Nat := []

inductive MemoryError where
  | sqlite
  | io
  | bail (message : String)
deriving DecidableEq

abbrev Op := Program Connection MemoryError

/-! ## Statements, files and the clock -/

def statement {α : Type} (f : Database → α × Database) : Op α := fun c =>
  match c.sql with
  | false :: rest => (.error .sqlite, { c with sql := rest })
  | sql => (.ok (f c.db).1, { c with db := (f c.db).2, sql := sql.tail })

def query {α : Type} (f : Database → α) : Op α := statement fun db => (f db, db)

def execute (f : Database → Database) : Op Unit := statement fun db => ((), f db)

def changeFiles : Op Unit := fun c =>
  match c.files with
  | false :: rest => (.error .io, { c with files := rest })
  | files => (.ok (), { c with files := files.tail })

def nowMs : Op Nat := fun c => (.ok (c.clock.headD 0), { c with clock := c.clock.tail })

def recordCanonicalEvent : Op Unit := changeFiles

def appendDailyNote : Op Unit := changeFiles

def rebuildRootMemoryFile : Op Unit := do
  let _ ← query fun db => db.memories.filter MemoryEntry.promoted
  changeFiles

/-! ## Slots and duplicates -/

section

variable (tools : TextTools)

def favoriteSlot (lowerContent : String) : Option String :=
  (stripPrefix "user's favorite " lowerContent).bind fun rest =>
    (splitOnce " is ".toList rest.toList).bind fun parts =>
      let thing := trim (String.ofList parts.1)
      if thing = "" then none else some thing

/-- The single-valued fact that a memory states. -/
def memorySlot (kind content : String) : Option String :=
  let kind := tools.toLowercase (trim kind)
  let lower := tools.toLowercase (trim content)
  if kind = "identity" then
    if startsWith "user's name is " lower then some "identity:name"
    else if startsWith "user is " lower && containsText lower " years old" then
      some "identity:age"
    else if startsWith "user lives in " lower then some "identity:location"
    else if startsWith "user works at " lower then some "identity:workplace"
    else if startsWith "user is a " lower || startsWith "user is an " lower then
      some "identity:occupation"
    else none
  else if kind = "preference" then
    (favoriteSlot lower).map fun slot => "preference:favorite:" ++ slot
  else none

/-- The text before the last `(source: …)`. -/
def stripSourceTag (text : String) : String :=
  match splitOnce " (source:".toList.reverse text.toList.reverse with
  | some (_, before) => trim (String.ofList before.reverse)
  | none => text

def hasExact (content : String) : Op Bool :=
  query fun db => db.memories.any fun m =>
    eqIgnoreAsciiCase m.content (trim (stripSourceTag content))

def stopWords : List String :=
  ["a", "an", "and", "are", "about", "can", "did", "do", "does", "for", "have", "how", "i",
    "is", "it", "me", "my", "of", "on", "or", "please", "remember", "that", "the", "this",
    "to", "what", "whats", "when", "where", "who", "you", "your"]

def searchTokens (text : String) : List String :=
  let pieces := (tools.toLowercase text).toList.splitOnP fun c => !tools.isAlphanumeric c
  (pieces.map String.ofList).filter fun token => 1 < token.utf8ByteSize ∧ token ∉ stopWords

def commonWords : List String :=
  ["user", "users", "the", "is", "are", "was", "has", "have", "and", "for", "that", "this",
    "with", "from", "not"]

/-- `LIKE` folds the case of ASCII letters. -/
def hasSimilar (content : String) : Op Bool :=
  let words := ((searchTokens tools (stripSourceTag content)).filter
    fun word => word ∉ commonWords).take 4
  if words = [] then pure false
  else query fun db => db.memories.any fun m =>
    words.all fun word => containsText (toAsciiLowercase m.content) (toAsciiLowercase word)

/-! ## Creating -/

/-- `warn_if_device_alias_conflict`, for an alias that was inserted. -/
def warnIfDeviceAliasConflict (table : DerivedTable) (rows : List Columns) : Op Unit :=
  if table = .deviceAliases ∧ rows ≠ [] then query fun _ => () else pure ()

/-- The family `upsert_*_from_memory`. -/
def upsertFromMemory (id : Nat) (kind content : String) (metadata : MemoryPolicyMetadata)
    (updatedMs : Nat) (table : DerivedTable) : Op Unit := do
  execute fun db => db.deleteDerived table id
  let rows := derive tools table kind content metadata
  rows.forM fun columns => execute fun db => db.insertDerived table ⟨id, columns, updatedMs⟩
  warnIfDeviceAliasConflict table rows

def storeWithMetadata (kind content : String) (metadata : MemoryPolicyMetadata)
    (evergreen : Bool) : Op Nat := do
  let now ← nowMs
  let id ← statement fun db =>
    (db.nextId, db.insertMemory
      { id := db.nextId, kind, content, accessedMs := now, evergreen, metadata })
  DerivedTable.all.forM (upsertFromMemory tools id kind content metadata now)
  pure id

/-- `store`, and `store_evergreen` for a memory that never decays. -/
def storeAs (evergreen : Bool) (kind content : String) : Op Nat := do
  let content := normalizeMemoryContent content
  let id ← storeWithMetadata tools kind content (inferMetadata kind content) evergreen
  recordCanonicalEvent
  appendDailyNote
  pure id

def store (kind content : String) : Op Nat := storeAs tools false kind content

def storeEvergreen (kind content : String) : Op Nat := storeAs tools true kind content

/-! ## Removing -/

/-- The end of an edit or a deletion: the canonical files. -/
def updateCanonicalFiles (entry : MemoryEntry) : Op Unit :=
  if entry.promoted then do
    rebuildRootMemoryFile
    recordCanonicalEvent
    appendDailyNote
  else do
    recordCanonicalEvent
    appendDailyNote

/-- The part of `delete_by_id` after the memory is gone. -/
def forgetDerived (entry : MemoryEntry) (id : Nat) : Op Unit := do
  DerivedTable.all.forM fun table => execute fun db => db.deleteDerived table id
  updateCanonicalFiles entry

def forgetExisting (existing : Option MemoryEntry) (deleted id : Nat) : Op Unit :=
  match existing with
  | some entry => if 0 < deleted then forgetDerived entry id else pure ()
  | none => pure ()

def deleteById (id : Nat) : Op Bool := do
  let existing ← query fun db => db.getById id
  let deleted ← statement fun db =>
    ((db.memories.filter fun m => m.id = id).length, db.deleteMemories fun m => m.id = id)
  forgetExisting existing deleted id
  pure (0 < deleted : Bool)

/-- `slice::chunks`, for at most `fuel` chunks. -/
def chunks {α : Type} (size : Nat) : Nat → List α → List (List α)
  | _, [] => []
  | 0, _ => []
  | fuel + 1, xs => xs.take size :: chunks size fuel (xs.drop size)

/-- Neither kept for good nor in the notes. -/
def MemoryEntry.prunable (memory : MemoryEntry) : Bool := !memory.evergreen && !memory.promoted

/-- `decayed` is the comparison of the decay multiplier with the threshold, at a time and
for the time of the last access. -/
def pruneDecayed (decayed : Nat → Nat → Bool) : Op Nat := do
  let now ← nowMs
  let candidates ← query fun db => db.memories.filter MemoryEntry.prunable
  let toDelete := (candidates.filter fun m => decayed now m.accessedMs).map MemoryEntry.id
  (chunks 900 toDelete.length toDelete).forM fun chunk =>
    execute fun db => db.deleteMemories fun m => chunk.contains m.id
  pure toDelete.length

/-- The cutoff wraps around at 64 bits, and SQLite takes no integer from `2 ^ 63` on. -/
def staleCutoff (now : Nat) (maxAgeDays : UInt32) : Option Nat :=
  let cutoff := (now + 2 ^ 64 - maxAgeDays.toNat * 86400000) % 2 ^ 64
  if cutoff < 2 ^ 63 then some cutoff else none

/-- `prune_stale` once the cutoff is known; without one the parameter cannot be bound. -/
def pruneBefore : Option Nat → Op Nat
  | none => fail .sqlite
  | some cutoff =>
    let stale : MemoryEntry → Bool := fun m => m.accessedMs < cutoff && m.prunable
    statement fun db => ((db.memories.filter stale).length, db.deleteMemories stale)

def pruneStale (maxAgeDays : UInt32) : Op Nat := do
  let now ← nowMs
  pruneBefore (staleCutoff now maxAgeDays)

/-! ## Replacing -/

structure StoreOutcome where
  id : Option Nat
  replaced : Nat
  duplicate : Bool
deriving DecidableEq

/-- A memory whose value the slot had before. -/
def MemoryEntry.superseded (slot content : String) (memory : MemoryEntry) : Bool :=
  memory.content ≠ content ∧ memorySlot tools memory.kind memory.content = some slot

def deleteSuperseded (slot content : String) (existing : MemoryEntry) : Op Bool :=
  if existing.superseded tools slot content then deleteById existing.id else pure false

/-- The number of memories that were deleted. -/
def replaceSlot (slot content : String) : List MemoryEntry → Op Nat
  | [] => pure 0
  | existing :: rest => do
    let deleted ← deleteSuperseded tools slot content existing
    let replaced ← replaceSlot slot content rest
    pure (if deleted then replaced + 1 else replaced)

def clearSlot (kind content : String) : Option String → Op Nat
  | none => pure 0
  | some slot => do
    let existing ← query fun db => db.getByKind kind 100
    replaceSlot tools slot content existing

/-- Only an identical statement duplicates a single-valued fact. -/
def isDuplicate (slot : Option String) (content : String) : Op Bool :=
  if slot.isSome then hasExact content else hasSimilar tools content

def storeResolved (kind content : String) : Op StoreOutcome := do
  let content := normalizeMemoryContent content
  let slot := memorySlot tools kind content
  let duplicate ← isDuplicate tools slot content
  if duplicate then pure ⟨none, 0, true⟩
  else do
    let replaced ← clearSlot tools kind content slot
    let id ← store tools kind content
    pure ⟨some id, replaced, false⟩

/-! ## Editing -/

/-- An upsert at a time of its own. -/
def upsertNow (id : Nat) (kind content : String) (metadata : MemoryPolicyMetadata)
    (table : DerivedTable) : Op Unit := do
  let now ← nowMs
  upsertFromMemory tools id kind content metadata now table

/-- The part of `update_managed` after the memory was changed. -/
def rederive (existing : MemoryEntry) (updated id : Nat) (kind content : String) : Op Unit :=
  if 0 < updated then do
    DerivedTable.all.forM (upsertNow tools id kind content (inferMetadata kind content))
    updateCanonicalFiles existing
  else pure ()

/-- The part of `update_managed` after its checks. -/
def writeManaged (existing : MemoryEntry) (id : Nat) (kind content : String) : Op Bool := do
  let updated ← statement fun db =>
    ((db.memories.filter fun m => m.id = id).length,
      db.updateMemory id kind content (inferMetadata kind content))
  rederive tools existing updated id kind content
  pure (0 < updated : Bool)

/-- The kind that an edit asks for. -/
def nextKind (existing : MemoryEntry) : Option String → Except MemoryError String
  | none => .ok existing.kind
  | some kind =>
    if trim kind = "" then .error (.bail "memory kind cannot be empty") else .ok (trim kind)

def updateExisting (existing : MemoryEntry) (id : Nat) (content : String) (kind : Option String) :
    Op Bool :=
  let content := normalizeMemoryContent content
  if content = "" then fail (.bail "memory content cannot be empty")
  else match nextKind existing kind with
    | .error e => fail e
    | .ok kind =>
      let decision := assessMemoryWrite kind content
      if decision.allowed = false then fail (.bail decision.reason)
      else if existing.kind = kind ∧ existing.content = content ∧
          existing.metadata = inferMetadata kind content then pure true
      else writeManaged tools existing id kind content

def updateManaged (id : Nat) (content : String) (kind : Option String) : Op Bool := do
  let existing ← query fun db => db.getById id
  match existing with
  | none => pure false
  | some existing => updateExisting tools existing id content kind

end

/-!
## Answers from the derived tables

`structured_household_answer` tries one lookup after the other, each for its own kind of
question, and gives the answer of the first one that finds a row. The lookup of the shopping
list is here; the others are a parameter, as stages that compose their answers from derived
rows and from nothing else.
-/

/-- The text of an answer with the memories whose rows it was composed from. -/
structure Answer where
  sources : List Nat
  text : String
deriving DecidableEq

/-- A lookup in the derived tables. -/
structure AnswerStage where
  answer : (DerivedTable → List DerivedRow) → String → Option Answer
  fromRows : ∀ derived query found, answer derived query = some found →
    ∀ id ∈ found.sources, ∃ table, ∃ row ∈ derived table, row.sourceMemoryId = id

/-- The text in a column. -/
def DerivedRow.textAt (row : DerivedRow) (column : Nat) : String :=
  match row.columns[column]? with
  | some (.text s) => s
  | _ => ""

/-- A row of the same item that supersedes this one. -/
def DerivedRow.newer (row other : DerivedRow) : Bool :=
  other.textAt 1 = row.textAt 1 ∧ (row.updatedMs < other.updatedMs ∨
    (other.updatedMs = row.updatedMs ∧ row.sourceMemoryId < other.sourceMemoryId))

/-- `ORDER BY s.updated_ms DESC, s.source_memory_id DESC`. -/
def DerivedRow.listedBefore (a b : DerivedRow) : Prop :=
  b.updatedMs < a.updatedMs ∨
    (a.updatedMs = b.updatedMs ∧ b.sourceMemoryId ≤ a.sourceMemoryId)

instance (a b : DerivedRow) : Decidable (a.listedBefore b) := by
  unfold DerivedRow.listedBefore
  infer_instance

/-- The pending items whose last statement is the pending one. -/
def shoppingListItems (rows : List DerivedRow) : List DerivedRow :=
  (rows.filter fun row => row.textAt 2 = "pending" && !rows.any row.newer).insertionSort
    DerivedRow.listedBefore

def shoppingListQuery (query : String) : Bool :=
  let lower := toAsciiLowercase query
  containsText lower "shopping list" &&
    (startsWith "what" lower || startsWith "show" lower || startsWith "what is on" lower ||
      startsWith "what's on" lower)

def formatShoppingListAnswer (items : List DerivedRow) : String :=
  "Shopping list: " ++ joinWith ", " (items.map fun row => row.textAt 0) ++ "."

def shoppingListAnswer (derived : DerivedTable → List DerivedRow) (query : String) :
    Option Answer :=
  let items := shoppingListItems (derived .shoppingListItems)
  if shoppingListQuery query = true ∧ items ≠ [] then
    some ⟨items.map DerivedRow.sourceMemoryId, formatShoppingListAnswer items⟩
  else none

theorem mem_shoppingListItems {rows : List DerivedRow} {row : DerivedRow}
    (h : row ∈ shoppingListItems rows) : row ∈ rows :=
  List.mem_of_mem_filter ((List.mem_insertionSort _).mp h)

def shoppingListStage : AnswerStage where
  answer := shoppingListAnswer
  fromRows derived query found hfound id hid := by
    unfold shoppingListAnswer at hfound
    dsimp only at hfound
    split at hfound
    · cases hfound
      obtain ⟨row, hrow, rfl⟩ := List.mem_map.mp hid
      exact ⟨.shoppingListItems, row, mem_shoppingListItems hrow, rfl⟩
    · cases hfound

@[simp] theorem shoppingListStage_answer : shoppingListStage.answer = shoppingListAnswer := rfl

/-- The lookups before and after that of the shopping list, in their order. -/
def structuredHouseholdAnswer (earlier later : List AnswerStage)
    (derived : DerivedTable → List DerivedRow) (query : String) : Option Answer :=
  (earlier ++ shoppingListStage :: later).findSome? fun stage => stage.answer derived query

theorem structuredHouseholdAnswer_sources {earlier later : List AnswerStage}
    {derived : DerivedTable → List DerivedRow} {query : String} {found : Answer}
    (h : structuredHouseholdAnswer earlier later derived query = some found) :
    ∀ id ∈ found.sources, ∃ table, ∃ row ∈ derived table, row.sourceMemoryId = id := by
  obtain ⟨stage, _, hfound⟩ := List.exists_of_findSome?_eq_some h
  exact stage.fromRows derived query found hfound

end GenieClaw.Memory
