import GenieClaw.Library.Machine
import GenieClaw.Memory.Canonical
import GenieClaw.Memory.Rows

/-!
# The store with its canonical files

The operations of `memory/mod.rs` once more, now with what they write to the canonical files and
with the column `display_order`, which only the files depend on. What touches the database alone
is taken from the store as it is. A change of the files that fails is not followed further: the
state after a call that fails is not looked at.
-/

namespace GenieClaw.Memory

open Library Library.Program Library.Text

/-- The default of the column. -/
def lastPlace : Nat := 2147483647

structure DurableStore where
  conn : Connection := {}
  /-- `display_order`, by the id of the memory. -/
  displayOrder : Nat → Nat := fun _ => lastPlace
  dir : CanonicalDir := {}

def DurableStore.memories (s : DurableStore) : List MemoryEntry := s.conn.db.memories

abbrev DurableOp := Program DurableStore MemoryError

/-- An operation that does not change the files. -/
def onConn {α : Type} (x : Op α) : DurableOp α := fun s =>
  ((x s.conn).1, { s with conn := (x s.conn).2 })

def place (id order : Nat) : DurableOp Unit := fun s =>
  (.ok (), { s with displayOrder := Function.update s.displayOrder id order })

def replaceFiles (records : List MemoryEntry) : DurableOp Unit := fun s =>
  (.ok (), { s with dir := exportDir records })

/-- `ORDER BY display_order ASC, accessed_ms DESC, id ASC`. -/
def exportedBefore (displayOrder : Nat → Nat) (a b : MemoryEntry) : Bool :=
  displayOrder a.id < displayOrder b.id || (displayOrder a.id = displayOrder b.id &&
    (b.accessedMs < a.accessedMs || (a.accessedMs = b.accessedMs && a.id ≤ b.id)))

def promotedRecords : DurableOp (List MemoryEntry) := fun s =>
  onConn (query fun db => (db.memories.filter MemoryEntry.promoted).insertionSort
    fun a b => exportedBefore s.displayOrder a b = true) s

def Database.promote (db : Database) (id : Nat) : Database :=
  { db with
    memories := db.memories.map fun m => if m.id = id then { m with promoted := true } else m }

namespace Durable

def rebuildRootMemoryFile : DurableOp Unit := do
  let records ← promotedRecords
  onConn changeFiles
  replaceFiles records

/-! ## Promoting and reordering -/

/-- The memories that are found, which are the events to be recorded. -/
def promoteEach : List Nat → DurableOp (List MemoryEntry)
  | [] => pure []
  | id :: rest => do
    onConn (execute fun db => db.promote id)
    let entry ← onConn (query fun db => db.getById id)
    let events ← promoteEach rest
    pure (entry.toList ++ events)

def markPromotedMany (ids : List Nat) : DurableOp Unit := do
  let events ← promoteEach ids
  if events = [] then pure ()
  else do
    rebuildRootMemoryFile
    events.forM fun _ => onConn recordCanonicalEvent

def moveTo (place' : Nat × Nat) : DurableOp Unit := do
  onConn (execute id)
  place place'.1 place'.2

def reorderManaged (ids : List Nat) : DurableOp Unit := do
  ids.zipIdx.forM moveTo
  rebuildRootMemoryFile

/-! ## Removing -/

def recordChange : DurableOp Unit := do
  onConn recordCanonicalEvent
  onConn appendDailyNote

def updateCanonicalFiles (entry : MemoryEntry) : DurableOp Unit :=
  if entry.promoted then do
    rebuildRootMemoryFile
    recordChange
  else recordChange

def forgetDerived (entry : MemoryEntry) (id : Nat) : DurableOp Unit := do
  onConn (DerivedTable.all.forM fun table => execute fun db => db.deleteDerived table id)
  updateCanonicalFiles entry

def forgetExisting (existing : Option MemoryEntry) (deleted id : Nat) : DurableOp Unit :=
  match existing with
  | some entry => if 0 < deleted then forgetDerived entry id else pure ()
  | none => pure ()

def deleteById (id : Nat) : DurableOp Bool := do
  let existing ← onConn (query fun db => db.getById id)
  let deleted ← onConn (statement fun db =>
    ((db.memories.filter fun m => m.id = id).length, db.deleteMemories fun m => m.id = id))
  forgetExisting existing deleted id
  pure (0 < deleted : Bool)

section

variable (tools : TextTools)

/-! ## Creating and replacing -/

def storeAs (evergreen : Bool) (kind content : String) : DurableOp Nat := do
  let id ← onConn (Memory.storeAs tools evergreen kind content)
  place id lastPlace
  pure id

def deleteSuperseded (slot content : String) (existing : MemoryEntry) : DurableOp Bool :=
  if existing.superseded tools slot content then deleteById existing.id else pure false

def replaceSlot (slot content : String) : List MemoryEntry → DurableOp Nat
  | [] => pure 0
  | existing :: rest => do
    let deleted ← deleteSuperseded tools slot content existing
    let replaced ← replaceSlot slot content rest
    pure (if deleted then replaced + 1 else replaced)

def clearSlot (kind content : String) : Option String → DurableOp Nat
  | none => pure 0
  | some slot => do
    let existing ← onConn (query fun db => db.getByKind kind 100)
    replaceSlot tools slot content existing

def storeResolved (kind content : String) : DurableOp StoreOutcome := do
  let content := normalizeMemoryContent content
  let slot := memorySlot tools kind content
  let duplicate ← onConn (isDuplicate tools slot content)
  if duplicate then pure ⟨none, 0, true⟩
  else do
    let replaced ← clearSlot tools kind content slot
    let id ← storeAs tools false kind content
    pure ⟨some id, replaced, false⟩

/-! ## Editing -/

def rederive (existing : MemoryEntry) (updated id : Nat) (kind content : String) : DurableOp Unit :=
  if 0 < updated then do
    onConn (DerivedTable.all.forM (upsertNow tools id kind content (inferMetadata kind content)))
    updateCanonicalFiles existing
  else pure ()

def writeManaged (existing : MemoryEntry) (id : Nat) (kind content : String) : DurableOp Bool := do
  let updated ← onConn (statement fun db =>
    ((db.memories.filter fun m => m.id = id).length,
      db.updateMemory id kind content (inferMetadata kind content)))
  rederive tools existing updated id kind content
  pure (0 < updated : Bool)

def updateExisting (existing : MemoryEntry) (id : Nat) (content : String) (kind : Option String) :
    DurableOp Bool :=
  let content := normalizeMemoryContent content
  if content = "" then fail (.bail "memory content cannot be empty")
  else match nextKind existing kind with
    | .error e => fail e
    | .ok kind =>
      let decision := assessMemoryWrite kind content
      if decision.allowed = false then fail (.bail decision.reason)
      else if existing.kind = kind ∧ existing.content = content ∧
          existing.metadata = inferMetadata kind content then pure true
      else writeManaged tools existing id kind content

def updateManaged (id : Nat) (content : String) (kind : Option String) : DurableOp Bool := do
  let existing ← onConn (query fun db => db.getById id)
  match existing with
  | none => pure false
  | some existing => updateExisting tools existing id content kind

end

end Durable

/-! ## Calls -/

inductive DurableCommand where
  | store (kind content : String)
  | storeEvergreen (kind content : String)
  | storeResolved (kind content : String)
  | updateManaged (id : Nat) (content : String) (kind : Option String)
  | deleteById (id : Nat)
  | markPromotedMany (ids : List Nat)
  | reorderManaged (ids : List Nat)
  | pruneDecayed (decayed : Nat → Nat → Bool)
  | pruneStale (maxAgeDays : UInt32)
  | reopen (migrate rederive : Bool)

structure DurableCall where
  command : DurableCommand
  sql : List Bool := []
  files : List Bool := []
  clock : List Nat := []

def DurableCall.connect (call : DurableCall) (s : DurableStore) : DurableStore :=
  { s with conn := { db := s.conn.db, sql := call.sql, files := call.files, clock := call.clock } }

section

variable (tools : TextTools)

/-- The operation, without what it returns. -/
def performDurable : DurableCommand → DurableOp Unit
  | .store kind content => (fun _ => ()) <$> Durable.storeAs tools false kind content
  | .storeEvergreen kind content => (fun _ => ()) <$> Durable.storeAs tools true kind content
  | .storeResolved kind content => (fun _ => ()) <$> Durable.storeResolved tools kind content
  | .updateManaged id content kind => (fun _ => ()) <$> Durable.updateManaged tools id content kind
  | .deleteById id => (fun _ => ()) <$> Durable.deleteById id
  | .markPromotedMany ids => Durable.markPromotedMany ids
  | .reorderManaged ids => Durable.reorderManaged ids
  | .pruneDecayed decayed => (fun _ => ()) <$> onConn (pruneDecayed decayed)
  | .pruneStale maxAgeDays => (fun _ => ()) <$> onConn (pruneStale maxAgeDays)
  | .reopen migrate rederive => onConn (reopen tools migrate rederive)

def durableMachine : Machine DurableStore DurableCall (Except MemoryError Unit) where
  step s call := performDurable tools call.command (call.connect s)

end

end GenieClaw.Memory
