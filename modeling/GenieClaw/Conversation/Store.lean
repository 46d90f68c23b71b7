import GenieClaw.Library.Newest
import GenieClaw.Library.Session
import Mathlib.Data.Prod.Lex

/-!
# The conversation store

`conversation.rs`: the tables `conversations` and `messages` and the operations on them. A
message refers to its conversation, and the bundled database enforces that it is there.
-/

namespace GenieClaw.Conversation

open Library Library.Program Library.Session

structure ConversationRow where
  id : String
  title : String
  createdMs : Int
  updatedMs : Int
deriving DecidableEq

/-- What the turns of every channel append to `messages`. -/
structure MessageRow where
  convId : String
  role : String
  content : String
  toolName : Option String := none
  speaker : Option String := none
deriving DecidableEq

/-- A row of `messages`. -/
structure StoredRow where
  id : Nat
  message : MessageRow
  tsMs : Int
deriving DecidableEq

structure Tables where
  conversations : List ConversationRow := []
  /-- In the order of their ids. -/
  messages : List StoredRow := []
deriving DecidableEq

/-- One message of `ensure_and_append_batch`. -/
structure BatchMessage where
  role : String
  content : String
  toolName : Option String := none
  speaker : Option String := none

def BatchMessage.row (convId : String) (m : BatchMessage) : MessageRow :=
  ⟨convId, m.role, m.content, m.toolName, m.speaker⟩

namespace Tables

variable (db : Tables)

/-- The row id that SQLite gives to the next message. -/
def nextId : Nat := (db.messages.map StoredRow.id).foldr max 0 + 1

def hasConversation (id : String) : Bool := db.conversations.any fun c => c.id = id

/-- `INSERT INTO conversations`. -/
def insertConversation (row : ConversationRow) : Option (Unit × Tables) :=
  if db.hasConversation row.id then none
  else some ((), { db with conversations := db.conversations ++ [row] })

/-- `INSERT OR IGNORE INTO conversations`. -/
def ensureConversation (row : ConversationRow) : Tables :=
  if db.hasConversation row.id then db
  else { db with conversations := db.conversations ++ [row] }

/-- `INSERT INTO messages`: the conversation has to be there. -/
def insertMessage (message : MessageRow) (tsMs : Int) : Option (Unit × Tables) :=
  if db.hasConversation message.convId then
    some ((), { db with messages := db.messages ++ [⟨db.nextId, message, tsMs⟩] })
  else none

def messagesOf (convId : String) : List StoredRow :=
  db.messages.filter fun m => m.message.convId = convId

def countUserMessages (convId : String) : Nat :=
  db.messages.countP fun m => m.message.convId = convId && m.message.role = "user"

def updateConversation (id : String) (f : ConversationRow → ConversationRow) : Tables :=
  { db with conversations := db.conversations.map fun c => if c.id = id then f c else c }

def deleteMessages (p : StoredRow → Bool) : Tables :=
  { db with messages := db.messages.filter fun m => !p m }

/-- `DELETE FROM conversations WHERE id NOT IN (SELECT DISTINCT conv_id FROM messages)`. -/
def deleteOrphans : Tables :=
  { db with conversations := db.conversations.filter fun c => (db.messagesOf c.id) ≠ [] }

end Tables

abbrev Op := Program (Session Tables) SqlError

/-! ## Titles -/

/-- The characters that fit into the budget of bytes. -/
def takeBytes : Nat → List Char → List Char
  | _, [] => []
  | budget, c :: cs => if c.utf8Size ≤ budget then c :: takeBytes (budget - c.utf8Size) cs else []

def truncateAtCharBoundary (text : String) (maxBytes : Nat) : String :=
  String.ofList (takeBytes maxBytes text.toList)

/-- The title that the first message of the user gives. -/
def titleOf (content : String) : String :=
  if 60 < content.utf8ByteSize then truncateAtCharBoundary content 57 ++ "..." else content

/-! ## Writing -/

def generateId (ts : Int) : String := "conv-" ++ String.ofList (Nat.toDigits 16 ts.toNat)

def create : Op String := do
  let ts ← nowMs
  let now ← nowMs
  statement fun db => db.insertConversation ⟨generateId ts, "New conversation", now, now⟩
  pure (generateId ts)

def ensure (id title : String) : Op Unit := do
  let now ← nowMs
  execute fun db => db.ensureConversation ⟨id, title, now, now⟩

/-- The end of `append`: the title of the first message of the user, or the time alone. -/
def touchConversation (message : MessageRow) (now : Int) (count : Nat) : Op Unit :=
  if count = 1 ∧ message.role = "user" then
    execute fun db => db.updateConversation message.convId fun c =>
      { c with title := titleOf message.content, updatedMs := now }
  else execute fun db => db.updateConversation message.convId fun c => { c with updatedMs := now }

def append (message : MessageRow) : Op Unit := do
  let now ← nowMs
  statement fun db => db.insertMessage message now
  let count ← query fun db => db.countUserMessages message.convId
  touchConversation message now count

/-! ## Writing a batch -/

/-- `prior_user_count` and `title_from_first_user`. -/
structure BatchState where
  priorUserCount : Nat
  titleFromFirstUser : Option String := none

def BatchState.next (state : BatchState) (m : BatchMessage) : BatchState :=
  if m.role = "user" then
    { priorUserCount := state.priorUserCount + 1
      titleFromFirstUser :=
        if state.priorUserCount + 1 = 1 then some (titleOf m.content)
        else state.titleFromFirstUser }
  else state

def insertBatch (convId : String) (now : Int) : BatchState → List BatchMessage → Op BatchState
  | state, [] => pure state
  | state, m :: rest => do
    statement fun db => db.insertMessage (m.row convId) now
    insertBatch convId now (state.next m) rest

def finishBatch (convId : String) (now : Int) (messages : List BatchMessage) :
    Option String → Op Unit
  | some title => execute fun db => db.updateConversation convId fun c =>
      { c with title, updatedMs := now }
  | none =>
    if messages = [] then pure ()
    else execute fun db => db.updateConversation convId fun c => { c with updatedMs := now }

def appendBatch (convId title : String) (messages : List BatchMessage) : Op Unit := do
  let now ← nowMs
  execute fun db => db.ensureConversation ⟨convId, title, now, now⟩
  let count ← query fun db => db.countUserMessages convId
  let state ← insertBatch convId now ⟨count, none⟩ messages
  finishBatch convId now messages state.titleFromFirstUser

def ensureAndAppendBatch (convId title : String) (messages : List BatchMessage) : Op Unit :=
  transaction (appendBatch convId title messages)

/-! ## Reading -/

/-- The key of `ORDER BY ts_ms, id`. -/
def StoredRow.key (m : StoredRow) : Int ×ₗ Nat := toLex (m.tsMs, m.id)

/-- `get_messages`. -/
def Tables.getMessages (db : Tables) (convId : String) : List StoredRow :=
  (db.messagesOf convId).insertionSort fun a b => a.key ≤ b.key

/-! ## Pruning -/

/-- `max_messages_per_conversation as i64`. -/
def asI64 (n : UInt64) : Int := n.toInt64.toInt

/-- `LIMIT`: a negative one is none. -/
def limited {α : Type} (limit : Int) (rows : List α) : List α :=
  if limit < 0 then rows else rows.take limit.toNat

/-- The rows that the pass over a conversation leaves. -/
def Tables.newestOf (db : Tables) (convId : String) (limit : Int) : List Nat :=
  (limited limit (newestFirst StoredRow.key (db.messagesOf convId))).map StoredRow.id

def Tables.overLimit (db : Tables) (limit : Int) : List String :=
  (db.conversations.map ConversationRow.id).filter fun id =>
    limit < ((db.messagesOf id).length : Int)

def deleteCounted (p : Tables → StoredRow → Bool) : Op Nat :=
  statement fun db => some ((db.messages.filter (p db)).length, db.deleteMessages (p db))

def pruneAge (retentionDays : UInt32) : Op Nat :=
  if 0 < retentionDays.toNat then do
    let now ← nowMs
    let cutoff := now - retentionDays.toNat * 86400000
    let deleted ← deleteCounted fun _ m => m.tsMs < cutoff
    execute Tables.deleteOrphans
    pure deleted
  else pure 0

def pruneEach (limit : Int) : List String → Op Nat
  | [] => pure 0
  | convId :: rest => do
    let deleted ← deleteCounted fun db m =>
      m.message.convId = convId && !(db.newestOf convId limit).contains m.id
    let others ← pruneEach limit rest
    pure (deleted + others)

def pruneCap (maxMessages : UInt64) : Op Nat :=
  if 0 < maxMessages.toNat then do
    let overLimit ← query fun db => db.overLimit (asI64 maxMessages)
    pruneEach (asI64 maxMessages) overLimit
  else pure 0

def prunePasses (retentionDays : UInt32) (maxMessages : UInt64) : Op Nat := do
  let aged ← pruneAge retentionDays
  let capped ← pruneCap maxMessages
  pure (aged + capped)

def pruneOldTurns (retentionDays : UInt32) (maxMessages : UInt64) : Op Nat := do
  let deleted ← transaction (prunePasses retentionDays maxMessages)
  -- the checkpoint of the log
  execute id
  pure deleted

end GenieClaw.Conversation
