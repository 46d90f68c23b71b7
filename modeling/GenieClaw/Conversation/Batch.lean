import GenieClaw.Conversation.Store

/-!
# A batch against one message at a time

`ensure_and_append_batch` counts the messages of the user beforehand and gives the title at the
end; `append` counts after every message and gives the title at once. The two are compared on
the tables without their times.

* `appendAll_eq`: after every message, what the single writes have left is what the batch has, with
  the title that is due by then.
* `batch_agrees` (no assumption on the tables): the two leave the same, and a batch that fails
  leaves the tables alone.
-/

namespace GenieClaw.Conversation

open Library Library.Program Library.Session List

/-- The conversation if it is absent, and then the messages one by one. -/
def ensureAndAppendEach (convId title : String) (messages : List BatchMessage) : Op Unit := do
  ensure convId title
  messages.forM fun m => append (m.row convId)

/-! ## The tables without their times -/

structure Untimed where
  /-- Ids and titles. -/
  conversations : List (String × String)
  messages : List (Nat × MessageRow)
deriving DecidableEq

def Tables.untimed (db : Tables) : Untimed where
  conversations := db.conversations.map fun c => (c.id, c.title)
  messages := db.messages.map fun m => (m.id, m.message)

namespace Untimed

variable (u : Untimed)

def ensure (id title : String) : Untimed :=
  if u.conversations.any fun c => c.1 = id then u
  else { u with conversations := u.conversations ++ [(id, title)] }

def insert (message : MessageRow) : Untimed :=
  { u with messages := u.messages ++ [((u.messages.map Prod.fst).foldr max 0 + 1, message)] }

def countUser (convId : String) : Nat :=
  u.messages.countP fun m => m.2.convId = convId && m.2.role = "user"

def retitle (id : String) : Option String → Untimed
  | none => u
  | some title =>
    { u with conversations := u.conversations.map fun c => if c.1 = id then (c.1, title) else c }

def append (message : MessageRow) : Untimed :=
  if (u.insert message).countUser message.convId = 1 ∧ message.role = "user" then
    (u.insert message).retitle message.convId (some (titleOf message.content))
  else u.insert message

variable {u}

theorem retitle_retitle (id : String) (first : Option String) (title : String) :
    (u.retitle id first).retitle id (some title) = u.retitle id (some title) := by
  cases first with
  | none => rfl
  | some first =>
    simp only [retitle, map_map, Untimed.mk.injEq, and_true]
    refine map_congr_left fun c _ => ?_
    by_cases hid : c.1 = id
    · simp [hid]
    · simp [hid]

theorem insert_retitle (id : String) (title : Option String) (message : MessageRow) :
    (u.retitle id title).insert message = (u.insert message).retitle id title := by
  cases title <;> rfl

theorem countUser_retitle (id convId : String) (title : Option String) :
    (u.retitle id title).countUser convId = u.countUser convId := by
  cases title <;> rfl

theorem countUser_insert (message : MessageRow) : (u.insert message).countUser message.convId =
    u.countUser message.convId + if message.role = "user" then 1 else 0 := by
  unfold countUser insert
  rw [countP_append, countP_singleton]
  simp

/-- What the batch has inserted so far with the title that is due is what the single writes have
left. -/
theorem appendAll_eq (convId : String) (messages : List BatchMessage) (u : Untimed)
    (title : Option String) :
    messages.foldl (fun u m => u.append (m.row convId)) (u.retitle convId title) =
      (messages.foldl (fun u m => u.insert (m.row convId)) u).retitle convId
        (messages.foldl BatchState.next ⟨u.countUser convId, title⟩).titleFromFirstUser := by
  induction messages generalizing u title with
  | nil => rfl
  | cons m rest ih =>
    have hconv : (m.row convId).convId = convId := rfl
    have hrole : (m.row convId).role = m.role := rfl
    have hcount := countUser_insert (u := u) (m.row convId)
    rw [hconv, hrole] at hcount
    rw [foldl_cons, foldl_cons, foldl_cons, append, insert_retitle, hconv, hrole,
      countUser_retitle, BatchState.next]
    by_cases huser : m.role = "user"
    · rw [if_pos huser] at hcount
      rw [if_pos huser, ← hcount]
      by_cases hfirst : (u.insert (m.row convId)).countUser convId = 1
      · rw [if_pos ⟨hfirst, huser⟩, if_pos hfirst, retitle_retitle]
        exact ih _ _
      · rw [if_neg fun h => hfirst h.1, if_neg hfirst]
        exact ih _ _
    · rw [if_neg huser, Nat.add_zero] at hcount
      rw [if_neg fun h => huser h.2, if_neg huser, ← hcount]
      exact ih _ _

end Untimed

/-! ## What the statements do to the tables without their times -/

variable {message : MessageRow}

section

variable {db : Tables}

theorem untimed_updateConversation_touch (id : String) (now : Int) :
    (db.updateConversation id fun c => { c with updatedMs := now }).untimed = db.untimed := by
  simp only [Tables.untimed, Tables.updateConversation, map_map, Untimed.mk.injEq, and_true]
  refine map_congr_left fun c _ => ?_
  dsimp only [Function.comp]
  split <;> rfl

theorem untimed_updateConversation_title (id title : String) (now : Int) :
    (db.updateConversation id fun c => { c with title, updatedMs := now }).untimed =
      db.untimed.retitle id (some title) := by
  simp only [Tables.untimed, Tables.updateConversation, Untimed.retitle, map_map,
    Untimed.mk.injEq, and_true]
  refine map_congr_left fun c _ => ?_
  dsimp only [Function.comp]
  split <;> rfl

theorem untimed_ensureConversation (row : ConversationRow) :
    (db.ensureConversation row).untimed = db.untimed.ensure row.id row.title := by
  have hany : (db.untimed.conversations.any fun c => c.1 = row.id) = db.hasConversation row.id := by
    rw [Tables.untimed, any_map]
    rfl
  unfold Tables.ensureConversation Untimed.ensure
  rw [hany]
  split
  · rfl
  · simp [Tables.untimed]

theorem untimed_insertMessage {now : Int} {a : Unit} {db' : Tables}
    (h : db.insertMessage message now = some (a, db')) :
    db'.untimed = db.untimed.insert message := by
  unfold Tables.insertMessage at h
  split at h
  · obtain ⟨-, rfl⟩ := Prod.mk.inj (Option.some.inj h)
    have hids : db.untimed.messages.map Prod.fst = db.messages.map StoredRow.id := by
      rw [Tables.untimed, map_map]
      rfl
    unfold Untimed.insert
    rw [hids]
    simp [Tables.untimed, Tables.nextId]
  · cases h

theorem untimed_countUser (convId : String) :
    db.untimed.countUser convId = db.countUserMessages convId := by
  rw [Untimed.countUser, Tables.untimed, countP_map]
  rfl

end

/-! ## The two programs -/

/-- Where it succeeds, the operation takes these tables to those. -/
def Takes {α : Type} (u : Untimed) (x : Op α) (v : α → Untimed) : Prop :=
  Triple (fun s => s.db.untimed = u) x (fun a s => s.db.untimed = v a) fun _ _ => True

namespace Takes

variable {α β : Type} {u : Untimed}

protected theorem bind {x : Op α} {f : α → Op β} {v : α → Untimed} {w : β → Untimed}
    (hx : Takes u x v) (hf : ∀ a, Takes (v a) (f a) w) : Takes u (x >>= f) w :=
  Triple.bind hx hf

protected theorem pure {a : α} : Takes u (pure a) fun _ => u := Triple.pure fun _ h => h

theorem execute {f : Tables → Tables} {v : Untimed}
    (h : ∀ db, db.untimed = u → (f db).untimed = v) : Takes u (Session.execute f) fun _ => v :=
  (execute_spec (P := fun db => db.untimed = u) (Q := fun db => db.untimed = v)
    (E := fun _ => True) h fun _ _ => trivial).weaken
    (fun _ h => h) (fun _ _ h => h) fun _ _ h => h

theorem insert (message : MessageRow) (now : Int) :
    Takes u (statement fun db => db.insertMessage message now) fun _ => u.insert message :=
  (statement_spec (P := fun db => db.untimed = u)
    (Q := fun _ db => db.untimed = u.insert message) (E := fun _ => True)
    (fun _ hdb _ _ hf => by rw [untimed_insertMessage hf, hdb]) fun _ _ => trivial).weaken
    (fun _ h => h) (fun _ _ h => h) fun _ _ h => h

theorem nowMs : Takes u Session.nowMs fun _ => u := fun _ h => h

theorem bind_count {convId : String} {f : Nat → Op β} {w : β → Untimed}
    (hf : Takes u (f (u.countUser convId)) w) :
    Takes u ((query fun db => db.countUserMessages convId) >>= f) w := by
  have hquery : Triple (fun s : Session Tables => s.db.untimed = u)
      (query fun db => db.countUserMessages convId)
      (fun count s => s.db.untimed = u ∧ count = u.countUser convId) fun _ _ => True :=
    (query_spec (P := fun db => db.untimed = u) _).weaken (fun _ h => h)
      (fun _ s h => ⟨h.1, by rw [h.2, ← h.1, untimed_countUser]⟩) fun _ _ _ => trivial
  refine Triple.bind hquery fun count => ?_
  rintro s ⟨hs, rfl⟩
  exact hf s hs

end Takes

section

variable {u : Untimed}

theorem append_takes (message : MessageRow) :
    Takes u (append message) fun _ => u.append message := by
  refine Takes.bind Takes.nowMs fun now => Takes.bind (Takes.insert message now) fun _ => ?_
  refine Takes.bind_count ?_
  unfold touchConversation Untimed.append
  split
  · refine Takes.execute fun db hdb => ?_
    rw [untimed_updateConversation_title, hdb]
  · refine Takes.execute fun db hdb => ?_
    rw [untimed_updateConversation_touch, hdb]

theorem ensure_takes (id title : String) : Takes u (ensure id title) fun _ => u.ensure id title :=
  Takes.bind Takes.nowMs fun now => Takes.execute fun db hdb => by
    rw [untimed_ensureConversation, hdb]

theorem each_takes (convId title : String) (messages : List BatchMessage) :
    Takes u (ensureAndAppendEach convId title messages) fun _ =>
      messages.foldl (fun u m => u.append (m.row convId)) (u.ensure convId title) := by
  refine Takes.bind (ensure_takes convId title) fun _ => ?_
  generalize u.ensure convId title = u
  induction messages generalizing u with
  | nil => exact Takes.pure
  | cons m rest ih => exact Takes.bind (append_takes _) fun _ => ih _

theorem insertBatch_takes (convId : String) (now : Int) (state : BatchState)
    (messages : List BatchMessage) :
    Triple (fun s => s.db.untimed = u) (insertBatch convId now state messages)
      (fun final s => s.db.untimed = messages.foldl (fun u m => u.insert (m.row convId)) u ∧
        final = messages.foldl BatchState.next state) fun _ _ => True := by
  induction messages generalizing u state with
  | nil => exact Triple.pure fun _ h => ⟨h, rfl⟩
  | cons m rest ih => exact Triple.bind (Takes.insert _ now) fun _ => ih _

theorem finishBatch_takes (convId : String) (now : Int) (messages : List BatchMessage)
    (title : Option String) :
    Takes u (finishBatch convId now messages title) fun _ => u.retitle convId title := by
  cases title with
  | some title =>
    refine Takes.execute fun db hdb => ?_
    rw [untimed_updateConversation_title, hdb]
  | none =>
    unfold finishBatch
    dsimp only
    split
    · exact Takes.pure
    · refine Takes.execute fun db hdb => ?_
      rw [untimed_updateConversation_touch, hdb]
      rfl

theorem appendBatch_takes (convId title : String) (messages : List BatchMessage) :
    Takes u (appendBatch convId title messages) fun _ =>
      messages.foldl (fun u m => u.append (m.row convId)) (u.ensure convId title) := by
  refine Takes.bind Takes.nowMs fun now => ?_
  have hensure : Takes u
      (Session.execute fun db => db.ensureConversation ⟨convId, title, now, now⟩)
      fun _ => u.ensure convId title :=
    Takes.execute fun db hdb => by rw [untimed_ensureConversation, hdb]
  refine Takes.bind hensure fun _ => Takes.bind_count ?_
  refine Triple.bind (insertBatch_takes convId now _ messages) fun state => ?_
  rintro s ⟨hs, rfl⟩
  have hall := Untimed.appendAll_eq convId messages (u.ensure convId title) none
  have hfinish := finishBatch_takes convId now messages (messages.foldl BatchState.next
    ⟨(u.ensure convId title).countUser convId, none⟩).titleFromFirstUser s hs
  rw [← hall] at hfinish
  exact hfinish

end

/-! ## Succeeding -/

theorem hasConversation_ensure (db : Tables) (row : ConversationRow) :
    (db.ensureConversation row).hasConversation row.id = true := by
  unfold Tables.ensureConversation
  split
  · rename_i h
    exact h
  · simp [Tables.hasConversation]

theorem hasConversation_update {db : Tables} {convId id : String}
    {f : ConversationRow → ConversationRow} (hf : ∀ c, (f c).id = c.id)
    (h : db.hasConversation convId = true) :
    (db.updateConversation id f).hasConversation convId = true := by
  unfold Tables.hasConversation Tables.updateConversation at *
  rw [any_map]
  obtain ⟨c, hc, hid⟩ := List.any_eq_true.mp h
  refine List.any_eq_true.mpr ⟨c, hc, ?_⟩
  dsimp only [Function.comp]
  split
  · rw [hf]
    exact hid
  · exact hid

/-- In a smooth session with the conversation there, the operation succeeds. -/
def Works {α : Type} (convId : String) (x : Op α) : Prop :=
  Triple (fun s => s.db.hasConversation convId = true ∧ s.Smooth) x
    (fun _ s => s.db.hasConversation convId = true ∧ s.Smooth) fun _ _ => False

section

variable {convId : String}

theorem Works.insert (now : Int) (hconv : message.convId = convId) :
    Works convId (statement fun db => db.insertMessage message now) := by
  refine statement_smooth (P := fun db : Tables => db.hasConversation convId = true)
    (Q := fun _ (db : Tables) => db.hasConversation convId = true) fun db hdb => ?_
  rw [← hconv] at hdb
  exact ⟨(), _, if_pos hdb, hconv ▸ hdb⟩

theorem Works.update {id : String} {f : ConversationRow → ConversationRow}
    (hf : ∀ c, (f c).id = c.id) : Works convId (execute fun db => db.updateConversation id f) :=
  execute_smooth (P := fun db : Tables => db.hasConversation convId = true)
    (Q := fun db : Tables => db.hasConversation convId = true)
    fun _ hdb => hasConversation_update hf hdb

theorem Works.count {id : String} : Works convId (query fun db => db.countUserMessages id) :=
  query_smooth (P := fun db : Tables => db.hasConversation convId = true) _

theorem append_works (hconv : message.convId = convId) : Works convId (append message) := by
  refine Triple.bind (nowMs_smooth (P := fun db : Tables => db.hasConversation convId = true))
    fun now => ?_
  refine Triple.bind (Works.insert now hconv) fun _ => Triple.bind Works.count fun count => ?_
  unfold touchConversation
  split
  · exact Works.update fun _ => rfl
  · exact Works.update fun _ => rfl

theorem insertBatch_works (now : Int) (state : BatchState) (messages : List BatchMessage) :
    Works convId (insertBatch convId now state messages) := by
  induction messages generalizing state with
  | nil => exact Triple.pure fun _ h => h
  | cons m rest ih => exact Triple.bind (Works.insert now rfl) fun _ => ih _

theorem finishBatch_works (now : Int) (messages : List BatchMessage) (title : Option String) :
    Works convId (finishBatch convId now messages title) := by
  cases title with
  | some title => exact Works.update fun _ => rfl
  | none =>
    unfold finishBatch
    dsimp only
    split
    · exact Triple.pure fun _ h => h
    · exact Works.update fun _ => rfl

theorem ensure_smooth (title : String) (now : Int) :
    Triple (fun s : Session Tables => True ∧ s.Smooth)
      (execute fun db => db.ensureConversation ⟨convId, title, now, now⟩)
      (fun _ s => s.db.hasConversation convId = true ∧ s.Smooth) fun _ _ => False :=
  execute_smooth (P := fun _ => True) (Q := fun db : Tables => db.hasConversation convId = true)
    fun db _ => hasConversation_ensure db ⟨convId, title, now, now⟩

theorem batch_works (title : String) (messages : List BatchMessage) :
    Triple (fun s => True ∧ s.Smooth) (ensureAndAppendBatch convId title messages)
      (fun _ s => s.db.hasConversation convId = true ∧ s.Smooth) fun _ _ => False := by
  refine transaction_smooth (P := fun _ => True)
    (Q := fun _ (db : Tables) => db.hasConversation convId = true) ?_
  refine Triple.bind (nowMs_smooth (P := fun _ => True)) fun now => ?_
  refine Triple.bind (ensure_smooth title now) fun _ => ?_
  refine Triple.bind Works.count fun count => ?_
  exact Triple.bind (insertBatch_works now _ messages) fun state => finishBatch_works now messages _

theorem each_works (title : String) (messages : List BatchMessage) :
    Triple (fun s => True ∧ s.Smooth) (ensureAndAppendEach convId title messages)
      (fun _ s => s.db.hasConversation convId = true ∧ s.Smooth) fun _ _ => False := by
  have hensure : Triple (fun s : Session Tables => True ∧ s.Smooth) (ensure convId title)
      (fun _ s => s.db.hasConversation convId = true ∧ s.Smooth) fun _ _ => False :=
    Triple.bind (nowMs_smooth (P := fun _ => True)) fun now => ensure_smooth title now
  refine Triple.bind hensure fun _ => ?_
  exact Triple.forM (fun _ (s : Session Tables) => s.db.hasConversation convId = true ∧ s.Smooth)
    fun m _ _ => append_works rfl

end

/-! ## Agreement -/

/-- The rows of the conversation stand in the order of their times. -/
def Tables.InTimeOrder (db : Tables) (convId : String) : Prop :=
  (db.messagesOf convId).Pairwise fun a b => a.key ≤ b.key

theorem getMessages_of_inTimeOrder {db : Tables} {convId : String} (h : db.InTimeOrder convId) :
    (db.getMessages convId).map StoredRow.message =
      (db.untimed.messages.map Prod.snd).filter fun m => m.convId = convId := by
  have hsorted : db.getMessages convId = db.messagesOf convId := List.Pairwise.insertionSort_eq h
  rw [hsorted, Tables.messagesOf, Tables.untimed, map_map, filter_map]
  rfl

/-- From the same tables the batch leaves the messages, in their order, the title and the row of
the conversation that the single writes leave, and what a reader gets is the same as long as the
clock does not run backwards. Both succeed when their statements do. A batch that fails leaves
the tables as they were. -/
theorem batch_agrees (s t : Session Tables) (hdb : t.db = s.db) (convId title : String)
    (messages : List BatchMessage) :
    (s.Smooth → ∃ s', ensureAndAppendBatch convId title messages s = (.ok (), s')) ∧
    (t.Smooth → ∃ t', ensureAndAppendEach convId title messages t = (.ok (), t')) ∧
    (∀ s' t', ensureAndAppendBatch convId title messages s = (.ok (), s') →
      ensureAndAppendEach convId title messages t = (.ok (), t') →
      s'.db.untimed = t'.db.untimed ∧
        (s'.db.InTimeOrder convId → t'.db.InTimeOrder convId →
          (s'.db.getMessages convId).map StoredRow.message =
            (t'.db.getMessages convId).map StoredRow.message)) ∧
    ∀ e s', ensureAndAppendBatch convId title messages s = (.error e, s') → s'.db = s.db := by
  refine ⟨fun hsmooth => ?_, fun hsmooth => ?_, fun s' t' hbatch heach => ?_, fun e s' h => ?_⟩
  · have hworks := @batch_works convId title messages s ⟨trivial, hsmooth⟩
    rcases hrun : ensureAndAppendBatch convId title messages s with ⟨a | ⟨⟩, s'⟩
    · rw [hrun] at hworks
      exact hworks.elim
    · exact ⟨s', rfl⟩
  · have hworks := @each_works convId title messages t ⟨trivial, hsmooth⟩
    rcases hrun : ensureAndAppendEach convId title messages t with ⟨a | ⟨⟩, t'⟩
    · rw [hrun] at hworks
      exact hworks.elim
    · exact ⟨t', rfl⟩
  · have hleft : Takes s.db.untimed (ensureAndAppendBatch convId title messages) fun _ =>
        messages.foldl (fun u m => u.append (m.row convId)) (s.db.untimed.ensure convId title) :=
      (transaction_spec (P := fun db : Tables => db.untimed = s.db.untimed)
        (Q := fun _ (db : Tables) => db.untimed =
        messages.foldl (fun u m => u.append (m.row convId)) (s.db.untimed.ensure convId title))
        (appendBatch_takes convId title messages)).weaken (fun _ h => h) (fun _ _ h => h)
        fun _ _ _ => trivial
    have hs := hleft s rfl
    have ht := each_takes convId title messages t (congrArg Tables.untimed hdb)
    rw [hbatch] at hs
    rw [heach] at ht
    have hsame : s'.db.untimed = t'.db.untimed := hs.trans ht.symm
    refine ⟨hsame, fun hsorder htorder => ?_⟩
    rw [getMessages_of_inTimeOrder hsorder, getMessages_of_inTimeOrder htorder, hsame]
  · exact transaction_error h

theorem batch_agrees_greeting :
    ∃ s', ensureAndAppendBatch "a" "New conversation" [⟨"user", "hi", none, none⟩,
        ⟨"assistant", "hello", none, none⟩] { db := {}, clock := [7] } = (.ok (), s') ∧
      ∃ t', ensureAndAppendEach "a" "New conversation" [⟨"user", "hi", none, none⟩,
        ⟨"assistant", "hello", none, none⟩] { db := {}, clock := [7, 8, 9] } = (.ok (), t') ∧
      s'.db.untimed = t'.db.untimed := by
  obtain ⟨hbatch, heach, hsame, -⟩ := batch_agrees { db := {}, clock := [7] }
    { db := {}, clock := [7, 8, 9] } rfl "a" "New conversation"
    [⟨"user", "hi", none, none⟩, ⟨"assistant", "hello", none, none⟩]
  obtain ⟨s', hs'⟩ := hbatch fun _ h => absurd h not_mem_nil
  obtain ⟨t', ht'⟩ := heach fun _ h => absurd h not_mem_nil
  exact ⟨s', hs', t', ht', (hsame s' t' hs' ht').1⟩

end GenieClaw.Conversation
