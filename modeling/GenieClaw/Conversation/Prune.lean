import GenieClaw.Conversation.Batch
import Mathlib.Algebra.Group.Nat.Defs

/-!
# Pruning old turns

`prune_old_turns` deletes by age, then the conversations without messages, and then by count. The
pass over the conversations deletes every conversation without messages, whether it has lost
them to the pass before or has never had one.

* `prune_lawful_iff` (valid tables): pruning keeps its promises exactly if it goes by count alone or
  there is no conversation without messages.
-/

namespace GenieClaw.Conversation

open Library Library.Program Library.Session List Bool

/-! ## What is to be kept -/

/-- What the schema promises of the tables. -/
structure Tables.Valid (db : Tables) : Prop where
  messageIds : (db.messages.map StoredRow.id).Nodup
  conversationIds : (db.conversations.map ConversationRow.id).Nodup
  present : ∀ m ∈ db.messages, db.hasConversation m.message.convId = true
  messages_lt : db.messages.length < 2 ^ 63

def WithinAge (days : UInt32) (now : Int) (m : StoredRow) : Prop :=
  days.toNat = 0 ∨ now - days.toNat * 86400000 ≤ m.tsMs

/-- The messages of its conversation that are newer. -/
def Tables.newerThan (db : Tables) (m : StoredRow) : Nat :=
  (db.messagesOf m.message.convId).countP fun other => m.key < other.key

def WithinCount (db : Tables) (max : UInt64) (m : StoredRow) : Prop :=
  max.toNat = 0 ∨ db.newerThan m < max.toNat

instance (days : UInt32) (now : Int) (m : StoredRow) : Decidable (WithinAge days now m) :=
  inferInstanceAs (Decidable (_ ∨ _))

instance (db : Tables) (max : UInt64) (m : StoredRow) : Decidable (WithinCount db max m) :=
  inferInstanceAs (Decidable (_ ∨ _))

/-- What pruning is to leave. -/
structure Lawful (before after : Tables) (days : UInt32) (max : UInt64) (now : Int)
    (deleted : Nat) : Prop where
  kept : after.messages =
    before.messages.filter fun m => WithinAge days now m ∧ WithinCount before max m
  reported : deleted + after.messages.length = before.messages.length
  conversations : after.conversations.Sublist before.conversations
  /-- A conversation goes when its last message goes. -/
  gone : ∀ c ∈ before.conversations, c ∉ after.conversations →
    before.messagesOf c.id ≠ [] ∧ after.messagesOf c.id = []
  /-- A conversation that waits for its first message can have it. -/
  waiting : ∀ c ∈ before.conversations, before.messagesOf c.id = [] → ∀ message : MessageRow,
    message.convId = c.id → ∀ clock, ∃ s, append message { db := after, clock } = (.ok (), s)

/-! ## The pass by count -/

theorem asI64_of_lt {n : UInt64} (h : n.toNat < 2 ^ 63) : asI64 n = n.toNat := by
  unfold asI64
  rw [← Int64.toInt_toBitVec, UInt64.toBitVec_toInt64, BitVec.toInt_eq_toNat_of_lt]
  · rfl
  · simpa using (by omega : 2 * n.toNat < 2 ^ 64)

theorem asI64_neg {n : UInt64} (h : 2 ^ 63 ≤ n.toNat) : asI64 n < 0 := by
  unfold asI64
  rw [← Int64.toInt_toBitVec, UInt64.toBitVec_toInt64, BitVec.toInt_eq_toNat_cond]
  have hlt := n.toBitVec.isLt
  simp at *
  omega

variable {limit : Int}

section

variable {db : Tables} {m : StoredRow}

theorem mem_messagesOf : m ∈ db.messagesOf m.message.convId ↔ m ∈ db.messages := by
  simp [Tables.messagesOf]

theorem keys_nodup (h : (db.messages.map StoredRow.id).Nodup) (convId : String) :
    ((db.messagesOf convId).map StoredRow.key).Nodup := by
  have hids : ((db.messagesOf convId).map StoredRow.id).Nodup :=
    h.sublist (List.filter_sublist.map _)
  have hpair : ((db.messagesOf convId).map StoredRow.key).map (fun k => (ofLex k).2) =
      (db.messagesOf convId).map StoredRow.id := by
    rw [map_map]
    rfl
  rw [← hpair] at hids
  exact List.Nodup.of_map _ hids

theorem mem_newestOf (h : (db.messages.map StoredRow.id).Nodup) (hm : m ∈ db.messages) :
    m.id ∈ db.newestOf m.message.convId limit ↔
      limit < 0 ∨ (db.newerThan m : Int) < limit := by
  have hinj : ∀ rows : List StoredRow, rows ⊆ db.messages →
      (m.id ∈ rows.map StoredRow.id ↔ m ∈ rows) := by
    intro rows hrows
    constructor
    · intro hid
      obtain ⟨other, hother, heq⟩ := List.mem_map.mp hid
      rwa [← inj_on_of_nodup_map h (hrows hother) hm heq]
    · exact mem_map_of_mem
  have hsub : newestFirst StoredRow.key (db.messagesOf m.message.convId) ⊆ db.messages :=
    fun other hother => mem_of_mem_filter ((perm_insertionSort _ _).mem_iff.mp hother)
  unfold Tables.newestOf limited
  split
  · rename_i hneg
    rw [hinj _ hsub]
    have hmem : m ∈ newestFirst StoredRow.key (db.messagesOf m.message.convId) :=
      (perm_insertionSort _ _).mem_iff.mpr (mem_messagesOf.mpr hm)
    exact iff_of_true hmem (.inl hneg)
  · rw [hinj _ fun _ hother => hsub (mem_of_mem_take hother),
      mem_take_newest (keys_nodup h _), Tables.newerThan]
    have hmem := mem_messagesOf.mpr hm
    constructor
    · rintro ⟨-, hlt⟩
      omega
    · intro hlt
      exact ⟨hmem, by omega⟩

theorem newerThan_lt (hm : m ∈ db.messages) :
    db.newerThan m < (db.messagesOf m.message.convId).length := by
  have hle := countP_le_length (p := fun other : StoredRow => decide (m.key < other.key))
    (l := db.messagesOf m.message.convId)
  refine lt_of_le_of_ne hle fun heq => ?_
  have hself := List.countP_eq_length.mp heq m (mem_messagesOf.mpr hm)
  exact lt_irrefl _ (of_decide_eq_true hself)

theorem mem_overLimit {convId : String} :
    convId ∈ db.overLimit limit ↔ db.hasConversation convId = true ∧
      limit < ((db.messagesOf convId).length : Int) := by
  simp only [Tables.overLimit, List.mem_filter, mem_map, Tables.hasConversation,
    any_eq_true, decide_eq_true_eq]

theorem withinCount_iff (h : db.Valid) (hm : m ∈ db.messages) {max : UInt64}
    (hmax : 0 < max.toNat) :
    (m.message.convId ∉ db.overLimit (asI64 max) ∨
      m.id ∈ db.newestOf m.message.convId (asI64 max)) ↔ WithinCount db max m := by
  rw [mem_newestOf h.messageIds hm, mem_overLimit]
  have hnewer := newerThan_lt hm
  have hlength : (db.messagesOf m.message.convId).length ≤ db.messages.length :=
    length_filter_le ..
  have hlt := h.messages_lt
  have hpresent := h.present m hm
  unfold WithinCount
  by_cases hbig : 2 ^ 63 ≤ max.toNat
  · exact iff_of_true (.inr (.inl (asI64_neg hbig))) (.inr (by omega))
  · rw [asI64_of_lt (by omega)]
    constructor
    · rintro (hover | hneg | hcount)
      · have hle : ¬ (max.toNat : Int) < ((db.messagesOf m.message.convId).length : Int) :=
          fun hlimit => hover ⟨hpresent, hlimit⟩
        exact .inr (by omega)
      · omega
      · exact .inr (by omega)
    · rintro (hzero | hcount)
      · omega
      · exact .inr (.inr (by omega))

end

theorem deleteCounted_spec {db : Tables} (p : Tables → StoredRow → Bool) :
    Triple (fun s => s.db = db) (deleteCounted p)
      (fun n s => s.db = db.deleteMessages (p db) ∧
        n + s.db.messages.length = db.messages.length) fun _ _ => True := by
  refine (statement_spec (P := fun d => d = db) (E := fun _ => True)
    (Q := fun n d => d = db.deleteMessages (p db) ∧ n + d.messages.length = db.messages.length)
    (fun d hd n d' hf => ?_) fun _ _ => trivial).weaken (fun _ h => h) (fun _ _ h => h)
    fun _ _ h => h
  obtain ⟨rfl, rfl⟩ := Prod.mk.inj (Option.some.inj hf)
  subst hd
  refine ⟨rfl, ?_⟩
  exact (length_eq_length_filter_add (p d)).symm

theorem newestOf_deleteMessages {db : Tables} {convId other : String} (hne : other ≠ convId)
    (p : StoredRow → Bool) (limit : Int) :
    (db.deleteMessages fun m => m.message.convId = convId && p m).newestOf other limit =
      db.newestOf other limit := by
  have hrows : (db.deleteMessages fun m => m.message.convId = convId && p m).messagesOf other =
      db.messagesOf other := by
    unfold Tables.deleteMessages Tables.messagesOf
    rw [filter_filter]
    refine filter_congr fun m _ => ?_
    by_cases hm : m.message.convId = other
    · simp [hm, hne]
    · simp [hm]
  unfold Tables.newestOf
  rw [hrows]

/-- The tables after the pass over these conversations. -/
def Tables.capped (db : Tables) (limit : Int) (convIds : List String) : Tables :=
  { db with messages := db.messages.filter fun m =>
      m.message.convId ∉ convIds ∨ m.id ∈ db.newestOf m.message.convId limit }

theorem capped_cons {db : Tables} {convId : String} {rest : List String} (h : convId ∉ rest) :
    (db.deleteMessages fun m => m.message.convId = convId &&
      !(db.newestOf convId limit).contains m.id).capped limit rest =
      db.capped limit (convId :: rest) := by
  unfold Tables.capped
  congr 1
  have hrows : (db.deleteMessages fun m => m.message.convId = convId &&
      !(db.newestOf convId limit).contains m.id).messages = db.messages.filter fun m =>
        !(m.message.convId = convId && !(db.newestOf convId limit).contains m.id) := rfl
  rw [hrows, filter_filter]
  refine filter_congr fun m _ => ?_
  by_cases hm : m.message.convId = convId
  · simp [hm, h]
  · rw [newestOf_deleteMessages hm]
    simp [hm]

theorem pruneEach_spec {db : Tables} {convIds : List String} (h : convIds.Nodup) :
    Triple (fun s => s.db = db) (pruneEach limit convIds)
      (fun n s => s.db = db.capped limit convIds ∧
        n + s.db.messages.length = db.messages.length) fun _ _ => True := by
  induction convIds generalizing db with
  | nil =>
    refine Triple.pure ?_
    rintro s rfl
    simp [Tables.capped]
  | cons convId rest ih =>
    obtain ⟨hnotMem, hrest⟩ := List.nodup_cons.mp h
    refine Triple.bind (deleteCounted_spec _) fun first => ?_
    rintro s ⟨hdb, hfirst⟩
    refine Triple.bind (ih hrest) (fun others => Triple.pure ?_) s hdb
    rintro t ⟨ht, hothers⟩
    rw [capped_cons hnotMem] at ht
    rw [hdb] at hfirst
    exact ⟨ht, by omega⟩

/-- The tables after the pass by count. -/
def Tables.counted (db : Tables) (max : UInt64) : Tables :=
  { db with messages := db.messages.filter fun m => WithinCount db max m }

theorem pruneCap_spec {db : Tables} (h : db.Valid) (max : UInt64) :
    Triple (fun s => s.db = db) (pruneCap max)
      (fun n s => s.db = db.counted max ∧ n + s.db.messages.length = db.messages.length)
      fun _ _ => True := by
  unfold pruneCap
  split
  · rename_i hmax
    have hquery : Triple (fun s : Session Tables => s.db = db)
        (query fun db => db.overLimit (asI64 max))
        (fun ids s => s.db = db ∧ ids = db.overLimit (asI64 max)) fun _ _ => True :=
      (query_spec (P := fun d => d = db) _).weaken (fun _ h => h)
        (fun _ s h => ⟨h.1, by rw [h.2, h.1]⟩) fun _ _ _ => trivial
    refine Triple.bind hquery fun ids => ?_
    rintro s ⟨hdb, rfl⟩
    have hnodup : (db.overLimit (asI64 max)).Nodup := h.conversationIds.filter _
    have hcapped : db.capped (asI64 max) (db.overLimit (asI64 max)) = db.counted max := by
      unfold Tables.capped Tables.counted
      congr 1
      exact filter_congr fun m hm => decide_eq_decide.mpr (withinCount_iff h hm hmax)
    rw [← hcapped]
    exact pruneEach_spec hnodup s hdb
  · rename_i hmax
    have hall : db.counted max = db := by
      unfold Tables.counted
      rw [List.filter_eq_self.mpr fun m _ => decide_eq_true (.inl (by omega))]
    rw [hall]
    refine Triple.pure ?_
    rintro s rfl
    exact ⟨rfl, Nat.zero_add _⟩

/-! ## The pass by age -/

/-- The tables after the pass by age. -/
def Tables.aged (db : Tables) (days : UInt32) (now : Int) : Tables :=
  if 0 < days.toNat then
    (db.deleteMessages fun m => m.tsMs < now - days.toNat * 86400000).deleteOrphans
  else db

theorem aged_messages {db : Tables} (days : UInt32) (now : Int) :
    (db.aged days now).messages = db.messages.filter fun m => WithinAge days now m := by
  unfold Tables.aged
  split
  · rename_i hdays
    refine filter_congr fun m _ => ?_
    rw [← decide_not]
    refine decide_eq_decide.mpr ?_
    unfold WithinAge
    omega
  · rename_i hdays
    exact (List.filter_eq_self.mpr fun m _ => decide_eq_true (.inl (by omega))).symm

theorem pruneAge_spec {db : Tables} (days : UInt32) (now : Int) :
    Triple (fun s => s.db = db ∧ s.clock.headD 0 = now) (pruneAge days)
      (fun n s => s.db = db.aged days now ∧
        n + s.db.messages.length = db.messages.length) fun _ _ => True := by
  unfold pruneAge Tables.aged
  split
  · have hnow : Triple (fun s : Session Tables => s.db = db ∧ s.clock.headD 0 = now) nowMs
        (fun ts s => s.db = db ∧ ts = now) fun _ _ => True := fun _ hs => hs
    refine Triple.bind hnow fun ts => ?_
    rintro s ⟨hdb, rfl⟩
    refine Triple.bind (deleteCounted_spec _) (fun n => ?_) s hdb
    rintro t ⟨ht, hn⟩
    have horphans : Triple (fun s : Session Tables => s.db = t.db) (execute Tables.deleteOrphans)
        (fun _ s => s.db = t.db.deleteOrphans) fun _ _ => True :=
      (execute_spec (P := fun d => d = t.db) (Q := fun d => d = t.db.deleteOrphans)
        (E := fun _ => True) (fun _ hd => by rw [hd]) fun _ _ => trivial).weaken
        (fun _ h => h) (fun _ _ h => h) fun _ _ h => h
    refine Triple.bind horphans (fun _ => Triple.pure ?_) t rfl
    intro u hu
    rw [hu, ← ht]
    exact ⟨rfl, hn⟩
  · refine Triple.pure ?_
    rintro s ⟨rfl, -⟩
    exact ⟨rfl, Nat.zero_add _⟩

theorem hasConversation_iff {db : Tables} {id : String} :
    db.hasConversation id = true ↔ ∃ c ∈ db.conversations, c.id = id := by
  simp [Tables.hasConversation]

variable {days : UInt32}

theorem mem_aged_conversations {db : Tables} {now : Int} {c : ConversationRow} :
    c ∈ (db.aged days now).conversations ↔ c ∈ db.conversations ∧
      (days.toNat = 0 ∨ (db.aged days now).messagesOf c.id ≠ []) := by
  unfold Tables.aged
  split
  · rename_i hdays
    have hzero : days.toNat ≠ 0 := by omega
    refine List.mem_filter.trans (and_congr Iff.rfl ?_)
    rw [decide_eq_true_eq, or_iff_right hzero]
    rfl
  · rename_i hdays
    exact (and_iff_left (.inl (by omega))).symm

theorem Tables.Valid.aged {db : Tables} (h : db.Valid) (days : UInt32) (now : Int) :
    (db.aged days now).Valid := by
  have hsub : (db.aged days now).messages.Sublist db.messages := by
    rw [aged_messages]
    exact filter_sublist
  have hconversations : (db.aged days now).conversations.Sublist db.conversations := by
    unfold Tables.aged
    split
    · exact filter_sublist
    · exact List.Sublist.refl _
  refine ⟨h.messageIds.sublist (hsub.map _), h.conversationIds.sublist (hconversations.map _),
    fun m hm => ?_, lt_of_le_of_lt hsub.length_le h.messages_lt⟩
  obtain ⟨c, hc, hid⟩ := hasConversation_iff.mp (h.present m (hsub.subset hm))
  have hnonempty : (db.aged days now).messagesOf c.id ≠ [] := by
    rw [hid]
    exact ne_nil_of_mem (mem_messagesOf.mpr hm)
  exact hasConversation_iff.mpr ⟨c, mem_aged_conversations.mpr ⟨hc, .inr hnonempty⟩, hid⟩

theorem tsMs_le_of_key_lt {m other : StoredRow} (h : m.key < other.key) : m.tsMs ≤ other.tsMs := by
  rcases Prod.Lex.lt_iff.mp h with hlt | ⟨heq, -⟩
  · exact le_of_lt hlt
  · exact le_of_eq heq

theorem newerThan_aged {db : Tables} {now : Int} {m : StoredRow} (h : WithinAge days now m) :
    (db.aged days now).newerThan m = db.newerThan m := by
  unfold Tables.newerThan Tables.messagesOf
  rw [aged_messages, filter_filter, countP_filter, countP_filter]
  refine countP_congr fun other _ => ?_
  simp only [and_eq_true, decide_eq_true_eq]
  constructor
  · rintro ⟨hkey, hconv, -⟩
    exact ⟨hkey, hconv⟩
  · rintro ⟨hkey, hconv⟩
    have hts := tsMs_le_of_key_lt hkey
    refine ⟨hkey, hconv, ?_⟩
    unfold WithinAge at *
    omega

/-! ## Both passes -/

/-- The tables that pruning leaves. -/
def Tables.pruned (db : Tables) (days : UInt32) (max : UInt64) (now : Int) : Tables where
  conversations := (db.aged days now).conversations
  messages := db.messages.filter fun m => WithinAge days now m ∧ WithinCount db max m

theorem pruned_eq (db : Tables) (days : UInt32) (max : UInt64) (now : Int) :
    (db.aged days now).counted max = db.pruned days max now := by
  unfold Tables.pruned Tables.counted
  congr 1
  rw [aged_messages, filter_filter]
  refine filter_congr fun m _ => ?_
  rw [← decide_and]
  refine decide_eq_decide.mpr ?_
  constructor
  · rintro ⟨hcount, hage⟩
    unfold WithinCount at *
    rw [newerThan_aged hage] at hcount
    exact ⟨hage, hcount⟩
  · rintro ⟨hage, hcount⟩
    unfold WithinCount at *
    rw [newerThan_aged hage]
    exact ⟨hcount, hage⟩

theorem prunePasses_spec {db : Tables} (h : db.Valid) (days : UInt32) (max : UInt64) (now : Int) :
    Triple (fun s => s.db = db ∧ s.clock.headD 0 = now) (prunePasses days max)
      (fun n s => s.db = db.pruned days max now ∧
        n + s.db.messages.length = db.messages.length) fun _ _ => True := by
  refine Triple.bind (pruneAge_spec days now) fun aged => ?_
  rintro s ⟨hs, haged⟩
  refine Triple.bind (pruneCap_spec (h.aged days now) max) (fun capped => Triple.pure ?_) s hs
  rintro t ⟨ht, hcapped⟩
  rw [pruned_eq] at ht
  rw [hs] at haged
  exact ⟨ht, by omega⟩

theorem pruned_spec {s s' : Session Tables} (h : s.db.Valid) {max : UInt64} {deleted : Nat}
    (hrun : pruneOldTurns days max s = (.ok deleted, s')) :
    s'.db = s.db.pruned days max (s.clock.headD 0) ∧
      deleted + s'.db.messages.length = s.db.messages.length := by
  unfold pruneOldTurns at hrun
  rcases htransaction : transaction (prunePasses days max) s with ⟨n | n, t⟩
  · rw [bind_apply_error htransaction] at hrun
    cases (Prod.mk.inj hrun).1
  · rw [bind_apply_ok htransaction] at hrun
    obtain ⟨sql, u, hpasses, hdb⟩ := transaction_ok htransaction
    have hspec := prunePasses_spec h days max (s.clock.headD 0) { s with sql } ⟨rfl, rfl⟩
    rw [hpasses] at hspec
    dsimp only at hspec
    rw [← hdb] at hspec
    rcases execute_id_cases t with ⟨e, v, hend⟩ | hend
    · rw [bind_apply_error hend] at hrun
      cases (Prod.mk.inj hrun).1
    · rw [bind_apply_ok hend] at hrun
      obtain ⟨hn, rfl⟩ := Prod.mk.inj hrun
      cases hn
      exact hspec

/-! ## Succeeding -/

theorem deleteCounted_smooth (p : Tables → StoredRow → Bool) :
    Triple (fun s => True ∧ s.Smooth) (deleteCounted p) (fun _ s => True ∧ s.Smooth)
      fun _ _ => False :=
  statement_smooth (P := fun _ => True) (Q := fun _ _ => True) fun _ _ => ⟨_, _, rfl, trivial⟩

theorem pruneEach_smooth (limit : Int) (convIds : List String) :
    Triple (fun s => True ∧ s.Smooth) (pruneEach limit convIds) (fun _ s => True ∧ s.Smooth)
      fun _ _ => False := by
  induction convIds with
  | nil => exact Triple.pure fun _ h => h
  | cons convId rest ih =>
    exact Triple.bind (deleteCounted_smooth _) fun _ => Triple.bind ih fun _ =>
      Triple.pure fun _ h => h

theorem pruneOldTurns_smooth (days : UInt32) (max : UInt64) :
    Triple (fun s => True ∧ s.Smooth) (pruneOldTurns days max) (fun _ s => True ∧ s.Smooth)
      fun _ _ => False := by
  have hage : Triple (fun s => True ∧ s.Smooth) (pruneAge days) (fun _ s => True ∧ s.Smooth)
      fun _ _ => False := by
    unfold pruneAge
    split
    · refine Triple.bind (nowMs_smooth (P := fun _ => True)) fun _ => ?_
      refine Triple.bind (deleteCounted_smooth _) fun _ => ?_
      exact Triple.bind (execute_smooth (P := fun _ => True) (Q := fun _ => True) fun _ h => h)
        fun _ => Triple.pure fun _ h => h
    · exact Triple.pure fun _ h => h
  have hcap : Triple (fun s => True ∧ s.Smooth) (pruneCap max) (fun _ s => True ∧ s.Smooth)
      fun _ _ => False := by
    unfold pruneCap
    split
    · exact Triple.bind (query_smooth (P := fun _ => True) _) fun ids =>
        (pruneEach_smooth _ ids).strengthen fun _ h => ⟨trivial, h.2⟩
    · exact Triple.pure fun _ h => h
  have hpasses : Triple (fun s => True ∧ s.Smooth) (prunePasses days max)
      (fun _ s => True ∧ s.Smooth) fun _ _ => False :=
    Triple.bind hage fun _ => Triple.bind hcap fun _ => Triple.pure fun _ h => h
  refine Triple.bind (transaction_smooth (P := fun _ => True) (Q := fun _ _ => True) hpasses)
    fun _ => ?_
  exact Triple.bind (execute_smooth (P := fun _ => True) (Q := fun _ => True) fun _ h => h)
    fun _ => Triple.pure fun _ h => h

/-! ## When pruning does what it says -/

theorem append_ok {db : Tables} {message : MessageRow}
    (h : db.hasConversation message.convId = true) (clock : List Int) :
    ∃ s, append message { db, clock } = (.ok (), s) := by
  have hworks := (append_works rfl : Works message.convId (append message)) { db, clock }
    ⟨h, by simp [Smooth]⟩
  rcases hrun : append message { db, clock } with ⟨a | ⟨⟩, s⟩
  · rw [hrun] at hworks
    exact hworks.elim
  · exact ⟨s, rfl⟩

theorem messagesOf_pruned_subset (db : Tables) (days : UInt32) (max : UInt64) (now : Int)
    (convId : String) :
    (db.pruned days max now).messagesOf convId ⊆ (db.aged days now).messagesOf convId := by
  intro m hm
  obtain ⟨hmem, hconv⟩ := List.mem_filter.mp hm
  obtain ⟨hbefore, hwithin⟩ := List.mem_filter.mp hmem
  refine List.mem_filter.mpr ⟨?_, hconv⟩
  rw [aged_messages]
  exact List.mem_filter.mpr ⟨hbefore, decide_eq_true (of_decide_eq_true hwithin).1⟩

theorem lawful_pruned {db : Tables} {max : UInt64} {now : Int} {deleted : Nat}
    (hreported : deleted + (db.pruned days max now).messages.length = db.messages.length)
    (h : days.toNat = 0 ∨ ∀ c ∈ db.conversations, db.messagesOf c.id ≠ []) :
    Lawful db (db.pruned days max now) days max now deleted where
  kept := rfl
  reported := hreported
  conversations := by
    show (db.aged days now).conversations.Sublist db.conversations
    unfold Tables.aged
    split
    · exact filter_sublist
    · exact List.Sublist.refl _
  gone := by
    intro c hc hgone
    have hnot : ¬ (days.toNat = 0 ∨ (db.aged days now).messagesOf c.id ≠ []) := fun hkeep =>
      hgone (mem_aged_conversations.mpr ⟨hc, hkeep⟩)
    obtain ⟨hdays, hempty⟩ := not_or.mp hnot
    refine ⟨h.resolve_left hdays c hc, ?_⟩
    have hsub := messagesOf_pruned_subset db days max now c.id
    rw [not_not.mp hempty] at hsub
    exact List.subset_nil.mp hsub
  waiting := by
    intro c hc hempty message hconv clock
    have hdays : days.toNat = 0 := h.resolve_right fun hall => hall c hc hempty
    refine append_ok (hasConversation_iff.mpr ⟨c, ?_, hconv.symm⟩) clock
    exact mem_aged_conversations.mpr ⟨hc, .inl hdays⟩

/-- With age pruning a conversation without messages is removed: pruning keeps its promises
exactly if it goes by count alone or there is no such conversation. -/
theorem prune_lawful_iff (s : Session Tables) (hvalid : s.db.Valid) (days : UInt32) (max : UInt64) :
    (s.Smooth → ∃ deleted s', pruneOldTurns days max s = (.ok deleted, s')) ∧
    ∀ deleted s', pruneOldTurns days max s = (.ok deleted, s') →
      (Lawful s.db s'.db days max (s.clock.headD 0) deleted ↔
        days.toNat = 0 ∨ ∀ c ∈ s.db.conversations, s.db.messagesOf c.id ≠ []) := by
  refine ⟨fun hsmooth => ?_, fun deleted s' hrun => ?_⟩
  · have hworks := pruneOldTurns_smooth days max s ⟨trivial, hsmooth⟩
    rcases hrun : pruneOldTurns days max s with ⟨a | deleted, s'⟩
    · rw [hrun] at hworks
      exact hworks.elim
    · exact ⟨deleted, s', rfl⟩
  · obtain ⟨hdb, hreported⟩ := pruned_spec hvalid hrun
    rw [hdb] at hreported ⊢
    refine ⟨fun h => ?_, lawful_pruned hreported⟩
    by_contra hcond
    obtain ⟨hdays, hwaiting⟩ := not_or.mp hcond
    obtain ⟨c, hc, hempty⟩ : ∃ c ∈ s.db.conversations, s.db.messagesOf c.id = [] := by
      simpa using hwaiting
    refine (h.gone c hc fun hkept => ?_).1 hempty
    have haged := (mem_aged_conversations.mp hkept).2.resolve_left hdays
    obtain ⟨m, hm⟩ := exists_mem_of_ne_nil _ haged
    obtain ⟨hmem, hconv⟩ := List.mem_filter.mp hm
    rw [aged_messages] at hmem
    have hbefore : m ∈ s.db.messagesOf c.id :=
      List.mem_filter.mpr ⟨mem_of_mem_filter hmem, hconv⟩
    rw [hempty] at hbefore
    cases hbefore

/-- The tables right after `create`. -/
def newConversation : Tables := { conversations := [⟨"conv-7", "New conversation", 7, 7⟩] }

theorem newConversation_valid : newConversation.Valid where
  messageIds := nodup_nil
  conversationIds := nodup_singleton _
  present := fun _ h => absurd h not_mem_nil
  messages_lt := by decide

/-- Eight days: an old conversation and one that goes on, with two new messages. -/
def twoConversations : Tables where
  conversations := [⟨"conv-1", "Old", 1, 1⟩, ⟨"conv-2", "Kitchen", 2, 691200000⟩]
  messages := [⟨1, ⟨"conv-1", "user", "hi", none, none⟩, 1⟩,
    ⟨2, ⟨"conv-2", "user", "lights", none, none⟩, 2⟩,
    ⟨3, ⟨"conv-2", "user", "lights on", none, none⟩, 691199999⟩,
    ⟨4, ⟨"conv-2", "assistant", "done", none, none⟩, 691200000⟩]

theorem twoConversations_valid : twoConversations.Valid where
  messageIds := by decide
  conversationIds := by decide
  present := by decide
  messages_lt := by decide

/-- Both passes have work: the old conversation goes by age, and of the other one the newest
message stays. -/
theorem prune_lawful_two_conversations :
    ∃ s', pruneOldTurns 7 1 { db := twoConversations, clock := [691200000] } = (.ok 3, s') ∧
      Lawful twoConversations s'.db 7 1 691200000 3 ∧
      s'.db.conversations = [⟨"conv-2", "Kitchen", 2, 691200000⟩] ∧
      s'.db.messages = [⟨4, ⟨"conv-2", "assistant", "done", none, none⟩, 691200000⟩] := by
  obtain ⟨-, hiff⟩ := prune_lawful_iff { db := twoConversations, clock := [691200000] }
    twoConversations_valid 7 1
  have hspoken : ∀ c ∈ twoConversations.conversations,
      twoConversations.messagesOf c.id ≠ [] := by decide
  exact ⟨_, rfl, (hiff 3 _ rfl).mpr (.inr hspoken), by decide, by decide⟩

/-- A conversation that was just created is gone, and its first message is refused. -/
theorem prune_removes_new :
    newConversation.Valid ∧ ∃ deleted s',
      pruneOldTurns 7 100 { db := newConversation, clock := [8] } = (.ok deleted, s') ∧
      ¬ Lawful newConversation s'.db 7 100 8 deleted ∧
      (append ⟨"conv-7", "user", "hi", none, none⟩ { db := s'.db, clock := [9] }).1 =
        .error .constraint := by
  refine ⟨newConversation_valid, 0, _, rfl, fun h => ?_, rfl⟩
  obtain ⟨s, hs⟩ := h.waiting _ mem_cons_self rfl ⟨"conv-7", "user", "hi", none, none⟩ rfl [9]
  cases (Prod.mk.inj hs).1

end GenieClaw.Conversation
