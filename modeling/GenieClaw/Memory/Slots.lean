import GenieClaw.Memory.Rows
import GenieClaw.Memory.Runs

/-!
# One value for every slot

`store_resolved` replaces the older values of a single-valued fact. It looks for them among the
hundred most recently used memories of exactly the kind it was given, while the slot does not
depend on how the kind is written; and what it takes for a restatement may be a memory of any
kind, and is compared with the text without its source tag.

* `storeResolved_leaves`: which memories a call leaves.
* `slot_holds_iff` (ids are unique in the store at the start): the slot holds the new value alone
  exactly if the call was `Decisive`.
-/

namespace GenieClaw.Memory

open Library Library.Program Library.Text List

variable (tools : TextTools)

def Database.occupants (db : Database) (slot : String) : List MemoryEntry :=
  db.memories.filter fun m => memorySlot tools m.kind m.content = some slot

/-- One memory occupies the slot, and it says this, up to the case of letters. -/
def Database.Holds (db : Database) (slot content : String) : Prop :=
  ∃ m, db.occupants tools slot = [m] ∧ tools.toLowercase m.content = tools.toLowercase content

/-- A memory of any kind says this, its source tag aside. -/
def Database.restates (db : Database) (content : String) : Bool :=
  db.memories.any fun m => eqIgnoreAsciiCase m.content (trim (stripSourceTag content))

/-- A restatement finds the slot with this value alone; a new value finds the older ones within
the hundred rows that it looks through, and none that is the same text. -/
def Decisive (db : Database) (kind content slot : String) : Prop :=
  if db.restates content = true then db.Holds tools slot content
  else ∀ m ∈ db.occupants tools slot, m ∈ db.getByKind kind 100 ∧ m.content ≠ content

variable {tools}

/-! ## The memories after a call -/

/-- Where it returns, the operation takes these memories to those. -/
def Leaves {α : Type} (memories : List MemoryEntry) (x : Op α) (left : List MemoryEntry) : Prop :=
  Triple (fun c => c.db.memories = memories) x (fun _ c => c.db.memories = left) fun _ _ => True

section

variable {α β : Type} {memories left : List MemoryEntry}

theorem Leaves.bind {middle : List MemoryEntry} {x : Op α} {f : α → Op β}
    (hx : Leaves memories x middle) (hf : ∀ a, Leaves middle (f a) left) :
    Leaves memories (x >>= f) left :=
  Triple.bind hx hf

theorem Leaves.pure {a : α} : Leaves memories (pure a) memories := Triple.pure fun _ h => h

theorem Leaves.of_keeps {x : Op α} (h : Keeps (fun c => c.db.memories = memories) x) :
    Leaves memories x memories :=
  h.weaken (fun _ h => h) (fun _ _ h => h) fun _ _ _ => trivial

theorem deleteById_leaves (id : Nat) :
    Leaves memories (deleteById id) (memories.filter fun m => m.id ≠ id) := by
  have hquery : Leaves memories (query fun db => db.getById id) memories :=
    Leaves.of_keeps (query_memories (P := fun rows => rows = memories) _)
  refine Leaves.bind hquery fun existing => ?_
  have hstatement : Leaves memories (statement fun db =>
      ((db.memories.filter fun m => m.id = id).length, db.deleteMemories fun m => m.id = id))
      (memories.filter fun m => m.id ≠ id) := by
    refine (statement_spec (fun db => db.memories = memories)
      (fun _ db => db.memories = memories.filter fun m => m.id ≠ id) (fun _ => True)
      (fun db hdb => ?_) fun _ _ => trivial).weaken (fun _ h => h) (fun _ _ h => h) fun _ _ h => h
    subst hdb
    exact filter_congr fun m _ => by simp
  have hforget : ∀ deleted, Leaves (memories.filter fun m => m.id ≠ id)
      (forgetExisting existing deleted id) (memories.filter fun m => m.id ≠ id) := fun deleted =>
    Leaves.of_keeps (forgetExisting_memories
      (P := fun rows => rows = memories.filter fun m => m.id ≠ id) existing deleted id)
  exact Leaves.bind hstatement fun deleted => Leaves.bind (hforget deleted) fun _ => Leaves.pure

/-- The memory has the id of a superseded one. -/
def MemoryEntry.displaced (tools : TextTools) (slot content : String) (entries : List MemoryEntry)
    (m : MemoryEntry) : Bool :=
  entries.any fun e => e.superseded tools slot content && e.id = m.id

theorem replaceSlot_leaves (slot content : String) (entries : List MemoryEntry) :
    Leaves memories (replaceSlot tools slot content entries)
      (memories.filter fun m => !m.displaced tools slot content entries) := by
  induction entries generalizing memories with
  | nil =>
    have hall : (memories.filter fun m => !m.displaced tools slot content []) = memories :=
      List.filter_eq_self.mpr fun m _ => rfl
    rw [hall]
    exact Leaves.pure
  | cons existing rest ih =>
    have hfirst : Leaves memories (deleteSuperseded tools slot content existing)
        (memories.filter fun m => !m.displaced tools slot content [existing]) := by
      unfold deleteSuperseded
      split
      · rename_i hsuperseded
        have hsame : (memories.filter fun m => !m.displaced tools slot content [existing]) =
            memories.filter fun m => m.id ≠ existing.id :=
          filter_congr fun m _ => by
            simp [MemoryEntry.displaced, hsuperseded, eq_comm]
        rw [hsame]
        exact deleteById_leaves existing.id
      · rename_i hkept
        rw [List.filter_eq_self.mpr fun m _ => by simp [MemoryEntry.displaced, hkept]]
        exact Leaves.pure
    have hboth : (memories.filter fun m => !m.displaced tools slot content (existing :: rest)) =
        (memories.filter fun m => !m.displaced tools slot content [existing]).filter fun m =>
          !m.displaced tools slot content rest := by
      rw [filter_filter]
      refine filter_congr fun m _ => ?_
      simp only [MemoryEntry.displaced, any_cons, any_nil, Bool.or_false, Bool.not_or,
        Bool.and_comm]
    rw [hboth]
    exact Leaves.bind hfirst fun _ => Leaves.bind ih fun _ => Leaves.pure

end

theorem getByKind_congr {db other : Database} (h : db.memories = other.memories) (kind : String)
    (limit : Nat) : db.getByKind kind limit = other.getByKind kind limit := by
  unfold Database.getByKind
  rw [h]

theorem clearSlot_leaves (db : Database) (kind content slot : String) :
    Leaves db.memories (clearSlot tools kind content (some slot))
      (db.memories.filter fun m => !m.displaced tools slot content (db.getByKind kind 100)) := by
  have hquery : Triple (fun c : Connection => c.db.memories = db.memories)
      (query fun db => db.getByKind kind 100)
      (fun entries c => c.db.memories = db.memories ∧ entries = db.getByKind kind 100)
      fun _ _ => True :=
    (query_spec (fun d => d.memories = db.memories) _).weaken (fun _ h => h)
      (fun _ _ h => ⟨h.1, h.2.trans (getByKind_congr h.1 kind 100)⟩) fun _ _ _ => trivial
  refine Triple.bind hquery fun entries => ?_
  rintro c ⟨hc, rfl⟩
  exact replaceSlot_leaves slot content _ c hc

/-- The memory that a call has stored. -/
def Adds (kind content : String) (memories left : List MemoryEntry) : Prop :=
  ∃ m : MemoryEntry, m.kind = kind ∧ m.content = content ∧ left = memories ++ [m]

theorem storeWithMetadata_adds (kind content : String) (metadata : MemoryPolicyMetadata)
    (evergreen : Bool) (memories : List MemoryEntry) :
    Triple (fun c => c.db.memories = memories)
      (storeWithMetadata tools kind content metadata evergreen)
      (fun _ c => Adds kind content memories c.db.memories) fun _ _ => True := by
  refine Triple.bind (nowMs_ok fun db _ => db.memories = memories) fun now => ?_
  have hinsert : Triple (fun c : Connection => c.db.memories = memories) (statement fun db =>
      (db.nextId, db.insertMemory
        { id := db.nextId, kind, content, accessedMs := now, evergreen, metadata }))
      (fun _ c => Adds kind content memories c.db.memories) fun _ _ => True := by
    refine (statement_spec (fun db => db.memories = memories)
      (fun _ db => Adds kind content memories db.memories) (fun _ => True) (fun db hdb => ?_)
      fun _ _ => trivial).weaken (fun _ h => h) (fun _ _ h => h) fun _ _ h => h
    subst hdb
    exact ⟨_, rfl, rfl, rfl⟩
  have hupserts : ∀ id, Triple (fun c => Adds kind content memories c.db.memories)
      (DerivedTable.all.forM (upsertFromMemory tools id kind content metadata now))
      (fun _ c => Adds kind content memories c.db.memories) fun _ _ => True := fun id =>
    (Keeps.forM fun table _ => upsertFromMemory_memories id kind content metadata now table).weaken
      (fun _ h => h) (fun _ _ h => h) fun _ _ _ => trivial
  exact Triple.bind hinsert fun id => Triple.bind (hupserts id) fun _ => Triple.pure fun _ h => h

theorem storeAs_adds (evergreen : Bool) (kind content : String) (memories : List MemoryEntry) :
    Triple (fun c => c.db.memories = memories) (storeAs tools evergreen kind content)
      (fun _ c => Adds kind (normalizeMemoryContent content) memories c.db.memories)
      fun _ _ => True := by
  have hfiles : Triple (fun c => Adds kind (normalizeMemoryContent content) memories c.db.memories)
      changeFiles (fun _ c => Adds kind (normalizeMemoryContent content) memories c.db.memories)
      fun _ _ => True :=
    changeFiles_memories.weaken (fun _ h => h) (fun _ _ h => h) fun _ _ _ => trivial
  refine Triple.bind (storeWithMetadata_adds kind _ _ evergreen memories) fun id => ?_
  exact Triple.bind hfiles fun _ => Triple.bind hfiles fun _ => Triple.pure fun _ h => h

/-- The memories that a call for this slot leaves. -/
def Resolves (tools : TextTools) (db : Database) (kind content slot : String)
    (left : List MemoryEntry) : Prop :=
  if db.restates content = true then left = db.memories
  else Adds kind content
    (db.memories.filter fun m => !m.displaced tools slot content (db.getByKind kind 100)) left

theorem storeResolved_leaves (db : Database) {kind content slot : String}
    (hslot : memorySlot tools kind (normalizeMemoryContent content) = some slot) :
    Triple (fun c => c.db = db) (storeResolved tools kind content)
      (fun _ c => Resolves tools db kind (normalizeMemoryContent content) slot c.db.memories)
      fun _ _ => True := by
  unfold storeResolved
  dsimp only
  rw [hslot]
  have hquery : Triple (fun c : Connection => c.db = db)
      (isDuplicate tools (some slot) (normalizeMemoryContent content))
      (fun duplicate c => c.db = db ∧ duplicate = db.restates (normalizeMemoryContent content))
      fun _ _ => True :=
    (query_spec (fun d => d = db) fun d => d.restates (normalizeMemoryContent content)).weaken
      (fun _ h => h) (fun _ c h => ⟨h.1, h.2.trans (by rw [h.1])⟩) fun _ _ _ => trivial
  unfold Resolves
  cases hrestates : db.restates (normalizeMemoryContent content) with
  | true =>
    rw [hrestates] at hquery
    simp only [if_true]
    refine Triple.bind hquery fun duplicate => ?_
    rintro c ⟨hc, rfl⟩
    exact congrArg Database.memories hc
  | false =>
    rw [hrestates] at hquery
    simp only [Bool.false_eq_true, if_false]
    refine Triple.bind hquery fun duplicate => ?_
    rintro c ⟨hc, rfl⟩
    refine Triple.bind (clearSlot_leaves db kind _ slot) (fun replaced => ?_) c
      (congrArg Database.memories hc)
    refine Triple.bind (storeAs_adds false kind _ _) fun id => Triple.pure fun d hd => ?_
    rwa [normalizeMemoryContent_idem] at hd

/-! ## The slot after a call -/

section

variable {db : Database} {kind content slot : String}

theorem mem_occupants {m : MemoryEntry} : m ∈ db.occupants tools slot ↔
    m ∈ db.memories ∧ memorySlot tools m.kind m.content = some slot := by
  simp [Database.occupants]

theorem displaced_iff (hids : Identified db.memories) {m : MemoryEntry}
    (hm : m ∈ db.occupants tools slot) :
    m.displaced tools slot content (db.getByKind kind 100) = true ↔
      m ∈ db.getByKind kind 100 ∧ m.content ≠ content := by
  obtain ⟨hmem, hslot⟩ := mem_occupants.mp hm
  unfold MemoryEntry.displaced
  rw [any_eq_true]
  constructor
  · rintro ⟨e, he, hgone⟩
    obtain ⟨hsuperseded, hid⟩ := Bool.and_eq_true_iff.mp hgone
    have hsame : e = m :=
      inj_on_of_nodup_map hids (mem_getByKind he).1 hmem (of_decide_eq_true hid)
    subst hsame
    exact ⟨he, (of_decide_eq_true hsuperseded).1⟩
  · rintro ⟨he, hne⟩
    exact ⟨m, he, by simp [MemoryEntry.superseded, hne, hslot]⟩

theorem holds_of_adds {after : Database} {p : MemoryEntry → Bool}
    (hslot : memorySlot tools kind content = some slot)
    (h : Adds kind content (db.memories.filter fun m => !p m) after.memories) :
    after.Holds tools slot content ↔ ∀ m ∈ db.occupants tools slot, p m = true := by
  obtain ⟨new, rfl, rfl, hafter⟩ := h
  have hoccupants : after.occupants tools slot =
      ((db.occupants tools slot).filter fun m => !p m) ++ [new] := by
    unfold Database.occupants
    rw [hafter, filter_append, filter_comm, filter_singleton,
      decide_eq_true hslot]
    rfl
  unfold Database.Holds
  rw [hoccupants]
  constructor
  · rintro ⟨m, honly, -⟩ other hother
    have hnil : ((db.occupants tools slot).filter fun m => !p m) = [] := by
      have hlength := congrArg List.length honly
      rw [length_append] at hlength
      exact eq_nil_of_length_eq_zero (by simpa using hlength)
    simpa using List.filter_eq_nil_iff.mp hnil other hother
  · intro hall
    have hnil : ((db.occupants tools slot).filter fun m => !p m) = [] :=
      List.filter_eq_nil_iff.mpr fun m hm => by simp [hall m hm]
    exact ⟨new, by rw [hnil, nil_append], rfl⟩

theorem holds_iff (hids : Identified db.memories) {after : Database}
    (hslot : memorySlot tools kind content = some slot)
    (h : Resolves tools db kind content slot after.memories) :
    after.Holds tools slot content ↔ Decisive tools db kind content slot := by
  unfold Resolves at h
  unfold Decisive
  by_cases hrestates : db.restates content = true
  · rw [if_pos hrestates] at h ⊢
    unfold Database.Holds Database.occupants
    rw [h]
  · rw [if_neg hrestates] at h ⊢
    rw [holds_of_adds hslot h]
    exact forall₂_congr fun m hm => displaced_iff hids hm

end

/-! ## In a run -/

theorem perform_identified (command : Command) :
    Keeps (fun c => Identified c.db.memories) (perform tools command) := by
  have hreply : ∀ {α : Type} {x : Op α} (f : α → Reply),
      Keeps (fun c => Identified c.db.memories) x →
        Keeps (fun c => Identified c.db.memories) (f <$> x) := fun f hx =>
    Keeps.bind hx fun _ => Keeps.pure _
  have hprunes : Prunes Identified := Hereditary.prunes Identified.hereditary
  cases command with
  | store kind content => exact hreply _ (storeAs_memories Identified.admits)
  | storeEvergreen kind content => exact hreply _ (storeAs_memories Identified.admits)
  | storeResolved kind content =>
    exact hreply _ (storeResolved_memories Identified.hereditary Identified.admits)
  | updateManaged id content kind =>
    exact hreply _ (updateManaged_memories Identified.edits id content kind)
  | deleteById id => exact hreply _ (deleteById_memories Identified.hereditary id)
  | pruneDecayed decayed =>
    exact hreply _ (pruneDecayed_memories hprunes (fun _ h => h) decayed)
  | pruneStale maxAgeDays => exact hreply _ (pruneStale_memories hprunes maxAgeDays)

theorem run_identified {db : Database} (h : Identified db.memories) (calls : List Call) :
    Identified ((machine tools).run db calls).memories :=
  @Machine.run_invariant _ _ _ (machine tools) (fun db => Identified db.memories) db h
    (fun db call hdb => (perform_identified call.command).after (s := call.connect db) hdb) calls

/-- In any run, a call for a single-valued fact that returns leaves the new value alone in its
slot exactly if it was decisive. -/
theorem slot_holds_iff (tools : TextTools) (db : Database) (hids : Identified db.memories)
    (calls : List Call) :
    ∀ e ∈ (machine tools).trace db calls, ∀ kind content slot outcome,
      e.input.command = .storeResolved kind content →
      memorySlot tools kind (normalizeMemoryContent content) = some slot →
      e.output = .ok (.resolved outcome) →
      (e.after.Holds tools slot (normalizeMemoryContent content) ↔
        Decisive tools e.before kind (normalizeMemoryContent content) slot) := by
  intro e he kind content slot outcome hcommand hslot houtput
  obtain ⟨before, call, after, -, rfl⟩ := Machine.mem_trace _ he
  have hids_before := @run_identified tools db hids before
  revert hcommand houtput
  generalize (machine tools).run db before = state at hids_before ⊢
  obtain ⟨command, sql, files, clock⟩ := call
  rintro (rfl : command = .storeResolved kind content) houtput
  rcases hrun : storeResolved tools kind content ⟨state, sql, files, clock⟩ with ⟨reply, c⟩
  have hevent : (machine tools).eventAt state ⟨.storeResolved kind content, sql, files, clock⟩ =
      ⟨state, ⟨.storeResolved kind content, sql, files, clock⟩, reply.map Reply.resolved, c.db⟩ :=
    eventAt_of_perform (by rw [perform, map_apply, connect_mk, hrun])
  have hleaves := storeResolved_leaves state hslot ⟨state, sql, files, clock⟩ rfl
  rw [hrun] at hleaves
  rw [hevent] at houtput ⊢
  cases reply with
  | error e => cases houtput
  | ok reply => exact holds_iff hids_before hslot hleaves

/-! ## Two names -/

theorem replaceSlot_none {slot content : String} {entries : List MemoryEntry}
    (h : ∀ e ∈ entries, e.superseded tools slot content = false) :
    replaceSlot tools slot content entries = pure 0 := by
  induction entries with
  | nil => rfl
  | cons existing rest ih =>
    unfold replaceSlot deleteSuperseded
    rw [h existing mem_cons_self, ih fun e he => h e (mem_cons_of_mem existing he)]
    rfl

theorem storeResolved_run {db : Database} {clock : List Nat} {kind content slot : String}
    (hslot : memorySlot tools kind (normalizeMemoryContent content) = some slot)
    (hnew : db.restates (normalizeMemoryContent content) = false)
    (hnone : ∀ e ∈ db.getByKind kind 100,
      e.superseded tools slot (normalizeMemoryContent content) = false) :
    storeResolved tools kind content ⟨db, [], [], clock⟩ =
      (.ok ⟨some db.nextId, 0, false⟩, ⟨stored db tools kind (normalizeMemoryContent content) false
        (clock.headD 0), [], [], clock.tail⟩) := by
  have hquery : isDuplicate tools (some slot) (normalizeMemoryContent content)
      ⟨db, [], [], clock⟩ = (.ok (db.restates (normalizeMemoryContent content)),
        ⟨db, [], [], clock⟩) := rfl
  have hrows : query (fun db => db.getByKind kind 100) ⟨db, [], [], clock⟩ =
      (.ok (db.getByKind kind 100), ⟨db, [], [], clock⟩) := rfl
  have hclear : clearSlot tools kind (normalizeMemoryContent content) (some slot)
      ⟨db, [], [], clock⟩ = (.ok 0, ⟨db, [], [], clock⟩) := by
    unfold clearSlot
    dsimp only
    rw [bind_apply_ok hrows, replaceSlot_none hnone]
    rfl
  have hstore : store tools kind (normalizeMemoryContent content) ⟨db, [], [], clock⟩ =
      (.ok db.nextId, ⟨stored db tools kind (normalizeMemoryContent content) false
        (clock.headD 0), [], [], clock.tail⟩) := by
    rw [store, storeAs_run, normalizeMemoryContent_idem]
  unfold storeResolved
  rw [hslot, bind_apply_ok hquery, hnew, if_neg Bool.false_ne_true, bind_apply_ok hclear,
    bind_apply_ok hstore]
  rfl

theorem storeResolved_event {db : Database} {clock : List Nat} {kind content slot : String}
    (hcontent : normalizeMemoryContent content = content)
    (hslot : memorySlot tools kind content = some slot) (hnew : db.restates content = false)
    (hnone : ∀ e ∈ db.getByKind kind 100, e.superseded tools slot content = false) :
    (machine tools).eventAt db ⟨.storeResolved kind content, [], [], clock⟩ =
      ⟨db, ⟨.storeResolved kind content, [], [], clock⟩, .ok (.resolved ⟨some db.nextId, 0, false⟩),
        stored db tools kind content false (clock.headD 0)⟩ := by
  have hrun := @storeResolved_run tools db clock kind content slot
  rw [hcontent] at hrun
  refine eventAt_of_perform
    (c := ⟨stored db tools kind content false (clock.headD 0), [], [], clock.tail⟩) ?_
  rw [perform, connect_mk, map_apply_ok Reply.resolved (hrun hslot hnew hnone)]

theorem stored_memories (db : Database) (kind content : String) (evergreen : Bool) (now : Nat) :
    (stored db tools kind content evergreen now).memories = db.memories ++
      [{ id := db.nextId, kind, content, accessedMs := now, evergreen,
         metadata := inferMetadata kind content }] := by
  rw [stored, foldl_upserted_memories]
  rfl

/-- The call that says the name. -/
def firstName : Call := ⟨.storeResolved "identity" "User's name is Dan", [], [], [1]⟩

/-- The store that knows the name. -/
def named : Database := stored {} asciiTools "identity" "User's name is Dan" false 1

theorem firstName_event : (machine asciiTools).eventAt {} firstName =
    ⟨{}, firstName, .ok (.resolved ⟨some 1, 0, false⟩), named⟩ :=
  storeResolved_event (by decide)
    (by decide : memorySlot asciiTools "identity" "User's name is Dan" =
      some "identity:name") rfl fun e he => absurd he not_mem_nil

theorem named_memories : named.memories =
    [⟨1, "identity", "User's name is Dan", 1, false, false,
      inferMetadata "identity" "User's name is Dan"⟩] := by
  have hid : Database.nextId {} = 1 := rfl
  rw [named, stored_memories, hid, nil_append]

/-- A store with an older name and a memory that occupies no slot. -/
def acquainted : Database where
  memories := [⟨1, "identity", "User's name is Dan", 1, false, false,
      inferMetadata "identity" "User's name is Dan"⟩,
    ⟨2, "note", "The boiler is old", 1, false, false, inferMetadata "note" "The boiler is old"⟩]

def correctedName : Call := ⟨.storeResolved "identity" "User's name is Dana", [], [], [2]⟩

/-- The older name is replaced. -/
theorem slot_holds_corrected_name :
    let e := (machine asciiTools).eventAt acquainted correctedName
    e.output = .ok (.resolved ⟨some 3, 1, false⟩) ∧
      e.after.Holds asciiTools "identity:name" (normalizeMemoryContent "User's name is Dana") := by
  intro e
  have hids : Identified acquainted.memories := by
    unfold Identified
    decide
  have houtput : e.output = .ok (.resolved ⟨some 3, 1, false⟩) := by decide +kernel
  have hdecisive : Decisive asciiTools acquainted "identity"
      (normalizeMemoryContent "User's name is Dana") "identity:name" := by
    have hnew : acquainted.restates (normalizeMemoryContent "User's name is Dana") = false := by
      decide +kernel
    unfold Decisive
    rw [hnew, if_neg Bool.false_ne_true]
    decide +kernel
  exact ⟨houtput, (slot_holds_iff asciiTools acquainted hids [correctedName] _ (.head _)
    "identity" "User's name is Dana" "identity:name" _ rfl (by decide +kernel) houtput).mpr
      hdecisive⟩

/-- The call that corrects the name, with a capital letter in the kind. -/
def secondName : Call := ⟨.storeResolved "Identity" "User's name is Dana", [], [], [2]⟩

/-- The store after the correction. -/
def renamed : Database := stored named asciiTools "Identity" "User's name is Dana" false 2

theorem secondName_event : (machine asciiTools).eventAt named secondName =
    ⟨named, secondName, .ok (.resolved ⟨some 2, 0, false⟩), renamed⟩ := by
  have hnew : named.restates "User's name is Dana" = false := by
    unfold Database.restates
    rw [named_memories]
    decide +kernel
  have hnone : named.getByKind "Identity" 100 = [] := by
    unfold Database.getByKind
    rw [named_memories]
    rfl
  have hid : named.nextId = 2 := by
    unfold Database.nextId
    rw [named_memories]
    rfl
  have hevent := @storeResolved_event asciiTools named [2] "Identity" "User's name is Dana"
    "identity:name" (by decide +kernel) (by decide +kernel) hnew (by
      rw [hnone]
      exact fun e he => absurd he not_mem_nil)
  rw [hid] at hevent
  exact hevent

theorem renamed_memories : renamed.memories.map (fun m => (m.kind, m.content)) =
    [("identity", "User's name is Dan"), ("Identity", "User's name is Dana")] := by
  unfold renamed
  rw [stored_memories, named_memories]
  rfl

theorem occupants_contents (db : Database) (slot : String) :
    (db.occupants tools slot).map MemoryEntry.content =
      ((db.memories.map fun m => (m.kind, m.content)).filter fun pair =>
        memorySlot tools pair.1 pair.2 = some slot).map Prod.snd := by
  rw [filter_map, map_map]
  rfl

/-- Both names are there after the correction. -/
theorem correction_keeps_old_name :
    ∃ e ∈ (machine asciiTools).trace {} [firstName, secondName],
      e.input.command = .storeResolved "Identity" "User's name is Dana" ∧
      memorySlot asciiTools "Identity" (normalizeMemoryContent "User's name is Dana") =
        some "identity:name" ∧
      e.output = .ok (.resolved ⟨some 2, 0, false⟩) ∧
      (e.after.occupants asciiTools "identity:name").map MemoryEntry.content =
        ["User's name is Dan", "User's name is Dana"] ∧
      ¬ e.after.Holds asciiTools "identity:name"
        (normalizeMemoryContent "User's name is Dana") := by
  have hold : memorySlot asciiTools "identity" "User's name is Dan" = some "identity:name" := by
    decide +kernel
  have hnew : memorySlot asciiTools "Identity" "User's name is Dana" = some "identity:name" := by
    decide +kernel
  have hcontent : normalizeMemoryContent "User's name is Dana" = "User's name is Dana" := by
    decide +kernel
  have hoccupants : (renamed.occupants asciiTools "identity:name").map MemoryEntry.content =
      ["User's name is Dan", "User's name is Dana"] := by
    rw [occupants_contents, renamed_memories]
    simp [hold, hnew]
  have hstep : ((machine asciiTools).step {} firstName).2 = named := by
    rw [← Machine.eventAt_after, firstName_event]
  refine ⟨⟨named, secondName, .ok (.resolved ⟨some 2, 0, false⟩), renamed⟩, ?_, ?_⟩
  · rw [Machine.trace_cons, Machine.trace_cons, hstep, secondName_event]
    exact mem_cons_of_mem _ mem_cons_self
  · rw [hcontent]
    dsimp only
    refine ⟨rfl, hnew, rfl, hoccupants, ?_⟩
    rintro ⟨m, hm, -⟩
    have hlength := congrArg List.length hoccupants
    rw [hm] at hlength
    cases hlength

end GenieClaw.Memory
