import GenieClaw.Memory.Upkeep

/-!
# What the operations do to the memories

A law of the memories is kept by an operation when the statements of the operation that change
the memories keep it. The other statements, to the derived tables and for reading, do not touch
them.
-/

namespace GenieClaw.Memory

open Library Library.Program Library.Text List

variable {tools : TextTools} {P : List MemoryEntry → Prop}

/-- The law survives every deletion. -/
def Hereditary (P : List MemoryEntry → Prop) : Prop :=
  ∀ memories, P memories → ∀ p : MemoryEntry → Bool, P (memories.filter fun m => !p m)

/-- The law survives a memory that is stored. -/
def Admits (P : List MemoryEntry → Prop) (kind content : String) (evergreen : Bool) : Prop :=
  ∀ db : Database, ∀ now, P db.memories → P (db.memories ++
    [{ id := db.nextId, kind, content, accessedMs := now, evergreen,
       metadata := inferMetadata kind content }])

theorem query_memories {α : Type} (f : Database → α) : Keeps (fun c => P c.db.memories) (query f) :=
  query_keeps (fun db => P db.memories) f

theorem changeFiles_memories : Keeps (fun c => P c.db.memories) changeFiles :=
  changeFiles_keeps fun db _ => P db.memories

theorem updateCanonicalFiles_memories (entry : MemoryEntry) :
    Keeps (fun c => P c.db.memories) (updateCanonicalFiles entry) :=
  updateCanonicalFiles_keeps entry (query_memories _) changeFiles_memories

theorem forgetDerived_memories (entry : MemoryEntry) (id : Nat) :
    Keeps (fun c => P c.db.memories) (forgetDerived entry id) := by
  refine Keeps.bind (Keeps.forM fun table _ => ?_) fun _ => updateCanonicalFiles_memories entry
  exact execute_keeps (fun db => P db.memories) fun _ hdb => hdb

theorem forgetExisting_memories (existing : Option MemoryEntry) (deleted id : Nat) :
    Keeps (fun c => P c.db.memories) (forgetExisting existing deleted id) := by
  cases existing with
  | none => exact Keeps.pure ()
  | some entry => exact Keeps.ite (forgetDerived_memories entry id) (Keeps.pure ())

theorem deleteById_memories (hdelete : Hereditary P) (id : Nat) :
    Keeps (fun c => P c.db.memories) (deleteById id) := by
  refine Keeps.bind (query_memories _) fun existing => ?_
  have hstatement : Keeps (fun c => P c.db.memories) (statement fun db =>
      ((db.memories.filter fun m => m.id = id).length, db.deleteMemories fun m => m.id = id)) :=
    statement_spec (fun db => P db.memories) (fun _ db => P db.memories)
      (fun db => P db.memories) (fun db hdb => hdelete db.memories hdb _) fun _ hdb => hdb
  exact Keeps.bind hstatement fun deleted =>
    Keeps.bind (forgetExisting_memories existing deleted id) fun _ => Keeps.pure _

theorem replaceSlot_memories (hdelete : Hereditary P) (slot content : String)
    (entries : List MemoryEntry) :
    Keeps (fun c => P c.db.memories) (replaceSlot tools slot content entries) := by
  induction entries with
  | nil => exact Keeps.pure 0
  | cons existing rest ih =>
    refine Keeps.bind ?_ fun _ => Keeps.bind ih fun _ => Keeps.pure _
    exact Keeps.ite (deleteById_memories hdelete existing.id) (Keeps.pure false)

theorem clearSlot_memories (hdelete : Hereditary P) (kind content : String) (slot : Option String) :
    Keeps (fun c => P c.db.memories) (clearSlot tools kind content slot) := by
  cases slot with
  | none => exact Keeps.pure 0
  | some slot =>
    exact Keeps.bind (query_memories _) fun _ => replaceSlot_memories hdelete _ _ _

theorem upsertFromMemory_memories (id : Nat) (kind content : String)
    (metadata : MemoryPolicyMetadata) (now : Nat) (table : DerivedTable) :
    Keeps (fun c => P c.db.memories)
      (upsertFromMemory tools id kind content metadata now table) := by
  have hexecute : ∀ f : Database → Database, (∀ db, (f db).memories = db.memories) →
      Keeps (fun c => P c.db.memories) (execute f) := fun f hf =>
    execute_keeps (fun db => P db.memories) fun db hdb => (hf db).symm ▸ hdb
  refine Keeps.bind (hexecute _ fun _ => rfl) fun _ => Keeps.bind (Keeps.forM fun columns _ => ?_)
    fun _ => Keeps.ite (query_memories _) (Keeps.pure ())
  exact hexecute _ fun _ => rfl

variable {kind content : String} {evergreen : Bool}

theorem storeWithMetadata_memories (hinsert : Admits P kind content evergreen) :
    Keeps (fun c => P c.db.memories)
      (storeWithMetadata tools kind content (inferMetadata kind content) evergreen) := by
  refine Keeps.bind (nowMs_ok fun db _ => P db.memories) fun now => ?_
  have hstatement : Keeps (fun c => P c.db.memories) (statement fun db =>
      (db.nextId, db.insertMemory
        { id := db.nextId, kind, content, accessedMs := now, evergreen,
          metadata := inferMetadata kind content })) :=
    statement_spec (fun db => P db.memories) (fun _ db => P db.memories)
      (fun db => P db.memories) (fun db hdb => hinsert db now hdb) fun _ hdb => hdb
  refine Keeps.bind hstatement fun id => ?_
  exact Keeps.bind (Keeps.forM fun table _ => upsertFromMemory_memories id kind content _ now table)
    fun _ => Keeps.pure id

theorem storeAs_memories (hinsert : Admits P kind (normalizeMemoryContent content) evergreen) :
    Keeps (fun c => P c.db.memories) (storeAs tools evergreen kind content) := by
  refine Keeps.bind (storeWithMetadata_memories hinsert) fun id => ?_
  exact Keeps.bind changeFiles_memories fun _ => Keeps.bind changeFiles_memories fun _ =>
    Keeps.pure id

theorem normalizeMemoryContent_idem (content : String) :
    normalizeMemoryContent (normalizeMemoryContent content) = normalizeMemoryContent content := by
  rw [normalizeMemoryContent, normalizeMemoryContent, splitWhitespace_joinWith_space]

theorem storeResolved_memories (hdelete : Hereditary P)
    (hinsert : Admits P kind (normalizeMemoryContent content) false) :
    Keeps (fun c => P c.db.memories) (storeResolved tools kind content) := by
  refine Keeps.bind (isDuplicate_keeps _ _ query_memories) fun duplicate => ?_
  refine Keeps.ite (Keeps.pure _) (Keeps.bind (clearSlot_memories hdelete _ _ _) fun _ => ?_)
  refine Keeps.bind (storeAs_memories ?_) fun _ => Keeps.pure _
  rw [normalizeMemoryContent_idem]
  exact hinsert

/-- The law survives the deletion of memories that are neither kept for good nor in the notes. -/
def Prunes (P : List MemoryEntry → Prop) : Prop :=
  ∀ memories, P memories → ∀ p : MemoryEntry → Bool, (∀ m ∈ memories, p m = true →
    m.prunable = true) → P (memories.filter fun m => !p m)

theorem Hereditary.prunes (h : Hereditary P) : Prunes P := fun memories hP p _ => h memories hP p

theorem pruneDecayed_memories (hprune : Prunes P)
    (hids : ∀ memories, P memories → (memories.map MemoryEntry.id).Nodup)
    (decayed : Nat → Nat → Bool) : Keeps (fun c => P c.db.memories) (pruneDecayed decayed) := by
  -- while the chunks are deleted, what has one of the ids may be pruned
  have hloop : ∀ ids : List Nat, Keeps
      (fun c => P c.db.memories ∧ ∀ m ∈ c.db.memories, m.id ∈ ids → m.prunable = true)
      ((chunks 900 ids.length ids).forM fun chunk =>
        execute fun db => db.deleteMemories fun m => chunk.contains m.id) := by
    intro ids
    refine Keeps.forM fun chunk hchunk => execute_keeps (fun db => P db.memories ∧
      ∀ m ∈ db.memories, m.id ∈ ids → m.prunable = true) ?_
    rintro db ⟨hP, hprunable⟩
    refine ⟨hprune db.memories hP _ fun m hm hcontains => ?_, fun m hm => ?_⟩
    · exact hprunable m hm (mem_of_mem_chunks hchunk (List.contains_iff_mem.mp hcontains))
    · exact hprunable m (mem_of_mem_filter hm)
  refine Keeps.bind (nowMs_ok fun db _ => P db.memories) fun now => ?_
  refine Triple.bind ((query_spec (fun db => P db.memories) _).weaken (fun _ hc => hc)
    (fun _ _ hc => hc) fun _ _ hc => hc) fun candidates => ?_
  refine Triple.bind ((hloop _).weaken ?_ (fun _ _ hc => hc.1) fun _ _ hc => hc.1) fun _ =>
    Triple.pure fun _ hc => hc
  rintro c ⟨hP, rfl⟩
  refine ⟨hP, fun m hm hid => ?_⟩
  obtain ⟨n, hn, hsame⟩ := List.mem_map.mp hid
  obtain ⟨hn, hprunable⟩ := List.mem_filter.mp (mem_of_mem_filter hn)
  rw [← inj_on_of_nodup_map (hids _ hP) hn hm hsame]
  exact hprunable

theorem pruneBefore_memories (hprune : Prunes P) (cutoff : Option Nat) :
    Keeps (fun c => P c.db.memories) (pruneBefore cutoff) := by
  cases cutoff with
  | none => exact Keeps.fail _
  | some cutoff =>
    have hstatement : Keeps (fun c => P c.db.memories) (statement fun db =>
        ((db.memories.filter fun m => m.accessedMs < cutoff && m.prunable).length,
          db.deleteMemories fun m => m.accessedMs < cutoff && m.prunable)) :=
      statement_spec (fun db => P db.memories) (fun _ db => P db.memories)
        (fun db => P db.memories)
        (fun db hdb => hprune db.memories hdb _ fun _ _ hm => (Bool.and_eq_true_iff.mp hm).2)
        fun _ hdb => hdb
    exact hstatement

theorem pruneStale_memories (hprune : Prunes P) (maxAgeDays : UInt32) :
    Keeps (fun c => P c.db.memories) (pruneStale maxAgeDays) :=
  Keeps.bind (nowMs_ok fun db _ => P db.memories) fun _ => pruneBefore_memories hprune _

/-- The law survives an edit of a memory that is there. -/
def Edits (P : List MemoryEntry → Prop) : Prop :=
  ∀ db : Database, P db.memories → ∀ id kind content metadata,
    P (db.updateMemory id kind content metadata).memories

theorem writeManaged_memories (hedit : Edits P) (existing : MemoryEntry) (id : Nat)
    (kind content : String) :
    Keeps (fun c => P c.db.memories) (writeManaged tools existing id kind content) := by
  have hstatement : Keeps (fun c => P c.db.memories) (statement fun db =>
      ((db.memories.filter fun m => m.id = id).length,
        db.updateMemory id kind content (inferMetadata kind content))) :=
    statement_spec (fun db => P db.memories) (fun _ db => P db.memories)
      (fun db => P db.memories) (fun db hdb => hedit db hdb _ _ _ _) fun _ hdb => hdb
  refine Keeps.bind hstatement fun updated => Keeps.bind (Keeps.ite ?_ (Keeps.pure ())) fun _ =>
    Keeps.pure _
  refine Keeps.bind (Keeps.forM fun table _ => ?_) fun _ => updateCanonicalFiles_memories existing
  exact Keeps.bind (nowMs_ok fun db _ => P db.memories) fun now =>
    upsertFromMemory_memories id kind content _ now table

theorem updateManaged_memories (hedit : Edits P) (id : Nat) (content : String)
    (kind : Option String) :
    Keeps (fun c => P c.db.memories) (updateManaged tools id content kind) := by
  refine Keeps.bind (query_memories _) fun existing => ?_
  cases existing with
  | none => exact Keeps.pure false
  | some existing =>
    dsimp only
    unfold updateExisting
    dsimp only
    refine Keeps.ite (Keeps.fail _) ?_
    split
    · exact Keeps.fail _
    · exact Keeps.ite (Keeps.fail _)
        (Keeps.ite (Keeps.pure true) (writeManaged_memories hedit existing id _ _))

/-! ## Ids -/

theorem le_foldr_max {xs : List Nat} {x : Nat} (hx : x ∈ xs) : x ≤ xs.foldr max 0 := by
  induction xs with
  | nil => cases hx
  | cons y rest ih =>
    rw [foldr_cons]
    rcases List.mem_cons.mp hx with rfl | hx
    · exact le_max_left x _
    · exact (ih hx).trans (le_max_right y _)

theorem lt_nextId {db : Database} {m : MemoryEntry} (hm : m ∈ db.memories) : m.id < db.nextId :=
  Nat.lt_succ_of_le (le_foldr_max (mem_map_of_mem hm))

theorem found_id {memories : List MemoryEntry} {id : Nat} {m : MemoryEntry}
    (h : (memories.find? fun m => m.id = id) = some m) : m ∈ memories ∧ m.id = id :=
  ⟨mem_of_find?_eq_some h, by simpa using find?_some h⟩

/-- The ids are distinct. -/
def Identified (memories : List MemoryEntry) : Prop := (memories.map MemoryEntry.id).Nodup

theorem Identified.hereditary : Hereditary Identified := fun _ h _ =>
  List.Nodup.sublist (List.filter_sublist.map MemoryEntry.id) h

theorem Identified.admits : Admits Identified kind content evergreen := by
  intro db now h
  unfold Identified
  rw [map_append, nodup_append]
  refine ⟨h, nodup_singleton _, fun a ha b hb => ?_⟩
  obtain ⟨m, hm, rfl⟩ := List.mem_map.mp ha
  rw [map_singleton, mem_singleton] at hb
  exact fun heq => absurd (heq.trans hb) (Nat.ne_of_lt (lt_nextId hm))

theorem Identified.edits : Edits Identified := by
  intro db h id kind content metadata
  unfold Identified Database.updateMemory at *
  rw [map_map]
  have hsame : MemoryEntry.id ∘ (fun m : MemoryEntry =>
      if m.id = id then { m with kind, content, metadata } else m) = MemoryEntry.id := by
    funext m
    dsimp only [Function.comp]
    split
    · rfl
    · rfl
  rw [hsame]
  exact h

/-!
## Opening a store again

What `Memory::open` does to the rows of a database that is there: an older schema has its policy
columns filled in, and the derived tables are made anew when the parsers have changed.

* `rebuildTable_memories`: making a derived table anew leaves the memories alone.
-/

def Database.setMetadata (db : Database) (id : Nat) (metadata : MemoryPolicyMetadata) : Database :=
  { db with memories := db.memories.map fun m => if m.id = id then { m with metadata } else m }

def Database.clearDerived (db : Database) (table : DerivedTable) : Database :=
  { db with derived := fun t => if t = table then [] else db.derived t }

/-- `needs_scope || needs_sensitivity || needs_policy`: a column has its default. -/
def MemoryEntry.hasDefault (m : MemoryEntry) : Bool :=
  m.metadata.scope = .household || m.metadata.sensitivity = .normal ||
    m.metadata.spokenPolicy = .allow

def backfillRow (m : MemoryEntry) : Op Unit :=
  if m.hasDefault then execute fun db => db.setMetadata m.id (inferMetadata m.kind m.content)
  else pure ()

def backfillPolicyColumns : Op Unit := do
  let rows ← query Database.memories
  rows.forM backfillRow

def migrateSchema (migrate : Bool) : Op Unit := if migrate then backfillPolicyColumns else pure ()

section

variable (tools : TextTools)

/-- The family `rebuild_*`. -/
def rebuildTable (table : DerivedTable) : Op Unit := do
  execute fun db => db.clearDerived table
  let rows ← query fun db => db.memories.insertionSort fun a b => a.id ≤ b.id
  let now ← nowMs
  rows.forM fun m => upsertFromMemory tools m.id m.kind m.content m.metadata now table

def rebuildDerived (rederive : Bool) : Op Unit :=
  if rederive then DerivedTable.all.forM (rebuildTable tools) else pure ()

/-- `migrate`: the schema of the file is older. `rederive`: so are its derived tables. -/
def reopen (migrate rederive : Bool) : Op Unit := do
  migrateSchema migrate
  rebuildDerived tools rederive

end

variable {tools : TextTools} {P : List MemoryEntry → Prop}

/-- A backfill leaves the policy of the memory as it is. -/
def MemoryEntry.Settled (m : MemoryEntry) : Prop :=
  m.hasDefault = true → m.metadata = inferMetadata m.kind m.content

instance (m : MemoryEntry) : Decidable m.Settled := inferInstanceAs (Decidable (_ → _))

theorem rebuildTable_memories (table : DerivedTable) :
    Keeps (fun c => P c.db.memories) (rebuildTable tools table) := by
  have hclear : Keeps (fun c => P c.db.memories) (execute fun db => db.clearDerived table) :=
    execute_keeps (fun db => P db.memories) fun _ hdb => hdb
  refine Keeps.bind hclear fun _ => Keeps.bind (query_memories _) fun rows => ?_
  refine Keeps.bind (nowMs_ok fun db _ => P db.memories) fun now => Keeps.forM fun m _ => ?_
  exact upsertFromMemory_memories m.id m.kind m.content m.metadata now table

end GenieClaw.Memory
