import GenieClaw.Memory.Store

/-!
# What the operations do to the derived tables

For each operation of the store, when every derived row is current after it. Storing keeps them
current also when it fails half-way, the others when no statement fails, and pruning when the
memories that go have none.
-/

namespace GenieClaw.Memory

open Library Library.Program List

/-!
## Derived rows and the memories they come from

A derived row is current when a memory with its id is present and the row is one of those
that the memory, as it stands, gives its table. The operations that write a memory pass
through states in which the rows of that one memory are stale in the tables not yet reached;
`StaleIn` names these states, and each upsert takes one table off the list.

* `Current.deleteMemories`: memories without derived rows may go.
* `Current.deleteMemory`, `Current.updateMemory`: otherwise one memory is stale afterwards.
* `StaleIn.deleteDerived`: which a pass over the tables sets right.
-/

section

variable (tools : TextTools)

/-- The row is one of those that a memory with its id gives the table. -/
def DerivedRow.FromMemory (row : DerivedRow) (table : DerivedTable)
    (memories : List MemoryEntry) : Prop :=
  ∃ m ∈ memories, m.id = row.sourceMemoryId ∧
    row.columns ∈ derive tools table m.kind m.content m.metadata

namespace Database

def Current (db : Database) : Prop :=
  ∀ table, ∀ row ∈ db.derived table, row.FromMemory tools table db.memories

/-- Every row is current, but for rows of one memory in some of the tables. -/
def StaleIn (db : Database) (id : Nat) (tables : List DerivedTable) : Prop :=
  ∀ table, ∀ row ∈ db.derived table,
    row.FromMemory tools table db.memories ∨ (row.sourceMemoryId = id ∧ table ∈ tables)

end Database

end

variable {table : DerivedTable} {tools : TextTools}

theorem DerivedRow.FromMemory.mono {row : DerivedRow} {memories others : List MemoryEntry}
    (h : row.FromMemory tools table memories)
    (hsub : ∀ m ∈ memories, m.id = row.sourceMemoryId → m ∈ others) :
    row.FromMemory tools table others := by
  obtain ⟨m, hm, hid, hrow⟩ := h
  exact ⟨m, hsub m hm hid, hid, hrow⟩

namespace Database

/-- No derived row comes from the memory. -/
def Bare (db : Database) (id : Nat) : Prop :=
  ∀ table, ∀ row ∈ db.derived table, row.sourceMemoryId ≠ id

/-- A memory with the id says this. -/
def States (db : Database) (id : Nat) (kind content : String)
    (metadata : MemoryPolicyMetadata) : Prop :=
  ∃ m ∈ db.memories, m.id = id ∧ m.kind = kind ∧ m.content = content ∧ m.metadata = metadata

variable {db : Database} {id : Nat} {tables : List DerivedTable}

theorem staleIn_nil : db.StaleIn tools id [] ↔ db.Current tools := by
  simp [StaleIn, Current]

theorem StaleIn.current_of_bare (h : db.StaleIn tools id tables) (hbare : db.Bare id) :
    db.Current tools := by
  intro table row hrow
  rcases h table row hrow with hfrom | ⟨hid, _⟩
  · exact hfrom
  · exact absurd hid (hbare table row hrow)

/-! ## Changes of the derived tables -/

theorem mem_deleteDerived {table t : DerivedTable} {row : DerivedRow} :
    row ∈ (db.deleteDerived table id).derived t ↔
      row ∈ db.derived t ∧ (t = table → row.sourceMemoryId ≠ id) := by
  unfold deleteDerived
  by_cases h : t = table <;> simp [h]

theorem mem_insertDerived {table t : DerivedTable} {new row : DerivedRow} :
    row ∈ (db.insertDerived table new).derived t ↔
      row ∈ db.derived t ∨ (t = table ∧ row = new) := by
  unfold insertDerived
  by_cases h : t = table <;> simp [h]

theorem Bare.deleteDerived {x : Nat} (h : db.Bare x) : (db.deleteDerived table id).Bare x :=
  fun t row hrow => h t row (mem_deleteDerived.mp hrow).1

theorem Current.deleteDerived (h : db.Current tools) : (db.deleteDerived table id).Current tools :=
  fun t row hrow => h t row (mem_deleteDerived.mp hrow).1

theorem StaleIn.deleteDerived (h : db.StaleIn tools id (table :: tables)) :
    (db.deleteDerived table id).StaleIn tools id tables := by
  intro t row hrow
  obtain ⟨hrow, hother⟩ := mem_deleteDerived.mp hrow
  rcases h t row hrow with hfrom | ⟨hid, hmem⟩
  · exact .inl hfrom
  · have hne : t ≠ table := fun ht => hother ht hid
    exact .inr ⟨hid, (List.mem_cons.mp hmem).resolve_left hne⟩

theorem StaleIn.insertDerived {new : DerivedRow} (h : db.StaleIn tools id tables)
    (hnew : new.FromMemory tools table db.memories) :
    (db.insertDerived table new).StaleIn tools id tables := by
  intro t row hrow
  rcases mem_insertDerived.mp hrow with hrow | ⟨rfl, rfl⟩
  · exact h t row hrow
  · exact .inl hnew

/-! ## Changes of the memories -/

@[simp] theorem derived_deleteMemories (p : MemoryEntry → Bool) :
    (db.deleteMemories p).derived = db.derived := rfl

theorem Current.insertMemory {m : MemoryEntry} (h : db.Current tools) :
    (db.insertMemory m).Current tools :=
  fun table row hrow => (h table row hrow).mono fun _ hm _ => mem_append_left _ hm

theorem states_insertMemory (m : MemoryEntry) :
    (db.insertMemory m).States m.id m.kind m.content m.metadata :=
  ⟨m, mem_append_right _ (mem_singleton_self m), rfl, rfl, rfl, rfl⟩

theorem Current.deleteMemories {p : MemoryEntry → Bool} (h : db.Current tools)
    (hbare : ∀ m ∈ db.memories, p m = true → db.Bare m.id) :
    (db.deleteMemories p).Current tools := by
  intro table row hrow
  refine (h table row hrow).mono fun m hm hid => ?_
  have hkept : p m ≠ true := fun hp => hbare m hm hp table row hrow hid.symm
  exact List.mem_filter.mpr ⟨hm, by simpa using hkept⟩

theorem Current.deleteMemory (h : db.Current tools) (id : Nat) :
    (db.deleteMemories fun m => m.id = id).StaleIn tools id DerivedTable.all := by
  intro table row hrow
  by_cases hid : row.sourceMemoryId = id
  · exact .inr ⟨hid, table.mem_all⟩
  · refine .inl ((h table row hrow).mono fun m hm hm_id => ?_)
    exact List.mem_filter.mpr ⟨hm, by simpa [hm_id] using hid⟩

theorem Current.updateMemory (h : db.Current tools) (id : Nat) (kind content : String)
    (metadata : MemoryPolicyMetadata) :
    (db.updateMemory id kind content metadata).StaleIn tools id DerivedTable.all := by
  intro table row hrow
  by_cases hid : row.sourceMemoryId = id
  · exact .inr ⟨hid, table.mem_all⟩
  · refine .inl ((h table row hrow).mono fun m hm hm_id => ?_)
    have hne : m.id ≠ id := fun hm' => hid (hm_id.symm.trans hm')
    exact List.mem_map.mpr ⟨m, hm, if_neg hne⟩

theorem updateMemory_states {kind content : String} {metadata : MemoryPolicyMetadata}
    (h : ∃ m ∈ db.memories, m.id = id) :
    (db.updateMemory id kind content metadata).States id kind content metadata := by
  obtain ⟨m, hm, hid⟩ := h
  exact ⟨_, mem_map_of_mem hm, by simp [hid]⟩

theorem count_pos_iff :
    0 < (db.memories.filter fun m => m.id = id).length ↔ ∃ m ∈ db.memories, m.id = id := by
  rw [length_pos_iff_exists_mem]
  simp

theorem deleteMemory_of_absent (h : ¬ ∃ m ∈ db.memories, m.id = id) :
    (db.deleteMemories fun m => m.id = id) = db := by
  have hkept : (db.memories.filter fun m => !decide (m.id = id)) = db.memories := by
    apply List.filter_eq_self.mpr
    intro m hm
    simpa using fun hid => h ⟨m, hm, hid⟩
  unfold deleteMemories
  rw [hkept]

theorem updateMemory_of_absent {kind content : String} {metadata : MemoryPolicyMetadata}
    (h : ¬ ∃ m ∈ db.memories, m.id = id) : db.updateMemory id kind content metadata = db := by
  have hsame : (db.memories.map fun m =>
      if m.id = id then { m with kind, content, metadata } else m) =
      db.memories.map fun m => m := by
    apply map_congr_left
    intro m hm
    exact if_neg fun hid => h ⟨m, hm, hid⟩
  unfold updateMemory
  rw [hsame, map_id']

end Database

/-! ## The operations of the store -/

/-- Everything to come succeeds. -/
def AllOk (flags : List Bool) : Prop := ∀ ok ∈ flags, ok = true

variable {α : Type}

/-! ## Statements -/

theorem statement_cases (f : Database → α × Database) (c : Connection) :
    (false ∈ c.sql ∧ statement f c = (.error .sqlite, { c with sql := c.sql.tail })) ∨
      statement f c = (.ok (f c.db).1, { c with db := (f c.db).2, sql := c.sql.tail }) := by
  rcases hsql : c.sql with _ | ⟨_ | _, rest⟩ <;> simp [statement, hsql]

theorem statement_spec (P : Database → Prop) (Q : α → Database → Prop) (E : Database → Prop)
    {f : Database → α × Database} (h : ∀ db, P db → Q (f db).1 (f db).2)
    (hfail : ∀ db, P db → E db) :
    Triple (fun c => P c.db) (statement f) (fun a c => Q a c.db) fun _ c => E c.db := by
  apply Triple.of_run
  intro c hc
  rcases statement_cases f c with ⟨_, hrun⟩ | hrun
  · exact .inr ⟨_, _, hrun, hfail c.db hc⟩
  · exact .inl ⟨_, _, hrun, h c.db hc⟩

variable {E : MemoryError → Connection → Prop}

theorem statement_ok (P : Database → Prop) (Q : α → Database → Prop) {f : Database → α × Database}
    (h : ∀ db, P db → Q (f db).1 (f db).2) :
    Triple (fun c => P c.db ∧ AllOk c.sql) (statement f) (fun a c => Q a c.db ∧ AllOk c.sql) E := by
  apply Triple.of_run
  intro c hc
  rcases statement_cases f c with ⟨hfalse, _⟩ | hrun
  · exact absurd (hc.2 false hfalse) (by decide)
  · exact .inl ⟨_, _, hrun, h c.db hc.1, fun ok hok => hc.2 ok (mem_of_mem_tail hok)⟩

theorem execute_keeps (P : Database → Prop) {f : Database → Database}
    (h : ∀ db, P db → P (f db)) : Keeps (fun c => P c.db) (execute f) :=
  statement_spec P (fun _ => P) P h fun _ hdb => hdb

theorem execute_ok (P Q : Database → Prop) {f : Database → Database} (h : ∀ db, P db → Q (f db)) :
    Triple (fun c => P c.db ∧ AllOk c.sql) (execute f) (fun _ c => Q c.db ∧ AllOk c.sql) E :=
  statement_ok P (fun _ => Q) h

theorem query_keeps (P : Database → Prop) (f : Database → α) : Keeps (fun c => P c.db) (query f) :=
  statement_spec P (fun _ => P) P (fun _ hdb => hdb) fun _ hdb => hdb

theorem query_ok (P : Database → Prop) (f : Database → α) :
    Triple (fun c => P c.db ∧ AllOk c.sql) (query f) (fun a c => (P c.db ∧ a = f c.db) ∧
      AllOk c.sql) E :=
  statement_ok P (fun a db => P db ∧ a = f db) fun _ hdb => ⟨hdb, rfl⟩

theorem changeFiles_cases (c : Connection) :
    changeFiles c = (.error .io, { c with files := c.files.tail }) ∨
      changeFiles c = (.ok (), { c with files := c.files.tail }) := by
  rcases hfiles : c.files with _ | ⟨_ | _, rest⟩ <;> simp [changeFiles, hfiles]

theorem changeFiles_keeps (P : Database → List Bool → Prop) :
    Keeps (fun c => P c.db c.sql) changeFiles := by
  apply Triple.of_run
  intro c hc
  rcases changeFiles_cases c with hrun | hrun
  · exact .inr ⟨_, _, hrun, hc⟩
  · exact .inl ⟨_, _, hrun, hc⟩

theorem query_spec (P : Database → Prop) (f : Database → α) :
    Triple (fun c => P c.db) (query f) (fun a c => P c.db ∧ a = f c.db) fun _ c => P c.db :=
  statement_spec P (fun a db => P db ∧ a = f db) P (fun _ hdb => ⟨hdb, rfl⟩) fun _ hdb => hdb

theorem nowMs_spec (P : Database → Prop) (now : Nat) :
    Triple (fun c => P c.db ∧ c.clock.headD 0 = now) nowMs (fun t c => P c.db ∧ t = now) E :=
  fun _ hc => hc

theorem nowMs_ok (P : Database → List Bool → Prop) :
    Triple (fun c => P c.db c.sql) nowMs (fun _ c => P c.db c.sql) E :=
  fun _ hc => hc

theorem query_ok_keeps (P : Database → Prop) (f : Database → α) :
    Keeps (fun c => P c.db ∧ AllOk c.sql) (query f) :=
  (query_ok P f).weaken (fun _ hc => hc) (fun _ _ hc => ⟨hc.1.1, hc.2⟩) fun _ _ hc => hc

variable {P : Connection → Prop}

theorem updateCanonicalFiles_keeps (entry : MemoryEntry)
    (hquery : Keeps P (query fun db => db.memories.filter MemoryEntry.promoted))
    (hfiles : Keeps P changeFiles) : Keeps P (updateCanonicalFiles entry) := by
  have hlogs : Keeps P (do recordCanonicalEvent; appendDailyNote) :=
    Keeps.bind hfiles fun _ => hfiles
  exact Keeps.ite (Keeps.bind (Keeps.bind hquery fun _ => hfiles) fun _ => hlogs) hlogs

/-! ## Upserts -/

section

variable {tools : TextTools} {id : Nat} {kind content : String}
  {metadata : MemoryPolicyMetadata}

open Database

/-- While a memory is written: it is there, and every row is current but for its own in the
tables still to come. -/
def Writing (tools : TextTools) (id : Nat) (kind content : String)
    (metadata : MemoryPolicyMetadata) (tables : List DerivedTable) (db : Database) : Prop :=
  db.StaleIn tools id tables ∧ db.States id kind content metadata

theorem Writing.deleteDerived {rest : List DerivedTable} {db : Database}
    (h : Writing tools id kind content metadata (table :: rest) db) :
    Writing tools id kind content metadata rest (db.deleteDerived table id) :=
  ⟨h.1.deleteDerived, h.2⟩

theorem Writing.insertDerived {tables : List DerivedTable} {columns : Columns} (updatedMs : Nat)
    {db : Database} (h : Writing tools id kind content metadata tables db)
    (hcolumns : columns ∈ derive tools table kind content metadata) :
    Writing tools id kind content metadata tables
      (db.insertDerived table ⟨id, columns, updatedMs⟩) := by
  have hnew : DerivedRow.FromMemory tools ⟨id, columns, updatedMs⟩ table db.memories := by
    obtain ⟨m, hm, hid, rfl, rfl, rfl⟩ := h.2
    exact ⟨m, hm, hid, hcolumns⟩
  exact ⟨h.1.insertDerived hnew, h.2⟩

theorem upsert_keeps (updatedMs : Nat) (table : DerivedTable) :
    Keeps (fun c => Writing tools id kind content metadata [] c.db)
      (upsertFromMemory tools id kind content metadata updatedMs table) := by
  refine Keeps.bind (execute_keeps (Writing tools id kind content metadata []) ?_) fun _ => ?_
  · intro db hdb
    exact ⟨staleIn_nil.mpr (staleIn_nil.mp hdb.1).deleteDerived, hdb.2⟩
  · refine Keeps.bind (Keeps.forM ?_) fun _ => ?_
    · intro columns hcolumns
      exact execute_keeps (Writing tools id kind content metadata []) fun db hdb =>
        hdb.insertDerived updatedMs hcolumns
    · exact Keeps.ite (query_keeps (Writing tools id kind content metadata []) _) (Keeps.pure ())

theorem upsert_refreshes (updatedMs : Nat) (table : DerivedTable) (rest : List DerivedTable) :
    Triple (fun c => Writing tools id kind content metadata (table :: rest) c.db ∧ AllOk c.sql)
      (upsertFromMemory tools id kind content metadata updatedMs table)
      (fun _ c => Writing tools id kind content metadata rest c.db ∧ AllOk c.sql) E := by
  have hinsert : Triple
      (fun c => Writing tools id kind content metadata rest c.db ∧ AllOk c.sql)
      ((derive tools table kind content metadata).forM fun columns =>
        execute fun db => db.insertDerived table ⟨id, columns, updatedMs⟩)
      (fun _ c => Writing tools id kind content metadata rest c.db ∧ AllOk c.sql) E := by
    refine Triple.forM (fun _ (c : Connection) => Writing tools id kind content metadata rest c.db ∧
      AllOk c.sql) fun columns hcolumns _ => ?_
    exact execute_ok _ _ fun db hdb => hdb.insertDerived updatedMs hcolumns
  refine Triple.bind (execute_ok _ _ fun db hdb => hdb.deleteDerived) fun _ => ?_
  refine Triple.bind hinsert fun _ => ?_
  unfold warnIfDeviceAliasConflict
  split
  · exact (query_ok _ _).weaken (fun _ hc => hc) (fun _ _ hc => ⟨hc.1.1, hc.2⟩) fun _ _ hc => hc
  · exact Triple.pure fun _ hc => hc

/-! ## Creating -/

theorem Writing.current {db : Database} (h : Writing tools id kind content metadata [] db) :
    db.Current tools :=
  staleIn_nil.mp h.1

theorem storeWithMetadata_current (kind content : String) (metadata : MemoryPolicyMetadata)
    (evergreen : Bool) :
    Keeps (fun c => c.db.Current tools)
      (storeWithMetadata tools kind content metadata evergreen) := by
  refine Keeps.bind (nowMs_ok fun db _ => db.Current tools) fun now => ?_
  have hinsert : Triple (fun c => c.db.Current tools)
      (statement fun db => (db.nextId, db.insertMemory
        { id := db.nextId, kind, content, accessedMs := now, evergreen, metadata }))
      (fun id c => Writing tools id kind content metadata [] c.db)
      (fun _ c => c.db.Current tools) :=
    statement_spec (fun db => db.Current tools)
      (fun id db => Writing tools id kind content metadata [] db) (fun db => db.Current tools)
      (fun _ hdb => ⟨staleIn_nil.mpr hdb.insertMemory, states_insertMemory _⟩) fun _ hdb => hdb
  refine Triple.bind hinsert fun id => ?_
  refine Triple.bind ((Keeps.forM fun table _ => upsert_keeps now table).weaken
    (fun _ hc => hc) (fun _ _ hc => hc) fun _ _ hc => hc.current) fun _ => ?_
  exact Triple.pure fun _ hc => hc.current

theorem storeAs_current (evergreen : Bool) (kind content : String) :
    Keeps (fun c => c.db.Current tools) (storeAs tools evergreen kind content) := by
  have hfiles := changeFiles_keeps fun db _ => db.Current tools
  refine Keeps.bind (storeWithMetadata_current kind _ _ evergreen) fun id => ?_
  exact Keeps.bind hfiles fun _ => Keeps.bind hfiles fun _ => Keeps.pure id

/-! ## Removing -/

/-- Every row is current, and these memories have none. -/
def Cleared (tools : TextTools) (ids : List Nat) (db : Database) : Prop :=
  db.Current tools ∧ ∀ x ∈ ids, db.Bare x

variable {ids : List Nat}

theorem Cleared.deleteMemories {p : MemoryEntry → Bool} {db : Database} (h : Cleared tools ids db)
    (hp : ∀ m ∈ db.memories, p m = true → m.id ∈ ids) : Cleared tools ids (db.deleteMemories p) :=
  ⟨h.1.deleteMemories fun m hm hpm => h.2 m.id (hp m hm hpm), h.2⟩

theorem Cleared.deleteDerived {db : Database} (h : Cleared tools ids db) :
    Cleared tools ids (db.deleteDerived table id) :=
  ⟨h.1.deleteDerived, fun x hx => (h.2 x hx).deleteDerived⟩

theorem forgetDerived_cleared (entry : MemoryEntry) (id : Nat) :
    Keeps (fun c => Cleared tools ids c.db) (forgetDerived entry id) := by
  refine Keeps.bind (Keeps.forM fun table _ => ?_) fun _ => ?_
  · exact execute_keeps (Cleared tools ids) fun db hdb => hdb.deleteDerived
  · exact updateCanonicalFiles_keeps entry (query_keeps (Cleared tools ids) _)
      (changeFiles_keeps fun db _ => Cleared tools ids db)

theorem deleteById_cleared (hid : id ∈ ids) :
    Keeps (fun c => Cleared tools ids c.db) (deleteById id) := by
  refine Keeps.bind (query_keeps (Cleared tools ids) _) fun existing => ?_
  have hdelete : Keeps (fun c => Cleared tools ids c.db) (statement fun db =>
      ((db.memories.filter fun m => m.id = id).length, db.deleteMemories fun m => m.id = id)) := by
    refine statement_spec _ _ _ (fun db hdb => ?_) fun _ hdb => hdb
    exact hdb.deleteMemories fun m _ hm => by simpa [of_decide_eq_true hm] using hid
  refine Keeps.bind hdelete fun deleted => ?_
  refine Keeps.bind ?_ fun _ => Keeps.pure _
  cases existing with
  | none => exact Keeps.pure ()
  | some entry => exact Keeps.ite (forgetDerived_cleared entry id) (Keeps.pure ())

theorem forgetDerived_ok (entry : MemoryEntry) (id : Nat) :
    Triple (fun c => c.db.StaleIn tools id DerivedTable.all ∧ AllOk c.sql) (forgetDerived entry id)
      (fun _ c => c.db.Current tools ∧ AllOk c.sql) (fun _ c => c.db.Current tools) := by
  have hpass : Triple (fun c => c.db.StaleIn tools id DerivedTable.all ∧ AllOk c.sql)
      (DerivedTable.all.forM fun table => execute fun db => db.deleteDerived table id)
      (fun _ c => c.db.StaleIn tools id [] ∧ AllOk c.sql) (fun _ c => c.db.Current tools) := by
    refine Triple.forM (fun tables (c : Connection) => c.db.StaleIn tools id tables ∧
      AllOk c.sql) fun table _ rest => ?_
    exact execute_ok (fun db => db.StaleIn tools id (table :: rest))
      (fun db => db.StaleIn tools id rest) fun db hdb => hdb.deleteDerived
  have hfiles := updateCanonicalFiles_keeps entry
    (query_ok_keeps (fun db => db.Current tools) _)
    (changeFiles_keeps fun db sql => db.Current tools ∧ AllOk sql)
  refine Triple.bind hpass fun _ => hfiles.weaken ?_ (fun _ _ hc => hc) fun _ _ hc => hc.1
  exact fun c hc => ⟨staleIn_nil.mp hc.1, hc.2⟩

theorem deleteMemory_spec {db : Database} (h : db.Current tools) (id : Nat) :
    (db.deleteMemories fun m => m.id = id).StaleIn tools id DerivedTable.all ∧
      (db.getById id = none ∨ (db.memories.filter fun m => m.id = id).length = 0 →
        (db.deleteMemories fun m => m.id = id).Current tools) := by
  refine ⟨h.deleteMemory id, fun habsent => ?_⟩
  have hnone : ¬ ∃ m ∈ db.memories, m.id = id := by
    rcases habsent with hfind | hcount
    · rintro ⟨m, hm, hid⟩
      simpa [hid] using List.find?_eq_none.mp hfind m hm
    · intro hex
      have := count_pos_iff.mpr hex
      omega
  rw [deleteMemory_of_absent hnone]
  exact h

theorem forgetExisting_ok (existing : Option MemoryEntry) (deleted id : Nat) :
    Triple (fun c => (c.db.StaleIn tools id DerivedTable.all ∧
        (existing = none ∨ deleted = 0 → c.db.Current tools)) ∧ AllOk c.sql)
      (forgetExisting existing deleted id)
      (fun _ c => c.db.Current tools ∧ AllOk c.sql) (fun _ c => c.db.Current tools) := by
  cases existing with
  | none => exact Triple.pure fun _ hc => ⟨hc.1.2 (.inl rfl), hc.2⟩
  | some entry =>
    unfold forgetExisting
    dsimp only
    split
    · exact (forgetDerived_ok entry id).strengthen fun _ hc => ⟨hc.1.1, hc.2⟩
    · exact Triple.pure fun _ hc => ⟨hc.1.2 (.inr (by omega)), hc.2⟩

theorem deleteById_ok (id : Nat) :
    Triple (fun c => c.db.Current tools ∧ AllOk c.sql) (deleteById id)
      (fun _ c => c.db.Current tools ∧ AllOk c.sql) (fun _ c => c.db.Current tools) := by
  refine Triple.bind (query_ok (fun db => db.Current tools) fun db => db.getById id)
    fun existing => ?_
  have hdelete : Triple
      (fun c => (c.db.Current tools ∧ existing = c.db.getById id) ∧ AllOk c.sql)
      (statement fun db =>
        ((db.memories.filter fun m => m.id = id).length, db.deleteMemories fun m => m.id = id))
      (fun deleted c => (c.db.StaleIn tools id DerivedTable.all ∧
        (existing = none ∨ deleted = 0 → c.db.Current tools)) ∧ AllOk c.sql)
      (fun _ c => c.db.Current tools) := by
    refine statement_ok (fun db => db.Current tools ∧ existing = db.getById id)
      (fun deleted db => db.StaleIn tools id DerivedTable.all ∧
        (existing = none ∨ deleted = 0 → db.Current tools)) fun db hdb => ?_
    rw [hdb.2]
    exact deleteMemory_spec hdb.1 id
  refine Triple.bind hdelete fun deleted => ?_
  exact Triple.bind (forgetExisting_ok existing deleted id) fun _ => Triple.pure fun _ hc => hc

theorem mem_of_mem_chunks {size fuel : Nat} {xs chunk : List α} {x : α}
    (hchunk : chunk ∈ chunks size fuel xs) (hx : x ∈ chunk) : x ∈ xs := by
  induction fuel generalizing xs with
  | zero => cases xs <;> simp [chunks] at hchunk
  | succ fuel ih =>
    cases xs with
    | nil => simp [chunks] at hchunk
    | cons y ys =>
      simp only [chunks, mem_cons] at hchunk
      rcases hchunk with rfl | hchunk
      · exact mem_of_mem_take hx
      · exact mem_of_mem_drop (ih hchunk)

/-- Every row is current, and the memories that are to go have none. -/
def Unbound (tools : TextTools) (gone : MemoryEntry → Bool) (db : Database) : Prop :=
  db.Current tools ∧ ∀ m ∈ db.memories, gone m = true → db.Bare m.id

/-- The memories that a decay prune removes. -/
def MemoryEntry.decayedAt (decayed : Nat → Nat → Bool) (now : Nat) (memory : MemoryEntry) : Bool :=
  memory.prunable && decayed now memory.accessedMs

/-- The memories that a stale prune removes. -/
def MemoryEntry.staleAt (maxAgeDays : UInt32) (now : Nat) (memory : MemoryEntry) : Bool :=
  (staleCutoff now maxAgeDays).any fun cutoff => memory.accessedMs < cutoff && memory.prunable

theorem pruneDecayed_current (decayed : Nat → Nat → Bool) (now : Nat) :
    Triple (fun c => Unbound tools (MemoryEntry.decayedAt decayed now) c.db ∧ c.clock.headD 0 = now)
      (pruneDecayed decayed) (fun _ c => c.db.Current tools) (fun _ c => c.db.Current tools) := by
  refine Triple.bind (nowMs_spec (Unbound tools _) now) fun t => ?_
  refine Triple.bind ((query_spec (fun db => Unbound tools
    (MemoryEntry.decayedAt decayed now) db ∧ t = now) _).weaken (fun _ hc => hc)
    (fun _ _ hc => hc) fun _ _ hc => hc.1.1) fun candidates => ?_
  have hloop : ∀ ids, Keeps (fun c => Cleared tools ids c.db)
      ((chunks 900 ids.length ids).forM fun chunk =>
        execute fun db => db.deleteMemories fun m => chunk.contains m.id) := by
    intro ids
    refine Keeps.forM fun chunk hchunk => execute_keeps (Cleared tools ids) fun db hdb => ?_
    exact hdb.deleteMemories fun m _ hm => mem_of_mem_chunks hchunk (List.contains_iff_mem.mp hm)
  refine Triple.bind ((hloop _).weaken ?_ (fun _ _ hc => hc) fun _ _ hc => hc.1) fun _ =>
    Triple.pure fun _ hc => hc.1
  rintro c ⟨⟨⟨hcurrent, hbare⟩, rfl⟩, rfl⟩
  refine ⟨hcurrent, fun x hx => ?_⟩
  obtain ⟨m, hm, rfl⟩ := List.mem_map.mp hx
  obtain ⟨hm, hdecayed⟩ := List.mem_filter.mp hm
  obtain ⟨hm, hprunable⟩ := List.mem_filter.mp hm
  exact hbare m hm (Bool.and_eq_true_iff.mpr ⟨hprunable, hdecayed⟩)

theorem pruneBefore_current (cutoff : Option Nat) :
    Triple (fun c => Unbound tools
        (fun m => cutoff.any fun cutoff => m.accessedMs < cutoff && m.prunable) c.db)
      (pruneBefore cutoff) (fun _ c => c.db.Current tools) (fun _ c => c.db.Current tools) := by
  cases cutoff with
  | none => exact Triple.fail fun _ hc => hc.1
  | some cutoff =>
    let stale : MemoryEntry → Bool := fun m => m.accessedMs < cutoff && m.prunable
    have hdelete : Triple (fun c => Unbound tools stale c.db)
        (statement fun db => ((db.memories.filter stale).length, db.deleteMemories stale))
        (fun _ c => c.db.Current tools) (fun _ c => c.db.Current tools) :=
      statement_spec (Unbound tools stale) (fun _ db => db.Current tools)
        (fun db => db.Current tools) (fun _ hdb => hdb.1.deleteMemories hdb.2) fun _ hdb => hdb.1
    exact hdelete

theorem pruneStale_current (maxAgeDays : UInt32) (now : Nat) :
    Triple (fun c => Unbound tools (MemoryEntry.staleAt maxAgeDays now) c.db ∧
        c.clock.headD 0 = now)
      (pruneStale maxAgeDays) (fun _ c => c.db.Current tools) (fun _ c => c.db.Current tools) := by
  refine Triple.bind (nowMs_spec (Unbound tools _) now) fun t => ?_
  by_cases htime : t = now
  · subst htime
    exact (pruneBefore_current (staleCutoff t maxAgeDays)).strengthen fun _ hc => hc.1
  · exact fun _ hc => absurd hc.2 htime

/-! ## Replacing -/

theorem replaceSlot_cleared {slot content : String} {entries : List MemoryEntry}
    (hids : ∀ m ∈ entries, m.superseded tools slot content = true → m.id ∈ ids) :
    Keeps (fun c => Cleared tools ids c.db) (replaceSlot tools slot content entries) := by
  induction entries with
  | nil => exact Keeps.pure 0
  | cons existing rest ih =>
    have hrest := ih fun m hm => hids m (mem_cons_of_mem existing hm)
    have hdelete : Keeps (fun c => Cleared tools ids c.db)
        (deleteSuperseded tools slot content existing) := by
      unfold deleteSuperseded
      split
      · rename_i hsuperseded
        exact deleteById_cleared (hids existing mem_cons_self hsuperseded)
      · exact Keeps.pure false
    exact Keeps.bind hdelete fun _ => Keeps.bind hrest fun _ => Keeps.pure _

theorem replaceSlot_ok {slot content : String} (entries : List MemoryEntry) :
    Triple (fun c => c.db.Current tools ∧ AllOk c.sql) (replaceSlot tools slot content entries)
      (fun _ c => c.db.Current tools ∧ AllOk c.sql) (fun _ c => c.db.Current tools) := by
  induction entries with
  | nil => exact Triple.pure fun _ hc => hc
  | cons existing rest ih =>
    have hdelete : Triple (fun c => c.db.Current tools ∧ AllOk c.sql)
        (deleteSuperseded tools slot content existing)
        (fun _ c => c.db.Current tools ∧ AllOk c.sql) (fun _ c => c.db.Current tools) := by
      unfold deleteSuperseded
      split
      · exact deleteById_ok existing.id
      · exact Triple.pure fun _ hc => hc
    exact Triple.bind hdelete fun _ => Triple.bind ih fun _ => Triple.pure fun _ hc => hc

theorem isDuplicate_keeps (slot : Option String) (content : String)
    (hquery : ∀ f : Database → Bool, Keeps P (query f)) :
    Keeps P (isDuplicate tools slot content) :=
  Keeps.ite (hquery _) (Keeps.ite (Keeps.pure false) (hquery _))

theorem mem_getByKind {db : Database} {limit : Nat} {m : MemoryEntry}
    (hm : m ∈ db.getByKind kind limit) : m ∈ db.memories ∧ m.kind = kind := by
  have := (mem_insertionSort _).mp (mem_of_mem_take hm)
  simpa using List.mem_filter.mp this

/-- The memories whose value the new one replaces. -/
def replaced (tools : TextTools) (kind content : String) (memory : MemoryEntry) : Bool :=
  memory.kind = kind &&
    (memorySlot tools kind content).any fun slot => memory.superseded tools slot content

theorem clearSlot_ok (kind content : String) (slot : Option String) :
    Triple (fun c => c.db.Current tools ∧ AllOk c.sql) (clearSlot tools kind content slot)
      (fun _ c => c.db.Current tools) (fun _ c => c.db.Current tools) := by
  cases slot with
  | none => exact Triple.pure fun _ hc => hc.1
  | some slot =>
    refine Triple.bind (query_ok (fun db => db.Current tools) _) fun entries => ?_
    exact (replaceSlot_ok entries).weaken (fun _ hc => ⟨hc.1.1, hc.2⟩) (fun _ _ hc => hc.1)
      fun _ _ hc => hc

theorem clearSlot_unbound (kind content : String) :
    Triple (fun c => Unbound tools (replaced tools kind content) c.db)
      (clearSlot tools kind content (memorySlot tools kind content))
      (fun _ c => c.db.Current tools) (fun _ c => c.db.Current tools) := by
  cases hslot : memorySlot tools kind content with
  | none => exact Triple.pure fun _ hc => hc.1
  | some slot =>
    refine Triple.bind ((query_spec (Unbound tools (replaced tools kind content)) _).weaken
      (fun _ hc => hc) (fun _ _ hc => hc) fun _ _ hc => hc.1) fun entries => ?_
    have hclear : Keeps
        (fun c => Cleared tools
          ((entries.filter (MemoryEntry.superseded tools slot content)).map MemoryEntry.id) c.db)
        (replaceSlot tools slot content entries) :=
      replaceSlot_cleared fun m hm hsuperseded =>
        mem_map_of_mem (List.mem_filter.mpr ⟨hm, hsuperseded⟩)
    refine hclear.weaken ?_ (fun _ _ hc => hc.1) fun _ _ hc => hc.1
    rintro c ⟨⟨hcurrent, hbare⟩, rfl⟩
    refine ⟨hcurrent, fun x hx => ?_⟩
    obtain ⟨m, hm, rfl⟩ := List.mem_map.mp hx
    obtain ⟨hm, hsuperseded⟩ := List.mem_filter.mp hm
    obtain ⟨hm, hkind⟩ := mem_getByKind hm
    refine hbare m hm ?_
    simpa [replaced, hkind, hslot] using hsuperseded

theorem storeResolved_of_clearSlot {kind content : String} (hP : ∀ c, P c → c.db.Current tools)
    (hquery : ∀ f : Database → Bool, Keeps P (query f))
    (hclear : Triple P (clearSlot tools kind (normalizeMemoryContent content)
      (memorySlot tools kind (normalizeMemoryContent content)))
      (fun _ c => c.db.Current tools) (fun _ c => c.db.Current tools)) :
    Triple P (storeResolved tools kind content)
      (fun _ c => c.db.Current tools) (fun _ c => c.db.Current tools) := by
  refine Triple.bind ((isDuplicate_keeps _ _ hquery).weaken (fun _ hc => hc) (fun _ _ hc => hc)
    fun _ c hc => hP c hc) fun duplicate => ?_
  split
  · exact Triple.pure fun c hc => hP c hc
  · refine Triple.bind hclear fun _ => ?_
    exact Keeps.bind (storeAs_current false kind _) fun _ => Keeps.pure _

theorem storeResolved_ok (kind content : String) :
    Triple (fun c => c.db.Current tools ∧ AllOk c.sql) (storeResolved tools kind content)
      (fun _ c => c.db.Current tools) (fun _ c => c.db.Current tools) :=
  storeResolved_of_clearSlot (fun _ hc => hc.1) (query_ok_keeps fun db => db.Current tools)
    (clearSlot_ok kind _ _)

theorem storeResolved_unbound (kind content : String) :
    Triple (fun c => Unbound tools (replaced tools kind (normalizeMemoryContent content)) c.db)
      (storeResolved tools kind content)
      (fun _ c => c.db.Current tools) (fun _ c => c.db.Current tools) :=
  storeResolved_of_clearSlot (fun _ hc => hc.1) (query_keeps (Unbound tools _))
    (clearSlot_unbound kind _)

/-! ## Editing -/

theorem updateMemory_spec {db : Database} (h : db.Current tools) (id : Nat)
    (kind content : String) (metadata : MemoryPolicyMetadata) :
    (db.updateMemory id kind content metadata).StaleIn tools id DerivedTable.all ∧
      (0 < (db.memories.filter fun m => m.id = id).length →
        (db.updateMemory id kind content metadata).States id kind content metadata) ∧
      ((db.memories.filter fun m => m.id = id).length = 0 →
        (db.updateMemory id kind content metadata).Current tools) := by
  refine ⟨h.updateMemory id kind content metadata, fun hcount => ?_, fun hcount => ?_⟩
  · exact updateMemory_states (count_pos_iff.mp hcount)
  · have hnone : ¬ ∃ m ∈ db.memories, m.id = id := fun hex => by
      have := count_pos_iff.mpr hex
      omega
    rw [updateMemory_of_absent hnone]
    exact h

theorem rederive_ok (existing : MemoryEntry) (updated id : Nat) (kind content : String) :
    Triple (fun c => (c.db.StaleIn tools id DerivedTable.all ∧
        (0 < updated → c.db.States id kind content (inferMetadata kind content)) ∧
        (updated = 0 → c.db.Current tools)) ∧ AllOk c.sql)
      (rederive tools existing updated id kind content)
      (fun _ c => c.db.Current tools) (fun _ c => c.db.Current tools) := by
  unfold rederive
  split
  · rename_i hpos
    have hpass : Triple (fun c => Writing tools id kind content (inferMetadata kind content)
          DerivedTable.all c.db ∧ AllOk c.sql)
        (DerivedTable.all.forM (upsertNow tools id kind content (inferMetadata kind content)))
        (fun _ c => Writing tools id kind content (inferMetadata kind content) [] c.db ∧
          AllOk c.sql) (fun _ c => c.db.Current tools) := by
      refine Triple.forM (fun tables (c : Connection) => Writing tools id kind content
        (inferMetadata kind content) tables c.db ∧ AllOk c.sql) fun table _ rest => ?_
      refine Triple.bind (nowMs_ok fun db sql => Writing tools id kind content
        (inferMetadata kind content) (table :: rest) db ∧ AllOk sql) fun now => ?_
      exact upsert_refreshes now table rest
    have hfiles := updateCanonicalFiles_keeps existing (query_keeps (fun db => db.Current tools) _)
      (changeFiles_keeps fun db _ => db.Current tools)
    refine Triple.bind (hpass.strengthen fun _ hc => ⟨⟨hc.1.1, hc.1.2.1 hpos⟩, hc.2⟩) fun _ => ?_
    exact hfiles.strengthen fun _ hc => hc.1.current
  · exact Triple.pure fun _ hc => hc.1.2.2 (by omega)

theorem rederive_current (existing : MemoryEntry) (updated id : Nat) (kind content : String) :
    Triple (fun c => c.db.Current tools ∧
        (0 < updated → c.db.States id kind content (inferMetadata kind content)))
      (rederive tools existing updated id kind content)
      (fun _ c => c.db.Current tools) (fun _ c => c.db.Current tools) := by
  unfold rederive
  split
  · rename_i hpos
    have hpass : Keeps (fun c => Writing tools id kind content (inferMetadata kind content) [] c.db)
        (DerivedTable.all.forM (upsertNow tools id kind content (inferMetadata kind content))) := by
      refine Keeps.forM fun table _ => ?_
      exact Keeps.bind (nowMs_ok fun db _ => Writing tools id kind content
        (inferMetadata kind content) [] db) fun now => upsert_keeps now table
    have hfiles := updateCanonicalFiles_keeps existing (query_keeps (fun db => db.Current tools) _)
      (changeFiles_keeps fun db _ => db.Current tools)
    refine Triple.bind (hpass.weaken (fun _ hc => ⟨staleIn_nil.mpr hc.1, hc.2 hpos⟩)
      (fun _ _ hc => hc) fun _ _ hc => hc.current) fun _ => ?_
    exact hfiles.strengthen fun _ hc => hc.current
  · exact Triple.pure fun _ hc => hc.1

theorem writeManaged_ok (existing : MemoryEntry) (id : Nat) (kind content : String) :
    Triple (fun c => c.db.Current tools ∧ AllOk c.sql) (writeManaged tools existing id kind content)
      (fun _ c => c.db.Current tools) (fun _ c => c.db.Current tools) := by
  refine Triple.bind (statement_ok (fun db => db.Current tools) (fun updated db =>
    db.StaleIn tools id DerivedTable.all ∧
      (0 < updated → db.States id kind content (inferMetadata kind content)) ∧
      (updated = 0 → db.Current tools)) fun db hdb => ?_) fun updated => ?_
  · exact updateMemory_spec hdb id kind content _
  · exact Triple.bind (rederive_ok existing updated id kind content) fun _ =>
      Triple.pure fun _ hc => hc

theorem writeManaged_bare (existing : MemoryEntry) (id : Nat) (kind content : String) :
    Triple (fun c => c.db.Current tools ∧ c.db.Bare id)
      (writeManaged tools existing id kind content)
      (fun _ c => c.db.Current tools) (fun _ c => c.db.Current tools) := by
  refine Triple.bind (statement_spec (fun db => db.Current tools ∧ db.Bare id) (fun updated db =>
    db.Current tools ∧ (0 < updated → db.States id kind content (inferMetadata kind content)))
    (fun db => db.Current tools) (fun db hdb => ?_) fun _ hdb => hdb.1) fun updated => ?_
  · have hspec := updateMemory_spec hdb.1 id kind content (inferMetadata kind content)
    exact ⟨hspec.1.current_of_bare hdb.2, hspec.2.1⟩
  · exact Triple.bind (rederive_current existing updated id kind content) fun _ =>
      Triple.pure fun _ hc => hc

theorem updateManaged_of_writeManaged (id : Nat) (content : String) (kind : Option String)
    (hP : ∀ c, P c → c.db.Current tools) (hquery : Keeps P (query fun db => db.getById id))
    (hwrite : ∀ existing kind content,
      Triple P (writeManaged tools existing id kind content) (fun _ c => c.db.Current tools)
        (fun _ c => c.db.Current tools)) :
    Triple P (updateManaged tools id content kind)
      (fun _ c => c.db.Current tools) (fun _ c => c.db.Current tools) := by
  refine Triple.bind (hquery.weaken (fun _ hc => hc) (fun _ _ hc => hc) fun _ c hc => hP c hc)
    fun existing => ?_
  cases existing with
  | none => exact Triple.pure fun c hc => hP c hc
  | some existing =>
    dsimp only
    unfold updateExisting
    dsimp only
    split
    · exact Triple.fail fun c hc => hP c hc
    · split
      · exact Triple.fail fun c hc => hP c hc
      · split
        · exact Triple.fail fun c hc => hP c hc
        · split
          · exact Triple.pure fun c hc => hP c hc
          · exact hwrite existing _ _

theorem updateManaged_ok (id : Nat) (content : String) (kind : Option String) :
    Triple (fun c => c.db.Current tools ∧ AllOk c.sql) (updateManaged tools id content kind)
      (fun _ c => c.db.Current tools) (fun _ c => c.db.Current tools) :=
  updateManaged_of_writeManaged id content kind (fun _ hc => hc.1)
    (query_ok_keeps (fun db => db.Current tools) _) fun existing => writeManaged_ok existing id

theorem updateManaged_bare (id : Nat) (content : String) (kind : Option String) :
    Triple (fun c => c.db.Current tools ∧ c.db.Bare id) (updateManaged tools id content kind)
      (fun _ c => c.db.Current tools) (fun _ c => c.db.Current tools) :=
  updateManaged_of_writeManaged id content kind (fun _ hc => hc.1)
    (query_keeps (fun db => db.Current tools ∧ db.Bare id) _)
    fun existing => writeManaged_bare existing id

end

end GenieClaw.Memory
