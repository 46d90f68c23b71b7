import GenieClaw.Library.Machine
import GenieClaw.Memory.Store
import GenieClaw.Memory.Upkeep

/-!
# Runs of the memory store

The store as a machine. Every call comes with what it will meet: the statements and files
that fail, and the clock.

* `step_current`: a careful call keeps the derived rows current.
* `rows_stay_current` (the calls are `Careful`): so does every run of them.
-/

namespace GenieClaw.Memory

open Library Library.Program List

inductive Command where
  | store (kind content : String)
  | storeEvergreen (kind content : String)
  | storeResolved (kind content : String)
  | updateManaged (id : Nat) (content : String) (kind : Option String)
  | deleteById (id : Nat)
  | pruneDecayed (decayed : Nat → Nat → Bool)
  | pruneStale (maxAgeDays : UInt32)

inductive Reply where
  | stored (id : Nat)
  | resolved (outcome : StoreOutcome)
  | found (present : Bool)
  | pruned (count : Nat)
deriving DecidableEq

structure Call where
  command : Command
  sql : List Bool := []
  files : List Bool := []
  clock : List Nat := []

def Call.connect (call : Call) (db : Database) : Connection :=
  { db, sql := call.sql, files := call.files, clock := call.clock }

section

variable (tools : TextTools)

def perform : Command → Op Reply
  | .store kind content => Reply.stored <$> store tools kind content
  | .storeEvergreen kind content => Reply.stored <$> storeEvergreen tools kind content
  | .storeResolved kind content => Reply.resolved <$> storeResolved tools kind content
  | .updateManaged id content kind => Reply.found <$> updateManaged tools id content kind
  | .deleteById id => Reply.found <$> deleteById id
  | .pruneDecayed decayed => Reply.pruned <$> pruneDecayed decayed
  | .pruneStale maxAgeDays => Reply.pruned <$> pruneStale maxAgeDays

def machine : Machine Database Call (Except MemoryError Reply) where
  step db call :=
    let (reply, c) := perform tools call.command (call.connect db)
    (reply, c.db)

/-- A prune removes only memories without derived rows. Where a memory is edited, deleted or
replaced, no statement of the call fails, or the memory has no derived rows. -/
def Careful (db : Database) (call : Call) : Prop :=
  match call.command with
  | .store _ _ => True
  | .storeEvergreen _ _ => True
  | .storeResolved kind content =>
    AllOk call.sql ∨ ∀ m ∈ db.memories,
      replaced tools kind (normalizeMemoryContent content) m = true → db.Bare m.id
  | .updateManaged id _ _ => AllOk call.sql ∨ db.Bare id
  | .deleteById id => AllOk call.sql ∨ db.Bare id
  | .pruneDecayed decayed =>
    ∀ m ∈ db.memories, m.decayedAt decayed (call.clock.headD 0) = true → db.Bare m.id
  | .pruneStale maxAgeDays =>
    ∀ m ∈ db.memories, m.staleAt maxAgeDays (call.clock.headD 0) = true → db.Bare m.id

end

variable {tools : TextTools}

theorem reply_after {α : Type} {P R : Connection → Prop} {x : Op α} {f : α → Reply}
    (hx : Triple P x (fun _ => R) fun _ => R) {c : Connection} (hc : P c) : R ((f <$> x) c).2 := by
  have hreply : Triple P (f <$> x) (fun _ => R) fun _ => R :=
    Triple.bind hx fun _ => Triple.pure fun _ hs => hs
  exact hreply.after hc

theorem step_snd (db : Database) (call : Call) :
    ((machine tools).step db call).2 = (perform tools call.command (call.connect db)).2.db := rfl

theorem eventAt_of_perform {db : Database} {call : Call} {reply : Except MemoryError Reply}
    {c : Connection} (h : perform tools call.command (call.connect db) = (reply, c)) :
    (machine tools).eventAt db call = ⟨db, call, reply, c.db⟩ := by
  show Machine.Event.mk db call (perform tools call.command (call.connect db)).1
    (perform tools call.command (call.connect db)).2.db = _
  rw [h]

theorem step_current {db : Database} {call : Call} (h : db.Current tools)
    (hcareful : Careful tools db call) : ((machine tools).step db call).2.Current tools := by
  obtain ⟨command, sql, files, clock⟩ := call
  rw [step_snd]
  cases command with
  | store kind content =>
    rw [perform]
    exact reply_after (storeAs_current false kind content) h
  | storeEvergreen kind content =>
    rw [perform]
    exact reply_after (storeAs_current true kind content) h
  | storeResolved kind content =>
    rw [perform]
    rcases hcareful with hok | hbare
    · exact reply_after (storeResolved_ok kind content) ⟨h, hok⟩
    · exact reply_after (storeResolved_unbound kind content) ⟨h, hbare⟩
  | updateManaged id content kind =>
    rw [perform]
    rcases hcareful with hok | hbare
    · exact reply_after (updateManaged_ok id content kind) ⟨h, hok⟩
    · exact reply_after (updateManaged_bare id content kind) ⟨h, hbare⟩
  | deleteById id =>
    rw [perform]
    rcases hcareful with hok | hbare
    · have hdelete : Triple (fun c => c.db.Current tools ∧ AllOk c.sql) (Memory.deleteById id)
          (fun _ c => c.db.Current tools) (fun _ c => c.db.Current tools) :=
        (deleteById_ok id).weaken (fun _ hc => hc) (fun _ _ hc => hc.1) fun _ _ hc => hc
      exact reply_after hdelete ⟨h, hok⟩
    · have hids : ∀ x ∈ [id], db.Bare x := fun x hx => List.mem_singleton.mp hx ▸ hbare
      have hdelete : Keeps (fun c => Cleared tools [id] c.db) (Memory.deleteById id) :=
        deleteById_cleared (mem_singleton_self id)
      exact (reply_after hdelete ⟨h, hids⟩).1
  | pruneDecayed decayed =>
    rw [perform]
    exact reply_after (pruneDecayed_current decayed (clock.headD 0)) ⟨⟨h, hcareful⟩, rfl⟩
  | pruneStale maxAgeDays =>
    rw [perform]
    exact reply_after (pruneStale_current maxAgeDays (clock.headD 0)) ⟨⟨h, hcareful⟩, rfl⟩

/-- In a run of careful calls every derived row is current after every call, and what an
answer was composed from is there. -/
theorem rows_stay_current (tools : TextTools) (db : Database) (hstart : db.Current tools)
    (calls : List Call)
    (hcareful : ∀ e ∈ (machine tools).trace db calls, Careful tools e.before e.input) :
    ∀ e ∈ (machine tools).trace db calls, e.after.Current tools ∧
      ∀ (earlier later : List AnswerStage) (query : String) (found : Answer),
        structuredHouseholdAnswer earlier later e.after.derived query = some found →
        ∀ id ∈ found.sources, ∃ m ∈ e.after.memories, m.id = id := by
  have hcurrent : ∀ e ∈ (machine tools).trace db calls, e.after.Current tools := by
    induction calls generalizing db with
    | nil => intro e he; cases he
    | cons call rest ih =>
      rw [Machine.trace_cons] at hcareful
      have hstep := step_current hstart (hcareful _ mem_cons_self)
      intro e he
      rw [Machine.trace_cons, mem_cons] at he
      rcases he with rfl | he
      · exact hstep
      · exact ih _ hstep (fun e he => hcareful e (mem_cons_of_mem _ he)) e he
  intro e he
  refine ⟨hcurrent e he, fun earlier later query found hfound id hid => ?_⟩
  obtain ⟨table, row, hrow, rfl⟩ := structuredHouseholdAnswer_sources hfound id hid
  obtain ⟨m, hm, hm_id, _⟩ := hcurrent e he table row hrow
  exact ⟨m, hm, hm_id⟩

/-- Text handling for ASCII, without the other tables. -/
def asciiTools : TextTools where
  toLowercase := Text.toAsciiLowercase
  isAlphanumeric := Text.isAsciiAlphanumeric
  rows _ _ _ _ := []

theorem rows_stay_current_deleted :
    (∀ e ∈ (machine asciiTools).trace {}
        [⟨.store "shopping" "Shopping list: milk", [], [], [0]⟩, ⟨.deleteById 1, [], [], [1]⟩],
      Careful asciiTools e.before e.input) ∧
    ∀ e ∈ (machine asciiTools).trace {}
        [⟨.store "shopping" "Shopping list: milk", [], [], [0]⟩, ⟨.deleteById 1, [], [], [1]⟩],
      e.after.Current asciiTools ∧
        ∀ (earlier later : List AnswerStage) (query : String) (found : Answer),
          structuredHouseholdAnswer earlier later e.after.derived query = some found →
          ∀ id ∈ found.sources, ∃ m ∈ e.after.memories, m.id = id := by
  have hcareful : ∀ e ∈ (machine asciiTools).trace {}
      [⟨.store "shopping" "Shopping list: milk", [], [], [0]⟩, ⟨.deleteById 1, [], [], [1]⟩],
      Careful asciiTools e.before e.input := by
    intro e he
    rw [Machine.trace_cons, Machine.trace_cons, Machine.trace_nil, mem_cons,
      mem_singleton] at he
    rcases he with rfl | rfl
    · trivial
    · exact .inl fun _ hok => by cases hok
  exact ⟨hcareful,
    rows_stay_current asciiTools {} (fun _ row hrow => by cases hrow) _ hcareful⟩

/-! ## When no statement fails -/

section

variable (db : Database) (files : List Bool) (clock : List Nat)

theorem execute_run (f : Database → Database) :
    execute f ⟨db, [], files, clock⟩ = (.ok (), ⟨f db, [], files, clock⟩) := rfl

theorem forM_execute_run {β : Type} (f : β → Database → Database) (xs : List β) :
    (xs.forM fun x => execute (f x)) ⟨db, [], files, clock⟩ =
      (.ok (), ⟨xs.foldl (fun db x => f x db) db, [], files, clock⟩) := by
  induction xs generalizing db with
  | nil => rfl
  | cons x rest ih =>
    rw [Program.forM_cons, bind_apply_ok (execute_run db files clock _), ih]
    rfl

variable (tools : TextTools) (id : Nat) (kind content : String)
  (metadata : MemoryPolicyMetadata) (updatedMs : Nat)

/-- The database after the upsert of a memory into a table. -/
def upserted (db : Database) (table : DerivedTable) : Database :=
  (derive tools table kind content metadata).foldl
    (fun db columns => db.insertDerived table ⟨id, columns, updatedMs⟩) (db.deleteDerived table id)

theorem upsertFromMemory_run (table : DerivedTable) :
    upsertFromMemory tools id kind content metadata updatedMs table ⟨db, [], files, clock⟩ =
      (.ok (), ⟨upserted tools id kind content metadata updatedMs db table, [], files, clock⟩) := by
  unfold upsertFromMemory
  rw [bind_apply_ok (execute_run db files clock _),
    bind_apply_ok (forM_execute_run _ files clock _ _)]
  unfold warnIfDeviceAliasConflict
  split
  · rfl
  · rfl

theorem forM_upsert_run (tables : List DerivedTable) :
    tables.forM (upsertFromMemory tools id kind content metadata updatedMs)
        ⟨db, [], files, clock⟩ =
      (.ok (), ⟨tables.foldl (upserted tools id kind content metadata updatedMs) db, [], files,
        clock⟩) := by
  induction tables generalizing db with
  | nil => rfl
  | cons table rest ih =>
    rw [Program.forM_cons, bind_apply_ok (upsertFromMemory_run db files clock ..), ih]
    rfl

theorem foldl_insertDerived (table : DerivedTable) (rows : List Columns) :
    (rows.foldl (fun db columns => db.insertDerived table ⟨id, columns, updatedMs⟩) db).memories =
        db.memories ∧
      ∀ t, (rows.foldl (fun db columns =>
          db.insertDerived table ⟨id, columns, updatedMs⟩) db).derived t =
        if t = table then db.derived t ++ rows.map fun columns => ⟨id, columns, updatedMs⟩
        else db.derived t := by
  induction rows generalizing db with
  | nil => simp
  | cons columns rest ih =>
    rw [foldl_cons]
    refine ⟨(ih _).1, fun t => ?_⟩
    rw [(ih _).2 t, Database.insertDerived]
    by_cases ht : t = table <;> simp [ht]

theorem upserted_memories (table : DerivedTable) :
    (upserted tools id kind content metadata updatedMs db table).memories = db.memories :=
  (foldl_insertDerived _ id updatedMs table _).1

theorem upserted_derived (table t : DerivedTable) :
    (upserted tools id kind content metadata updatedMs db table).derived t =
      if t = table then (db.derived t).filter (fun row => row.sourceMemoryId ≠ id) ++
        (derive tools table kind content metadata).map fun columns => ⟨id, columns, updatedMs⟩
      else db.derived t := by
  rw [upserted, (foldl_insertDerived _ id updatedMs table _).2 t, Database.deleteDerived]
  by_cases ht : t = table <;> simp [ht]

theorem foldl_upserted_memories (tables : List DerivedTable) :
    (tables.foldl (upserted tools id kind content metadata updatedMs) db).memories =
      db.memories := by
  induction tables generalizing db with
  | nil => rfl
  | cons table rest ih => rw [foldl_cons, ih, upserted_memories]

theorem foldl_upserted_derived {tables : List DerivedTable} (hnodup : tables.Nodup)
    (t : DerivedTable) :
    (tables.foldl (upserted tools id kind content metadata updatedMs) db).derived t =
      if t ∈ tables then (db.derived t).filter (fun row => row.sourceMemoryId ≠ id) ++
        (derive tools t kind content metadata).map fun columns => ⟨id, columns, updatedMs⟩
      else db.derived t := by
  induction tables generalizing db with
  | nil => simp
  | cons table rest ih =>
    obtain ⟨hnot, hrest⟩ := List.nodup_cons.mp hnodup
    rw [foldl_cons, ih _ hrest, upserted_derived]
    by_cases ht : t = table
    · subst ht
      simp [hnot]
    · simp [ht]

/-- The database after a memory is stored. -/
def stored (evergreen : Bool) (accessedMs : Nat) : Database :=
  DerivedTable.all.foldl
    (upserted tools db.nextId kind content (inferMetadata kind content) accessedMs)
    (db.insertMemory { id := db.nextId, kind, content, accessedMs, evergreen,
                       metadata := inferMetadata kind content })

theorem storeAs_run (evergreen : Bool) :
    storeAs tools evergreen kind content ⟨db, [], [], clock⟩ =
      (.ok db.nextId, ⟨stored db tools kind (normalizeMemoryContent content) evergreen
        (clock.headD 0), [], [], clock.tail⟩) := by
  have hmemory : storeWithMetadata tools kind (normalizeMemoryContent content)
      (inferMetadata kind (normalizeMemoryContent content)) evergreen ⟨db, [], [], clock⟩ =
      (.ok db.nextId, ⟨stored db tools kind (normalizeMemoryContent content) evergreen
        (clock.headD 0), [], [], clock.tail⟩) := by
    have hnow : nowMs ⟨db, [], [], clock⟩ = (.ok (clock.headD 0), ⟨db, [], [], clock.tail⟩) := rfl
    have hinsert : statement (fun db => (db.nextId, db.insertMemory
          { id := db.nextId, kind, content := normalizeMemoryContent content,
            accessedMs := clock.headD 0, evergreen,
            metadata := inferMetadata kind (normalizeMemoryContent content) }))
        ⟨db, [], [], clock.tail⟩ =
        (.ok db.nextId, ⟨db.insertMemory
          { id := db.nextId, kind, content := normalizeMemoryContent content,
            accessedMs := clock.headD 0, evergreen,
            metadata := inferMetadata kind (normalizeMemoryContent content) },
          [], [], clock.tail⟩) := rfl
    unfold storeWithMetadata
    rw [bind_apply_ok hnow, bind_apply_ok hinsert, bind_apply_ok (forM_upsert_run ..)]
    rfl
  unfold storeAs
  rw [bind_apply_ok hmemory]
  generalize stored db tools kind (normalizeMemoryContent content) evergreen (clock.headD 0) = after
  rfl

theorem connect_mk (command : Command) (sql : List Bool) :
    Call.connect ⟨command, sql, files, clock⟩ db = ⟨db, sql, files, clock⟩ := rfl

theorem step_store :
    ((machine tools).step db ⟨.store kind content, [], [], clock⟩).2 =
      stored db tools kind (normalizeMemoryContent content) false (clock.headD 0) := by
  rw [step_snd, perform, connect_mk, store, map_apply_ok Reply.stored (storeAs_run ..)]

theorem pruneStale_run {maxAgeDays : UInt32} {cutoff : Nat}
    (hcutoff : staleCutoff (clock.headD 0) maxAgeDays = some cutoff) :
    pruneStale maxAgeDays ⟨db, [], [], clock⟩ =
      (.ok (db.memories.filter fun m => m.accessedMs < cutoff && m.prunable).length,
        ⟨db.deleteMemories fun m => m.accessedMs < cutoff && m.prunable, [], [], clock.tail⟩) := by
  have hnow : nowMs ⟨db, [], [], clock⟩ = (.ok (clock.headD 0), ⟨db, [], [], clock.tail⟩) := rfl
  rw [pruneStale, bind_apply_ok hnow, hcutoff]
  rfl

theorem step_pruneStale {maxAgeDays : UInt32} {cutoff : Nat}
    (hcutoff : staleCutoff (clock.headD 0) maxAgeDays = some cutoff) :
    ((machine tools).step db ⟨.pruneStale maxAgeDays, [], [], clock⟩).2 =
      db.deleteMemories fun m => m.accessedMs < cutoff && m.prunable := by
  rw [step_snd, perform, connect_mk, map_apply_ok Reply.pruned (pruneStale_run db clock hcutoff)]

theorem stored_shoppingListItems (evergreen : Bool) (accessedMs : Nat) :
    (stored db tools kind content evergreen accessedMs).derived .shoppingListItems =
      (db.derived .shoppingListItems).filter (fun row => row.sourceMemoryId ≠ db.nextId) ++
        (derive tools .shoppingListItems kind content (inferMetadata kind content)).map
          fun columns => ⟨db.nextId, columns, accessedMs⟩ := by
  rw [stored, foldl_upserted_derived _ _ _ _ _ _ _ (by decide), if_pos (by decide)]
  rfl

end

/-- A shopping list that was pruned a month after it was stored is still read out. -/
theorem pruned_memory_still_answers :
    ∃ calls : List Call, ∀ tools : TextTools,
      let db := (machine tools).run {} calls
      db.memories = [] ∧
        shoppingListStage.answer db.derived "What is on the shopping list?" =
          some ⟨[1], "Shopping list: milk."⟩ ∧
        ¬ db.Current tools := by
  refine ⟨[⟨.store "shopping" "Shopping list: milk", [], [], [0]⟩,
    ⟨.pruneStale 30, [], [], [2678400000]⟩], fun tools => ?_⟩
  have hcontent : normalizeMemoryContent "Shopping list: milk" = "Shopping list: milk" := by
    decide +kernel
  have hderive : derive tools .shoppingListItems "shopping" "Shopping list: milk"
      (inferMetadata "shopping" "Shopping list: milk") =
        [[.text "milk", .text "milk", .text "pending"]] := by
    show sharedRoomOnly _ (shoppingListItemsFromMemory "shopping" "Shopping list: milk") = _
    decide +kernel
  have hcutoff : staleCutoff ([2678400000].headD 0) 30 = some 86400000 := by decide
  have hmemories : (stored {} tools "shopping" "Shopping list: milk" false 0).memories =
      [⟨1, "shopping", "Shopping list: milk", 0, false, false,
        inferMetadata "shopping" "Shopping list: milk"⟩] := by
    rw [stored, foldl_upserted_memories]
    rfl
  have hrows : (stored {} tools "shopping" "Shopping list: milk" false 0).derived
      .shoppingListItems = [⟨1, [.text "milk", .text "milk", .text "pending"], 0⟩] := by
    rw [stored_shoppingListItems, hderive]
    rfl
  intro db
  have hdb : db = (stored {} tools "shopping" "Shopping list: milk" false 0).deleteMemories
      fun m => m.accessedMs < 86400000 && m.prunable := by
    show (machine tools).run {} [_, _] = _
    rw [Machine.run_cons, Machine.run_cons, Machine.run_nil, step_store, hcontent,
      step_pruneStale _ _ _ hcutoff]
    rfl
  have hgone : db.memories = [] := by
    rw [hdb, Database.deleteMemories, hmemories]
    rfl
  have hlisted : db.derived .shoppingListItems =
      [⟨1, [.text "milk", .text "milk", .text "pending"], 0⟩] := by
    rw [hdb, Database.derived_deleteMemories, hrows]
  clear_value db
  refine ⟨hgone, ?_, fun hcurrent => ?_⟩
  · rw [shoppingListStage_answer, shoppingListAnswer, hlisted]
    decide
  · obtain ⟨m, hm, _⟩ := hcurrent .shoppingListItems _ (hlisted ▸ mem_singleton_self _)
    rw [hgone] at hm
    cases hm

end GenieClaw.Memory
