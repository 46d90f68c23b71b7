import GenieClaw.Memory.Rows
import GenieClaw.Memory.StatementCalls

/-!
# The shopping list over whole runs

The pending list against the statements in the order in which they were made: where every call
that writes a statement fits the ones before it, an item is on the list exactly if the last
statement that names it wants it, and a rebuild of the table finds the same items.

* `pending_list_follows` (the calls are `Orderly`): the list has what was wanted at last.
-/

namespace GenieClaw.Memory

open Library Library.Program Library.Text Library.LastWrite List

variable {tools : TextTools}

/-! ## Rebuilding -/

theorem rebuildTable_smooth (table : DerivedTable) : Smooth (rebuildTable tools table) :=
  Smooth.bind (execute_smooth _) fun _ => Smooth.bind (query_smooth _) fun _ =>
    Smooth.bind nowMs_smooth fun now => Smooth.forM fun m _ =>
      upsertFromMemory_smooth m.id m.kind m.content m.metadata now table

section

variable (tools) (now : Nat) (table : DerivedTable)

/-- The database after the memories were upserted into a table. -/
def upsertedAll (db : Database) (memories : List MemoryEntry) : Database :=
  memories.foldl (fun db m => upserted tools m.id m.kind m.content m.metadata now db table) db

theorem forM_upsertAll_run (db : Database) (clock : List Nat) (memories : List MemoryEntry) :
    (memories.forM fun m => upsertFromMemory tools m.id m.kind m.content m.metadata now table)
        ⟨db, [], [], clock⟩ =
      (.ok (), ⟨upsertedAll tools now table db memories, [], [], clock⟩) := by
  induction memories generalizing db with
  | nil => rfl
  | cons m rest ih =>
    rw [Program.forM_cons, bind_apply_ok (upsertFromMemory_run db [] clock ..), ih]
    rfl

theorem upsertedAll_derived (db : Database) {memories : List MemoryEntry}
    (hids : Identified memories)
    (hnew : ∀ row ∈ db.derived table, row.sourceMemoryId ∉ memories.map MemoryEntry.id) :
    (upsertedAll tools now table db memories).derived table =
      db.derived table ++ memories.flatMap fun m =>
        (derive tools table m.kind m.content m.metadata).map
          fun columns => ⟨m.id, columns, now⟩ := by
  induction memories generalizing db with
  | nil => simp [upsertedAll]
  | cons m rest ih =>
    obtain ⟨hnot, hrest⟩ := List.nodup_cons.mp (map_cons ▸ hids :
      (m.id :: rest.map MemoryEntry.id).Nodup)
    have hfirst : (upserted tools m.id m.kind m.content m.metadata now db table).derived table =
        db.derived table ++ (derive tools table m.kind m.content m.metadata).map
          fun columns => ⟨m.id, columns, now⟩ := by
      rw [upserted_derived, if_pos rfl, List.filter_eq_self.mpr]
      intro row hrow
      have hne := hnew row hrow
      rw [map_cons, mem_cons, not_or] at hne
      exact decide_eq_true hne.1
    have hstep : upsertedAll tools now table db (m :: rest) = upsertedAll tools now table
        (upserted tools m.id m.kind m.content m.metadata now db table) rest := rfl
    rw [hstep, ih _ hrest, hfirst, flatMap_cons, append_assoc]
    intro row hrow
    rw [hfirst, mem_append] at hrow
    rcases hrow with hrow | hrow
    · have hne := hnew row hrow
      rw [map_cons, mem_cons, not_or] at hne
      exact hne.2
    · obtain ⟨columns, -, rfl⟩ := List.mem_map.mp hrow
      exact hnot

end

/-- The memories in the order in which a rebuild goes through them. -/
def byId (memories : List MemoryEntry) : List MemoryEntry :=
  memories.insertionSort fun a b => a.id ≤ b.id

theorem rebuildTable_shopping {db : Database} (hids : Identified db.memories) {c c' : Connection}
    (hdb : c.db = db) (hrun : rebuildTable tools .shoppingListItems c = (.ok (), c')) :
    ∃ now, c'.db.derived .shoppingListItems =
      ((byId db.memories).map fun m => Dated.mk m now).flatMap Dated.rows := by
  have hcalm := rebuildTable_smooth .shoppingListItems c () c' hrun
  have hconnection : c.calm = ⟨db, [], [], c.clock⟩ := by
    rw [← hdb]
    rfl
  have hclear : execute (fun db => db.clearDerived .shoppingListItems) ⟨db, [], [], c.clock⟩ =
      (.ok (), ⟨db.clearDerived .shoppingListItems, [], [], c.clock⟩) := rfl
  have hquery : query (fun db => db.memories.insertionSort fun a b => a.id ≤ b.id)
      ⟨db.clearDerived .shoppingListItems, [], [], c.clock⟩ =
      (.ok (byId db.memories), ⟨db.clearDerived .shoppingListItems, [], [], c.clock⟩) := rfl
  have hnow : nowMs ⟨db.clearDerived .shoppingListItems, [], [], c.clock⟩ =
      (.ok (c.clock.headD 0), ⟨db.clearDerived .shoppingListItems, [], [], c.clock.tail⟩) := rfl
  rw [hconnection] at hcalm
  unfold rebuildTable at hcalm
  rw [bind_apply_ok hclear, bind_apply_ok hquery, bind_apply_ok hnow,
    forM_upsertAll_run tools (c.clock.headD 0) .shoppingListItems] at hcalm
  have hafter : c'.db = upsertedAll tools (c.clock.headD 0) .shoppingListItems
      (db.clearDerived .shoppingListItems) (byId db.memories) := by
    cases c'
    cases hcalm
    rfl
  have hsorted : Identified (byId db.memories) :=
    ((perm_insertionSort _ db.memories).map MemoryEntry.id).nodup_iff.mpr hids
  refine ⟨c.clock.headD 0, ?_⟩
  rw [hafter, upsertedAll_derived _ _ _ _ hsorted fun row hrow => by cases hrow]
  rw [flatMap_map]
  rfl

theorem flatMap_filter_ne_nil {α β : Type} [DecidableEq β] {f : α → List β} (xs : List α) :
    xs.flatMap f = (xs.filter fun x => f x ≠ []).flatMap f := by
  induction xs with
  | nil => rfl
  | cons x rest ih =>
    rw [flatMap_cons, ih, filter_cons]
    split
    · rw [flatMap_cons]
    · rename_i hx
      rw [show f x = [] by simpa using hx, nil_append]

/-! ## The list of a database -/

/-- The last statement that names the item wants it. -/
def WantedAtLast (ledger : List MemoryEntry) (k : String) : Prop :=
  ∃ m, last MemoryEntry.itemNames ledger k = some m ∧ m.isPending = true

/-- The list as it is read out: the memory, the item and the status of each row. -/
def DerivedRow.listed (row : DerivedRow) : Nat × String × String :=
  (row.sourceMemoryId, row.textAt 0, row.textAt 2)

def Database.shoppingRows (db : Database) : List DerivedRow := db.derived .shoppingListItems

/-- The rows were written in the order of their memories. -/
def InWrittenOrder (rows : List DerivedRow) : Prop :=
  rows.Pairwise fun a b => a.sourceMemoryId ≤ b.sourceMemoryId ∧ a.updatedMs ≤ b.updatedMs

/-- What is claimed of the list: no item is on it twice, an item is on it if it was wanted at last,
and a rebuild finds the same items, in the same order if the memories were written in order. -/
structure PendingList (tools : TextTools) (db : Database) (ledger : List MemoryEntry) : Prop where
  once : (listedNames db.shoppingRows).Nodup
  listed : ∀ k, k ∈ listedNames db.shoppingRows ↔ WantedAtLast ledger k
  rebuilt : ∀ c c', c.db = db → rebuildTable tools .shoppingListItems c = (.ok (), c') →
    (listedNames c'.db.shoppingRows).Perm (listedNames db.shoppingRows) ∧
    (InWrittenOrder db.shoppingRows →
      (shoppingListItems c'.db.shoppingRows).map DerivedRow.listed =
        (shoppingListItems db.shoppingRows).map DerivedRow.listed)

section

variable {db : Database} {ws : List Dated}

theorem wantedAtLast_iff {k : String} : WantedAtLast (ws.map Dated.memory) k ↔
    ∃ w, last Dated.names ws k = some w ∧ w.wanted = true := by
  have hmap : last MemoryEntry.itemNames (ws.map Dated.memory) k =
      (last Dated.names ws k).map Dated.memory := by
    unfold last
    rw [← map_reverse, find?_map]
    rfl
  unfold WantedAtLast
  rw [hmap]
  constructor
  · rintro ⟨m, hm, hpending⟩
    obtain ⟨w, hw, rfl⟩ := Option.map_eq_some_iff.mp hm
    exact ⟨w, hw, hpending⟩
  · rintro ⟨w, hw, hwanted⟩
    exact ⟨w.memory, by rw [hw, Option.map_some], hwanted⟩

/-- The statements as a rebuild dates them. -/
def rebuiltAs (db : Database) (now : Nat) : List Dated :=
  (byId db.memories).map fun m => Dated.mk m now

theorem mem_rebuiltAs {now : Nat} {w : Dated} :
    w ∈ rebuiltAs db now ↔ w.memory ∈ db.memories ∧ w.now = now := by
  rw [rebuiltAs, mem_map, byId]
  constructor
  · rintro ⟨m, hm, rfl⟩
    exact ⟨(mem_insertionSort _).mp hm, rfl⟩
  · rintro ⟨hm, rfl⟩
    exact ⟨w.memory, (mem_insertionSort _).mpr hm, rfl⟩

theorem rebuiltAs_ids (hids : Identified db.memories) (now : Nat) :
    ((rebuiltAs db now).map fun w => w.memory.id).Nodup := by
  rw [rebuiltAs, map_map]
  exact ((perm_insertionSort _ db.memories).map MemoryEntry.id).nodup_iff.mpr hids

namespace Written

theorem mem_memories (h : Written db ws) {w : Dated} (hw : w ∈ ws) : w.memory ∈ db.memories :=
  (h.memories _).mp (mem_map_of_mem hw)

theorem newest_rebuilt (h : Written db ws) (now : Nat) (k : String) :
    (∃ w, Newest Dated.names Dated.stamp (rebuiltAs db now) k w ∧ w.wanted = true) ↔
      ∃ w, Newest Dated.names (fun w => w.memory.id) ws k w ∧ w.wanted = true := by
  constructor
  · rintro ⟨w, hw, hwanted⟩
    obtain ⟨hmem, hnow⟩ := mem_rebuiltAs.mp hw.mem
    obtain ⟨v, hv, hsame⟩ := List.mem_map.mp ((h.memories _).mpr hmem)
    have hnames : v.names = w.names := congrArg MemoryEntry.itemNames hsame
    refine ⟨v, ⟨hv, hnames ▸ hw.named, fun u hu hk => ?_⟩, ?_⟩
    · have hu' : Dated.mk u.memory now ∈ rebuiltAs db now :=
        mem_rebuiltAs.mpr ⟨h.mem_memories (w := u) hu, rfl⟩
      rcases Prod.Lex.toLex_le_toLex.mp (hw.newest _ hu' hk) with hlt | ⟨-, hle⟩
      · exact absurd (hnow ▸ hlt) (Nat.lt_irrefl _)
      · exact hsame ▸ hle
    · rw [Dated.wanted, hsame]
      exact hwanted
  · rintro ⟨w, hw, hwanted⟩
    refine ⟨⟨w.memory, now⟩, ⟨mem_rebuiltAs.mpr ⟨h.mem_memories (w := w) hw.mem, rfl⟩, hw.named,
      fun u hu hk => ?_⟩, hwanted⟩
    obtain ⟨hmem, hnow⟩ := mem_rebuiltAs.mp hu
    obtain ⟨v, hv, hsame⟩ := List.mem_map.mp ((h.memories _).mpr hmem)
    have hle := hw.newest v hv (show k ∈ v.memory.itemNames from hsame ▸ hk)
    exact Prod.Lex.toLex_le_toLex.mpr (.inr ⟨hnow, hsame ▸ hle⟩)

theorem readable_rebuilt (h : Written db ws) (now : Nat) :
    ∀ w ∈ rebuiltAs db now, w.memory.Readable := by
  intro w hw
  obtain ⟨v, hv, hsame⟩ := List.mem_map.mp ((h.memories _).mpr (mem_rebuiltAs.mp hw).1)
  exact hsame ▸ h.readable v hv

theorem listed (h : Written db ws) (k : String) :
    k ∈ listedNames db.shoppingRows ↔ WantedAtLast (ws.map Dated.memory) k := by
  rw [Database.shoppingRows, h.table, mem_listedNames h.readable, wantedAtLast_iff,
    newest_iff_last h.times]

theorem listed_rebuilt (h : Written db ws) (now : Nat) (k : String) :
    k ∈ listedNames ((rebuiltAs db now).flatMap Dated.rows) ↔
      WantedAtLast (ws.map Dated.memory) k := by
  rw [mem_listedNames (h.readable_rebuilt now), h.newest_rebuilt, wantedAtLast_iff,
    newest_iff_last h.ids]

theorem once (h : Written db ws) : (listedNames db.shoppingRows).Nodup := by
  rw [Database.shoppingRows, h.table]
  refine listedNames_nodup h.readable ?_
  have hids := h.identified
  rwa [Identified, map_map] at hids

theorem shoppingRows_ne_nil {m : MemoryEntry} {now now' : Nat} (h : m.shoppingRows now ≠ []) :
    ∃ row, row ∈ m.shoppingRows now' := by
  refine exists_mem_of_ne_nil _ fun hnil => h ?_
  rw [MemoryEntry.shoppingRows, map_eq_nil_iff] at hnil ⊢
  exact hnil

theorem with_rows_sorted (h : Written db ws) (horder : InWrittenOrder db.shoppingRows) (now : Nat) :
    ((ws.map Dated.memory).filter fun m => m.shoppingRows now ≠ []).Pairwise
      fun a b => a.id ≤ b.id := by
  rw [Database.shoppingRows, h.table, InWrittenOrder, pairwise_flatMap] at horder
  refine List.pairwise_filter.mpr (List.pairwise_map.mpr (horder.2.imp fun hvw hv hw => ?_))
  obtain ⟨a, ha⟩ := shoppingRows_ne_nil (of_decide_eq_true hv)
  obtain ⟨b, hb⟩ := shoppingRows_ne_nil (of_decide_eq_true hw)
  have hle := (hvw a ha b hb).1
  rwa [(shoppingRows_spec ha).1, (shoppingRows_spec hb).1] at hle

theorem rebuilt_rows (h : Written db ws) (hids : Identified db.memories)
    (horder : InWrittenOrder db.shoppingRows) (now : Nat) :
    (rebuiltAs db now).flatMap Dated.rows =
      db.shoppingRows.map fun row => { row with updatedMs := now } := by
  have hleft : (rebuiltAs db now).flatMap Dated.rows =
      (byId db.memories).flatMap fun m => m.shoppingRows now := by
    rw [rebuiltAs, flatMap_map]
    rfl
  have hright : (db.shoppingRows.map fun row => { row with updatedMs := now }) =
      (ws.map Dated.memory).flatMap fun m => m.shoppingRows now := by
    rw [Database.shoppingRows, h.table, map_flatMap, flatMap_map]
    refine flatMap_congr fun w _ => ?_
    rw [Dated.rows, MemoryEntry.shoppingRows, map_map]
    rfl
  rw [hleft, hright]
  -- only the memories with rows count, and these are in the same order
  rw [flatMap_filter_ne_nil, flatMap_filter_ne_nil (ws.map Dated.memory)]
  have hsame : (byId db.memories).filter (fun m => m.shoppingRows now ≠ []) =
      (ws.map Dated.memory).filter fun m => m.shoppingRows now ≠ [] := by
    have hperm : (byId db.memories).Perm (ws.map Dated.memory) :=
      (perm_insertionSort _ _).trans ((perm_ext_iff_of_nodup (List.Nodup.of_map _ hids)
        (List.Nodup.of_map _ h.identified)).mpr fun m => (h.memories m).symm)
    have hsorted : (byId db.memories).Pairwise fun a b => a.id ≤ b.id :=
      pairwise_insertionSort (fun a b : MemoryEntry => a.id ≤ b.id) db.memories
    refine List.Perm.eq_of_pairwise (fun a b ha hb hle hle' => ?_) (hsorted.filter _)
      (h.with_rows_sorted horder now) (hperm.filter _)
    exact inj_on_of_nodup_map h.identified (hperm.mem_iff.mp (mem_of_mem_filter ha))
      (mem_of_mem_filter hb) (Nat.le_antisymm hle hle')
  rw [hsame]

theorem time_of_id (h : Written db ws) (horder : InWrittenOrder db.shoppingRows) {a b : DerivedRow}
    (ha : a ∈ db.shoppingRows) (hb : b ∈ db.shoppingRows) :
    (a.sourceMemoryId < b.sourceMemoryId → a.updatedMs ≤ b.updatedMs) ∧
      (a.sourceMemoryId = b.sourceMemoryId → a.updatedMs = b.updatedMs) := by
  constructor
  · have hforth : (db.shoppingRows).Pairwise fun a b =>
        a.sourceMemoryId < b.sourceMemoryId → a.updatedMs ≤ b.updatedMs :=
      horder.imp fun hab _ => hab.2
    have hback : (db.shoppingRows).Pairwise (flip fun a b : DerivedRow =>
        a.sourceMemoryId < b.sourceMemoryId → a.updatedMs ≤ b.updatedMs) :=
      horder.imp fun hab hlt => absurd hlt (Nat.not_lt_of_le hab.1)
    exact hforth.forall_of_forall_of_flip (fun _ _ hlt => absurd hlt (Nat.lt_irrefl _)) hback ha hb
  · intro heq
    rw [Database.shoppingRows, h.table] at ha hb
    obtain ⟨v, hv, ha⟩ := List.mem_flatMap.mp ha
    obtain ⟨w, hw, hb⟩ := List.mem_flatMap.mp hb
    obtain ⟨hida, hnowa, -⟩ := shoppingRows_spec ha
    obtain ⟨hidb, hnowb, -⟩ := shoppingRows_spec hb
    have hids := h.identified
    rw [Identified, map_map] at hids
    have hsame : v = w := inj_on_of_nodup_map hids hv hw (hida.symm.trans (heq.trans hidb))
    rw [hnowa, hnowb, hsame]

theorem listed_redated (h : Written db ws) (horder : InWrittenOrder db.shoppingRows) (now : Nat) :
    (shoppingListItems (db.shoppingRows.map fun row => { row with updatedMs := now })).map
        DerivedRow.listed = (shoppingListItems db.shoppingRows).map DerivedRow.listed := by
  have hnewer : ∀ a ∈ db.shoppingRows, ∀ b ∈ db.shoppingRows,
      ({ a with updatedMs := now } : DerivedRow).newer { b with updatedMs := now } = a.newer b := by
    intro a ha b hb
    obtain ⟨hlt, heq⟩ := h.time_of_id horder ha hb
    obtain ⟨hlt', -⟩ := h.time_of_id horder hb ha
    rw [DerivedRow.newer, DerivedRow.newer, decide_eq_decide]
    refine and_congr_right fun _ => ?_
    dsimp only
    omega
  have hfilter : (db.shoppingRows.map fun row => { row with updatedMs := now }).filter (fun row =>
        row.textAt 2 = "pending" && !(db.shoppingRows.map fun row =>
          { row with updatedMs := now }).any row.newer) =
      (db.shoppingRows.filter fun row => row.textAt 2 = "pending" &&
        !db.shoppingRows.any row.newer).map fun row => { row with updatedMs := now } := by
    rw [filter_map]
    refine congrArg _ (filter_congr fun a ha => ?_)
    have hany : (db.shoppingRows.map fun row => { row with updatedMs := now }).any
        ({ a with updatedMs := now } : DerivedRow).newer = db.shoppingRows.any a.newer := by
      rw [any_map, Bool.eq_iff_iff, any_eq_true, any_eq_true]
      refine exists_congr fun b => and_congr_right fun hb => ?_
      rw [Function.comp, hnewer a ha b hb]
    dsimp only [Function.comp]
    rw [hany]
    rfl
  have hbefore : ∀ a ∈ db.shoppingRows, ∀ b ∈ db.shoppingRows, a.listedBefore b ↔
      ({ a with updatedMs := now } : DerivedRow).listedBefore { b with updatedMs := now } := by
    intro a ha b hb
    obtain ⟨hlt, heq⟩ := h.time_of_id horder ha hb
    obtain ⟨hlt', -⟩ := h.time_of_id horder hb ha
    unfold DerivedRow.listedBefore
    dsimp only
    omega
  have hsort := map_insertionSort DerivedRow.listedBefore DerivedRow.listedBefore
    (fun row : DerivedRow => { row with updatedMs := now })
    (db.shoppingRows.filter fun row => row.textAt 2 = "pending" && !db.shoppingRows.any row.newer)
    fun a ha b hb => hbefore a (mem_of_mem_filter ha) b (mem_of_mem_filter hb)
  rw [shoppingListItems, hfilter, ← hsort, map_map]
  rfl

theorem pendingList (h : Written db ws) (hids : Identified db.memories) :
    PendingList tools db (ws.map Dated.memory) where
  once := h.once
  listed := h.listed
  rebuilt c c' hdb hrun := by
    obtain ⟨now, htable⟩ := rebuildTable_shopping hids hdb hrun
    have htable : c'.db.shoppingRows = (rebuiltAs db now).flatMap Dated.rows := htable
    rw [htable]
    constructor
    · have honce := listedNames_nodup (h.readable_rebuilt now) (rebuiltAs_ids hids now)
      refine (perm_ext_iff_of_nodup honce h.once).mpr fun k => ?_
      rw [h.listed_rebuilt now, h.listed]
    · intro horder
      rw [h.rebuilt_rows hids horder now, h.listed_redated horder]

end Written

end

/-! ## Calls that fit -/

/-- The statement is later than that of the row, by its time and by its id, or it says the same
about its items. -/
def MemoryEntry.Follows (m : MemoryEntry) (now : Nat) (row : DerivedRow) : Prop :=
  (row.textAt 2 = "pending" ↔ m.isPending = true) ∨
    (row.sourceMemoryId < m.id ∧ row.updatedMs ≤ now)

/-- A statement that the parser can read, and that follows the others on its items. -/
structure MemoryEntry.Fits (m : MemoryEntry) (now : Nat) (rows : List DerivedRow) : Prop where
  readable : m.Readable
  follows : ∀ row ∈ rows, row.sourceMemoryId ≠ m.id → row.itemName ∈ m.itemNames → m.Follows now row

/-- The command removes no memory without its rows, and writes only a statement that fits. -/
def FitsIn (db : Database) (clock : List Nat) : Command → Prop
  | .store kind content =>
    (db.newMemory kind (normalizeMemoryContent content) false (clock.headD 0)).Fits
      (clock.headD 0) db.shoppingRows
  | .storeEvergreen kind content =>
    (db.newMemory kind (normalizeMemoryContent content) true (clock.headD 0)).Fits
      (clock.headD 0) db.shoppingRows
  | .storeResolved kind content =>
    (db.newMemory kind (normalizeMemoryContent content) false (clock.headD 0)).Fits
      (clock.headD 0) db.shoppingRows
  | .updateManaged id content kind => ∀ existing nk, db.getById id = some existing →
    nextKind existing kind = .ok nk → ¬ existing.Says nk (normalizeMemoryContent content) →
    (existing.rewritten nk (normalizeMemoryContent content)).Fits (editTime clock) db.shoppingRows
  | .deleteById _ => True
  | .pruneDecayed _ => False
  | .pruneStale _ => False

/-- The call returns, and its command fits. -/
def Orderly (e : Machine.Event Database Call (Except MemoryError Reply)) : Prop :=
  e.output.isOk = true ∧ FitsIn e.before e.input.clock e.input.command

section

variable {db after : Database} {ws : List Dated}

theorem MemoryEntry.Fits.joins (h : Written db ws) {m : MemoryEntry} {now : Nat}
    (hfits : m.Fits now db.shoppingRows) (gone : Nat → Bool)
    (hself : ∀ v ∈ ws, gone v.memory.id = false → v.memory.id ≠ m.id) :
    (Dated.mk m now).Joins gone ws where
  readable := hfits.readable
  later v hv hstays k hkv hkm := by
    obtain ⟨row, hrow, rfl⟩ := (Dated.mem_names (h.readable v hv)).mp hkv
    obtain ⟨hid, hnow, hstatus⟩ := shoppingRows_spec hrow
    have hmem : row ∈ db.shoppingRows := by
      rw [Database.shoppingRows, h.table]
      exact List.mem_flatMap.mpr ⟨v, hv, hrow⟩
    rcases hfits.follows row hmem (hid ▸ hself v hv hstays) hkm with hsame | ⟨hlt, hle⟩
    · exact .inl (Bool.eq_iff_iff.mpr (hstatus.symm.trans hsame))
    · exact .inr ⟨hid ▸ hlt, hnow ▸ hle⟩

/-- What one call leaves: the statements as they were written, in order. -/
def Continues (ws : List Dated) (after : Database) : Prop :=
  ∃ ws', Written after ws' ∧ ws'.map Dated.memory = lastWritten (ws.map Dated.memory) after.memories

theorem Effect.continues {gone : Nat → Bool} {fresh : Option Dated}
    (heffect : Effect db after gone fresh) (h : Written db ws)
    (hids : Identified after.memories) (hjoins : ∀ w ∈ fresh, w.Joins gone ws) :
    Continues ws after :=
  ⟨_, h.call heffect hids hjoins, (h.ledger heffect hids).symm⟩

theorem Orderly.smooth {call : Call} (h : Orderly ((machine tools).eventAt db call)) :
    Smooth (perform tools call.command) := by
  obtain ⟨command, sql, files, clock⟩ := call
  cases command with
  | store kind content => exact Smooth.map _ (storeAs_smooth _ _ _)
  | storeEvergreen kind content => exact Smooth.map _ (storeAs_smooth _ _ _)
  | storeResolved kind content => exact Smooth.map _ (storeResolved_smooth _ _)
  | updateManaged id content kind => exact Smooth.map _ (updateManaged_smooth _ _ _)
  | deleteById id => exact Smooth.map _ (deleteById_smooth _)
  | pruneDecayed decayed => exact absurd h.2 id
  | pruneStale maxAgeDays => exact absurd h.2 id

section

variable {clock : List Nat} {c : Connection}

theorem storeAs_continues (h : Written db ws) {kind content : String} {evergreen : Bool} {id : Nat}
    (hrun : storeAs tools evergreen kind content ⟨db, [], [], clock⟩ = (.ok id, c))
    (hids : Identified c.db.memories)
    (hfits : (db.newMemory kind (normalizeMemoryContent content) evergreen (clock.headD 0)).Fits
      (clock.headD 0) db.shoppingRows) : Continues ws c.db := by
  rw [storeAs_run] at hrun
  generalize normalizeMemoryContent content = content at hrun hfits
  obtain rfl := (Prod.mk.inj hrun).2
  refine (stored_effect db tools kind content evergreen _).continues h hids fun w hw => ?_
  cases hw
  exact hfits.joins h _ fun v _ hstays => of_decide_eq_false hstays

theorem resolved_continues (h : Written db ws) (hdb : Identified db.memories)
    {kind content : String} {outcome : StoreOutcome}
    (hrun : storeResolved tools kind content ⟨db, [], [], clock⟩ = (.ok outcome, c))
    (hids : Identified c.db.memories)
    (hfits : (db.newMemory kind (normalizeMemoryContent content) false (clock.headD 0)).Fits
      (clock.headD 0) db.shoppingRows) : Continues ws c.db := by
  obtain ⟨outcome', after, gone, fresh, rest, hresolved, heffect, hfresh⟩ :=
    @resolved_effect tools db hdb clock kind content
  generalize normalizeMemoryContent content = content at hfits hfresh
  rw [hresolved] at hrun
  obtain rfl := (Prod.mk.inj hrun).2
  refine heffect.continues h hids fun w hw => ?_
  obtain ⟨hnow, hlater, id, hmemory⟩ := hfresh w hw
  obtain ⟨m, now⟩ := w
  dsimp only at hnow hlater hmemory
  subst hnow hmemory
  -- the new memory has another id than the one it would have had before memories were replaced
  refine ⟨⟨hfits.readable.keyword, hfits.readable.once⟩, fun v hv hstays k hkv hkm => ?_⟩
  have hid := hlater v.memory (h.mem_memories hv) hstays
  have hjoins := hfits.joins h gone fun v hv _ => Nat.ne_of_lt (lt_nextId (h.mem_memories hv))
  exact (hjoins.later v hv hstays k hkv hkm).imp_right fun hboth => ⟨hid, hboth.2⟩

theorem edit_continues (h : Written db ws) (hdb : Identified db.memories) {id : Nat}
    {content : String} {kind : Option String} {found : Bool}
    (hrun : updateManaged tools id content kind ⟨db, [], [], clock⟩ = (.ok found, c))
    (hids : Identified c.db.memories)
    (hfits : ∀ existing nk, db.getById id = some existing → nextKind existing kind = .ok nk →
      ¬ existing.Says nk (normalizeMemoryContent content) →
      (existing.rewritten nk (normalizeMemoryContent content)).Fits (editTime clock)
        db.shoppingRows) : Continues ws c.db := by
  rcases edit_cases hrun with
    ⟨-, hsame⟩ | ⟨existing, nk, hfound, hkind, ⟨-, hsame⟩ | ⟨hnew, hafter⟩⟩
  · rw [hsame] at hids ⊢
    exact (unchanged_effect db).continues h hids fun w hw => by cases hw
  · rw [hsame] at hids ⊢
    exact (unchanged_effect db).continues h hids fun w hw => by cases hw
  · rw [hafter] at hids ⊢
    refine (edited_effect hdb hfound hnew clock).continues h hids fun w hw => ?_
    cases hw
    refine (hfits existing nk hfound hkind hnew).joins h _ fun v _ hstays => ?_
    exact (found_id hfound).2 ▸ of_decide_eq_false hstays

theorem delete_continues (h : Written db ws) {id : Nat} {found : Bool}
    (hrun : deleteById id ⟨db, [], [], clock⟩ = (.ok found, c))
    (hids : Identified c.db.memories) : Continues ws c.db := by
  cases hfound : db.getById id with
  | none =>
    rw [deleteById_absent db clock hfound] at hrun
    cases hrun
    exact (unchanged_effect db).continues h hids fun w hw => by cases hw
  | some existing =>
    rw [deleteById_run db clock hfound] at hrun
    cases hrun
    exact (without_effect db id).continues h hids fun w hw => by cases hw

end

theorem step_continues (h : Written db ws) (hdb : Identified db.memories) {call : Call}
    (horderly : Orderly ((machine tools).eventAt db call)) :
    Continues ws ((machine tools).step db call).2 := by
  obtain ⟨reply, c, hrun, hafter⟩ := step_calm horderly.smooth horderly.1
  have hids : Identified ((machine tools).step db call).2.memories :=
    (perform_identified call.command).after (s := call.connect db) hdb
  rw [hafter] at hids ⊢
  clear hafter
  obtain ⟨command, sql, files, clock⟩ := call
  have horderly : FitsIn db clock command := horderly.2
  have hrun : perform tools command ⟨db, [], [], clock⟩ = (.ok reply, c) := hrun
  cases command with
  | store kind content =>
    rw [perform] at hrun
    obtain ⟨id, hrun⟩ := map_eq_ok hrun
    exact storeAs_continues h hrun hids horderly
  | storeEvergreen kind content =>
    rw [perform] at hrun
    obtain ⟨id, hrun⟩ := map_eq_ok hrun
    exact storeAs_continues h hrun hids horderly
  | storeResolved kind content =>
    rw [perform] at hrun
    obtain ⟨outcome, hrun⟩ := map_eq_ok hrun
    exact resolved_continues h hdb hrun hids horderly
  | updateManaged id content kind =>
    rw [perform] at hrun
    obtain ⟨found, hrun⟩ := map_eq_ok hrun
    exact edit_continues h hdb hrun hids horderly
  | deleteById id =>
    rw [perform] at hrun
    obtain ⟨found, hrun⟩ := map_eq_ok hrun
    exact delete_continues h hrun hids
  | pruneDecayed decayed => exact absurd horderly id
  | pruneStale maxAgeDays => exact absurd horderly id

theorem written_fresh : Written {} [] where
  memories m := by simp
  identified := nodup_nil
  table := rfl
  readable w hw := by cases hw
  times := List.Pairwise.nil
  ids := List.Pairwise.nil

theorem run_written (calls : List Call) (h : Written db ws) (hdb : Identified db.memories)
    (horderly : ∀ e ∈ (machine tools).trace db calls, Orderly e) :
    ∃ ws', Written ((machine tools).run db calls) ws' ∧ ws'.map Dated.memory =
      ((machine tools).trace db calls).foldl (fun ledger e => lastWritten ledger e.after.memories)
        (ws.map Dated.memory) := by
  induction calls generalizing db ws with
  | nil => exact ⟨ws, h, rfl⟩
  | cons call rest ih =>
    rw [Machine.trace_cons] at horderly
    obtain ⟨mid, hmid, hledger⟩ := step_continues h hdb (horderly _ mem_cons_self)
    have hids : Identified ((machine tools).step db call).2.memories :=
      (perform_identified call.command).after (s := call.connect db) hdb
    obtain ⟨ws', hws', hrest⟩ := ih hmid hids fun e he => horderly e (mem_cons_of_mem _ he)
    refine ⟨ws', hws', ?_⟩
    rw [hrest, hledger, Machine.trace_cons, foldl_cons, Machine.eventAt_after]

end

/-- After every run of calls that fit, the list has exactly the items that were wanted at last. -/
theorem pending_list_follows (tools : TextTools) (calls : List Call)
    (horderly : ∀ e ∈ (machine tools).trace {} calls, Orderly e) :
    PendingList tools ((machine tools).run {} calls)
      (ledgerOf ((machine tools).trace {} calls)) := by
  obtain ⟨ws, hws, hledger⟩ := run_written calls written_fresh nodup_nil horderly
  have hids := @run_identified tools {} nodup_nil calls
  have hledger : ws.map Dated.memory = ledgerOf ((machine tools).trace {} calls) := hledger
  rw [← hledger]
  exact hws.pendingList hids

/-! ## Two statements about milk -/

/-- A store of a shopping statement, at some time. -/
def storeAt (content : String) (now : Nat) : Call := ⟨.store "shopping" content, [], [], [now]⟩

/-- A shopping statement that may be spoken of. -/
def statementAt (id : Nat) (content : String) (now : Nat) : MemoryEntry :=
  { id, kind := "shopping", content, accessedMs := now, metadata := ⟨.household, .normal, .allow⟩ }

section

variable (tools) (db : Database) {content : String} (now : Nat)
  (hmetadata : inferMetadata "shopping" content = ⟨.household, .normal, .allow⟩)

theorem storeAt_event (hnormal : normalizeMemoryContent content = content) :
    (machine tools).eventAt db (storeAt content now) = ⟨db, storeAt content now,
      .ok (.stored db.nextId), stored db tools "shopping" content false now⟩ := by
  have hevent := store_event tools db "shopping" content [now]
  rw [hnormal] at hevent
  exact hevent

theorem step_storeAt (hnormal : normalizeMemoryContent content = content) :
    ((machine tools).step db (storeAt content now)).2 =
      stored db tools "shopping" content false now := by
  rw [storeAt, step_store, hnormal, headD_cons]

include hmetadata

theorem newMemory_eq :
    db.newMemory "shopping" content false now = statementAt db.nextId content now := by
  rw [Database.newMemory, hmetadata]
  rfl

theorem stored_statement : (stored db tools "shopping" content false now).memories =
    db.memories ++ [statementAt db.nextId content now] := by
  rw [stored_memories, hmetadata]
  rfl

theorem stored_rows : (stored db tools "shopping" content false now).shoppingRows =
    db.shoppingRows.filter (fun row => row.sourceMemoryId ≠ db.nextId) ++
      (statementAt db.nextId content now).shoppingRows now := by
  rw [Database.shoppingRows, stored_shoppingListItems, hmetadata]
  rfl

end

theorem milk_metadata : inferMetadata "shopping" "milk" = ⟨.household, .normal, .allow⟩ := by
  decide

theorem milk_normal : normalizeMemoryContent "milk" = "milk" := by decide

theorem milk_rows (id now : Nat) : (statementAt id "milk" now).shoppingRows now =
    [⟨id, [.text "milk", .text "milk", .text "pending"], now⟩] := by
  have hcolumns : (statementAt 0 "milk" 0).shoppingColumns =
      [[.text "milk", .text "milk", .text "pending"]] := by
    decide
  rw [MemoryEntry.shoppingRows, show (statementAt id "milk" now).shoppingColumns =
    (statementAt 0 "milk" 0).shoppingColumns from rfl, hcolumns]
  rfl

theorem milk_fits (id now : Nat) {rows : List DerivedRow}
    (hrows : ∀ row ∈ rows, row.textAt 2 = "pending") :
    (statementAt id "milk" now).Fits now rows := by
  have hpending : (statementAt 0 "milk" 0).isPending = true := by decide +kernel
  have honce : (statementAt 0 "milk" 0).itemNames.Nodup := by decide +kernel
  exact ⟨⟨fun _ => .inl hpending, fun _ => honce⟩, fun row hrow _ _ =>
    .inl ⟨fun _ => hpending, fun _ => hrows row hrow⟩⟩

/-- Milk that is wanted twice is on the list once. -/
theorem pending_list_follows_milk :
    (∀ e ∈ (machine asciiTools).trace {} [storeAt "milk" 0, storeAt "milk" 1], Orderly e) ∧
      PendingList asciiTools ((machine asciiTools).run {} [storeAt "milk" 0, storeAt "milk" 1])
        (ledgerOf ((machine asciiTools).trace {} [storeAt "milk" 0, storeAt "milk" 1])) := by
  have hfits : ∀ (db : Database) (now : Nat), (∀ row ∈ db.shoppingRows, row.textAt 2 = "pending") →
      FitsIn db [now] (.store "shopping" "milk") := by
    intro db now hrows
    rw [FitsIn, milk_normal]
    show (db.newMemory "shopping" "milk" false now).Fits now db.shoppingRows
    rw [newMemory_eq db now milk_metadata]
    exact milk_fits _ _ hrows
  have horderly : ∀ e ∈ (machine asciiTools).trace {} [storeAt "milk" 0, storeAt "milk" 1],
      Orderly e := by
    intro e he
    rw [Machine.trace_cons, Machine.trace_cons, Machine.trace_nil, ← Machine.eventAt_after,
      storeAt_event asciiTools {} 0 milk_normal, storeAt_event asciiTools _ 1 milk_normal,
      mem_cons, mem_singleton] at he
    rcases he with rfl | rfl
    · exact ⟨rfl, hfits {} 0 fun row hrow => by cases hrow⟩
    · refine ⟨rfl, hfits _ 1 fun row hrow => ?_⟩
      rw [stored_rows asciiTools {} 0 milk_metadata, milk_rows] at hrow
      have hrow := List.mem_singleton.mp hrow
      rw [hrow]
      rfl
  exact ⟨horderly, pending_list_follows asciiTools _ horderly⟩

theorem taken_off_metadata : inferMetadata "shopping" "Items taken off: milk" =
    ⟨.household, .normal, .allow⟩ := by
  decide

theorem run_two (tools : TextTools) {a b : String} (ha : normalizeMemoryContent a = a)
    (hb : normalizeMemoryContent b = b) :
    (machine tools).run {} [storeAt a 0, storeAt b 1] =
        stored (stored {} tools "shopping" a false 0) tools "shopping" b false 1 ∧
      ledgerOf ((machine tools).trace {} [storeAt a 0, storeAt b 1]) =
        lastWritten (lastWritten [] (stored {} tools "shopping" a false 0).memories)
          (stored (stored {} tools "shopping" a false 0) tools "shopping" b false 1).memories := by
  have hfirst := step_storeAt tools {} 0 ha
  have hsecond := step_storeAt tools (stored {} tools "shopping" a false 0) 1 hb
  constructor
  · rw [Machine.run_cons, Machine.run_cons, Machine.run_nil, hfirst, hsecond]
  · rw [ledgerOf, Machine.trace_cons, Machine.trace_cons, Machine.trace_nil, foldl_cons,
      foldl_cons, foldl_nil, Machine.eventAt_after, Machine.eventAt_after, hfirst,
      hsecond]

/-- The parser reads that milk is taken off, and takes the whole sentence for the item. -/
theorem taken_off_stays :
    ¬ PendingList asciiTools
      ((machine asciiTools).run {} [storeAt "milk" 0, storeAt "Items taken off: milk" 1])
      (ledgerOf ((machine asciiTools).trace {}
        [storeAt "milk" 0, storeAt "Items taken off: milk" 1])) := by
  intro h
  have hnormal : normalizeMemoryContent "Items taken off: milk" = "Items taken off: milk" := by
    decide
  have hcolumns : (statementAt 0 "Items taken off: milk" 0).shoppingColumns =
      [[.text "Items taken off: milk", .text "items taken off milk", .text "removed"]] := by
    decide
  have hnames : (statementAt 0 "Items taken off: milk" 0).itemNames = ["milk"] ∧
      (statementAt 0 "Items taken off: milk" 0).isPending = false := by
    decide
  obtain ⟨hrun, hledger⟩ := run_two asciiTools milk_normal hnormal
  have hmemories := stored_statement asciiTools {} 0 milk_metadata
  have hid : (stored {} asciiTools "shopping" "milk" false 0).nextId = 2 := by
    rw [Database.nextId, hmemories]
    rfl
  have hmemories' := stored_statement asciiTools (stored {} asciiTools "shopping" "milk" false 0) 1
    taken_off_metadata
  have hrows := stored_rows asciiTools (stored {} asciiTools "shopping" "milk" false 0) 1
    taken_off_metadata
  rw [stored_rows asciiTools {} 0 milk_metadata, hid, milk_rows] at hrows
  rw [hmemories, hid] at hmemories'
  rw [hmemories, hmemories'] at hledger
  have hlast : last MemoryEntry.itemNames
      [statementAt 1 "milk" 0, statementAt 2 "Items taken off: milk" 1] "milk" =
        some (statementAt 2 "Items taken off: milk" 1) := by
    have hmem : "milk" ∈ (statementAt 2 "Items taken off: milk" 1).itemNames := by
      show "milk" ∈ (statementAt 0 "Items taken off: milk" 0).itemNames
      rw [hnames.1]
      exact mem_singleton_self _
    exact last_eq_some.mpr ⟨hmem, [statementAt 1 "milk" 0], [], rfl, fun c hc => by cases hc⟩
  have hlisted := h.listed "milk"
  have htaken : (statementAt 2 "Items taken off: milk" 1).shoppingRows 1 =
      [⟨2, [.text "Items taken off: milk", .text "items taken off milk", .text "removed"], 1⟩] := by
    rw [MemoryEntry.shoppingRows, show (statementAt 2 "Items taken off: milk" 1).shoppingColumns =
      (statementAt 0 "Items taken off: milk" 0).shoppingColumns from rfl, hcolumns]
    rfl
  have horder : lastWritten (lastWritten [] [statementAt 1 "milk" 0])
      [statementAt 1 "milk" 0, statementAt 2 "Items taken off: milk" 1] =
        [statementAt 1 "milk" 0, statementAt 2 "Items taken off: milk" 1] := by
    decide
  have hledger : ledgerOf ((machine asciiTools).trace {}
      [storeAt "milk" 0, storeAt "Items taken off: milk" 1]) =
        [statementAt 1 "milk" 0, statementAt 2 "Items taken off: milk" 1] := hledger.trans horder
  rw [hrun, hledger, hrows, htaken] at hlisted
  obtain ⟨m, hm, hpending⟩ := hlisted.mp (by decide)
  rw [hlast] at hm
  obtain rfl := Option.some.inj hm
  exact absurd hpending (Bool.eq_false_iff.mp hnames.2)

end GenieClaw.Memory
