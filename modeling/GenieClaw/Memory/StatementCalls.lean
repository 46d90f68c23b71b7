import GenieClaw.Memory.Disclosure
import GenieClaw.Memory.ShoppingList

/-!
# What a call does to the statements

One rule for each call that can return: what it makes of the memories and of the rows of the
shopping list.
-/

namespace GenieClaw.Memory

open Library Library.Program Library.Text Library.LastWrite List Option

/-!
## The order in which the statements were made

The memories of a run in the order in which they were last written, and what one call does to it
and to the rows of the shopping list.

* `Written.call`: after a call whose statements fit, the rows are those of the memories in this
  order.
-/

/-- The memories that a call left as they were, and then what it wrote. -/
def lastWritten (ledger memories : List MemoryEntry) : List MemoryEntry :=
  ledger.filter (fun m => m ∈ memories) ++ memories.filter fun m => m ∉ ledger

/-- The memories after a run, in the order in which they were last written. -/
def ledgerOf (events : List (Machine.Event Database Call (Except MemoryError Reply))) :
    List MemoryEntry :=
  events.foldl (fun ledger e => lastWritten ledger e.after.memories) []

/-- What a call has done: memories went, and at most one came. -/
structure Effect (before after : Database) (gone : Nat → Bool) (fresh : Option Dated) :
    Prop where
  memories : ∀ m, m ∈ after.memories ↔
    (m ∈ before.memories ∧ gone m.id = false) ∨ ∃ w ∈ fresh, w.memory = m
  rows : after.derived .shoppingListItems =
    (before.derived .shoppingListItems).filter (fun row => !gone row.sourceMemoryId) ++
      fresh.toList.flatMap Dated.rows
  new : ∀ w ∈ fresh, w.memory ∉ before.memories

/-- The rows of the shopping list are those of the statements, in the order in which these were
made, and the order of the times and that of the ids tell which of two statements on an item is
the later one, or it does not matter. -/
structure Written (db : Database) (ws : List Dated) : Prop where
  memories : ∀ m, m ∈ ws.map Dated.memory ↔ m ∈ db.memories
  identified : Identified (ws.map Dated.memory)
  table : db.derived .shoppingListItems = ws.flatMap Dated.rows
  readable : ∀ w ∈ ws, w.memory.Readable
  times : InOrder Dated.names Dated.wanted Dated.stamp ws
  ids : InOrder Dated.names Dated.wanted (fun w => w.memory.id) ws

/-- The statement is read as it is meant, and is later than the others on its items by its time
and by its id, or does not matter to them. -/
structure Dated.Joins (w : Dated) (gone : Nat → Bool) (ws : List Dated) : Prop where
  readable : w.memory.Readable
  later : ∀ v ∈ ws, gone v.memory.id = false → ∀ k ∈ v.names, k ∈ w.names →
    v.wanted = w.wanted ∨ (v.memory.id < w.memory.id ∧ v.now ≤ w.now)

variable {db after : Database} {ws : List Dated} {gone : Nat → Bool} {fresh : Option Dated}

theorem rows_of_gone (w : Dated) : w.rows.filter (fun row => !gone row.sourceMemoryId) =
    if gone w.memory.id then [] else w.rows := by
  have hid : ∀ row ∈ w.rows, (!gone row.sourceMemoryId) = !gone w.memory.id := fun row hrow => by
    rw [(shoppingRows_spec hrow).1]
  rw [filter_congr hid]
  cases gone w.memory.id with
  | false => simp
  | true => simp

theorem filter_table (ws : List Dated) :
    (ws.flatMap Dated.rows).filter (fun row => !gone row.sourceMemoryId) =
      (ws.filter fun w => !gone w.memory.id).flatMap Dated.rows := by
  induction ws with
  | nil => rfl
  | cons w rest ih =>
    rw [flatMap_cons, filter_append, ih, rows_of_gone, filter_cons]
    cases gone w.memory.id with
    | false => simp
    | true => simp

/-- The statements after a call, in the order in which they were made. -/
def afterCall (ws : List Dated) (gone : Nat → Bool) (fresh : Option Dated) : List Dated :=
  (ws.filter fun w => !gone w.memory.id) ++ fresh.toList

theorem map_afterCall (ws : List Dated) (gone : Nat → Bool) (fresh : Option Dated) :
    (afterCall ws gone fresh).map Dated.memory =
      ((ws.map Dated.memory).filter fun m => !gone m.id) ++ (fresh.map Dated.memory).toList := by
  rw [afterCall, map_append, List.filter_map]
  cases fresh with
  | none => rfl
  | some w => rfl

namespace Written

theorem stays (h : Written db ws) (heffect : Effect db after gone fresh) {m : MemoryEntry}
    (hm : m ∈ ws.map Dated.memory) : m ∈ after.memories ↔ gone m.id = false := by
  have hbefore := (h.memories m).mp hm
  rw [heffect.memories]
  constructor
  · rintro (⟨-, hstays⟩ | ⟨w, hw, rfl⟩)
    · exact hstays
    · exact absurd hbefore (heffect.new w hw)
  · exact fun hstays => .inl ⟨hbefore, hstays⟩

theorem mem_afterCall (h : Written db ws) (heffect : Effect db after gone fresh) (m : MemoryEntry) :
    m ∈ (afterCall ws gone fresh).map Dated.memory ↔ m ∈ after.memories := by
  rw [map_afterCall, mem_append, List.mem_filter, h.memories, heffect.memories,
    mem_toList, map_eq_some_iff, Bool.not_eq_true']
  rfl

theorem arrivals (h : Written db ws) (heffect : Effect db after gone fresh)
    (hids : Identified after.memories) :
    after.memories.filter (fun m => m ∉ ws.map Dated.memory) = (fresh.map Dated.memory).toList := by
  have hmem : ∀ m, m ∈ after.memories.filter (fun m => m ∉ ws.map Dated.memory) ↔
      m ∈ (fresh.map Dated.memory).toList := by
    intro m
    rw [List.mem_filter, decide_eq_true_eq, h.memories, heffect.memories, mem_toList,
      map_eq_some_iff]
    constructor
    · rintro ⟨⟨hbefore, -⟩ | hfresh, hnew⟩
      · exact absurd hbefore hnew
      · exact hfresh
    · rintro ⟨w, hw, rfl⟩
      exact ⟨.inr ⟨w, hw, rfl⟩, heffect.new w hw⟩
  have hnodup : after.memories.Nodup := List.Nodup.of_map _ hids
  cases fresh with
  | none => exact List.eq_nil_iff_forall_not_mem.mpr fun m hm => by cases (hmem m).mp hm
  | some w =>
    have hperm := (perm_ext_iff_of_nodup (hnodup.filter _) (nodup_singleton _)).mpr hmem
    exact List.perm_singleton.mp hperm

theorem ledger (h : Written db ws) (heffect : Effect db after gone fresh)
    (hids : Identified after.memories) :
    lastWritten (ws.map Dated.memory) after.memories =
      (afterCall ws gone fresh).map Dated.memory := by
  have hstays : (ws.map Dated.memory).filter (fun m => m ∈ after.memories) =
      (ws.map Dated.memory).filter fun m => !gone m.id := by
    refine filter_congr fun m hm => ?_
    rw [Bool.eq_iff_iff, decide_eq_true_eq, h.stays heffect hm, Bool.not_eq_true']
  rw [lastWritten, hstays, h.arrivals heffect hids, map_afterCall]

theorem call (h : Written db ws) (heffect : Effect db after gone fresh)
    (hids : Identified after.memories) (hjoins : ∀ w ∈ fresh, w.Joins gone ws) :
    Written after (afterCall ws gone fresh) where
  memories := h.mem_afterCall heffect
  identified := by
    have hnodup : (((ws.map Dated.memory).filter fun m => !gone m.id) ++
        (fresh.map Dated.memory).toList).Nodup := by
      refine List.nodup_append.mpr ⟨(List.Nodup.of_map _ h.identified).filter _, ?_, ?_⟩
      · cases fresh with
        | none => exact nodup_nil
        | some w => exact nodup_singleton _
      · rintro m hm n hn rfl
        obtain ⟨w, hw, rfl⟩ := Option.map_eq_some_iff.mp (Option.mem_toList.mp hn)
        exact heffect.new w hw ((h.memories _).mp (mem_of_mem_filter hm))
    rw [← map_afterCall] at hnodup
    have hperm := (perm_ext_iff_of_nodup hnodup (List.Nodup.of_map _ hids)).mpr
      (h.mem_afterCall heffect)
    exact (hperm.map MemoryEntry.id).nodup_iff.mpr hids
  table := by
    rw [heffect.rows, h.table, filter_table, afterCall, flatMap_append]
  readable w hw := by
    rcases List.mem_append.mp hw with hw | hw
    · exact h.readable w (mem_of_mem_filter hw)
    · exact (hjoins w (Option.mem_toList.mp hw)).readable
  times := by
    refine (h.times.filter _).append ?_ fun v hv w hw k hkv hkw => ?_
    · cases fresh with
      | none => exact List.Pairwise.nil
      | some w => exact pairwise_singleton _ w
    · obtain ⟨hv, hstays⟩ := List.mem_filter.mp hv
      have hlater :=
        (hjoins w (Option.mem_toList.mp hw)).later v hv (by simpa using hstays) k hkv hkw
      refine hlater.imp_right fun ⟨hid, hnow⟩ => Prod.Lex.toLex_lt_toLex.mpr ?_
      rcases hnow.lt_or_eq with hlt | heq
      · exact .inl hlt
      · exact .inr ⟨heq, hid⟩
  ids := by
    refine (h.ids.filter _).append ?_ fun v hv w hw k hkv hkw => ?_
    · cases fresh with
      | none => exact List.Pairwise.nil
      | some w => exact pairwise_singleton _ w
    · obtain ⟨hv, hstays⟩ := List.mem_filter.mp hv
      have hlater :=
        (hjoins w (Option.mem_toList.mp hw)).later v hv (by simpa using hstays) k hkv hkw
      exact hlater.imp_right fun hboth => hboth.1

end Written

/-! ## The calls -/

variable {tools : TextTools}

theorem unchanged_effect (db : Database) : Effect db db (fun _ => false) none where
  memories m := by simp
  rows := by simp
  new w hw := by cases hw

/-! ## Storing -/

/-- The memory that a store of this content creates. -/
def Database.newMemory (db : Database) (kind content : String) (evergreen : Bool) (now : Nat) :
    MemoryEntry :=
  { id := db.nextId, kind, content, accessedMs := now, evergreen,
    metadata := inferMetadata kind content }

theorem stored_effect (db : Database) (tools : TextTools) (kind content : String)
    (evergreen : Bool) (now : Nat) :
    Effect db (stored db tools kind content evergreen now) (fun id => id = db.nextId)
      (some ⟨db.newMemory kind content evergreen now, now⟩) where
  memories m := by
    have hmemories : (stored db tools kind content evergreen now).memories =
        db.memories ++ [db.newMemory kind content evergreen now] :=
      stored_memories db kind content evergreen now
    rw [hmemories, mem_append, mem_singleton]
    constructor
    · rintro (hm | rfl)
      · exact .inl ⟨hm, decide_eq_false (Nat.ne_of_lt (lt_nextId hm))⟩
      · exact .inr ⟨_, rfl, rfl⟩
    · rintro (⟨hm, -⟩ | ⟨w, hw, rfl⟩)
      · exact .inl hm
      · cases hw
        exact .inr rfl
  rows := by
    rw [stored_shoppingListItems, toList_some, flatMap_singleton]
    congr 1
    exact filter_congr fun row _ => decide_not
  new w hw := by
    cases hw
    exact fun hm => absurd (lt_nextId hm) (Nat.lt_irrefl _)

/-! ## Editing -/

section

variable (id : Nat) (kind content : String) (metadata : MemoryPolicyMetadata)

theorem rederived_derived_other {tables : List DerivedTable} {t : DerivedTable} (ht : t ∉ tables)
    (clock : List Nat) (db : Database) :
    (rederived tools id kind content metadata tables clock db).derived t = db.derived t := by
  induction tables generalizing clock db with
  | nil => rfl
  | cons table rest ih =>
    rw [List.mem_cons, not_or] at ht
    rw [rederived, ih ht.2, upserted_derived, if_neg ht.1]

theorem rederived_derived {tables : List DerivedTable} (hnodup : tables.Nodup)
    {t : DerivedTable} (ht : t ∈ tables) (clock : List Nat) (db : Database) :
    (rederived tools id kind content metadata tables clock db).derived t =
      (db.derived t).filter (fun row => row.sourceMemoryId ≠ id) ++
        (derive tools t kind content metadata).map
          fun columns => ⟨id, columns, (clock.drop (tables.idxOf t)).headD 0⟩ := by
  induction tables generalizing clock db with
  | nil => cases ht
  | cons table rest ih =>
    obtain ⟨hnot, hrest⟩ := List.nodup_cons.mp hnodup
    rw [rederived]
    by_cases htable : table = t
    · subst htable
      rw [rederived_derived_other _ _ _ _ hnot, upserted_derived, if_pos rfl,
        idxOf_cons_self, drop_zero]
    · have hmem := (List.mem_cons.mp ht).resolve_left (Ne.symm htable)
      rw [ih hrest hmem, upserted_derived, if_neg (Ne.symm htable), idxOf_cons_ne _ htable,
        drop_tail]

end

/-- The time of the rows that an edit writes: the clock is read once for each table. -/
def editTime (clock : List Nat) : Nat := (clock.drop 8).headD 0

/-- The memory after an edit. -/
def MemoryEntry.rewritten (m : MemoryEntry) (kind content : String) : MemoryEntry :=
  { m with kind, content, metadata := inferMetadata kind content }

theorem edited_effect {db : Database} (hids : Identified db.memories) {id : Nat}
    {existing : MemoryEntry} (hfound : db.getById id = some existing) {kind content : String}
    (hchanges : ¬ existing.Says kind content) (clock : List Nat) :
    Effect db (db.edited tools id kind content clock) (fun i => i = id)
      (some ⟨existing.rewritten kind content, editTime clock⟩) where
  memories m := by
    obtain ⟨hmem, hid⟩ := found_id hfound
    have hmemories : (db.edited tools id kind content clock).memories =
        (db.updateMemory id kind content (inferMetadata kind content)).memories := by
      rw [Database.edited, rederived_memories]
    rw [hmemories, Database.updateMemory, List.mem_map]
    constructor
    · rintro ⟨n, hn, rfl⟩
      by_cases hsame : n.id = id
      · have heq : n = existing := inj_on_of_nodup_map hids hn hmem (hsame.trans hid.symm)
        rw [if_pos hsame, heq]
        exact .inr ⟨_, rfl, rfl⟩
      · rw [if_neg hsame]
        exact .inl ⟨hn, decide_eq_false hsame⟩
    · rintro (⟨hm, hother⟩ | ⟨w, hw, rfl⟩)
      · exact ⟨m, hm, if_neg (of_decide_eq_false hother)⟩
      · cases hw
        exact ⟨existing, hmem, if_pos hid⟩
  rows := by
    have hid : (existing.rewritten kind content).id = id := (found_id hfound).2
    rw [Database.edited, rederived_derived _ _ _ _ (by decide) (DerivedTable.mem_all _),
      toList_some, flatMap_singleton, Dated.rows, MemoryEntry.shoppingRows, hid]
    congr 1
    exact filter_congr fun row _ => decide_not
  new w hw hm := by
    cases hw
    obtain ⟨hmem, hid⟩ := found_id hfound
    have heq := inj_on_of_nodup_map hids hm hmem rfl
    refine hchanges ⟨?_, ?_, ?_⟩
    · exact congrArg MemoryEntry.kind heq.symm
    · exact congrArg MemoryEntry.content heq.symm
    · exact congrArg MemoryEntry.metadata heq.symm

theorem without_effect (db : Database) (id : Nat) :
    Effect db (db.without id) (fun i => i = id) none where
  memories m := by
    simp [Database.without]
  rows := by
    simp [Database.without]
  new w hw := by cases hw

/-! ## Replacing -/

theorem Effect.trans {a b c : Database} {gone gone' : Nat → Bool} {fresh : Option Dated}
    (h : Effect a b gone none) (h' : Effect b c gone' fresh)
    (hnew : ∀ w ∈ fresh, w.memory ∉ a.memories) :
    Effect a c (fun id => gone id || gone' id) fresh where
  memories m := by
    rw [h'.memories, h.memories, Bool.or_eq_false_iff]
    constructor
    · rintro (⟨⟨hm, hgone⟩ | ⟨w, hw, -⟩, hgone'⟩ | hfresh)
      · exact .inl ⟨hm, hgone, hgone'⟩
      · cases hw
      · exact .inr hfresh
    · rintro (⟨hm, hgone, hgone'⟩ | hfresh)
      · exact .inl ⟨.inl ⟨hm, hgone⟩, hgone'⟩
      · exact .inr hfresh
  rows := by
    rw [h'.rows, h.rows, toList_none, flatMap_nil, append_nil, List.filter_filter]
    congr 1
    refine filter_congr fun row _ => ?_
    rw [Bool.not_or, Bool.and_comm]
  new := hnew

theorem replaceSlot_effect (db : Database) (clock : List Nat) (slot content : String)
    (existing : List MemoryEntry) :
    ∃ n after gone, replaceSlot tools slot content existing ⟨db, [], [], clock⟩ =
        (.ok n, ⟨after, [], [], clock⟩) ∧ Effect db after gone none ∧
      ∀ id, gone id = true →
        ∃ m ∈ existing, m.id = id ∧ m.superseded tools slot content = true := by
  induction existing generalizing db with
  | nil => exact ⟨0, db, _, rfl, unchanged_effect db, fun id h => by cases h⟩
  | cons m rest ih =>
    -- a memory that is superseded goes with its rows, if it is still there
    have hfirst : ∃ deleted after gone, deleteSuperseded tools slot content m
        ⟨db, [], [], clock⟩ = (.ok deleted, ⟨after, [], [], clock⟩) ∧
        Effect db after gone none ∧
        ∀ id, gone id = true → m.id = id ∧ m.superseded tools slot content = true := by
      unfold deleteSuperseded
      split
      · rename_i hsuperseded
        cases hfound : db.getById m.id with
        | none =>
          exact ⟨false, db, _, deleteById_absent db clock hfound, unchanged_effect db,
            fun id h => by cases h⟩
        | some found =>
          exact ⟨true, db.without m.id, _, deleteById_run db clock hfound,
            without_effect db m.id, fun id h => ⟨(of_decide_eq_true h).symm, hsuperseded⟩⟩
      · exact ⟨false, db, _, rfl, unchanged_effect db, fun id h => by cases h⟩
    obtain ⟨deleted, mid, gone, hdelete, heffect, hgone⟩ := hfirst
    obtain ⟨n, after, gone', hrest, heffect', hgone'⟩ := ih mid
    refine ⟨if deleted then n + 1 else n, after, _, ?_,
      heffect.trans heffect' (fun w hw => by cases hw), fun id h => ?_⟩
    · rw [replaceSlot, bind_apply_ok hdelete, bind_apply_ok hrest]
      rfl
    · rcases Bool.or_eq_true_iff.mp h with h | h
      · obtain ⟨hid, hsuperseded⟩ := hgone id h
        exact ⟨m, mem_cons_self, hid, hsuperseded⟩
      · obtain ⟨n, hn, hid, hsuperseded⟩ := hgone' id h
        exact ⟨n, mem_cons_of_mem m hn, hid, hsuperseded⟩

theorem clearSlot_effect (db : Database) (clock : List Nat) (kind content : String)
    (slot : Option String) :
    ∃ n after gone, clearSlot tools kind content slot ⟨db, [], [], clock⟩ =
        (.ok n, ⟨after, [], [], clock⟩) ∧ Effect db after gone none ∧
      ∀ id, gone id = true → ∃ m ∈ db.memories, m.id = id ∧ m.content ≠ content := by
  cases slot with
  | none => exact ⟨0, db, _, rfl, unchanged_effect db, fun id h => by cases h⟩
  | some slot =>
    obtain ⟨n, after, gone, hrun, heffect, hgone⟩ :=
      @replaceSlot_effect tools db clock slot content (db.getByKind kind 100)
    have hquery : query (fun db => db.getByKind kind 100) ⟨db, [], [], clock⟩ =
        (.ok (db.getByKind kind 100), ⟨db, [], [], clock⟩) := rfl
    refine ⟨n, after, gone, ?_, heffect, fun id h => ?_⟩
    · rw [clearSlot, bind_apply_ok hquery, hrun]
    · obtain ⟨m, hm, hid, hsuperseded⟩ := hgone id h
      have hmem := mem_of_mem_filter ((mem_insertionSort _).mp (mem_of_mem_take hm))
      exact ⟨m, hmem, hid, (of_decide_eq_true hsuperseded).1⟩

theorem isDuplicate_run (db : Database) (clock : List Nat) (slot : Option String)
    (content : String) : ∃ duplicate, isDuplicate tools slot content ⟨db, [], [], clock⟩ =
      (.ok duplicate, ⟨db, [], [], clock⟩) := by
  unfold isDuplicate hasSimilar
  split
  · exact ⟨_, rfl⟩
  · dsimp only
    split
    · exact ⟨_, rfl⟩
    · exact ⟨_, rfl⟩

theorem resolved_effect {db : Database} (hids : Identified db.memories) (clock : List Nat)
    (kind content : String) :
    ∃ outcome after gone fresh rest, storeResolved tools kind content ⟨db, [], [], clock⟩ =
        (.ok outcome, ⟨after, [], [], rest⟩) ∧ Effect db after gone fresh ∧
      ∀ w ∈ fresh, w.now = clock.headD 0 ∧
        (∀ m ∈ db.memories, gone m.id = false → m.id < w.memory.id) ∧
        ∃ id, w.memory =
          { db.newMemory kind (normalizeMemoryContent content) false w.now with id } := by
  obtain ⟨duplicate, hduplicate⟩ := @isDuplicate_run tools db clock
    (memorySlot tools kind (normalizeMemoryContent content)) (normalizeMemoryContent content)
  unfold storeResolved
  generalize htext : normalizeMemoryContent content = text at hduplicate ⊢
  dsimp only
  rw [bind_apply_ok hduplicate]
  cases duplicate with
  | true => exact ⟨_, db, _, none, clock, rfl, unchanged_effect db, fun w hw => by cases hw⟩
  | false =>
    obtain ⟨n, mid, gone, hclear, heffect, hgone⟩ := @clearSlot_effect tools db clock kind text
      (memorySlot tools kind text)
    have hstore := @storeAs_run mid clock tools kind text false
    have hsame : normalizeMemoryContent text = text := by
      rw [← htext, normalizeMemoryContent_idem]
    rw [hsame] at hstore
    have hnew : ∀ w ∈ some (Dated.mk (mid.newMemory kind text false (clock.headD 0))
        (clock.headD 0)), w.memory ∉ db.memories := by
      rintro w hw hm
      cases hw
      have hstays : gone (mid.newMemory kind text false (clock.headD 0)).id = false := by
        refine Bool.eq_false_iff.mpr fun hgo => ?_
        obtain ⟨m, hmem, hid, hne⟩ := hgone _ hgo
        exact hne (congrArg MemoryEntry.content (inj_on_of_nodup_map hids hmem hm hid))
      exact absurd (lt_nextId ((heffect.memories _).mpr (.inl ⟨hm, hstays⟩))) (Nat.lt_irrefl _)
    refine ⟨⟨some mid.nextId, n, false⟩, _, _, _, clock.tail, ?_,
      heffect.trans (stored_effect mid tools kind text false (clock.headD 0)) hnew,
      fun w hw => ?_⟩
    · rw [if_neg (by decide), bind_apply_ok hclear, store, bind_apply_ok hstore]
      rfl
    · cases hw
      refine ⟨rfl, fun m hm hstays => ?_, mid.nextId, rfl⟩
      exact lt_nextId ((heffect.memories m).mpr (.inl ⟨hm, (Bool.or_eq_false_iff.mp hstays).1⟩))

theorem storeResolved_smooth (kind content : String) :
    Smooth (storeResolved tools kind content) := by
  refine Smooth.bind (Smooth.ite (query_smooth _) ?_) fun duplicate => ?_
  · exact Smooth.ite (Smooth.pure _) (query_smooth _)
  · refine Smooth.ite (Smooth.pure _) (Smooth.bind ?_ fun _ =>
      Smooth.bind (storeAs_smooth _ _ _) fun _ => Smooth.pure _)
    cases memorySlot tools kind (normalizeMemoryContent content) with
    | none => exact Smooth.pure 0
    | some slot =>
      refine Smooth.bind (query_smooth _) fun existing => ?_
      induction existing with
      | nil => exact Smooth.pure 0
      | cons m rest ih =>
        exact Smooth.bind (Smooth.ite (deleteById_smooth _) (Smooth.pure _)) fun _ =>
          Smooth.bind ih fun _ => Smooth.pure _

end GenieClaw.Memory
