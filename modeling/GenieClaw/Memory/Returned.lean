import GenieClaw.Memory.Runs

/-!
# What a call that returned has done

A store, an edit or a deletion returns only if none of its statements failed, and then it does
what it does where nothing can fail.

* `step_calm`: a call that returned has the effect it has where nothing fails.
-/

namespace GenieClaw.Memory

open Library Library.Program

/-- The connection when nothing is going to fail. -/
def Connection.calm (c : Connection) : Connection := { c with sql := [], files := [] }

/-- Where the program returns, it does the same when nothing can fail. -/
def Smooth {α : Type} (x : Op α) : Prop :=
  ∀ c a c', x c = (.ok a, c') → x c.calm = (.ok a, c'.calm)

namespace Smooth

variable {α β : Type}

protected theorem pure (a : α) : Smooth (pure a) := by
  intro c b c' h
  cases h
  rfl

protected theorem fail (e : MemoryError) : Smooth (fail e : Op α) := by
  intro c b c' h
  cases h

protected theorem bind {x : Op α} {f : α → Op β} (hx : Smooth x) (hf : ∀ a, Smooth (f a)) :
    Smooth (x >>= f) := by
  intro c b c' h
  rcases hrun : x c with ⟨a | a, d⟩
  · rw [bind_apply_error hrun] at h
    cases h
  · rw [bind_apply_ok hrun] at h
    rw [bind_apply_ok (hx c a d hrun)]
    exact hf a d b c' h

protected theorem map {x : Op α} (f : α → β) (hx : Smooth x) : Smooth (f <$> x) :=
  Smooth.bind hx fun _ => Smooth.pure _

protected theorem ite {p : Prop} [Decidable p] {x y : Op α} (hx : Smooth x) (hy : Smooth y) :
    Smooth (if p then x else y) := by
  split
  · exact hx
  · exact hy

protected theorem forM {f : β → Op Unit} {xs : List β} (h : ∀ x ∈ xs, Smooth (f x)) :
    Smooth (xs.forM f) := by
  induction xs with
  | nil => exact Smooth.pure ()
  | cons x rest ih =>
    have hrest := ih fun y hy => h y (List.mem_cons_of_mem x hy)
    exact Smooth.bind (h x List.mem_cons_self) fun _ => hrest

end Smooth

section

variable {α : Type}

theorem statement_smooth (f : Database → α × Database) : Smooth (statement f) := by
  intro c a c' h
  rcases statement_cases f c with ⟨-, hrun⟩ | hrun
  · rw [hrun] at h
    cases h
  · rw [hrun] at h
    cases h
    rfl

theorem query_smooth (f : Database → α) : Smooth (query f) := statement_smooth _

theorem execute_smooth (f : Database → Database) : Smooth (execute f) := statement_smooth _

theorem changeFiles_smooth : Smooth changeFiles := by
  intro c a c' h
  rcases changeFiles_cases c with hrun | hrun
  · rw [hrun] at h
    cases h
  · rw [hrun] at h
    cases h
    rfl

theorem nowMs_smooth : Smooth nowMs := by
  intro c a c' h
  cases h
  rfl

end

/-! ## The operations -/

variable {tools : TextTools}

theorem logs_smooth : Smooth (do recordCanonicalEvent; appendDailyNote) :=
  Smooth.bind changeFiles_smooth fun _ => changeFiles_smooth

theorem updateCanonicalFiles_smooth (entry : MemoryEntry) : Smooth (updateCanonicalFiles entry) :=
  Smooth.ite (Smooth.bind (Smooth.bind (query_smooth _) fun _ => changeFiles_smooth)
    fun _ => logs_smooth) logs_smooth

theorem upsertFromMemory_smooth (id : Nat) (kind content : String)
    (metadata : MemoryPolicyMetadata) (now : Nat) (table : DerivedTable) :
    Smooth (upsertFromMemory tools id kind content metadata now table) :=
  Smooth.bind (execute_smooth _) fun _ => Smooth.bind (Smooth.forM fun _ _ => execute_smooth _)
    fun _ => Smooth.ite (query_smooth _) (Smooth.pure ())

theorem storeAs_smooth (evergreen : Bool) (kind content : String) :
    Smooth (storeAs tools evergreen kind content) := by
  refine Smooth.bind ?_ fun id => Smooth.bind changeFiles_smooth fun _ =>
    Smooth.bind changeFiles_smooth fun _ => Smooth.pure id
  refine Smooth.bind nowMs_smooth fun now => Smooth.bind (statement_smooth _) fun id => ?_
  exact Smooth.bind (Smooth.forM fun table _ =>
    upsertFromMemory_smooth id kind _ _ now table) fun _ => Smooth.pure id

theorem deleteById_smooth (id : Nat) : Smooth (deleteById id) := by
  refine Smooth.bind (query_smooth _) fun existing => Smooth.bind (statement_smooth _)
    fun deleted => Smooth.bind ?_ fun _ => Smooth.pure _
  cases existing with
  | none => exact Smooth.pure ()
  | some entry =>
    refine Smooth.ite ?_ (Smooth.pure ())
    exact Smooth.bind (Smooth.forM fun _ _ => execute_smooth _)
      fun _ => updateCanonicalFiles_smooth entry

theorem writeManaged_smooth (existing : MemoryEntry) (id : Nat) (kind content : String) :
    Smooth (writeManaged tools existing id kind content) := by
  refine Smooth.bind (statement_smooth _) fun updated => Smooth.bind ?_ fun _ => Smooth.pure _
  refine Smooth.ite (Smooth.bind (Smooth.forM fun table _ => ?_) fun _ =>
    updateCanonicalFiles_smooth existing) (Smooth.pure ())
  exact Smooth.bind nowMs_smooth fun now => upsertFromMemory_smooth id kind content _ now table

theorem updateManaged_smooth (id : Nat) (content : String) (kind : Option String) :
    Smooth (updateManaged tools id content kind) := by
  refine Smooth.bind (query_smooth _) fun existing => ?_
  cases existing with
  | none => exact Smooth.pure false
  | some existing =>
    dsimp only
    unfold updateExisting
    dsimp only
    refine Smooth.ite (Smooth.fail _) ?_
    split
    · exact Smooth.fail _
    · exact Smooth.ite (Smooth.fail _)
        (Smooth.ite (Smooth.pure true) (writeManaged_smooth existing id _ _))

/-! ## The database afterwards -/

/-- The database without the memory and its rows. -/
def Database.without (db : Database) (id : Nat) : Database where
  memories := db.memories.filter fun m => !decide (m.id = id)
  derived table := (db.derived table).filter fun row => row.sourceMemoryId ≠ id

/-- The rows of a memory, written anew table by table. -/
def rederived (tools : TextTools) (id : Nat) (kind content : String)
    (metadata : MemoryPolicyMetadata) : List DerivedTable → List Nat → Database → Database
  | [], _, db => db
  | table :: rest, clock, db => rederived tools id kind content metadata rest clock.tail
      (upserted tools id kind content metadata (clock.headD 0) db table)

/-- The database after an edit that changes something. -/
def Database.edited (db : Database) (tools : TextTools) (id : Nat) (kind content : String)
    (clock : List Nat) : Database :=
  rederived tools id kind content (inferMetadata kind content) DerivedTable.all clock
    (db.updateMemory id kind content (inferMetadata kind content))

section

variable (db : Database) (clock : List Nat)

theorem updateCanonicalFiles_run (entry : MemoryEntry) :
    updateCanonicalFiles entry ⟨db, [], [], clock⟩ = (.ok (), ⟨db, [], [], clock⟩) := by
  unfold updateCanonicalFiles
  split
  · rfl
  · rfl

theorem forM_deleteDerived_run (id : Nat) (tables : List DerivedTable) :
    (tables.forM fun table => execute fun db => db.deleteDerived table id) ⟨db, [], [], clock⟩ =
      (.ok (), ⟨tables.foldl (fun db table => db.deleteDerived table id) db, [], [], clock⟩) :=
  forM_execute_run db [] clock (fun table db => db.deleteDerived table id) tables

theorem foldl_deleteDerived (id : Nat) (tables : List DerivedTable) :
    (tables.foldl (fun db table => db.deleteDerived table id) db).memories = db.memories ∧
      ∀ t, (tables.foldl (fun db table => db.deleteDerived table id) db).derived t =
        if t ∈ tables then (db.derived t).filter fun row => row.sourceMemoryId ≠ id
        else db.derived t := by
  induction tables generalizing db with
  | nil => simp
  | cons table rest ih =>
    rw [List.foldl_cons]
    refine ⟨(ih _).1, fun t => ?_⟩
    rw [(ih _).2 t, Database.deleteDerived]
    by_cases ht : t = table
    · subst ht
      simp
    · simp [ht]

theorem getById_isSome {id : Nat} :
    (db.getById id).isSome = true ↔ 0 < (db.memories.filter fun m => m.id = id).length := by
  rw [Database.count_pos_iff, Database.getById, List.find?_isSome]
  simp

theorem deleteById_run {id : Nat} {existing : MemoryEntry}
    (hfound : db.getById id = some existing) :
    deleteById id ⟨db, [], [], clock⟩ = (.ok true, ⟨db.without id, [], [], clock⟩) := by
  have hcount : 0 < (db.memories.filter fun m => m.id = id).length := by
    rw [← getById_isSome, hfound]
    rfl
  have hquery : query (fun db => db.getById id) ⟨db, [], [], clock⟩ =
      (.ok (some existing), ⟨db, [], [], clock⟩) := by
    rw [← hfound]
    rfl
  have hstatement : statement (fun db => ((db.memories.filter fun m => m.id = id).length,
        db.deleteMemories fun m => m.id = id)) ⟨db, [], [], clock⟩ =
      (.ok (db.memories.filter fun m => m.id = id).length,
        ⟨db.deleteMemories fun m => m.id = id, [], [], clock⟩) := rfl
  have hdb : DerivedTable.all.foldl (fun db table => db.deleteDerived table id)
      (db.deleteMemories fun m => m.id = id) = db.without id := by
    obtain ⟨hmemories, hderived⟩ :=
      foldl_deleteDerived (db.deleteMemories fun m => m.id = id) id DerivedTable.all
    generalize DerivedTable.all.foldl (fun db table => db.deleteDerived table id)
      (db.deleteMemories fun m => m.id = id) = after at hmemories hderived
    obtain ⟨memories, derived⟩ := after
    have htables : derived = (db.without id).derived := by
      funext t
      have ht := hderived t
      rw [if_pos t.mem_all] at ht
      exact ht
    exact congrArg₂ Database.mk hmemories htables
  unfold deleteById
  rw [bind_apply_ok hquery, bind_apply_ok hstatement, forgetExisting, if_pos hcount]
  unfold forgetDerived
  rw [Program.bind_assoc, bind_apply_ok (forM_deleteDerived_run _ clock id _),
    bind_apply_ok (updateCanonicalFiles_run _ clock existing), hdb]
  simp [hcount]

theorem deleteById_absent {id : Nat} (hfound : db.getById id = none) :
    deleteById id ⟨db, [], [], clock⟩ = (.ok false, ⟨db, [], [], clock⟩) := by
  have habsent : ¬ ∃ m ∈ db.memories, m.id = id := by
    rw [← Database.count_pos_iff, ← getById_isSome, hfound]
    decide
  have hcount : ¬ 0 < (db.memories.filter fun m => m.id = id).length := by
    rwa [Database.count_pos_iff]
  have hquery : query (fun db => db.getById id) ⟨db, [], [], clock⟩ =
      (.ok none, ⟨db, [], [], clock⟩) := by
    rw [← hfound]
    rfl
  have hstatement : statement (fun db => ((db.memories.filter fun m => m.id = id).length,
        db.deleteMemories fun m => m.id = id)) ⟨db, [], [], clock⟩ =
      (.ok (db.memories.filter fun m => m.id = id).length, ⟨db, [], [], clock⟩) := by
    show (_, Connection.mk (db.deleteMemories fun m => m.id = id) [] [] clock) = _
    rw [Database.deleteMemory_of_absent habsent]
  unfold deleteById
  rw [bind_apply_ok hquery, bind_apply_ok hstatement, decide_eq_false hcount]
  rfl

theorem forM_upsertNow_run (id : Nat) (kind content : String) (metadata : MemoryPolicyMetadata)
    (tables : List DerivedTable) :
    ∃ rest, tables.forM (upsertNow tools id kind content metadata) ⟨db, [], [], clock⟩ =
      (.ok (), ⟨rederived tools id kind content metadata tables clock db, [], [], rest⟩) := by
  induction tables generalizing db clock with
  | nil => exact ⟨clock, rfl⟩
  | cons table tables ih =>
    have hnow : nowMs ⟨db, [], [], clock⟩ = (.ok (clock.headD 0), ⟨db, [], [], clock.tail⟩) := rfl
    obtain ⟨rest, hrest⟩ := ih
      (upserted tools id kind content metadata (clock.headD 0) db table) clock.tail
    refine ⟨rest, ?_⟩
    rw [Program.forM_cons]
    unfold upsertNow at hrest ⊢
    rw [Program.bind_assoc, bind_apply_ok hnow,
      bind_apply_ok (upsertFromMemory_run db [] clock.tail ..), hrest]
    rfl

theorem writeManaged_run {id : Nat} {existing : MemoryEntry} {kind content : String}
    (hfound : db.getById id = some existing) :
    ∃ rest, writeManaged tools existing id kind content ⟨db, [], [], clock⟩ =
      (.ok true, ⟨db.edited tools id kind content clock, [], [], rest⟩) := by
  have hcount : 0 < (db.memories.filter fun m => m.id = id).length := by
    rw [← getById_isSome, hfound]
    rfl
  have hstatement : statement (fun db => ((db.memories.filter fun m => m.id = id).length,
        db.updateMemory id kind content (inferMetadata kind content))) ⟨db, [], [], clock⟩ =
      (.ok (db.memories.filter fun m => m.id = id).length,
        ⟨db.updateMemory id kind content (inferMetadata kind content), [], [], clock⟩) := rfl
  obtain ⟨rest, hrest⟩ := @forM_upsertNow_run tools
    (db.updateMemory id kind content (inferMetadata kind content)) clock id kind content
    (inferMetadata kind content) DerivedTable.all
  refine ⟨rest, ?_⟩
  unfold writeManaged
  rw [bind_apply_ok hstatement, rederive, if_pos hcount, Program.bind_assoc, bind_apply_ok hrest,
    bind_apply_ok (updateCanonicalFiles_run _ rest existing)]
  simp [hcount, Database.edited]

end

/-- The memory says already what it is to say. -/
def MemoryEntry.Says (m : MemoryEntry) (kind content : String) : Prop :=
  m.kind = kind ∧ m.content = content ∧ m.metadata = inferMetadata kind content

theorem edit_cases {db : Database} {clock : List Nat} {id : Nat} {content : String}
    {kind : Option String} {reply : Bool} {c : Connection}
    (h : updateManaged tools id content kind ⟨db, [], [], clock⟩ = (.ok reply, c)) :
    (db.getById id = none ∧ c.db = db) ∨
      ∃ existing nk, db.getById id = some existing ∧ nextKind existing kind = .ok nk ∧
        ((existing.Says nk (normalizeMemoryContent content) ∧ c.db = db) ∨
          (¬ existing.Says nk (normalizeMemoryContent content) ∧
            c.db = db.edited tools id nk (normalizeMemoryContent content) clock)) := by
  have hquery : query (fun db => db.getById id) ⟨db, [], [], clock⟩ =
      (.ok (db.getById id), ⟨db, [], [], clock⟩) := rfl
  unfold updateManaged at h
  rw [bind_apply_ok hquery] at h
  cases hfound : db.getById id with
  | none =>
    rw [hfound] at h
    cases h
    exact .inl ⟨rfl, rfl⟩
  | some existing =>
    rw [hfound] at h
    dsimp only at h
    unfold updateExisting at h
    generalize normalizeMemoryContent content = content at h ⊢
    dsimp only at h
    by_cases hempty : content = ""
    · rw [if_pos hempty] at h
      cases h
    · rw [if_neg hempty] at h
      cases hkind : nextKind existing kind with
      | error e =>
        rw [hkind] at h
        cases h
      | ok nk =>
        rw [hkind] at h
        dsimp only at h
        by_cases hallowed : (assessMemoryWrite nk content).allowed = false
        · rw [if_pos hallowed] at h
          cases h
        · rw [if_neg hallowed] at h
          refine .inr ⟨existing, nk, rfl, hkind, ?_⟩
          by_cases hstated : existing.Says nk content
          · unfold MemoryEntry.Says at hstated
            rw [if_pos hstated] at h
            cases h
            exact .inl ⟨hstated, rfl⟩
          · unfold MemoryEntry.Says at hstated
            rw [if_neg hstated] at h
            obtain ⟨rest, hrun⟩ := @writeManaged_run tools db clock id existing nk content hfound
            rw [hrun] at h
            cases h
            exact .inr ⟨hstated, rfl⟩

/-! ## Calls -/

/-- A call whose program is smooth has, if it returned, the effect that it has on a calm
connection. -/
theorem step_calm {db : Database} {call : Call} (hsmooth : Smooth (perform tools call.command))
    (hok : ((machine tools).step db call).1.isOk = true) :
    ∃ reply c, perform tools call.command ⟨db, [], [], call.clock⟩ = (.ok reply, c) ∧
      ((machine tools).step db call).2 = c.db := by
  rcases hrun : perform tools call.command (call.connect db) with ⟨e | reply, c⟩
  · have hstep : ((machine tools).step db call).1 =
        (perform tools call.command (call.connect db)).1 := rfl
    rw [hstep, hrun] at hok
    cases hok
  · refine ⟨reply, c.calm, hsmooth _ _ _ hrun, ?_⟩
    rw [step_snd, hrun]
    rfl

end GenieClaw.Memory
