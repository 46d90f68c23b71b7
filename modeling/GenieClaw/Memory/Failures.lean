import GenieClaw.Memory.Slots

/-!
# Calls that fail half-way

No call of the store is a transaction: the first statement that changes a table commits, and
whatever fails after it leaves the change behind. A correction deletes the older values before it
stores the new one, so it can lose both.

* `failure_unchanged_iff` (no assumption): which failing statements leave the tables as they were.
-/

namespace GenieClaw.Memory

open Library Library.Program Library.Text List

variable {tools : TextTools} {α β : Type} {db : Database} {n : Nat}

/-- From these tables a failure leaves them as they are exactly if it is among the first `n`
statements. -/
def FailsClean (db : Database) (n : Nat) (x : Op α) : Prop :=
  ∀ c e c', c.db = db → x c = (.error e, c') → (c'.db = db ↔ false ∈ c.sql.take n)

namespace FailsClean

theorem pure {a : α} : FailsClean db n (pure a) := fun _ _ _ _ h => by cases h

theorem nowMs {f : Nat → Op β} (h : ∀ now, FailsClean db n (f now)) :
    FailsClean db n (Memory.nowMs >>= f) := by
  intro c e c' hc hrun
  have hnow : Memory.nowMs c = (.ok (c.clock.headD 0), { c with clock := c.clock.tail }) := rfl
  rw [bind_apply_ok hnow] at hrun
  exact h _ { c with clock := c.clock.tail } e c' hc hrun

theorem query {f : Database → α} {g : α → Op β} (h : FailsClean db n (g (f db))) :
    FailsClean db (n + 1) (Memory.query f >>= g) := by
  rintro c e c' rfl hrun
  rcases hsql : c.sql with _ | ⟨_ | _, rest⟩
  · have hquery : Memory.query f c = (.ok (f c.db), c) := by
      obtain ⟨db, sql, files, clock⟩ := c
      obtain rfl : sql = [] := hsql
      rfl
    rw [bind_apply_ok hquery] at hrun
    rw [h c e c' rfl hrun, hsql]
    simp
  · have hquery : Memory.query f c = (.error .sqlite, { c with sql := rest }) := by
      obtain ⟨db, sql, files, clock⟩ := c
      obtain rfl : sql = false :: rest := hsql
      rfl
    rw [bind_apply_error hquery] at hrun
    obtain ⟨-, rfl⟩ := Prod.mk.inj hrun
    simp
  · have hquery : Memory.query f c = (.ok (f c.db), { c with sql := rest }) := by
      obtain ⟨db, sql, files, clock⟩ := c
      obtain rfl : sql = true :: rest := hsql
      rfl
    rw [bind_apply_ok hquery] at hrun
    rw [h { c with sql := rest } e c' rfl hrun]
    simp

theorem change {f : Database → α × Database} {g : α → Op β} (P : List MemoryEntry → Prop)
    (hbefore : ¬ P db.memories) (hafter : P (f db).2.memories)
    (hg : Keeps (fun c => P c.db.memories) (g (f db).1)) : FailsClean db 1 (statement f >>= g) := by
  rintro c e c' rfl hrun
  have hchanged : ∀ rest : List Bool, g (f c.db).1 { c with db := (f c.db).2, sql := rest } =
      (.error e, c') → c'.db ≠ c.db := by
    intro rest hrest heq
    have hkept := hg.after (s := { c with db := (f c.db).2, sql := rest }) hafter
    rw [hrest, heq] at hkept
    exact hbefore hkept
  rcases hsql : c.sql with _ | ⟨_ | _, rest⟩
  · have hstatement : statement f c = (.ok (f c.db).1, { c with db := (f c.db).2, sql := [] }) := by
      simp [statement, hsql]
    rw [bind_apply_ok hstatement] at hrun
    simp [hchanged _ hrun]
  · have hstatement : statement f c = (.error .sqlite, { c with sql := rest }) := by
      simp [statement, hsql]
    rw [bind_apply_error hstatement] at hrun
    obtain ⟨-, rfl⟩ := Prod.mk.inj hrun
    simp
  · have hstatement : statement f c =
        (.ok (f c.db).1, { c with db := (f c.db).2, sql := rest }) := by
      simp [statement, hsql]
    rw [bind_apply_ok hstatement] at hrun
    simp [hchanged _ hrun]

end FailsClean

/-! ## Storing -/

theorem deleteById_failsClean {m : MemoryEntry} (hm : m ∈ db.memories) {g : Bool → Op β}
    (hg : ∀ deleted, Keeps (fun c => m ∉ c.db.memories) (g deleted)) :
    FailsClean db 2 (deleteById m.id >>= g) := by
  unfold deleteById
  rw [bind_assoc]
  refine FailsClean.query ?_
  rw [bind_assoc]
  refine FailsClean.change (fun memories => m ∉ memories) (fun h => h hm) ?_ ?_
  · intro hgone
    simpa using (List.mem_filter.mp hgone).2
  · rw [bind_assoc]
    exact Keeps.bind (forgetExisting_memories (P := fun memories => m ∉ memories) _ _ _)
      fun _ => hg _

theorem replaceSlot_failsClean {slot content : String} {entries : List MemoryEntry}
    (hentries : ∀ m ∈ entries, m ∈ db.memories) {g : Nat → Op β}
    (hclean : ∀ replaced, FailsClean db n (g replaced))
    (hg : ∀ m : MemoryEntry, m.content ≠ content → ∀ replaced,
      Keeps (fun c => m ∉ c.db.memories) (g replaced)) :
    FailsClean db (if entries.any (MemoryEntry.superseded tools slot content) then 2 else n)
      (replaceSlot tools slot content entries >>= g) := by
  induction entries generalizing g with
  | nil => exact hclean 0
  | cons existing rest ih =>
    have hrest : ∀ m ∈ rest, m ∈ db.memories := fun m hm =>
      hentries m (mem_cons_of_mem existing hm)
    unfold replaceSlot deleteSuperseded
    rw [bind_assoc]
    by_cases hsuperseded : existing.superseded tools slot content = true
    · rw [if_pos (List.any_eq_true.mpr ⟨existing, mem_cons_self, hsuperseded⟩),
        if_pos hsuperseded]
      refine deleteById_failsClean (hentries existing mem_cons_self) fun deleted => ?_
      have hne : existing.content ≠ content := (of_decide_eq_true hsuperseded).1
      have hhereditary : Hereditary fun memories => existing ∉ memories := fun _ h _ hm =>
        h (mem_of_mem_filter hm)
      exact Keeps.bind (Keeps.bind (replaceSlot_memories hhereditary slot content rest)
        fun _ => Keeps.pure _) fun replaced => hg existing hne replaced
    · rw [any_cons, eq_false_of_ne_true hsuperseded, Bool.false_or,
        if_neg Bool.false_ne_true, pure_bind, bind_assoc]
      exact ih hrest hclean hg

theorem store_failsClean (kind content : String) {g : Nat → Op β}
    (hg : ∀ P : List MemoryEntry → Prop, ∀ id, Keeps (fun c => P c.db.memories) (g id)) :
    FailsClean db 1 (store tools kind content >>= g) := by
  unfold store storeAs storeWithMetadata
  generalize normalizeMemoryContent content = content
  rw [bind_assoc, bind_assoc]
  refine FailsClean.nowMs fun now => ?_
  rw [bind_assoc]
  let longer : List MemoryEntry → Prop := fun memories => memories.length = db.memories.length + 1
  refine FailsClean.change longer (by simp [longer]) (by simp [longer, Database.insertMemory]) ?_
  have hupserts : Keeps (fun c => longer c.db.memories) (DerivedTable.all.forM
      (upsertFromMemory tools db.nextId kind content (inferMetadata kind content) now)) :=
    Keeps.forM fun table _ => upsertFromMemory_memories _ kind content _ now table
  have hfiles : Keeps (fun c => longer c.db.memories) changeFiles :=
    changeFiles_memories (P := longer)
  exact Keeps.bind (Keeps.bind hupserts fun _ => Keeps.pure _) fun id =>
    Keeps.bind (Keeps.bind hfiles fun _ => Keeps.bind hfiles fun _ => Keeps.pure _) fun id =>
      hg longer id

/-! ## Storing with replacement -/

/-- The words that `has_similar` looks for. -/
def similarityWords (tools : TextTools) (content : String) : List String :=
  ((searchTokens tools (stripSourceTag content)).filter fun word => word ∉ commonWords).take 4

/-- The statements up to the first that changes a table, with the content normalised. -/
def statementsToChange (tools : TextTools) (db : Database) (kind content : String) : Nat :=
  match memorySlot tools kind content with
  | none => if similarityWords tools content = [] then 1 else 2
  | some slot =>
    if (db.getByKind kind 100).any (MemoryEntry.superseded tools slot content) then 4 else 3

theorem storeResolved_failsClean (kind content : String) :
    FailsClean db (statementsToChange tools db kind (normalizeMemoryContent content))
      (storeResolved tools kind content) := by
  have hstored : ∀ replaced, FailsClean db 1
      (store tools kind (normalizeMemoryContent content) >>= fun id =>
        (pure ⟨some id, replaced, false⟩ : Op StoreOutcome)) := fun replaced =>
    store_failsClean kind _ fun P id => Keeps.pure _
  unfold storeResolved statementsToChange
  dsimp only
  cases memorySlot tools kind (normalizeMemoryContent content) with
  | none =>
    dsimp only
    have hnew : isDuplicate tools none (normalizeMemoryContent content) =
        if similarityWords tools (normalizeMemoryContent content) = [] then pure false
        else query fun db => db.memories.any fun m =>
          (similarityWords tools (normalizeMemoryContent content)).all fun word =>
            containsText (toAsciiLowercase m.content) (toAsciiLowercase word) := rfl
    rw [hnew]
    split
    · rw [pure_bind, if_neg Bool.false_ne_true]
      exact hstored 0
    · refine FailsClean.query ?_
      split
      · exact FailsClean.pure
      · exact hstored 0
  | some slot =>
    dsimp only
    have hcount : (if (db.getByKind kind 100).any (MemoryEntry.superseded tools slot
        (normalizeMemoryContent content)) then 4 else 3) =
        (if (db.getByKind kind 100).any (MemoryEntry.superseded tools slot
          (normalizeMemoryContent content)) then 2 else 1) + 1 + 1 := by
      split
      · rfl
      · rfl
    have hexact : isDuplicate tools (some slot) (normalizeMemoryContent content) =
        query fun db => db.restates (normalizeMemoryContent content) := rfl
    rw [hcount, hexact]
    refine FailsClean.query ?_
    by_cases hduplicate : db.restates (normalizeMemoryContent content) = true
    · rw [if_pos hduplicate]
      exact FailsClean.pure
    · rw [if_neg hduplicate]
      unfold clearSlot
      rw [bind_assoc]
      refine FailsClean.query (replaceSlot_failsClean (fun m hm => (mem_getByKind hm).1) hstored ?_)
      -- what is stored is not the memory that was deleted: it has another text
      intro m hne replaced
      have hadmits : Admits (fun memories => m ∉ memories) kind
          (normalizeMemoryContent (normalizeMemoryContent content)) false := by
        intro db now hm hmem
        rcases List.mem_append.mp hmem with hold | hnew
        · exact hm hold
        · rw [mem_singleton] at hnew
          rw [hnew, normalizeMemoryContent_idem] at hne
          exact hne rfl
      exact Keeps.bind (storeAs_memories hadmits) fun id => Keeps.pure _

/-! ## Editing -/

/-- The edit does not pass the checks. -/
def Refused (existing : MemoryEntry) (content : String) (kind : Option String) : Prop :=
  normalizeMemoryContent content = "" ∨
    match nextKind existing kind with
    | .error _ => True
    | .ok kind => (assessMemoryWrite kind (normalizeMemoryContent content)).allowed = false

variable {existing : MemoryEntry}

theorem updateExisting_refused {content : String} {kind : Option String}
    (h : Refused existing content kind) (id : Nat) :
    ∃ e, updateExisting tools existing id content kind = fail e := by
  unfold updateExisting
  dsimp only
  by_cases hempty : normalizeMemoryContent content = ""
  · exact ⟨_, if_pos hempty⟩
  · rw [if_neg hempty]
    have hrest := h.resolve_left hempty
    cases hkind : nextKind existing kind with
    | error e => exact ⟨e, rfl⟩
    | ok kind =>
      rw [hkind] at hrest
      exact ⟨_, if_pos hrest⟩

theorem writeManaged_failsClean {id : Nat} {kind content : String}
    (hexisting : db.getById id = some existing)
    (hchanged : ¬ (existing.kind = kind ∧ existing.content = content ∧ existing.metadata =
      inferMetadata kind content)) :
    FailsClean db 1 (writeManaged tools existing id kind content) := by
  generalize hmetadata : inferMetadata kind content = metadata at hchanged
  let edited : List MemoryEntry → Prop := fun memories =>
    memories.find? (fun m => m.id = id) ≠ some existing
  have hafter : edited (db.updateMemory id kind content metadata).memories := by
    intro hfind
    have hsame : ((fun m : MemoryEntry => decide (m.id = id)) ∘ fun m : MemoryEntry =>
        if m.id = id then { m with kind, content, metadata } else m) =
          fun m : MemoryEntry => decide (m.id = id) := by
      funext m
      dsimp only [Function.comp]
      split
      · rfl
      · rfl
    unfold Database.updateMemory at hfind
    unfold Database.getById at hexisting
    rw [find?_map, hsame, hexisting, Option.map_some, if_pos (found_id hexisting).2] at hfind
    have hrow := Option.some.inj hfind
    refine hchanged ⟨?_, ?_, ?_⟩
    · rw [← hrow]
    · rw [← hrow]
    · rw [← hrow]
  unfold writeManaged
  rw [hmetadata]
  refine FailsClean.change edited (fun h => h hexisting) hafter ?_
  refine Keeps.bind (Keeps.ite ?_ (Keeps.pure ())) fun _ => Keeps.pure _
  refine Keeps.bind (Keeps.forM fun table _ => ?_) fun _ =>
    updateCanonicalFiles_memories (P := edited) existing
  exact Keeps.bind (nowMs_ok fun db _ => edited db.memories) fun now =>
    upsertFromMemory_memories (P := edited) id kind content _ now table

theorem updateManaged_failsClean {id : Nat} {content : String} {kind : Option String}
    (hexisting : db.getById id = some existing) (haccepted : ¬ Refused existing content kind) :
    FailsClean db 2 (updateManaged tools id content kind) := by
  obtain ⟨hempty, hrest⟩ := not_or.mp haccepted
  refine FailsClean.query ?_
  rw [hexisting]
  dsimp only
  unfold updateExisting
  dsimp only
  rw [if_neg hempty]
  cases hkind : nextKind existing kind with
  | error e =>
    rw [hkind] at hrest
    exact absurd trivial hrest
  | ok kind =>
    rw [hkind] at hrest
    dsimp only
    rw [if_neg hrest]
    split
    · exact FailsClean.pure
    · rename_i hchanged
      exact writeManaged_failsClean hexisting hchanged

/-! ## Both -/

/-- A call of `store_resolved` that fails leaves the tables as they were exactly if one of the
statements up to its first change failed, a call of `update_managed` if the edit was refused or
one of its first two statements failed. -/
theorem failure_unchanged_iff (tools : TextTools) (c : Connection) :
    (∀ kind content e c', storeResolved tools kind content c = (.error e, c') →
      (c'.db = c.db ↔
        false ∈ c.sql.take (statementsToChange tools c.db kind (normalizeMemoryContent content)))) ∧
    ∀ id content kind e c', updateManaged tools id content kind c = (.error e, c') →
      (c'.db = c.db ↔ (∃ existing, c.db.getById id = some existing ∧
        Refused existing content kind) ∨ false ∈ c.sql.take 2) := by
  refine ⟨fun kind content e c' hrun => storeResolved_failsClean kind content c e c' rfl hrun,
    fun id content kind e c' hrun => ?_⟩
  by_cases hrefused : ∃ existing, c.db.getById id = some existing ∧ Refused existing content kind
  · refine iff_of_true ?_ (.inl hrefused)
    obtain ⟨existing, hexisting, hrefused⟩ := hrefused
    obtain ⟨message, hfail⟩ : ∃ e, updateExisting tools existing id content kind = fail e :=
      updateExisting_refused hrefused id
    have hread := query_spec (fun db => db = c.db) (fun db => db.getById id) c rfl
    unfold updateManaged at hrun
    rcases hquery : query (fun db : Database => db.getById id) c with ⟨a | found, d⟩
    · rw [hquery] at hread
      rw [bind_apply_error hquery] at hrun
      obtain ⟨-, rfl⟩ := Prod.mk.inj hrun
      exact hread
    · rw [hquery] at hread
      rw [bind_apply_ok hquery] at hrun
      obtain ⟨hd, rfl⟩ : d.db = c.db ∧ found = d.db.getById id := hread
      rw [hd, hexisting] at hrun
      dsimp only at hrun
      rw [hfail] at hrun
      obtain ⟨-, rfl⟩ := Prod.mk.inj hrun
      exact hd
  · rw [or_iff_right hrefused]
    cases hexisting : c.db.getById id with
    | none =>
      have hclean : FailsClean c.db 2 (updateManaged tools id content kind) := by
        refine FailsClean.query ?_
        rw [hexisting]
        exact FailsClean.pure
      exact hclean c e c' rfl hrun
    | some existing =>
      have haccepted : ¬ Refused existing content kind := fun h =>
        hrefused ⟨existing, hexisting, h⟩
      exact updateManaged_failsClean hexisting haccepted c e c' rfl hrun

/-- A store that knows a name, and the outcomes of its next statements. -/
def failing (sql : List Bool) : Connection where
  db := { memories := [⟨1, "identity", "User's name is Dan", 1, false, false,
    ⟨.person, .normal, .allow⟩⟩] }
  sql := sql

theorem first_failure_unchanged :
    (storeResolved asciiTools "identity" "User's name is Dana" (failing [false])).2.db =
        (failing [false]).db ∧
      (updateManaged asciiTools 1 "User's name is Dana" none (failing [false])).2.db =
        (failing [false]).db := by
  obtain ⟨hstore, hupdate⟩ := failure_unchanged_iff asciiTools (failing [false])
  have hslot : memorySlot asciiTools "identity" (normalizeMemoryContent "User's name is Dana") =
      some "identity:name" := by decide +kernel
  have hstored : storeResolved asciiTools "identity" "User's name is Dana" (failing [false]) =
      (.error .sqlite, failing []) := by
    unfold storeResolved
    rw [hslot]
    rfl
  have hupdated : updateManaged asciiTools 1 "User's name is Dana" none (failing [false]) =
      (.error .sqlite, failing []) := rfl
  have hfirst : false ∈ (failing [false]).sql.take (statementsToChange asciiTools
      (failing [false]).db "identity" (normalizeMemoryContent "User's name is Dana")) := by
    unfold statementsToChange
    rw [hslot]
    dsimp only
    split
    · exact mem_cons_self
    · exact mem_cons_self
  rw [hstored, hupdated]
  exact ⟨(hstore _ _ _ _ hstored).mpr hfirst,
    (hupdate _ _ _ _ _ hupdated).mpr (.inr mem_cons_self)⟩

/-- After the old name is deleted a statement fails, and neither name is there. -/
theorem correction_loses_name :
    (storeResolved asciiTools "identity" "User's name is Dana"
        (failing [true, true, true, true, false])).1 = .error .sqlite ∧
      (storeResolved asciiTools "identity" "User's name is Dana"
        (failing [true, true, true, true, false])).2.db.memories = [] ∧
      (storeResolved asciiTools "identity" "User's name is Dana"
        (failing [true, true, true, true, false])).2.db ≠
          (failing [true, true, true, true, false]).db := by
  have hgone : (storeResolved asciiTools "identity" "User's name is Dana"
      (failing [true, true, true, true, false])).2.db.memories = [] := by decide +kernel
  refine ⟨by decide +kernel, hgone, fun h => ?_⟩
  rw [h] at hgone
  cases hgone

end GenieClaw.Memory
