import GenieClaw.Library.Leading
import GenieClaw.Memory.Capture
import GenieClaw.Memory.Returned
import GenieClaw.Memory.Rows
import Mathlib.Data.Rat.Defs
import Mathlib.Algebra.Order.Ring.Rat

/-!
# Forgetting by a search

`search` of `genie-core/src/memory/mod.rs` and `exec_memory_forget` of `tools/dispatch/memory.rs`.
The search joins the tokens of the query by OR and keeps its ten best rows, and only then those
rows are dropped that may not be read. The full text index and the arithmetic of the scores are
parameters.

* `forgetsRightly_iff` (ids are unique, the query has tokens): what goes is what is meant exactly
  when the rows that the search takes are right.
-/

namespace GenieClaw.Memory

open Library Library.Program Library.Text Library.Leading List

/-! ## The search -/

/-- `memories_fts`: whether a content matches a phrase, and `bm25` of a row for the phrases of a
query. -/
structure SearchIndex where
  hasPhrase : String → String → Bool
  bm25 : List String → MemoryEntry → ℚ

/-- The arithmetic of the scores: `bm25_rank_to_score`, `exponential_decay` at a time and for the
time of the last access, the product, and the quotient of two counts. -/
structure SearchScores where
  relevance : ℚ → ℚ
  decay : Nat → Nat → ℚ
  times : ℚ → ℚ → ℚ
  ratio : Nat → Nat → ℚ

/-- An `ORDER BY`, and the score by which the rows are sorted again. -/
structure Ranking where
  order : MemoryEntry → MemoryEntry → Bool
  score : MemoryEntry → ℚ
  total : ∀ a b, order a b = true ∨ order b a = true
  trans : ∀ a b c, order a b = true → order b c = true → order a c = true

namespace Ranking

variable (r : Ranking)

abbrev Le (a b : MemoryEntry) : Prop := r.order a b = true

abbrev Better (a b : MemoryEntry) : Prop := r.score b ≤ r.score a

instance : Std.Total r.Le := ⟨r.total⟩

instance : IsTrans MemoryEntry r.Le := ⟨r.trans⟩

instance : Std.Total r.Better := ⟨fun a b => le_total (r.score b) (r.score a)⟩

instance : IsTrans MemoryEntry r.Better := ⟨fun _ _ _ hab hbc => le_trans hbc hab⟩

/-- `ORDER BY` and `LIMIT`. -/
def select (limit : Nat) (rows : List MemoryEntry) : List MemoryEntry :=
  (rows.insertionSort r.Le).take limit

/-- `sort_by` and `truncate`. -/
def best (limit : Nat) (rows : List MemoryEntry) : List MemoryEntry :=
  (rows.insertionSort r.Better).take limit

end Ranking

section

variable (tools : TextTools) (index : SearchIndex) (scores : SearchScores)

def ftsRows (tokens : List String) (memories : List MemoryEntry) : List MemoryEntry :=
  memories.filter fun m => tokens.any (index.hasPhrase m.content)

/-- `bm25` times the decay. -/
def ftsRanking (tokens : List String) (now : Nat) : Ranking where
  order a b := decide (index.bm25 tokens a ≤ index.bm25 tokens b)
  score m := scores.times (scores.relevance (index.bm25 tokens m))
    (if m.evergreen then 1 else scores.decay now m.accessedMs)
  total a b := by
    rw [decide_eq_true_iff, decide_eq_true_iff]
    exact le_total _ _
  trans a b c := by
    rw [decide_eq_true_iff, decide_eq_true_iff, decide_eq_true_iff]
    exact le_trans

/-- `LOWER(content) LIKE '%token%'`, for a token without wildcards. -/
def likeToken (content token : String) : Bool :=
  containsText (toAsciiLowercase content) (toAsciiLowercase token)

def likeRows (tokens : List String) (memories : List MemoryEntry) : List MemoryEntry :=
  memories.filter fun m => tokens.any (likeToken m.content)

/-- The distinct words of a text, lower-cased. -/
def lexicon (text : String) : List String := (splitWhitespace (tools.toLowercase text)).dedup

def wordOverlap (query other : String) : ℚ :=
  let words := lexicon tools query
  let otherWords := lexicon tools other
  if words.isEmpty || otherWords.isEmpty then 0
  else
    let intersection := (otherWords.filter fun word => words.contains word).length
    scores.ratio intersection (words.length + otherWords.length - intersection)

def lexicalOverlapScore (query other : String) : ℚ :=
  max (wordOverlap tools scores query other) (1 / 20)

/-- `ORDER BY accessed_ms DESC, id DESC`. -/
def usedLater (a b : MemoryEntry) : Bool :=
  decide (b.accessedMs < a.accessedMs ∨ (b.accessedMs = a.accessedMs ∧ b.id ≤ a.id))

def likeRanking (query : String) : Ranking where
  order := usedLater
  score m := lexicalOverlapScore tools scores query m.content
  total a b := by
    unfold usedLater
    rw [decide_eq_true_iff, decide_eq_true_iff]
    omega
  trans a b c := by
    unfold usedLater
    rw [decide_eq_true_iff, decide_eq_true_iff, decide_eq_true_iff]
    omega

def updateRecallTracking (now id : Nat) : Op Unit := do
  let _ ← attempt (query fun db => db.getById id)
  execute fun db => { db with memories := db.memories.map fun m =>
    if m.id = id then { m with accessedMs := now } else m }

/-- One transaction, whose failure is logged. -/
def recordRecalls (recalls : List Nat) (now : Nat) : Op Unit := fun c =>
  if recalls.isEmpty then (.ok (), c)
  else
    match (do execute id; recalls.forM (updateRecallTracking now); execute id : Op Unit) c with
    | (.ok _, d) => (.ok (), d)
    | (.error _, d) => (.ok (), { d with db := c.db })

/-- The end of a search, from the rows of its statement. -/
def finishSearch (r : Ranking) (limit now : Nat) (raw : List MemoryEntry) :
    Op (List MemoryEntry) := do
  let scored := r.best limit raw
  recordRecalls (scored.map MemoryEntry.id) now
  pure scored

def searchLikeFallback (query : String) (limit now : Nat) : Op (List MemoryEntry) :=
  let tokens := searchTokens tools query
  let r := likeRanking tools scores query
  if tokens.isEmpty then pure []
  else do
    let raw ← Memory.query fun db => r.select (limit * 3) (likeRows tokens db.memories)
    finishSearch r limit now raw

def search (query : String) (limit : Nat) : Op (List MemoryEntry) := do
  let limit := max limit 1
  let now ← nowMs
  let tokens := searchTokens tools query
  let r := ftsRanking index scores tokens now
  if tokens.isEmpty then searchLikeFallback tools scores query limit now
  else do
    let raw ← Memory.query fun db => r.select (limit * 3) (ftsRows index tokens db.memories)
    if raw.isEmpty then searchLikeFallback tools scores query limit now
    else finishSearch r limit now raw

/-! ## The tool -/

def filterRecallResults (entries : List MemoryEntry) (context : MemoryReadContext) :
    List MemoryEntry :=
  entries.filter fun m => (assessMemoryRead m.metadata context).allowed

/-- The loop over what may be read. -/
def deleteAllowed : List MemoryEntry → Op Nat
  | [] => pure 0
  | m :: rest => do
    let gone ← deleteById m.id
    let deleted ← deleteAllowed rest
    pure (deleted + if gone then 1 else 0)

def noMemoriesFound (query : String) : String := "No memories found matching '" ++ query ++ "'."

def forgotMemories (deleted : Nat) (query : String) : String :=
  "Forgot " ++ countNoun deleted "memory" "memories" ++ " about '" ++ query ++ "'."

def execMemoryForget (query : String) (context : Option MemoryReadContext) : Op String := do
  let readContext := context.getD .sharedRoomVoice
  let candidates ← search tools index scores query 10
  let allowed := filterRecallResults candidates readContext
  let deleted ← deleteAllowed allowed
  if deleted = 0 then pure (noMemoriesFound query) else pure (forgotMemories deleted query)

/-! ## What should be forgotten -/

def contentWords (content : String) : List String :=
  (content.toList.splitOnP fun c => !tools.isAlphanumeric c).map String.ofList

/-- Every token of the query is a word of the content, ASCII case aside. -/
def saysAll (query content : String) : Bool :=
  (searchTokens tools query).all fun token =>
    (contentWords tools content).any fun word => eqIgnoreAsciiCase word token

/-- The memory may be read, and it says all of the query. -/
def Meant (query : String) (context : MemoryReadContext) (m : MemoryEntry) : Prop :=
  (assessMemoryRead m.metadata context).allowed = true ∧ saysAll tools query m.content = true

def ids (db : Database) : List Nat := db.memories.map MemoryEntry.id

/-- Whatever statements fail: only what is meant goes, and nothing was meant where nothing is
said to be found. -/
structure ForgetsRightly (db : Database) (now : Nat) (query : String)
    (context : Option MemoryReadContext) : Prop where
  only : ∀ c : Connection, c.db = db → c.clock.headD 0 = now → ∀ m ∈ db.memories,
    m.id ∉ ids (execMemoryForget tools index scores query context c).2.db →
      Meant tools query (context.getD .sharedRoomVoice) m
  all : ∀ c : Connection, c.db = db → c.clock.headD 0 = now →
    (execMemoryForget tools index scores query context c).1 = .ok (noMemoriesFound query) →
      ∀ m ∈ db.memories, ¬ Meant tools query (context.getD .sharedRoomVoice) m

/-- The rows that a token is found in by the index or, if there are none, as a part of a word. -/
def searchedRows (db : Database) (query : String) : List MemoryEntry :=
  if (ftsRows index (searchTokens tools query) db.memories).isEmpty then
    likeRows (searchTokens tools query) db.memories
  else ftsRows index (searchTokens tools query) db.memories

def searchRanking (db : Database) (now : Nat) (query : String) : Ranking :=
  if (ftsRows index (searchTokens tools query) db.memories).isEmpty then
    likeRanking tools scores query
  else ftsRanking index scores (searchTokens tools query) now

/-- Fewer than thirty of the rows rank before it, and fewer than ten of these have a better
score. -/
def Taken (db : Database) (now : Nat) (query : String) (m : MemoryEntry) : Prop :=
  Shortlisted (searchRanking tools index scores db now query).Le
    (searchRanking tools index scores db now query).Better 30 10
      (searchedRows tools index db query) m

/-- What is taken and may be read says all of the query, and some of it is taken if there is any
in the store. -/
structure TakesRight (db : Database) (now : Nat) (query : String) (context : MemoryReadContext) :
    Prop where
  said : ∀ m, Taken tools index scores db now query m →
    (assessMemoryRead m.metadata context).allowed = true → saysAll tools query m.content = true
  some : (∃ m ∈ db.memories, Meant tools query context m) →
    ∃ m, Taken tools index scores db now query m ∧
      (assessMemoryRead m.metadata context).allowed = true

end

variable {tools : TextTools} {index : SearchIndex} {scores : SearchScores}

/-! ## What a search does -/

variable {m : MemoryEntry}

theorem mem_searchedRows {db : Database} {query : String}
    (h : m ∈ searchedRows tools index db query) : m ∈ db.memories := by
  unfold searchedRows at h
  split at h
  · exact mem_of_mem_filter h
  · exact mem_of_mem_filter h

variable {P : Connection → Prop}

theorem trackRecalls_keeps (recalls : List Nat) (now : Nat)
    (hquery : ∀ f : Database → Option MemoryEntry, Keeps P (query f))
    (hexecute : ∀ f : Database → Database, (∀ db, ids (f db) = ids db) → Keeps P (execute f)) :
    Keeps P (do execute id; recalls.forM (updateRecallTracking now); execute id : Op Unit) := by
  refine Keeps.bind (hexecute _ fun _ => rfl) fun _ => ?_
  refine Keeps.bind (Keeps.forM fun id _ => ?_) fun _ => hexecute _ fun _ => rfl
  refine Keeps.bind (Keeps.attempt (hquery _)) fun _ => hexecute _ fun db => ?_
  unfold ids
  rw [map_map]
  refine map_congr_left fun m _ => ?_
  rw [Function.comp_apply]
  split
  · rfl
  · rfl

theorem recordRecalls_run {recalls : List Nat} {now : Nat}
    (hkeeps : Keeps P (do execute id; recalls.forM (updateRecallTracking now); execute id :
      Op Unit))
    (hback : ∀ c d, P c → P d → P { d with db := c.db }) {c : Connection} (hc : P c) :
    ∃ d, recordRecalls recalls now c = (.ok (), d) ∧ P d := by
  unfold recordRecalls
  split
  · exact ⟨c, rfl, hc⟩
  · have hafter := hkeeps.after hc
    rcases hrun : (do execute id; recalls.forM (updateRecallTracking now); execute id : Op Unit) c
      with ⟨e | a, d⟩
    · rw [hrun] at hafter
      exact ⟨_, rfl, hback c d hc hafter⟩
    · rw [hrun] at hafter
      exact ⟨d, rfl, hafter⟩

theorem recordRecalls_spec {E : MemoryError → Connection → Prop} {recalls : List Nat} {now : Nat}
    (hquery : ∀ f : Database → Option MemoryEntry, Keeps P (query f))
    (hexecute : ∀ f : Database → Database, (∀ db, ids (f db) = ids db) → Keeps P (execute f))
    (hback : ∀ c d, P c → P d → P { d with db := c.db }) :
    Triple P (recordRecalls recalls now) (fun _ => P) E := by
  refine Triple.of_run fun c hc => ?_
  obtain ⟨d, hrun, hd⟩ :=
    recordRecalls_run (trackRecalls_keeps recalls now hquery hexecute) hback hc
  exact Or.inl ⟨(), d, hrun, hd⟩

theorem recordRecalls_ids {E : MemoryError → Connection → Prop} (recalls : List Nat) (now : Nat)
    (l : List Nat) :
    Triple (fun c => ids c.db = l) (recordRecalls recalls now) (fun _ c => ids c.db = l) E :=
  recordRecalls_spec (query_keeps fun db => ids db = l)
    (fun _ hf => execute_keeps (fun db => ids db = l) fun db hdb => (hf db).trans hdb)
    fun _ _ hc _ => hc

theorem finishSearch_spec (r : Ranking) (limit now : Nat) (raw : List MemoryEntry) (l : List Nat) :
    Triple (fun c => ids c.db = l) (finishSearch r limit now raw)
      (fun found c => found = r.best limit raw ∧ ids c.db = l) fun _ c => ids c.db = l := by
  refine Triple.bind (recordRecalls_ids _ now l) fun _ => ?_
  exact Triple.pure fun _ hc => ⟨rfl, hc⟩

theorem select_spec (db : Database) (f : Database → List MemoryEntry) :
    Triple (fun c => c.db = db) (query f) (fun raw c => raw = f db ∧ ids c.db = ids db ∧ c.db = db)
      fun _ c => ids c.db = ids db := by
  refine (query_spec (fun d => d = db) f).weaken (fun _ hc => hc) (fun raw c hc => ?_)
    fun _ c hc => congrArg ids hc
  obtain ⟨hdb, hraw⟩ := hc
  exact ⟨hdb ▸ hraw, congrArg ids hdb, hdb⟩

theorem searchLikeFallback_spec {query : String} (htokens : searchTokens tools query ≠ [])
    (limit now : Nat) (db : Database) :
    Triple (fun c => c.db = db) (searchLikeFallback tools scores query limit now)
      (fun found c => found = shortlist (likeRanking tools scores query).Le
        (likeRanking tools scores query).Better (limit * 3) limit
          (likeRows (searchTokens tools query) db.memories) ∧ ids c.db = ids db)
      fun _ c => ids c.db = ids db := by
  unfold searchLikeFallback
  rw [if_neg (by rwa [List.isEmpty_iff])]
  refine Triple.bind (select_spec db _) fun raw => ?_
  intro c hc
  obtain ⟨rfl, hids, -⟩ := hc
  exact finishSearch_spec _ limit now _ (ids db) c hids

theorem search_spec {query : String} (htokens : searchTokens tools query ≠ []) {limit : Nat}
    (hlimit : 0 < limit) (db : Database) (now : Nat) :
    Triple (fun c => c.db = db ∧ c.clock.headD 0 = now) (search tools index scores query limit)
      (fun found c => found = shortlist (searchRanking tools index scores db now query).Le
        (searchRanking tools index scores db now query).Better (limit * 3) limit
          (searchedRows tools index db query) ∧ ids c.db = ids db)
      fun _ c => ids c.db = ids db := by
  unfold search
  rw [Nat.max_eq_left hlimit]
  refine Triple.bind (nowMs_spec (fun d => d = db) now) fun t => ?_
  dsimp only
  rw [if_neg (by rwa [List.isEmpty_iff])]
  rintro c ⟨hdb, rfl⟩
  refine Triple.bind (select_spec db _) (fun raw => ?_) c hdb
  rintro d ⟨rfl, hids, hd⟩
  -- the statement returns nothing exactly when the index has no row for the tokens
  have hempty : (((ftsRanking index scores (searchTokens tools query) t).select (limit * 3)
      (ftsRows index (searchTokens tools query) db.memories)).isEmpty = true) ↔
        (ftsRows index (searchTokens tools query) db.memories).isEmpty = true := by
    unfold Ranking.select
    rw [isEmpty_iff_length_eq_zero, isEmpty_iff_length_eq_zero, length_take,
      length_insertionSort]
    omega
  unfold searchRanking searchedRows
  by_cases hnone : (ftsRows index (searchTokens tools query) db.memories).isEmpty = true
  · rw [if_pos (hempty.mpr hnone), if_pos hnone, if_pos hnone]
    exact searchLikeFallback_spec htokens limit t db d hd
  · rw [if_neg (fun h => hnone (hempty.mp h)), if_neg hnone, if_neg hnone]
    exact finishSearch_spec _ limit t _ (ids db) d hids

/-! ## What the deletions do -/

theorem deleteById_ids (id : Nat) (l : List Nat) :
    Triple (fun c => ids c.db = l) (deleteById id)
      (fun gone c => (gone = true ↔ id ∈ l) ∧ ids c.db = l.filter fun i => i ≠ id)
      fun _ c => ids c.db = l ∨ ids c.db = l.filter fun i => i ≠ id := by
  refine Triple.bind ((query_keeps (fun db => ids db = l) fun db => db.getById id).weaken
    (fun _ hc => hc) (fun _ _ hc => hc) fun _ _ hc => Or.inl hc) fun existing => ?_
  have hstatement : Triple (fun c => ids c.db = l) (statement fun db =>
      ((db.memories.filter fun m => m.id = id).length, db.deleteMemories fun m => m.id = id))
      (fun deleted c => (0 < deleted ↔ id ∈ l) ∧ ids c.db = l.filter fun i => i ≠ id)
      fun _ c => ids c.db = l := by
    refine statement_spec (fun db => ids db = l)
      (fun deleted db => (0 < deleted ↔ id ∈ l) ∧ ids db = l.filter fun i => i ≠ id)
      (fun db => ids db = l) (fun db hdb => ?_) fun _ hdb => hdb
    subst hdb
    refine ⟨?_, ?_⟩
    · rw [Database.count_pos_iff, ids, mem_map]
    · unfold ids Database.deleteMemories
      rw [filter_map]
      refine congrArg (List.map MemoryEntry.id) (filter_congr fun m _ => ?_)
      simp
  refine Triple.bind (hstatement.weaken (fun _ hc => hc) (fun _ _ hc => hc) fun _ _ hc =>
    Or.inl hc) fun deleted => ?_
  rintro c ⟨hcount, hc⟩
  have hforget := @forgetExisting_memories
    (fun rows => rows.map MemoryEntry.id = l.filter fun i => i ≠ id) existing deleted id
  refine Triple.bind (hforget.weaken (fun _ hd => hd) (fun _ _ hd => hd) fun _ _ hd =>
    Or.inr hd) (fun _ => ?_) c hc
  refine Triple.pure fun d hd => ⟨?_, hd⟩
  rw [decide_eq_true_iff]
  exact hcount

theorem deleteAllowed_ids (allowed : List MemoryEntry) (l : List Nat) :
    Triple (fun c => ids c.db = l) (deleteAllowed allowed)
      (fun deleted c => (deleted = 0 ↔ ∀ m ∈ allowed, m.id ∉ l) ∧
        ids c.db = l.filter fun i => i ∉ allowed.map MemoryEntry.id)
      fun _ c => ∀ i ∈ l, i ∉ allowed.map MemoryEntry.id → i ∈ ids c.db := by
  induction allowed generalizing l with
  | nil =>
    refine Triple.pure fun c hc => ⟨by simp, ?_⟩
    rw [hc]
    exact (List.filter_eq_self.mpr fun i _ => by simp).symm
  | cons m rest ih =>
    refine Triple.bind ((deleteById_ids m.id l).weaken (fun _ hc => hc) (fun _ _ hc => hc)
      fun _ c hc => ?_) fun gone => ?_
    · intro i hi hnot
      rw [map_cons, mem_cons, not_or] at hnot
      rcases hc with hc | hc
      · rw [hc]
        exact hi
      · rw [hc, List.mem_filter, decide_eq_true_iff]
        exact ⟨hi, hnot.1⟩
    · rintro c ⟨hgone, hc⟩
      refine Triple.bind ((ih (l.filter fun i => i ≠ m.id)).weaken (fun _ hd => hd)
        (fun _ _ hd => hd) fun _ d hd => ?_) (fun deleted => ?_) c hc
      · intro i hi hnot
        rw [map_cons, mem_cons, not_or] at hnot
        refine hd i ?_ hnot.2
        rw [List.mem_filter, decide_eq_true_iff]
        exact ⟨hi, hnot.1⟩
      · refine Triple.pure fun d hd => ?_
        obtain ⟨hdeleted, hd⟩ := hd
        refine ⟨?_, ?_⟩
        · have hzero : deleted + (if gone = true then 1 else 0) = 0 ↔
              deleted = 0 ∧ ¬ gone = true := by
            cases gone with
            | false => simp
            | true => simp
          rw [hzero, hdeleted, hgone, forall_mem_cons]
          constructor
          · rintro ⟨hrest, hm⟩
            refine ⟨hm, fun n hn hmem => hrest n hn ?_⟩
            rw [List.mem_filter, decide_eq_true_iff]
            exact ⟨hmem, fun heq => hm (heq ▸ hmem)⟩
          · rintro ⟨hm, hrest⟩
            exact ⟨fun n hn hmem => hrest n hn (mem_of_mem_filter hmem), hm⟩
        · rw [hd, filter_filter]
          refine filter_congr fun i _ => ?_
          rw [map_cons]
          simp only [mem_cons, not_or, Bool.decide_and]
          exact Bool.and_comm _ _

/-! ## What is gone afterwards -/

/-- What the search takes up and the context may read. -/
def allowedRows (tools : TextTools) (index : SearchIndex) (scores : SearchScores) (db : Database)
    (now : Nat) (query : String) (context : MemoryReadContext) : List MemoryEntry :=
  filterRecallResults (shortlist (searchRanking tools index scores db now query).Le
    (searchRanking tools index scores db now query).Better 30 10
      (searchedRows tools index db query)) context

theorem noMemoriesFound_ne (query : String) (deleted : Nat) :
    forgotMemories deleted query ≠ noMemoriesFound query := by
  intro h
  have hforgot : "Forgot ".toList = 'F' :: "orgot ".toList := by decide
  have hno : "No memories found matching '".toList =
      'N' :: "o memories found matching '".toList := by decide
  have htexts := congrArg String.toList h
  unfold forgotMemories noMemoriesFound at htexts
  simp only [String.toList_append, hforgot, hno, cons_append, append_assoc] at htexts
  exact absurd (List.cons.inj htexts).1 (by decide)

theorem execMemoryForget_spec {query : String} (htokens : searchTokens tools query ≠ [])
    (db : Database) (now : Nat) (context : Option MemoryReadContext) :
    Triple (fun c => c.db = db ∧ c.clock.headD 0 = now)
      (execMemoryForget tools index scores query context)
      (fun reply c =>
        (reply = noMemoriesFound query ↔
          ∀ m ∈ allowedRows tools index scores db now query (context.getD .sharedRoomVoice),
            m.id ∉ ids db) ∧
        ids c.db = (ids db).filter fun i => i ∉
          (allowedRows tools index scores db now query (context.getD .sharedRoomVoice)).map
            MemoryEntry.id)
      fun _ c => ∀ i ∈ ids db, i ∉
        (allowedRows tools index scores db now query (context.getD .sharedRoomVoice)).map
          MemoryEntry.id → i ∈ ids c.db := by
  unfold execMemoryForget
  refine Triple.bind ((search_spec htokens (by decide) db now).weaken (fun _ hc => hc)
    (fun _ _ hc => hc) fun _ c hc => ?_) fun candidates => ?_
  · intro i hi _
    rw [hc]
    exact hi
  · rintro c ⟨rfl, hc⟩
    refine Triple.bind (deleteAllowed_ids _ (ids db)) (fun deleted => ?_) c hc
    split
    · next hzero =>
      refine Triple.pure fun d hd => ⟨?_, hd.2⟩
      exact iff_of_true rfl (hd.1.mp hzero)
    · next hsome =>
      refine Triple.pure fun d hd => ⟨?_, hd.2⟩
      exact iff_of_false (noMemoriesFound_ne query deleted) fun h => hsome (hd.1.mpr h)

/-! ## Where nothing fails -/

/-- Nothing is going to fail. -/
def Quiet (c : Connection) : Prop := c.sql = [] ∧ c.files = []

/-- Where nothing is going to fail, the program returns. -/
def Untroubled {α : Type} (x : Op α) : Prop := Triple Quiet x (fun _ => Quiet) fun _ _ => False

namespace Untroubled

variable {α β : Type}

protected theorem pure (a : α) : Untroubled (pure a) := Triple.pure fun _ hc => hc

protected theorem bind {x : Op α} {f : α → Op β} (hx : Untroubled x)
    (hf : ∀ a, Untroubled (f a)) : Untroubled (x >>= f) :=
  Triple.bind hx hf

protected theorem ite {p : Prop} [Decidable p] {x y : Op α} (hx : Untroubled x)
    (hy : Untroubled y) : Untroubled (if p then x else y) := by
  split
  · exact hx
  · exact hy

protected theorem forM {f : β → Op Unit} (xs : List β) (h : ∀ x, Untroubled (f x)) :
    Untroubled (xs.forM f) := by
  induction xs with
  | nil => exact Untroubled.pure ()
  | cons x rest ih => exact Untroubled.bind (h x) fun _ => ih

theorem keeps {x : Op α} (hx : Untroubled x) : Keeps Quiet x :=
  hx.weaken (fun _ hc => hc) (fun _ _ hc => hc) fun _ _ h => h.elim

theorem returns {x : Op α} (hx : Untroubled x) {c : Connection} (hc : Quiet c) :
    ∃ a d, x c = (.ok a, d) := by
  have hafter := hx c hc
  rcases hrun : x c with ⟨e | a, d⟩
  · rw [hrun] at hafter
    exact hafter.elim
  · exact ⟨a, d, rfl⟩

end Untroubled

theorem statement_untroubled {α : Type} (f : Database → α × Database) :
    Untroubled (statement f) := by
  rintro ⟨db, sql, files, clock⟩ ⟨rfl, rfl⟩
  exact ⟨rfl, rfl⟩

theorem changeFiles_untroubled : Untroubled changeFiles := by
  rintro ⟨db, sql, files, clock⟩ ⟨rfl, rfl⟩
  exact ⟨rfl, rfl⟩

theorem updateCanonicalFiles_untroubled (entry : MemoryEntry) :
    Untroubled (updateCanonicalFiles entry) := by
  have hlogs : Untroubled (do recordCanonicalEvent; appendDailyNote) :=
    Untroubled.bind changeFiles_untroubled fun _ => changeFiles_untroubled
  refine Untroubled.ite (Untroubled.bind ?_ fun _ => hlogs) hlogs
  exact Untroubled.bind (statement_untroubled _) fun _ => changeFiles_untroubled

theorem deleteById_untroubled (id : Nat) : Untroubled (deleteById id) := by
  refine Untroubled.bind (statement_untroubled _) fun existing => ?_
  refine Untroubled.bind (statement_untroubled _) fun deleted => ?_
  refine Untroubled.bind ?_ fun _ => Untroubled.pure _
  cases existing with
  | none => exact Untroubled.pure ()
  | some entry =>
    refine Untroubled.ite (Untroubled.bind ?_ fun _ => updateCanonicalFiles_untroubled entry)
      (Untroubled.pure ())
    exact Untroubled.forM _ fun _ => statement_untroubled _

theorem deleteAllowed_untroubled (allowed : List MemoryEntry) :
    Untroubled (deleteAllowed allowed) := by
  induction allowed with
  | nil => exact Untroubled.pure 0
  | cons m rest ih =>
    exact Untroubled.bind (deleteById_untroubled m.id) fun _ =>
      Untroubled.bind ih fun _ => Untroubled.pure _

theorem finishSearch_untroubled (r : Ranking) (limit now : Nat) (raw : List MemoryEntry) :
    Untroubled (finishSearch r limit now raw) := by
  refine Untroubled.bind (recordRecalls_spec (fun _ => (statement_untroubled _).keeps)
    (fun _ _ => (statement_untroubled _).keeps) fun c d _ hd => hd) fun _ => Untroubled.pure _

theorem search_untroubled (query : String) (limit : Nat) :
    Untroubled (search tools index scores query limit) := by
  have hfallback : ∀ now limit, Untroubled (searchLikeFallback tools scores query limit now) := by
    intro now limit
    refine Untroubled.ite (Untroubled.pure []) ?_
    exact Untroubled.bind (statement_untroubled _) fun raw => finishSearch_untroubled _ _ _ raw
  have hnow : Untroubled nowMs := fun _ hc => hc
  refine Untroubled.bind hnow fun now => Untroubled.ite (hfallback now _) ?_
  refine Untroubled.bind (statement_untroubled _) fun raw => ?_
  exact Untroubled.ite (hfallback now _) (finishSearch_untroubled _ _ _ raw)

theorem execMemoryForget_untroubled (query : String) (context : Option MemoryReadContext) :
    Untroubled (execMemoryForget tools index scores query context) := by
  refine Untroubled.bind (search_untroubled query 10) fun candidates => ?_
  refine Untroubled.bind (deleteAllowed_untroubled _) fun deleted => ?_
  exact Untroubled.ite (Untroubled.pure _) (Untroubled.pure _)

/-! ## The ten best rows -/

section

variable {db : Database} {now : Nat} {query : String} {context : MemoryReadContext}

theorem mem_allowedRows (hids : Identified db.memories) :
    m ∈ allowedRows tools index scores db now query context ↔
      Taken tools index scores db now query m ∧
        (assessMemoryRead m.metadata context).allowed = true := by
  have hnodup : (searchedRows tools index db query).Nodup := by
    unfold searchedRows
    split
    · exact (List.Nodup.of_map _ hids).filter _
    · exact (List.Nodup.of_map _ hids).filter _
  unfold allowedRows filterRecallResults Taken
  rw [List.mem_filter, mem_shortlist_iff hnodup]

theorem Taken.mem (h : Taken tools index scores db now query m) : m ∈ db.memories :=
  mem_searchedRows (mem_of_mem_filter h.1)

theorem mem_allowedRows_of_id (hids : Identified db.memories) (hm : m ∈ db.memories)
    (h : m.id ∈ (allowedRows tools index scores db now query context).map MemoryEntry.id) :
    m ∈ allowedRows tools index scores db now query context := by
  obtain ⟨n, hn, hsame⟩ := List.mem_map.mp h
  have hstored := ((mem_allowedRows hids).mp hn).1.mem
  rwa [← inj_on_of_nodup_map hids hstored hm hsame]

end

/-- What goes is what is meant, and nothing was meant where nothing is said to be found, exactly
when the rows that the search takes are right. -/
theorem forgetsRightly_iff {db : Database} (hids : Identified db.memories) {query : String}
    (htokens : searchTokens tools query ≠ []) (now : Nat) (context : Option MemoryReadContext) :
    ForgetsRightly tools index scores db now query context ↔
      TakesRight tools index scores db now query (context.getD .sharedRoomVoice) := by
  have hspec := @execMemoryForget_spec tools index scores query htokens db now context
  constructor
  · rintro ⟨honly, hall⟩
    -- a run in which nothing fails
    let c : Connection := ⟨db, [], [], [now]⟩
    obtain ⟨reply, d, hrun⟩ :=
      (@execMemoryForget_untroubled tools index scores query context).returns
        (show Quiet c from ⟨rfl, rfl⟩)
    have hafter := hspec c ⟨rfl, rfl⟩
    rw [hrun] at hafter
    obtain ⟨hreply, hids'⟩ := hafter
    constructor
    · intro m htaken hread
      have hmem := (mem_allowedRows hids).mpr ⟨htaken, hread⟩
      refine (honly c rfl rfl m htaken.mem ?_).2
      rw [hrun, hids', List.mem_filter, decide_eq_true_iff]
      exact fun h => h.2 (mem_map_of_mem hmem)
    · rintro ⟨m, hm, hmeant⟩
      by_contra hnone
      have hempty : reply = noMemoriesFound query := hreply.mpr fun n hn =>
        absurd ⟨n, (mem_allowedRows hids).mp hn⟩ hnone
      exact hall c rfl rfl (by rw [hrun, hempty]) m hm hmeant
  · rintro ⟨hsaid, hsome⟩
    constructor
    · intro c hdb hnow m hm hgone
      have hafter := hspec c ⟨hdb, hnow⟩
      have hallowed : m ∈ allowedRows tools index scores db now query
          (context.getD .sharedRoomVoice) := by
        refine mem_allowedRows_of_id hids hm ?_
        by_contra hnot
        have hid : m.id ∈ ids db := mem_map_of_mem hm
        rcases hrun : execMemoryForget tools index scores query context c with ⟨e | reply, d⟩
        · rw [hrun] at hafter hgone
          exact hgone (hafter m.id hid hnot)
        · rw [hrun] at hafter hgone
          obtain ⟨-, hids'⟩ := hafter
          refine hgone ?_
          rw [hids', List.mem_filter, decide_eq_true_iff]
          exact ⟨hid, hnot⟩
      obtain ⟨htaken, hread⟩ := (mem_allowedRows hids).mp hallowed
      exact ⟨hread, hsaid m htaken hread⟩
    · intro c hdb hnow hreply m hm hmeant
      have hafter := hspec c ⟨hdb, hnow⟩
      rcases hrun : execMemoryForget tools index scores query context c with ⟨e | reply, d⟩
      · rw [hrun] at hreply
        cases hreply
      · rw [hrun] at hafter hreply
        obtain ⟨n, htaken, hread⟩ := hsome ⟨m, hm, hmeant⟩
        have hnone := hafter.1.mp (Except.ok.inj hreply) n
          ((mem_allowedRows hids).mpr ⟨htaken, hread⟩)
        exact hnone (mem_map_of_mem htaken.mem)

/-! ## A query that shares a word with a memory -/

/-- An index of the words, in which all rows rank alike. -/
def wordIndex : SearchIndex where
  hasPhrase content token := (contentWords asciiTools content).any fun word =>
    eqIgnoreAsciiCase word token
  bm25 _ _ := 0

def plainScores : SearchScores where
  relevance rank := rank
  decay _ _ := 1
  times a b := a * b
  ratio a b := a / b

def wifiName : MemoryEntry :=
  ⟨1, "fact", "The wifi name is Fern", 0, false, false,
    inferMetadata "fact" "The wifi name is Fern"⟩

def wifiStore : Database where
  memories := [wifiName, ⟨2, "fact", "The boiler is old", 0, false, false,
    inferMetadata "fact" "The boiler is old"⟩]

/-- The wifi name goes, and the boiler stays. -/
theorem forgetsRightly_wifi_name :
    ForgetsRightly asciiTools wordIndex plainScores wifiStore 0 "wifi name" none ∧
      ids (execMemoryForget asciiTools wordIndex plainScores "wifi name" none
        ⟨wifiStore, [], [], [0]⟩).2.db = [2] := by
  have hids : Identified wifiStore.memories := by
    unfold Identified
    decide
  have hrows : searchedRows asciiTools wordIndex wifiStore "wifi name" = [wifiName] := by
    decide +kernel
  have htakes : TakesRight asciiTools wordIndex plainScores wifiStore 0 "wifi name"
      .sharedRoomVoice := by
    refine ⟨fun m htaken _ => ?_, fun _ => ⟨wifiName, ?_, by decide +kernel⟩⟩
    · have hm : m ∈ searchedRows asciiTools wordIndex wifiStore "wifi name" :=
        mem_of_mem_filter htaken.1
      rw [hrows, mem_singleton] at hm
      rw [hm]
      decide +kernel
    · unfold Taken
      rw [hrows]
      exact shortlisted_of_few (mem_singleton_self _) (by decide) (by decide)
  exact ⟨(forgetsRightly_iff hids (by decide +kernel) 0 none).mpr htakes, by decide +kernel⟩

/-- To forget the wifi password loses the wifi name. -/
theorem wifi_password_forgets_name :
    ¬ ForgetsRightly asciiTools wordIndex plainScores wifiStore 0 "wifi password" none := by
  rintro ⟨honly, -⟩
  have hgone : 1 ∉ ids (execMemoryForget asciiTools wordIndex plainScores "wifi password" none
      ⟨wifiStore, [], [], [0]⟩).2.db := by decide +kernel
  have hmeant := honly ⟨wifiStore, [], [], [0]⟩ rfl rfl _ mem_cons_self hgone
  exact absurd hmeant.2 (by decide +kernel)

end GenieClaw.Memory
