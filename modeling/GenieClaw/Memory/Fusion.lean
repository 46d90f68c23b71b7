import GenieClaw.Library.HashTable
import GenieClaw.Library.RankFusion
import GenieClaw.Memory.Store

/-!
# The fused recall ranking

`fuse_recall_candidates` of `genie-core/src/memory/recall.rs`, with exact scores: what the
lexical and the semantic search found is ranked by reciprocal rank fusion before the limit is
applied.

* `fuseRecallCandidates_ids`: the fused list is the ranking by the shares, cut to the limit.
* `fused_spec` (distinct ids, at most 61 hits on each side): what the fused list promises.
* `hits_survive_iff` (distinct ids): the first hits survive exactly unless one is displaced.
-/

namespace GenieClaw.Memory

open Library List Option

/-! ## The code -/

structure SemanticMemoryHit where
  entry : MemoryEntry
  score : ℚ
  embeddingModel : String

def rrfK : Nat := 60

/-- What has been seen of the two rankings. -/
structure Fusion where
  scoreById : HashTable Nat ℚ := ∅
  entryById : HashTable Nat MemoryEntry := ∅
  seenOrder : List Nat := []

/-- The rank counts from 0. -/
def Fusion.accumulate (f : Fusion) (id rank : Nat) (entry : MemoryEntry) : Fusion :=
  let contribution := 1 / ((rrfK : ℚ) + rank + 1)
  let scoreById := f.scoreById.insert id ((f.scoreById.lookup id).getD 0 + contribution)
  match f.entryById.lookup id with
  | some _ => { f with scoreById }
  | none => ⟨scoreById, f.entryById.insert id entry, f.seenOrder ++ [id]⟩

def Fusion.accumulateAll (f : Fusion) (entries : List MemoryEntry) : Fusion :=
  entries.zipIdx.foldl (fun f (entry, rank) => f.accumulate entry.id rank entry) f

def Fusion.score (f : Fusion) (id : Nat) : ℚ := (f.scoreById.lookup id).getD 0

/-- Each id takes its entry out of the table. -/
def removeEntries (table : HashTable Nat MemoryEntry) : List Nat → List MemoryEntry
  | [] => []
  | id :: ids =>
    match table.lookup id with
    | some entry => entry :: removeEntries (table.erase id) ids
    | none => removeEntries (table.erase id) ids

def fuseRecallCandidates (lexical : List MemoryEntry) (semantic : List SemanticMemoryHit)
    (limit : Nat) : List MemoryEntry :=
  let f := (({} : Fusion).accumulateAll lexical).accumulateAll
    (semantic.map SemanticMemoryHit.entry)
  let ranked := f.seenOrder.insertionSort fun a b => f.score b ≤ f.score a
  removeEntries f.entryById (ranked.take (max limit 1))

/-! ## What is accumulated -/

def entryIds (entries : List MemoryEntry) : List Nat := entries.map MemoryEntry.id

/-- The first entry with the id. -/
def entryFor (entries : List MemoryEntry) (id : Nat) : Option MemoryEntry :=
  entries.find? fun entry => decide (entry.id = id)

variable {entries : List MemoryEntry} {id : Nat}

theorem entryFor_isSome : (entryFor entries id).isSome = true ↔ id ∈ entryIds entries := by
  unfold entryFor entryIds
  rw [find?_isSome, List.mem_map]
  exact exists_congr fun e => and_congr_right fun _ => decide_eq_true_iff

theorem entryFor_eq_none : entryFor entries id = none ↔ id ∉ entryIds entries := by
  rw [← entryFor_isSome, not_isSome_iff_eq_none]

theorem id_of_entryFor {entry : MemoryEntry} (h : entryFor entries id = some entry) :
    entry.id = id := by
  simpa using find?_some h

/-- The books of the entries seen so far. -/
structure Fusion.Records (f : Fusion) (seen : List MemoryEntry) (score : Nat → ℚ) : Prop where
  scores : ∀ id, f.score id = score id
  entries : ∀ id, f.entryById.lookup id = entryFor seen id

theorem records_empty : ({} : Fusion).Records [] fun _ => 0 where
  scores _ := rfl
  entries _ := rfl

theorem lookup_insert (table : HashTable Nat ℚ) (id other : Nat) (q : ℚ) :
    ((table.insert id q).lookup other).getD 0 =
      if other = id then q else (table.lookup other).getD 0 := by
  by_cases h : other = id
  · rw [if_pos h, h, AList.lookup_insert, getD_some]
  · rw [if_neg h, AList.lookup_insert_ne h]

theorem entryFor_append (seen : List MemoryEntry) (entry : MemoryEntry) (id : Nat) :
    entryFor (seen ++ [entry]) id =
      (entryFor seen id).or (if entry.id = id then some entry else none) := by
  unfold entryFor
  rw [find?_append, find?_cons]
  by_cases h : entry.id = id
  · rw [decide_eq_true h, if_pos h]
  · rw [decide_eq_false h, if_neg h, find?_nil]

theorem Fusion.Records.accumulate {f : Fusion} {seen : List MemoryEntry} {score : Nat → ℚ}
    (h : f.Records seen score) (rank : Nat) (entry : MemoryEntry) :
    (f.accumulate entry.id rank entry).Records (seen ++ [entry])
        (fun id => score id + if id = entry.id then 1 / ((rrfK : ℚ) + rank + 1) else 0) ∧
      (f.accumulate entry.id rank entry).seenOrder =
        f.seenOrder ++ if entry.id ∈ entryIds seen then [] else [entry.id] := by
  have hscore : ∀ id, ((f.scoreById.insert entry.id ((f.scoreById.lookup entry.id).getD 0 +
      1 / ((rrfK : ℚ) + rank + 1))).lookup id).getD 0 =
      score id + if id = entry.id then 1 / ((rrfK : ℚ) + rank + 1) else 0 := by
    intro id
    rw [lookup_insert]
    split
    · rename_i heq
      rw [heq]
      exact congrArg (· + _) (h.scores entry.id)
    · rw [add_zero]
      exact h.scores id
  unfold Fusion.accumulate
  dsimp only
  cases hlookup : f.entryById.lookup entry.id with
  | some old =>
    have hseen : entryFor seen entry.id = some old := (h.entries entry.id).symm.trans hlookup
    have hmem : entry.id ∈ entryIds seen := entryFor_isSome.mp (by rw [hseen]; rfl)
    refine ⟨⟨hscore, fun id => ?_⟩, ?_⟩
    · show f.entryById.lookup id = _
      rw [h.entries, entryFor_append]
      by_cases heq : entry.id = id
      · rw [← heq, hseen, some_or]
      · rw [if_neg heq, or_none]
    · rw [if_pos hmem, append_nil]
  | none =>
    have hseen : entryFor seen entry.id = none := (h.entries entry.id).symm.trans hlookup
    refine ⟨⟨hscore, fun id => ?_⟩, ?_⟩
    · show (f.entryById.insert entry.id entry).lookup id = _
      rw [entryFor_append]
      by_cases heq : entry.id = id
      · rw [← heq, hseen, AList.lookup_insert, if_pos rfl, none_or]
      · rw [AList.lookup_insert_ne (Ne.symm heq), h.entries, if_neg heq, or_none]
    · rw [if_neg (entryFor_eq_none.mp hseen)]

/-- What the entries give an id when the first of them has the rank. -/
def shareFrom (rank : Nat) (ids : List Nat) (id : Nat) : ℚ :=
  if id ∈ ids then 1 / ((rrfK : ℚ) + (rank + ids.idxOf id : ℕ) + 1) else 0

theorem shareFrom_zero (ids : List Nat) : shareFrom 0 ids = share rrfK ids := by
  funext id
  unfold shareFrom share
  rw [Nat.zero_add]

variable {ids : List Nat}

theorem shareFrom_cons {rank first : Nat} (h : first ∉ ids) (id : Nat) :
    (if id = first then 1 / ((rrfK : ℚ) + rank + 1) else 0) + shareFrom (rank + 1) ids id =
      shareFrom rank (first :: ids) id := by
  unfold shareFrom
  by_cases heq : id = first
  · subst heq
    rw [if_pos rfl, if_neg h, if_pos mem_cons_self, idxOf_cons_self, add_zero,
      Nat.add_zero]
  · rw [if_neg heq, zero_add]
    by_cases hmem : id ∈ ids
    · rw [if_pos hmem, if_pos (mem_cons_of_mem _ hmem),
        idxOf_cons_ne _ (Ne.symm heq), Nat.add_right_comm, Nat.add_assoc]
    · rw [if_neg hmem, if_neg (not_mem_cons_of_ne_of_not_mem heq hmem)]

theorem Fusion.Records.accumulateFrom {f : Fusion} {seen : List MemoryEntry} {score : Nat → ℚ}
    (h : f.Records seen score) (hids : (entryIds entries).Nodup) (rank : Nat) :
    let after := (entries.zipIdx rank).foldl
      (fun f (x : MemoryEntry × Nat) => f.accumulate x.1.id x.2 x.1) f
    after.Records (seen ++ entries) (fun id => score id + shareFrom rank (entryIds entries) id) ∧
      after.seenOrder =
        f.seenOrder ++ (entryIds entries).filter fun id => decide (id ∉ entryIds seen) := by
  induction entries generalizing f seen score rank with
  | nil =>
    refine ⟨⟨fun id => ?_, fun id => ?_⟩, (append_nil _).symm⟩
    · have hzero : shareFrom rank (entryIds []) id = 0 := if_neg not_mem_nil
      rw [hzero, add_zero]
      exact h.scores id
    · rw [append_nil]
      exact h.entries id
  | cons entry rest ih =>
    have ⟨hfirst, hrest⟩ : entry.id ∉ entryIds rest ∧ (entryIds rest).Nodup :=
      List.nodup_cons.mp hids
    obtain ⟨hrecords, horder⟩ := h.accumulate rank entry
    obtain ⟨hafter, hseen⟩ := ih hrecords hrest (rank + 1)
    rw [zipIdx_cons, foldl_cons]
    refine ⟨⟨fun id => ?_, fun id => ?_⟩, ?_⟩
    · rw [hafter.scores, add_assoc, shareFrom_cons hfirst]
      rfl
    · rw [hafter.entries, append_assoc, singleton_append]
    · have hfilter : ((entryIds rest).filter fun id => decide (id ∉ entryIds (seen ++ [entry]))) =
          (entryIds rest).filter fun id => decide (id ∉ entryIds seen) := by
        refine filter_congr fun id hid => ?_
        have hne : id ≠ entry.id := fun heq => hfirst (heq ▸ hid)
        refine decide_eq_decide.mpr (not_congr ?_)
        rw [entryIds, map_append, mem_append, map_singleton, mem_singleton,
          or_iff_left hne, entryIds]
      rw [hseen, horder, hfilter, append_assoc]
      congr 1
      show _ = (entry.id :: entryIds rest).filter _
      rw [filter_cons]
      by_cases hmem : entry.id ∈ entryIds seen
      · rw [if_pos hmem, if_neg (by rw [decide_eq_true_iff]; exact not_not_intro hmem)]
        rfl
      · rw [if_neg hmem, if_pos (decide_eq_true hmem)]
        rfl

/-! ## The result -/

variable {lexical : List MemoryEntry} {semantic : List SemanticMemoryHit}

def hitEntries (semantic : List SemanticMemoryHit) : List MemoryEntry :=
  semantic.map SemanticMemoryHit.entry

/-- Neither of the rankings has an id twice. -/
structure DistinctIds (lexical : List MemoryEntry) (semantic : List SemanticMemoryHit) : Prop where
  lexical : (entryIds lexical).Nodup
  semantic : (entryIds (hitEntries semantic)).Nodup

/-- The fused ranking of the two. -/
def rankedIds (lexical : List MemoryEntry) (semantic : List SemanticMemoryHit) : List Nat :=
  fusedRanking rrfK (entryIds lexical) (entryIds (hitEntries semantic))

theorem accumulated_records (h : DistinctIds lexical semantic) :
    let f := (({} : Fusion).accumulateAll lexical).accumulateAll (hitEntries semantic)
    f.Records (lexical ++ hitEntries semantic)
        (fusedScore rrfK (entryIds lexical) (entryIds (hitEntries semantic))) ∧
      f.seenOrder = firstSeen (entryIds lexical) (entryIds (hitEntries semantic)) := by
  obtain ⟨hfirst, horder⟩ := records_empty.accumulateFrom h.lexical 0
  obtain ⟨hsecond, horder'⟩ := hfirst.accumulateFrom h.semantic 0
  refine ⟨⟨fun id => ?_, fun id => ?_⟩, ?_⟩
  · refine (hsecond.scores id).trans ?_
    rw [shareFrom_zero, shareFrom_zero, zero_add]
    rfl
  · exact hsecond.entries id
  · refine horder'.trans ?_
    rw [horder]
    show [] ++ (entryIds lexical).filter _ ++ _ = _
    have hall : ((entryIds lexical).filter fun id => decide (id ∉ entryIds [])) =
        entryIds lexical := List.filter_eq_self.mpr fun id _ => decide_eq_true not_mem_nil
    rw [nil_append, hall]
    rfl

theorem removeEntries_eq {table : HashTable Nat MemoryEntry} (h : ids.Nodup) :
    removeEntries table ids = ids.filterMap table.lookup := by
  induction ids generalizing table with
  | nil => rfl
  | cons id ids ih =>
    obtain ⟨hid, hids⟩ := List.nodup_cons.mp h
    have herase : ids.filterMap (table.erase id).lookup = ids.filterMap table.lookup :=
      filterMap_congr fun other hother =>
        AList.lookup_erase_ne fun heq => hid (heq ▸ hother)
    rw [removeEntries, filterMap_cons, ih hids, herase]
    cases table.lookup id <;> rfl

theorem fuseRecallCandidates_eq (h : DistinctIds lexical semantic) (limit : Nat) :
    fuseRecallCandidates lexical semantic limit =
      ((rankedIds lexical semantic).take (max limit 1)).filterMap
        (entryFor (lexical ++ hitEntries semantic)) := by
  obtain ⟨hrecords, horder⟩ := accumulated_records h
  unfold fuseRecallCandidates
  dsimp only
  rw [show semantic.map SemanticMemoryHit.entry = hitEntries semantic from rfl, horder]
  have hsort : ((firstSeen (entryIds lexical) (entryIds (hitEntries semantic))).insertionSort
      fun a b =>
        ((({} : Fusion).accumulateAll lexical).accumulateAll (hitEntries semantic)).score b ≤
        ((({} : Fusion).accumulateAll lexical).accumulateAll (hitEntries semantic)).score a) =
      rankedIds lexical semantic := by
    unfold rankedIds fusedRanking
    simp only [hrecords.scores]
  rw [hsort, removeEntries_eq]
  · exact filterMap_congr fun id _ => hrecords.entries id
  · exact (nodup_fusedRanking h.lexical h.semantic).sublist (take_sublist _ _)

theorem entryFor_of_ranked (hid : id ∈ rankedIds lexical semantic) :
    ∃ entry, entryFor (lexical ++ hitEntries semantic) id = some entry ∧ entry.id = id := by
  have hmem : id ∈ entryIds (lexical ++ hitEntries semantic) := by
    unfold entryIds
    rw [map_append, mem_append]
    exact mem_fusedRanking.mp hid
  obtain ⟨entry, hentry⟩ := Option.isSome_iff_exists.mp (entryFor_isSome.mpr hmem)
  exact ⟨entry, hentry, id_of_entryFor hentry⟩

theorem entryIds_filterMap {f : Nat → Option MemoryEntry}
    (h : ∀ id ∈ ids, ∃ entry, f id = some entry ∧ entry.id = id) :
    entryIds (ids.filterMap f) = ids := by
  induction ids with
  | nil => rfl
  | cons id ids ih =>
    obtain ⟨⟨entry, hentry, hid⟩, hrest⟩ := List.forall_mem_cons.mp h
    rw [filterMap_cons, hentry]
    show entry.id :: entryIds (ids.filterMap f) = _
    rw [hid, ih hrest]

theorem fuseRecallCandidates_ids (h : DistinctIds lexical semantic) (limit : Nat) :
    entryIds (fuseRecallCandidates lexical semantic limit) =
      (rankedIds lexical semantic).take (max limit 1) := by
  rw [fuseRecallCandidates_eq h]
  exact entryIds_filterMap fun id hid => entryFor_of_ranked (mem_of_mem_take hid)

/-- The reciprocal rank score. -/
def rrfScore (lexical : List MemoryEntry) (semantic : List SemanticMemoryHit) (id : Nat) : ℚ :=
  share rrfK (entryIds lexical) id + share rrfK (entryIds (hitEntries semantic)) id

/-- A higher score, or the same and first seen earlier. -/
def Outranks (lexical : List MemoryEntry) (semantic : List SemanticMemoryHit) (i j : Nat) : Prop :=
  rrfScore lexical semantic j < rrfScore lexical semantic i ∨
  rrfScore lexical semantic j = rrfScore lexical semantic i ∧
    (entryIds lexical ++ entryIds (hitEntries semantic)).idxOf i <
      (entryIds lexical ++ entryIds (hitEntries semantic)).idxOf j

def InBoth (lexical : List MemoryEntry) (semantic : List SemanticMemoryHit) (id : Nat) : Prop :=
  id ∈ entryIds lexical ∧ id ∈ entryIds (hitEntries semantic)

/-- The result holds the best of the union in order, as many as the limit allows, each with the
entry it was first seen with, and an id of both rankings comes before an id of one. -/
structure FusedWell (lexical : List MemoryEntry) (semantic : List SemanticMemoryHit) (limit : Nat)
    (fused : List MemoryEntry) : Prop where
  count : fused.length = min (max limit 1)
    ((entryIds lexical).toFinset ∪ (entryIds (hitEntries semantic)).toFinset).card
  distinct : (entryIds fused).Nodup
  entries : ∀ entry ∈ fused, entryFor (lexical ++ hitEntries semantic) entry.id = some entry
  ordered : (entryIds fused).Pairwise (Outranks lexical semantic)
  highest : ∀ i ∈ entryIds fused, ∀ j,
    j ∈ entryIds lexical ∨ j ∈ entryIds (hitEntries semantic) → j ∉ entryIds fused →
    Outranks lexical semantic i j
  shared : ∀ i j, InBoth lexical semantic i → ¬ InBoth lexical semantic j → j ∈ entryIds fused →
    i ∈ entryIds fused ∧ (entryIds fused).idxOf i < (entryIds fused).idxOf j

theorem pairwise_rankedIds (h : DistinctIds lexical semantic) :
    (rankedIds lexical semantic).Pairwise (Outranks lexical semantic) :=
  (pairwise_fusedRanking h.lexical h.semantic).imp fun hkey => fusedKey_lt.mp hkey

theorem highest_of_take (h : DistinctIds lexical semantic) {n i j : Nat}
    (hi : i ∈ (rankedIds lexical semantic).take n) (hj : j ∈ rankedIds lexical semantic)
    (hnot : j ∉ (rankedIds lexical semantic).take n) : Outranks lexical semantic i j := by
  have hpair := pairwise_rankedIds h
  rw [← take_append_drop n (rankedIds lexical semantic), pairwise_append] at hpair
  rw [← take_append_drop n (rankedIds lexical semantic), mem_append] at hj
  exact hpair.2.2 i hi j (hj.resolve_left hnot)

theorem fused_spec (lexical : List MemoryEntry) (semantic : List SemanticMemoryHit) (limit : Nat)
    (h : DistinctIds lexical semantic) (hlexical : lexical.length ≤ 61)
    (hsemantic : semantic.length ≤ 61) :
    FusedWell lexical semantic limit (fuseRecallCandidates lexical semantic limit) := by
  have hids := fuseRecallCandidates_ids h limit
  have hpair : (entryIds (fuseRecallCandidates lexical semantic limit)).Pairwise
      (Outranks lexical semantic) := by
    rw [hids]
    exact (pairwise_rankedIds h).sublist (take_sublist _ _)
  have hhighest : ∀ i ∈ entryIds (fuseRecallCandidates lexical semantic limit), ∀ j,
      j ∈ entryIds lexical ∨ j ∈ entryIds (hitEntries semantic) →
      j ∉ entryIds (fuseRecallCandidates lexical semantic limit) →
      Outranks lexical semantic i j := by
    rw [hids]
    exact fun i hi j hj hnot => highest_of_take h hi (mem_fusedRanking.mpr hj) hnot
  have hdominates : ∀ i j, InBoth lexical semantic i → ¬ InBoth lexical semantic j →
      ¬ Outranks lexical semantic j i := by
    intro i j hi hj houtranks
    have hlength : ∀ entries : List MemoryEntry, (entryIds entries).length = entries.length :=
      fun entries => length_map _
    have hlt : rrfScore lexical semantic j < rrfScore lexical semantic i :=
      fusedScore_lt_of_shared ((hlength lexical).trans_le hlexical)
        ((hlength _).trans_le ((length_map _).trans_le hsemantic)) hi hj
    rcases houtranks with hgt | ⟨heq, -⟩
    · exact lt_asymm hlt hgt
    · exact ne_of_lt hlt heq.symm
  refine ⟨?_, ?_, ?_, hpair, hhighest, ?_⟩
  · calc (fuseRecallCandidates lexical semantic limit).length =
        (entryIds (fuseRecallCandidates lexical semantic limit)).length := (length_map _).symm
      _ = min (max limit 1) (rankedIds lexical semantic).length := by
          rw [hids, length_take]
      _ = _ := by rw [rankedIds, length_fusedRanking h.lexical h.semantic]
  · rw [hids]
    exact (nodup_fusedRanking h.lexical h.semantic).sublist (take_sublist _ _)
  · intro entry hentry
    rw [fuseRecallCandidates_eq h] at hentry
    obtain ⟨id, -, hfound⟩ := List.mem_filterMap.mp hentry
    rw [id_of_entryFor hfound, hfound]
  · intro i j hi hj hmem
    have hin : i ∈ entryIds (fuseRecallCandidates lexical semantic limit) := by
      by_contra hnot
      exact hdominates i j hi hj (hhighest j hmem i (.inl hi.1) hnot)
    refine ⟨hin, Nat.lt_of_not_le fun hle => ?_⟩
    rcases Nat.lt_or_eq_of_le hle with hlt | heq
    · exact hdominates i j hi hj (rel_of_idxOf_lt hpair hin hlt)
    · have hsame : j = i := (idxOf_inj hmem).mp heq
      exact hj (hsame ▸ hi)

/-- A memory with the id. -/
def memoryWithId (id : Nat) : MemoryEntry where
  id := id
  kind := "fact"
  content := "Household member name is Jared"
  accessedMs := 0
  metadata := ⟨.household, .normal, .allow⟩

def hitWithId (id : Nat) : SemanticMemoryHit := ⟨memoryWithId id, 1, "local-hash"⟩

theorem fused_spec_three :
    FusedWell [memoryWithId 1, memoryWithId 2, memoryWithId 3] [hitWithId 3] 10
      (fuseRecallCandidates [memoryWithId 1, memoryWithId 2, memoryWithId 3] [hitWithId 3] 10) :=
  fused_spec _ _ 10 ⟨by decide, by decide⟩ (by decide) (by decide)

/-! ## The first entries -/

/-- The first entries of both rankings are in the result. -/
def FirstHitsSurvive (limit : Nat) (lexical : List MemoryEntry)
    (semantic : List SemanticMemoryHit) : Prop :=
  (∀ first ∈ lexical.head?, first.id ∈ entryIds (fuseRecallCandidates lexical semantic limit)) ∧
  ∀ hit ∈ semantic.head?, hit.entry.id ∈ entryIds (fuseRecallCandidates lexical semantic limit)

/-- Both rankings fill the limit, their first entries are in one of them only, the others are the
same in both, and of each of these the product of the positions, from 0, is at most 61². -/
def FirstHitDisplaced (limit : Nat) (lexical : List MemoryEntry)
    (semantic : List SemanticMemoryHit) : Prop :=
  ∃ x xs y ys, entryIds lexical = x :: xs ∧ entryIds (hitEntries semantic) = y :: ys ∧
    Displaced rrfK limit x xs y ys

theorem hits_survive_iff (limit : Nat) (lexical : List MemoryEntry)
    (semantic : List SemanticMemoryHit) (h : DistinctIds lexical semantic) (hlimit : 2 ≤ limit)
    (hlexical : lexical.length ≤ limit) (hsemantic : semantic.length ≤ limit) :
    (∀ first ∈ lexical.head?, first.id ∈ entryIds (fuseRecallCandidates lexical semantic limit)) ∧
    (FirstHitsSurvive limit lexical semantic ↔ ¬ FirstHitDisplaced limit lexical semantic) := by
  obtain ⟨hxs, hys⟩ := h
  have hids := fuseRecallCandidates_ids ⟨hxs, hys⟩ limit
  rw [max_eq_left (Nat.le_of_succ_le hlimit), rankedIds] at hids
  have hleft : ∀ first ∈ lexical.head?,
      first.id ∈ entryIds (fuseRecallCandidates lexical semantic limit) := by
    intro first hfirst
    cases lexical with
    | nil => exact absurd hfirst.symm (some_ne_none first)
    | cons entry rest =>
      cases hfirst
      rw [hids]
      exact left_mem_take hxs hys ((length_map _).trans_lt hlexical)
  refine ⟨hleft, ?_⟩
  unfold FirstHitsSurvive
  rw [and_iff_right hleft, hids]
  cases semantic with
  | nil =>
    refine iff_of_true (fun hit hhit => absurd hhit.symm (some_ne_none hit)) ?_
    rintro ⟨x, xs, y, ys, -, hnil, -⟩
    exact absurd hnil.symm (cons_ne_nil y ys)
  | cons hit hits =>
    have hhits : (entryIds (hitEntries hits)).length < limit :=
      ((length_map _).trans (length_map _)).trans_lt hsemantic
    have hhead : ∀ P : SemanticMemoryHit → Prop, (∀ other ∈ (hit :: hits).head?, P other) ↔ P hit :=
      fun P => ⟨fun hall => hall hit rfl, fun hP other hother => by cases hother; exact hP⟩
    rw [hhead]
    cases lexical with
    | nil =>
      refine iff_of_true (right_mem_take_nil hys hhits) ?_
      rintro ⟨x, xs, y, ys, hnil, -⟩
      exact absurd hnil.symm (cons_ne_nil x xs)
    | cons entry rest =>
      have hrest : (entryIds rest).length < limit := (length_map _).trans_lt hlexical
      refine (right_mem_take_iff hxs hys hrest hhits).trans (not_congr ?_)
      constructor
      · exact fun hdisplaced => ⟨_, _, _, _, rfl, rfl, hdisplaced⟩
      · rintro ⟨x, xs, y, ys, hx, hy, hdisplaced⟩
        cases hx
        cases hy
        exact hdisplaced

theorem hits_survive_two :
    FirstHitsSurvive 2 [memoryWithId 1, memoryWithId 2] [hitWithId 3, hitWithId 4] := by
  obtain ⟨-, hiff⟩ := hits_survive_iff 2 [memoryWithId 1, memoryWithId 2]
    [hitWithId 3, hitWithId 4] ⟨by decide, by decide⟩ (by decide) (by decide) (by decide)
  refine hiff.mpr ?_
  rintro ⟨x, xs, y, ys, hx, hy, hdisplaced⟩
  cases hx
  cases hy
  exact absurd (hdisplaced.same 2) (by decide)

/-- The second entries of two rankings of two are the same memory, which displaces the first of the
semantic one. -/
theorem first_hit_displaced :
    ¬ FirstHitsSurvive 2 [memoryWithId 1, memoryWithId 2] [hitWithId 3, hitWithId 2] := by
  intro h
  exact absurd (h.2 (hitWithId 3) rfl) (by decide +kernel)

end GenieClaw.Memory
