import GenieClaw.Memory.Rows
import Mathlib.Algebra.Order.Ring.Nat

/-!
# What a prune removes

`prune_decayed`, `prune_stale` and `prune_and_checkpoint` of `genie-core/src/memory/mod.rs`.

* `prune_exact_iff` (ids are unique, no statement fails): a prune removes what it should exactly if
  its cutoff fits (`CutoffFits`).
-/

namespace GenieClaw.Memory

open Library Library.Program List

variable {α : Type}

/-- The freed pages go back to the operating system. -/
def walCheckpoint : Op Unit := query fun _ => ()

/-- The counts of the decayed and of the stale memories. -/
def pruneAndCheckpoint (decayed : Nat → Nat → Bool) (staleDays : UInt32) : Op (Nat × Nat) := do
  let decayedCount ← pruneDecayed decayed
  let stale ← pruneStale staleDays
  walCheckpoint
  pure (decayedCount, stale)

/-! ## The chunks of a deletion -/

theorem chunks_flatten {size fuel : Nat} (hsize : 0 < size) (xs : List α)
    (hfuel : xs.length ≤ fuel) : (chunks size fuel xs).flatten = xs := by
  induction fuel generalizing xs with
  | zero =>
    rw [List.length_eq_zero_iff.mp (Nat.le_zero.mp hfuel)]
    rfl
  | succ fuel ih =>
    cases xs with
    | nil => rfl
    | cons x rest =>
      have hrest : ((x :: rest).drop size).length ≤ fuel := by
        simp only [length_drop, length_cons] at hfuel ⊢
        omega
      show (x :: rest).take size ++ (chunks size fuel ((x :: rest).drop size)).flatten = x :: rest
      rw [ih _ hrest, take_append_drop]

/-- The memories that stay when those with the ids are gone. -/
def without (ids : List Nat) (memories : List MemoryEntry) : List MemoryEntry :=
  memories.filter fun m => !ids.contains m.id

theorem without_nil (memories : List MemoryEntry) : without [] memories = memories :=
  List.filter_eq_self.mpr fun _ _ => rfl

theorem without_append (ids rest : List Nat) (memories : List MemoryEntry) :
    without rest (without ids memories) = without (ids ++ rest) memories := by
  unfold without
  rw [filter_filter]
  refine filter_congr fun m _ => ?_
  rw [contains_eq_mem, contains_eq_mem, contains_eq_mem]
  simp only [mem_append, Bool.decide_or, Bool.not_or]
  exact Bool.and_comm _ _

variable {memories : List MemoryEntry}

theorem without_selected (hids : Identified memories) (p : MemoryEntry → Bool) :
    without ((memories.filter p).map MemoryEntry.id) memories = memories.filter fun m => !p m := by
  refine filter_congr fun m hm => congrArg not ?_
  rw [Bool.eq_iff_iff, contains_iff_mem, mem_map]
  constructor
  · rintro ⟨n, hn, hsame⟩
    obtain ⟨hn, hp⟩ := List.mem_filter.mp hn
    rw [← inj_on_of_nodup_map hids hn hm hsame]
    exact hp
  · exact fun hp => ⟨m, List.mem_filter.mpr ⟨hm, hp⟩, rfl⟩

variable {E : MemoryError → Connection → Prop}

theorem deleteChunks_removes (hE : ∀ e c, E e c) (memories : List MemoryEntry)
    (parts : List (List Nat)) :
    Triple (fun c => without parts.flatten c.db.memories = memories)
      (parts.forM fun chunk => execute fun db => db.deleteMemories fun m => chunk.contains m.id)
      (fun _ c => c.db.memories = memories) E := by
  refine (Triple.forM (fun parts c => without parts.flatten c.db.memories = memories)
    fun chunk _ rest => ?_).weaken (fun _ hc => hc) (fun _ c hc => ?_) fun _ _ hc => hc
  · refine (statement_spec (fun db => without (chunk :: rest).flatten db.memories = memories)
      (fun _ db => without rest.flatten db.memories = memories) (fun _ => True) (fun db hdb => ?_)
      fun _ _ => trivial).weaken (fun _ hc => hc) (fun _ _ hc => hc) fun e c _ => hE e c
    rw [flatten_cons, ← without_append] at hdb
    exact hdb
  · rwa [flatten_nil, without_nil] at hc

/-! ## A prune by decay -/

/-- What a prune did: the memories that `gone` selects are removed, and they are counted. -/
def Removed (gone : MemoryEntry → Bool) (memories : List MemoryEntry) (count : Nat)
    (c : Connection) : Prop :=
  c.db.memories = memories.filter (fun m => !gone m) ∧ count = (memories.filter gone).length

theorem pruneDecayed_removes (hE : ∀ e c, E e c) (hids : Identified memories)
    (decayed : Nat → Nat → Bool) (now : Nat) :
    Triple (fun c => c.db.memories = memories ∧ c.clock.headD 0 = now) (pruneDecayed decayed)
      (fun count c => Removed (MemoryEntry.decayedAt decayed now) memories count c) E := by
  refine Triple.bind (nowMs_spec (fun db => db.memories = memories) now) fun t => ?_
  refine Triple.bind ((query_spec (fun db => db.memories = memories ∧ t = now) _).weaken
    (fun _ hc => hc) (fun _ _ hc => hc) fun e c _ => hE e c) fun candidates => ?_
  -- the ids are those of the selected memories, so the chunks remove these
  intro c hc
  obtain ⟨⟨hmemories, rfl⟩, rfl⟩ := hc
  have hselected : (memories.filter MemoryEntry.prunable).filter
      (fun m => decayed t m.accessedMs) = memories.filter (MemoryEntry.decayedAt decayed t) := by
    rw [filter_filter]
    exact filter_congr fun m _ => Bool.and_comm _ _
  refine Triple.bind (deleteChunks_removes hE _ _) (fun _ => Triple.pure fun d hd => ?_) c rfl
  refine ⟨hd.trans ?_, ?_⟩
  · rw [chunks_flatten (by decide) _ (Nat.le_refl _), hmemories, hselected]
    exact without_selected hids _
  · rw [length_map, hmemories, hselected]

/-! ## A prune by age -/

/-- `max_age_days` in milliseconds. -/
def ageLimit (maxAgeDays : UInt32) : Nat := maxAgeDays.toNat * 86400000

/-- Last accessed more than `max_age_days` before `now`, and not kept for good. -/
def MemoryEntry.outlived (maxAgeDays : UInt32) (now : Nat) (memory : MemoryEntry) : Bool :=
  memory.accessedMs + ageLimit maxAgeDays < now && memory.prunable

/-- The cutoff is an instant from the epoch on that an integer of SQLite holds. -/
def CutoffFits (maxAgeDays : UInt32) (now : Nat) : Prop :=
  ageLimit maxAgeDays ≤ now ∧ now - ageLimit maxAgeDays < 2 ^ 63

theorem ageLimit_lt (maxAgeDays : UInt32) : ageLimit maxAgeDays < 2 ^ 63 := by
  have := maxAgeDays.toNat_lt
  unfold ageLimit
  omega

variable {maxAgeDays : UInt32}

theorem staleCutoff_of_fits {now : Nat} (h : CutoffFits maxAgeDays now) :
    staleCutoff now maxAgeDays = some (now - ageLimit maxAgeDays) := by
  have hcutoff : (now + 2 ^ 64 - ageLimit maxAgeDays) % 2 ^ 64 = now - ageLimit maxAgeDays := by
    have := h.1
    have := h.2
    omega
  have hbound : (now + 2 ^ 64 - ageLimit maxAgeDays) % 2 ^ 64 < 2 ^ 63 := hcutoff ▸ h.2
  exact (if_pos hbound).trans (congrArg some hcutoff)

theorem staleCutoff_of_not_fits {now : Nat} (hnow : now < 2 ^ 64)
    (h : ¬ CutoffFits maxAgeDays now) : staleCutoff now maxAgeDays = none := by
  have hlimit := ageLimit_lt maxAgeDays
  have hcutoff : ¬ (now + 2 ^ 64 - ageLimit maxAgeDays) % 2 ^ 64 < 2 ^ 63 := by
    unfold CutoffFits at h
    omega
  exact if_neg hcutoff

theorem staleAt_of_fits {now : Nat} (h : CutoffFits maxAgeDays now) (memory : MemoryEntry) :
    memory.staleAt maxAgeDays now = memory.outlived maxAgeDays now := by
  have hbefore : memory.accessedMs < now - ageLimit maxAgeDays ↔
      memory.accessedMs + ageLimit maxAgeDays < now := by
    have := h.1
    omega
  unfold MemoryEntry.staleAt MemoryEntry.outlived
  rw [staleCutoff_of_fits h, Option.any_some, decide_eq_decide.mpr hbefore]

variable {c : Connection}

theorem AllOk.statement {f : Database → α × Database} (h : AllOk c.sql) :
    statement f c = (.ok (f c.db).1, { c with db := (f c.db).2, sql := c.sql.tail }) := by
  rcases statement_cases f c with ⟨hfalse, -⟩ | hrun
  · exact absurd (h _ hfalse) Bool.false_ne_true
  · exact hrun

theorem pruneStale_eq (maxAgeDays : UInt32) (c : Connection) :
    pruneStale maxAgeDays c =
      pruneBefore (staleCutoff (c.clock.headD 0) maxAgeDays) { c with clock := c.clock.tail } :=
  bind_apply_ok (f := fun now => pruneBefore (staleCutoff now maxAgeDays)) rfl

theorem pruneBefore_removes (hsql : AllOk c.sql) (cutoff : Nat) :
    ∃ count d, pruneBefore (some cutoff) c = (.ok count, d) ∧
      Removed (fun m => m.accessedMs < cutoff && m.prunable) c.db.memories count d := by
  let stale : MemoryEntry → Bool := fun m => m.accessedMs < cutoff && m.prunable
  have hrun := @AllOk.statement _ c (fun db : Database =>
    ((db.memories.filter stale).length, db.deleteMemories stale)) hsql
  exact ⟨_, _, hrun, rfl, rfl⟩

theorem pruneStale_outlived (hsql : AllOk c.sql) (hfits : CutoffFits maxAgeDays (c.clock.headD 0)) :
    ∃ count d, pruneStale maxAgeDays c = (.ok count, d) ∧
      Removed (MemoryEntry.outlived maxAgeDays (c.clock.headD 0)) c.db.memories count d := by
  have hgone : (fun m : MemoryEntry =>
      decide (m.accessedMs < c.clock.headD 0 - ageLimit maxAgeDays) && m.prunable) =
        MemoryEntry.outlived maxAgeDays (c.clock.headD 0) := by
    funext m
    rw [← staleAt_of_fits hfits, MemoryEntry.staleAt, staleCutoff_of_fits hfits, Option.any_some]
  rw [pruneStale_eq, staleCutoff_of_fits hfits, ← hgone]
  exact @pruneBefore_removes { c with clock := c.clock.tail } hsql _

theorem pruneStale_fails (hnow : c.clock.headD 0 < 2 ^ 64)
    (h : ¬ CutoffFits maxAgeDays (c.clock.headD 0)) :
    pruneStale maxAgeDays c = (.error .sqlite, { c with clock := c.clock.tail }) := by
  rw [pruneStale_eq, staleCutoff_of_not_fits hnow h]
  rfl

theorem pruneStale_removes (hE : ∀ e c, E e c) (memories : List MemoryEntry) (maxAgeDays : UInt32) :
    Triple (fun c => c.db.memories = memories) (pruneStale maxAgeDays)
      (fun count c => ∃ now, Removed (MemoryEntry.staleAt maxAgeDays now) memories count c) E := by
  refine Triple.bind (nowMs_ok fun db _ => db.memories = memories) fun now => ?_
  cases hcutoff : staleCutoff now maxAgeDays with
  | none => exact Triple.fail fun c _ => hE _ c
  | some cutoff =>
    let stale : MemoryEntry → Bool := fun m => m.accessedMs < cutoff && m.prunable
    have hstale : MemoryEntry.staleAt maxAgeDays now = stale := by
      funext m
      rw [MemoryEntry.staleAt, hcutoff, Option.any_some]
    have hdelete : Triple (fun c => c.db.memories = memories)
        (statement fun db => ((db.memories.filter stale).length, db.deleteMemories stale))
        (fun count c => Removed stale memories count c) E := by
      refine (statement_spec (fun db => db.memories = memories) (fun count db =>
        db.memories = memories.filter (fun m => !stale m) ∧
          count = (memories.filter stale).length) (fun _ => True) (fun db hdb => ?_)
        fun _ _ => trivial).weaken (fun _ hc => hc) (fun _ _ hc => hc) fun e c _ => hE e c
      subst hdb
      exact ⟨rfl, rfl⟩
    exact hdelete.weaken (fun _ hc => hc) (fun _ _ hc => ⟨now, hstale ▸ hc⟩) fun _ _ hc => hc

/-! ## The two prunes after one another -/

/-- The memories that are kept for good or in the notes are all there, as they were. -/
def Retains (memories : List MemoryEntry) (after : List MemoryEntry) : Prop :=
  Identified after ∧ ∀ m ∈ memories, m.evergreen ∨ m.promoted → m ∈ after

theorem MemoryEntry.prunable_eq_false {m : MemoryEntry} (h : m.evergreen ∨ m.promoted) :
    m.prunable = false := by
  rcases h with h | h
  · rw [MemoryEntry.prunable, h, Bool.not_true, Bool.false_and]
  · rw [MemoryEntry.prunable, h, Bool.not_true, Bool.and_false]

theorem Retains.prunes (memories : List MemoryEntry) : Prunes (Retains memories) := by
  rintro after ⟨hids, hkept⟩ p hp
  refine ⟨Identified.hereditary after hids p, fun m hm hgood => ?_⟩
  have hmem := hkept m hm hgood
  refine List.mem_filter.mpr ⟨hmem, ?_⟩
  cases hpm : p m with
  | false => rfl
  | true =>
    have hprunable := hp m hmem hpm
    rw [MemoryEntry.prunable_eq_false hgood] at hprunable
    exact absurd hprunable Bool.false_ne_true

theorem pruneAndCheckpoint_keeps (memories : List MemoryEntry) (decayed : Nat → Nat → Bool)
    (staleDays : UInt32) :
    Keeps (fun c => Retains memories c.db.memories) (pruneAndCheckpoint decayed staleDays) := by
  have hprunes := Retains.prunes memories
  refine Keeps.bind (pruneDecayed_memories hprunes (fun _ h => h.1) decayed) fun decayedCount => ?_
  refine Keeps.bind (pruneStale_memories hprunes staleDays) fun stale => ?_
  exact Keeps.bind (query_memories _) fun _ => Keeps.pure (decayedCount, stale)

theorem Removed.length {gone : MemoryEntry → Bool} {count : Nat}
    (h : Removed gone memories count c) : count + c.db.memories.length = memories.length := by
  rw [h.1, h.2]
  exact (length_eq_length_filter_add gone).symm

theorem pruneDecayed_counts (hE : ∀ e c, E e c) (decayed : Nat → Nat → Bool) (total : Nat) :
    Triple (fun c => Identified c.db.memories ∧ c.db.memories.length = total)
      (pruneDecayed decayed) (fun count c => count + c.db.memories.length = total) E := by
  rintro c ⟨hids, htotal⟩
  have hremoved := pruneDecayed_removes hE hids decayed (c.clock.headD 0)
  exact hremoved.weaken (fun _ hd => hd) (fun _ _ hd => hd.length.trans htotal)
    (fun _ _ hd => hd) c ⟨rfl, rfl⟩

theorem pruneStale_counts (hE : ∀ e c, E e c) (maxAgeDays : UInt32) (total : Nat) :
    Triple (fun c => c.db.memories.length = total) (pruneStale maxAgeDays)
      (fun count c => count + c.db.memories.length = total) E := by
  rintro c htotal
  have hremoved := pruneStale_removes hE c.db.memories maxAgeDays
  refine hremoved.weaken (fun _ hd => hd) (fun _ _ hd => ?_) (fun _ _ hd => hd) c rfl
  obtain ⟨now, hd⟩ := hd
  exact hd.length.trans htotal

theorem pruneAndCheckpoint_counts (hE : ∀ e c, E e c) (decayed : Nat → Nat → Bool)
    (staleDays : UInt32) (total : Nat) :
    Triple (fun c => Identified c.db.memories ∧ c.db.memories.length = total)
      (pruneAndCheckpoint decayed staleDays)
      (fun counts c => counts.1 + counts.2 + c.db.memories.length = total) E := by
  refine Triple.bind (pruneDecayed_counts hE decayed total) fun decayedCount => ?_
  -- the second prune counts from what the first one has left
  have hstale : Triple (fun c => decayedCount + c.db.memories.length = total)
      (pruneStale staleDays)
      (fun stale c => decayedCount + stale + c.db.memories.length = total) E := by
    rintro c hc
    refine (pruneStale_counts hE staleDays c.db.memories.length).weaken (fun _ hd => hd)
      (fun stale d hd => ?_) (fun _ _ hd => hd) c rfl
    omega
  refine Triple.bind hstale fun stale => ?_
  refine Triple.bind ((query_keeps (fun db => decayedCount + stale + db.memories.length = total)
    fun _ => ()).weaken (fun _ hc => hc) (fun _ _ hc => hc) fun e c _ => hE e c) fun _ => ?_
  exact Triple.pure fun _ hc => hc

/-! ## The age limit -/

/-- A prune by age removes exactly what is older than the limit. The two prunes, with any
thresholds, leave what is kept for good or in the notes, and count what they remove. -/
structure ExactPrune (c : Connection) (maxAgeDays : UInt32) : Prop where
  stale : ∃ count d, pruneStale maxAgeDays c = (.ok count, d) ∧
    Removed (MemoryEntry.outlived maxAgeDays (c.clock.headD 0)) c.db.memories count d
  kept : ∀ decayed staleDays, ∀ m ∈ c.db.memories, m.evergreen ∨ m.promoted →
    m ∈ (pruneAndCheckpoint decayed staleDays c).2.db.memories
  counted : ∀ decayed staleDays counts d,
    pruneAndCheckpoint decayed staleDays c = (.ok counts, d) →
      counts.1 + counts.2 + d.db.memories.length = c.db.memories.length

theorem pruneAndCheckpoint_kept (hids : Identified c.db.memories) (decayed : Nat → Nat → Bool)
    (staleDays : UInt32) {m : MemoryEntry} (hm : m ∈ c.db.memories)
    (hgood : m.evergreen ∨ m.promoted) :
    m ∈ (pruneAndCheckpoint decayed staleDays c).2.db.memories :=
  ((pruneAndCheckpoint_keeps c.db.memories decayed staleDays).after
    ⟨hids, fun _ hn _ => hn⟩).2 m hm hgood

theorem pruneAndCheckpoint_counted {c d : Connection} (hids : Identified c.db.memories)
    {decayed : Nat → Nat → Bool} {staleDays : UInt32} {counts : Nat × Nat}
    (hrun : pruneAndCheckpoint decayed staleDays c = (.ok counts, d)) :
    counts.1 + counts.2 + d.db.memories.length = c.db.memories.length := by
  have h := pruneAndCheckpoint_counts (E := fun _ _ => True) (fun _ _ => trivial) decayed staleDays
    c.db.memories.length c ⟨hids, rfl⟩
  rwa [hrun] at h

/-- The clock is an unsigned integer of 64 bits. -/
theorem prune_exact_iff {c : Connection} (hids : Identified c.db.memories) (hsql : AllOk c.sql)
    (hnow : c.clock.headD 0 < 2 ^ 64) (maxAgeDays : UInt32) :
    ExactPrune c maxAgeDays ↔ CutoffFits maxAgeDays (c.clock.headD 0) := by
  constructor
  · rintro ⟨⟨count, d, hrun, -⟩, -, -⟩
    by_contra hfits
    rw [pruneStale_fails hnow hfits] at hrun
    cases hrun
  · intro hfits
    exact ⟨pruneStale_outlived hsql hfits,
      fun decayed staleDays _ hm hgood => pruneAndCheckpoint_kept hids decayed staleDays hm hgood,
      fun _ _ _ _ hrun => pruneAndCheckpoint_counted hids hrun⟩

/-- A memory of the second day, pruned on the hundredth. -/
theorem prune_exact_hundredth_day :
    ExactPrune ⟨{ memories := [⟨1, "fact", "the bins go out on Monday", 100000000, false, false,
      inferMetadata "fact" "the bins go out on Monday"⟩] }, [], [], [8640000000]⟩ 30 ↔
      CutoffFits 30 8640000000 :=
  prune_exact_iff (show Identified [_] from nodup_singleton _)
    (fun _ h => absurd h not_mem_nil) (by decide) 30

/-- On the tenth day after the epoch a limit of thirty days is an error. -/
theorem prune_tenth_day : ¬ ExactPrune ⟨{}, [], [], [864000000]⟩ 30 := by
  rintro ⟨⟨count, d, hrun, -⟩, -, -⟩
  rw [pruneStale_fails (by decide) fun hfits => absurd hfits.1 (by decide)] at hrun
  cases hrun

end GenieClaw.Memory
