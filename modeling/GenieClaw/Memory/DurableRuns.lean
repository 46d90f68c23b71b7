import GenieClaw.Memory.DurableStore
import GenieClaw.Memory.Runs

/-!
# Runs of the store with its canonical files

The files are made anew from the promoted memories whenever one of these changes, so after every
call they say what the memories say. Two things get in the way. A kind is written as it is, so
a line break in it ends the entry and can start another; and a reopened store may change the
policies of promoted memories without making the files anew.

* `files_agree` (the calls succeed and are `Plain`): after every call the files say what the
  memories say.
-/

namespace GenieClaw.Memory

open Library Library.Program Library.Text List Bool

/-! ## What is kept -/

/-- The ids are distinct, the contents fit on a line, and these are the promoted memories. -/
def Rowed (promoted memories : List MemoryEntry) : Prop :=
  (memories.map MemoryEntry.id).Nodup ∧ (∀ m ∈ memories, OneLine m.content) ∧
    memories.filter MemoryEntry.promoted = promoted

/-- A law of the memories and the files. -/
abbrev Law := List MemoryEntry → CanonicalDir → Prop

/-- The memories are such that a rebuild can write them. -/
def Ready : Law := fun memories _ => ∃ promoted, Rowed promoted memories ∧ Lined promoted

/-- The files are those of a rebuild. -/
def Kept : Law := fun memories dir =>
  ∃ promoted, Rowed promoted memories ∧ Lined promoted ∧
    ∃ records : List MemoryEntry, records.Perm promoted ∧ dir = exportDir records

/-- The files are made anew next, or they are as they should be. -/
def Pending (stale : Bool) : Law := if stale then Ready else Kept

variable {memories : List MemoryEntry} {dir : CanonicalDir}

theorem Kept.ready (h : Kept memories dir) : Ready memories dir := by
  obtain ⟨promoted, hrowed, hlined, -⟩ := h
  exact ⟨promoted, hrowed, hlined⟩

theorem Kept.agrees (h : Kept memories dir) : FilesAgree dir memories := by
  obtain ⟨promoted, ⟨-, -, rfl⟩, hlined, records, hperm, hdir⟩ := h
  rw [hdir]
  exact exportDir_agrees hperm hlined

section

variable {α β : Type} {A A' B : Law} {Q : α → Law}

/-- The operation leads from `A` to `Q`, unless it fails. -/
def Succeeds (A : Law) (x : DurableOp α) (Q : α → Law) : Prop :=
  Triple (fun s => A s.memories s.dir) x (fun a s => Q a s.memories s.dir) fun _ _ => True

namespace Succeeds

variable {x : DurableOp α}

protected theorem bind {f : α → DurableOp β} {R : β → Law} (hx : Succeeds A x Q)
    (hf : ∀ a, Succeeds (Q a) (f a) R) : Succeeds A (x >>= f) R :=
  Triple.bind hx hf

protected theorem pure {a : α} (h : ∀ memories dir, A memories dir → Q a memories dir) :
    Succeeds A (pure a) Q :=
  Triple.pure fun s hs => h s.memories s.dir hs

protected theorem fail {e : MemoryError} : Succeeds A (fail e) Q := Triple.fail fun _ _ => trivial

theorem strengthen (hx : Succeeds A x Q) (hA : ∀ memories dir, A' memories dir → A memories dir) :
    Succeeds A' x Q :=
  Triple.strengthen hx fun s hs => hA s.memories s.dir hs

protected theorem forM {f : β → DurableOp Unit} {xs : List β}
    (h : ∀ x ∈ xs, Succeeds A (f x) fun _ => A) : Succeeds A (xs.forM f) fun _ => A :=
  Triple.forM (fun _ (s : DurableStore) => A s.memories s.dir) fun x hx _ => h x hx

protected theorem map (hx : Succeeds A x fun _ => B) (f : α → β) :
    Succeeds A (f <$> x) fun _ => B :=
  Triple.bind hx fun _ => Triple.pure fun _ hs => hs

end Succeeds

theorem onConn_spec {x : Op α} (hx : ∀ dir, Triple (fun c => A c.db.memories dir) x
    (fun a c => Q a c.db.memories dir) fun _ _ => True) : Succeeds A (onConn x) Q := by
  refine Triple.of_run fun s hs => ?_
  have hafter := hx s.dir s.conn hs
  rcases hrun : x s.conn with ⟨a | a, c⟩
  · exact .inr ⟨a, { s with conn := c }, by rw [onConn, hrun], trivial⟩
  · rw [hrun] at hafter
    exact .inl ⟨a, { s with conn := c }, by rw [onConn, hrun], hafter⟩

theorem onConn_keeps {x : Op α} (hx : ∀ dir, Keeps (fun c => A c.db.memories dir) x) :
    Succeeds A (onConn x) fun _ => A :=
  onConn_spec fun dir => (hx dir).weaken (fun _ h => h) (fun _ _ h => h) fun _ _ _ => trivial

theorem onConn_query (f : Database → α) :
    Succeeds A (onConn (query f)) fun a memories dir =>
      A memories dir ∧ ∃ db : Database, db.memories = memories ∧ a = f db :=
  onConn_spec fun dir => (query_spec (fun db => A db.memories dir) f).weaken (fun _ h => h)
    (fun _ c h => ⟨h.1, c.db, rfl, h.2⟩) fun _ _ _ => trivial

theorem onConn_rowed {F : List MemoryEntry → CanonicalDir → Prop} {x : Op α}
    (hx : ∀ promoted, Keeps (fun c => Rowed promoted c.db.memories) x) :
    Succeeds (fun memories dir => ∃ promoted, Rowed promoted memories ∧ F promoted dir) (onConn x)
      fun _ memories dir => ∃ promoted, Rowed promoted memories ∧ F promoted dir := by
  refine onConn_keeps fun dir c hc => ?_
  obtain ⟨promoted, hrowed, hF⟩ := hc
  exact (hx promoted).weaken (fun _ h => h) (fun _ _ h => ⟨promoted, h, hF⟩)
    (fun _ _ h => ⟨promoted, h, hF⟩) c hrowed

theorem onConn_pending {x : Op α} (stale : Bool)
    (hx : ∀ promoted, Keeps (fun c => Rowed promoted c.db.memories) x) :
    Succeeds (Pending stale) (onConn x) fun _ => Pending stale := by
  cases stale with
  | false => exact onConn_rowed hx
  | true => exact onConn_rowed hx

end

/-! ## Laws of the memories -/

variable {kind content : String}

section

variable {promoted : List MemoryEntry}

theorem oneLine_normalizeMemoryContent (content : String) :
    OneLine (normalizeMemoryContent content) := by
  intro hmem
  have hspace : " ".toList = [' '] := rfl
  have hid : String.toList ∘ String.ofList = id := funext fun _ => String.toList_ofList
  rw [normalizeMemoryContent, joinWith, splitWhitespace, String.toList_ofList, map_map, hspace,
    hid, map_id] at hmem
  exact absurd (eq_space_of_mem_intercalate (words_of_splitOnP content.toList) hmem (by decide))
    (by decide)

theorem Rowed.filter (h : Rowed promoted memories) {p : MemoryEntry → Bool}
    (hp : ∀ m ∈ promoted, p m = false) : Rowed promoted (memories.filter fun m => !p m) := by
  obtain ⟨hids, hcontents, rfl⟩ := h
  refine ⟨hids.sublist (List.filter_sublist.map MemoryEntry.id),
    fun m hm => hcontents m (mem_of_mem_filter hm), ?_⟩
  rw [filter_filter]
  refine filter_congr fun m hm => ?_
  cases hpromoted : m.promoted with
  | false => rfl
  | true => simp [hp m (List.mem_filter.mpr ⟨hm, hpromoted⟩)]

theorem Rowed.prunes : Prunes (Rowed promoted) := by
  intro memories h p hprunable
  refine h.filter fun m hm => ?_
  obtain ⟨hids, hcontents, rfl⟩ := h
  obtain ⟨hmem, hpromoted⟩ := List.mem_filter.mp hm
  by_contra hp
  rw [not_eq_false] at hp
  have := hprunable m hmem hp
  simp [MemoryEntry.prunable, hpromoted] at this

theorem Rowed.admits {evergreen : Bool} :
    Admits (Rowed promoted) kind (normalizeMemoryContent content) evergreen := by
  intro db now h
  obtain ⟨hids, hcontents, rfl⟩ := h
  refine ⟨Identified.admits db now hids, fun m hm => ?_, ?_⟩
  · rcases List.mem_append.mp hm with hm | hm
    · exact hcontents m hm
    · rw [List.mem_singleton.mp hm]
      exact oneLine_normalizeMemoryContent content
  · rw [filter_append]
    exact append_nil _

theorem Rowed.map (h : Rowed promoted memories) {f : MemoryEntry → MemoryEntry}
    (hid : ∀ m, (f m).id = m.id) (hcontent : ∀ m ∈ memories, OneLine (f m).content) :
    Rowed ((memories.map f).filter MemoryEntry.promoted) (memories.map f) := by
  refine ⟨?_, fun m hm => ?_, rfl⟩
  · have hids : (memories.map f).map MemoryEntry.id = memories.map MemoryEntry.id := by
      rw [map_map]
      exact map_congr_left fun m _ => hid m
    rw [hids]
    exact h.1
  · obtain ⟨n, hn, rfl⟩ := List.mem_map.mp hm
    exact hcontent n hn

theorem filter_promoted_map {f : MemoryEntry → MemoryEntry}
    (hflag : ∀ m ∈ memories, (f m).promoted = m.promoted)
    (hfixed : ∀ m ∈ memories, m.promoted = true → f m = m) :
    (memories.map f).filter MemoryEntry.promoted = memories.filter MemoryEntry.promoted := by
  have hkept : memories.filter (MemoryEntry.promoted ∘ f) =
      memories.filter MemoryEntry.promoted := filter_congr hflag
  rw [filter_map, hkept]
  have hself : (memories.filter MemoryEntry.promoted).map f =
      (memories.filter MemoryEntry.promoted).map id := by
    refine map_congr_left fun m hm => ?_
    obtain ⟨hmem, hpromoted⟩ := List.mem_filter.mp hm
    exact hfixed m hmem hpromoted
  rw [hself, map_id]

theorem backfillRow_rowed (hrowed : Rowed promoted memories) {m : MemoryEntry} (hm : m ∈ memories)
    (hsettled : m.promoted = true → m.Settled) :
    Keeps (fun c => Rowed promoted c.db.memories) (backfillRow m) := by
  unfold backfillRow
  split
  · rename_i hdefault
    refine execute_keeps (fun db => Rowed promoted db.memories) fun db hdb => ?_
    have hmapped : Rowed
        ((db.setMetadata m.id (inferMetadata m.kind m.content)).memories.filter
          MemoryEntry.promoted)
        (db.setMetadata m.id (inferMetadata m.kind m.content)).memories := by
      refine hdb.map (fun n => ?_) fun n hn => ?_
      · split <;> rfl
      · have hsame := hdb.2.1 n hn
        split
        · exact hsame
        · exact hsame
    have hsame : (db.setMetadata m.id (inferMetadata m.kind m.content)).memories.filter
        MemoryEntry.promoted = promoted := by
      refine Eq.trans (filter_promoted_map (fun n _ => ?_) fun n hn hpromoted => ?_) hdb.2.2
      · split <;> rfl
      · -- a promoted memory is one of those that were there, so it is `m` itself
        split
        · rename_i hid
          have hn' : n ∈ memories := by
            have hmem : n ∈ promoted := hdb.2.2 ▸ List.mem_filter.mpr ⟨hn, hpromoted⟩
            rw [← hrowed.2.2] at hmem
            exact mem_of_mem_filter hmem
          have heq := inj_on_of_nodup_map hrowed.1 hn' hm hid
          rw [← hsettled (heq ▸ hpromoted) hdefault, heq]
        · rfl
    rw [← hsame]
    exact hmapped
  · exact Keeps.pure ()

theorem backfill_rowed {P : List MemoryEntry → Prop}
    (hP : ∀ memories, P memories → Rowed promoted memories ∧
      ∀ m ∈ memories, m.promoted = true → m.Settled) :
    Triple (fun c => P c.db.memories) backfillPolicyColumns
      (fun _ c => Rowed promoted c.db.memories) fun _ _ => True := by
  refine Triple.bind ((query_spec (fun db => P db.memories) _).weaken (fun _ hc => hc)
    (fun _ _ hc => hc) fun _ _ _ => trivial) fun rows => ?_
  rintro c ⟨hc, rfl⟩
  obtain ⟨hrowed, hsettled⟩ := hP _ hc
  have hloop : Keeps (fun c => Rowed promoted c.db.memories)
      ((Database.memories c.db).forM backfillRow) :=
    Keeps.forM fun m hm => backfillRow_rowed hrowed hm (hsettled m hm)
  exact hloop.weaken (fun _ h => h) (fun _ _ h => h) (fun _ _ _ => trivial) c hrowed

end

/-! ## Rebuilding -/

namespace Durable

theorem rebuildRootMemoryFile_kept : Succeeds Ready rebuildRootMemoryFile fun _ => Kept := by
  have hrecords : Succeeds Ready promotedRecords fun records memories dir =>
      Ready memories dir ∧ records.Perm (memories.filter MemoryEntry.promoted) := by
    intro s hs
    refine (onConn_query _).weaken (fun _ h => h) (fun records t h => ?_) (fun _ _ h => h) s hs
    obtain ⟨hready, db, hdb, rfl⟩ := h
    refine ⟨hready, ?_⟩
    rw [← hdb]
    exact perm_insertionSort _ _
  refine Succeeds.bind hrecords fun records => ?_
  have hfiles : Succeeds (fun memories dir =>
      Ready memories dir ∧ records.Perm (memories.filter MemoryEntry.promoted))
      (onConn changeFiles) fun _ memories dir =>
      Ready memories dir ∧ records.Perm (memories.filter MemoryEntry.promoted) :=
    onConn_keeps fun dir => changeFiles_memories (P := fun memories =>
      Ready memories dir ∧ records.Perm (memories.filter MemoryEntry.promoted))
  refine Succeeds.bind hfiles fun _ => ?_
  rintro s ⟨⟨promoted, hrowed, hlined⟩, hperm⟩
  rw [hrowed.2.2] at hperm
  exact ⟨promoted, hrowed, hlined, records, hperm, rfl⟩

theorem recordChange_pending (stale : Bool) :
    Succeeds (Pending stale) recordChange fun _ => Pending stale :=
  Succeeds.bind (onConn_pending stale fun _ => changeFiles_memories) fun _ =>
    onConn_pending stale fun _ => changeFiles_memories

theorem updateCanonicalFiles_kept (entry : MemoryEntry) :
    Succeeds (Pending entry.promoted) (updateCanonicalFiles entry) fun _ => Kept := by
  unfold updateCanonicalFiles
  cases entry.promoted with
  | false => exact recordChange_pending false
  | true => exact Succeeds.bind rebuildRootMemoryFile_kept fun _ => recordChange_pending false

/-! ## Deleting -/

theorem forgetDerived_kept (entry : MemoryEntry) (id : Nat) :
    Succeeds (Pending entry.promoted) (forgetDerived entry id) fun _ => Kept := by
  have htables : ∀ promoted, Keeps (fun c => Rowed promoted c.db.memories)
      (DerivedTable.all.forM fun table => execute fun db => db.deleteDerived table id) :=
    fun promoted => Keeps.forM fun table _ =>
      execute_keeps (fun db => Rowed promoted db.memories) fun _ hdb => hdb
  exact Succeeds.bind (onConn_pending entry.promoted htables) fun _ =>
    updateCanonicalFiles_kept entry

theorem delete_pending (h : Kept memories dir) (id : Nat) :
    Pending ((memories.find? fun m => m.id = id).any MemoryEntry.promoted)
      (memories.filter fun m => !decide (m.id = id)) dir := by
  obtain ⟨promoted, hrowed, hlined, hfiles⟩ := h
  cases hstale : (memories.find? fun m => m.id = id).any MemoryEntry.promoted with
  | true =>
    obtain ⟨hids, hcontents, rfl⟩ := hrowed
    refine ⟨_, ⟨hids.sublist (List.filter_sublist.map MemoryEntry.id),
      fun m hm => hcontents m (mem_of_mem_filter hm), rfl⟩, fun m hm => ?_⟩
    obtain ⟨hm, hpromoted⟩ := List.mem_filter.mp hm
    exact hlined m (List.mem_filter.mpr ⟨mem_of_mem_filter hm, hpromoted⟩)
  | false =>
    refine ⟨promoted, hrowed.filter fun m hm => ?_, hlined, hfiles⟩
    obtain ⟨hids, hcontents, rfl⟩ := hrowed
    obtain ⟨hmem, hpromoted⟩ := List.mem_filter.mp hm
    by_contra hid
    -- the memory that is found is this one
    rw [not_eq_false, decide_eq_true_eq] at hid
    have hfound : (memories.find? fun m => m.id = id).isSome = true :=
      List.find?_isSome.mpr ⟨m, hmem, decide_eq_true hid⟩
    obtain ⟨n, hn⟩ := Option.isSome_iff_exists.mp hfound
    have hsame := inj_on_of_nodup_map hids (found_id hn).1 hmem
      ((found_id hn).2.trans hid.symm)
    rw [hn, Option.any_some, hsame, hpromoted] at hstale
    cases hstale

theorem forgetExisting_kept (existing : Option MemoryEntry) (deleted id : Nat) :
    Succeeds (fun memories dir => Pending (existing.any MemoryEntry.promoted) memories dir ∧
      (existing.isSome = true → 0 < deleted)) (forgetExisting existing deleted id)
      fun _ => Kept := by
  cases existing with
  | none => exact Succeeds.pure fun _ _ h => h.1
  | some entry =>
    unfold forgetExisting
    dsimp only
    split
    · exact (forgetDerived_kept entry id).strengthen fun _ _ h => h.1
    · rename_i hdeleted
      exact Succeeds.pure fun _ _ h => absurd (h.2 rfl) hdeleted

theorem deleteById_kept (id : Nat) : Succeeds Kept (deleteById id) fun _ => Kept := by
  refine Succeeds.bind (onConn_query fun db => db.getById id) fun existing => ?_
  have hdelete : Succeeds
      (fun memories dir => Kept memories dir ∧
        ∃ db : Database, db.memories = memories ∧ existing = db.getById id)
      (onConn (statement fun db =>
        ((db.memories.filter fun m => m.id = id).length, db.deleteMemories fun m => m.id = id)))
      (fun deleted memories dir => Pending (existing.any MemoryEntry.promoted) memories dir ∧
        (existing.isSome = true → 0 < deleted)) := by
    refine onConn_spec fun dir => (statement_spec (fun db => Kept db.memories dir ∧
      existing = db.getById id) (fun deleted db =>
        Pending (existing.any MemoryEntry.promoted) db.memories dir ∧
          (existing.isSome = true → 0 < deleted))
        (fun _ => True) ?_ fun _ _ => trivial).strengthen ?_
    · rintro db ⟨hkept, rfl⟩
      refine ⟨delete_pending hkept id, fun hsome => ?_⟩
      obtain ⟨m, hm, hid⟩ := List.find?_isSome.mp hsome
      exact Database.count_pos_iff.mpr ⟨m, hm, of_decide_eq_true hid⟩
    · rintro c ⟨hkept, db, hdb, rfl⟩
      refine ⟨hkept, ?_⟩
      rw [Database.getById, Database.getById, hdb]
  refine Succeeds.bind hdelete fun deleted => ?_
  exact Succeeds.bind (forgetExisting_kept existing deleted id) fun _ =>
    Succeeds.pure fun _ _ h => h

/-! ## Storing -/

section

variable {tools : TextTools}

theorem storeAs_kept (evergreen : Bool) (kind content : String) :
    Succeeds Kept (storeAs tools evergreen kind content) fun _ => Kept := by
  have hstore :
      Succeeds Kept (onConn (Memory.storeAs tools evergreen kind content)) fun _ => Kept :=
    onConn_pending false fun _ => storeAs_memories Rowed.admits
  refine Succeeds.bind hstore fun id => Succeeds.bind ?_ fun _ => Succeeds.pure fun _ _ h => h
  exact fun s hs => hs

theorem replaceSlot_kept (slot content : String) (entries : List MemoryEntry) :
    Succeeds Kept (replaceSlot tools slot content entries) fun _ => Kept := by
  induction entries with
  | nil => exact Succeeds.pure fun _ _ h => h
  | cons existing rest ih =>
    have hdelete : Succeeds Kept (deleteSuperseded tools slot content existing) fun _ => Kept := by
      unfold deleteSuperseded
      split
      · exact deleteById_kept existing.id
      · exact Succeeds.pure fun _ _ h => h
    exact Succeeds.bind hdelete fun _ => Succeeds.bind ih fun _ => Succeeds.pure fun _ _ h => h

theorem clearSlot_kept (kind content : String) (slot : Option String) :
    Succeeds Kept (clearSlot tools kind content slot) fun _ => Kept := by
  cases slot with
  | none => exact Succeeds.pure fun _ _ h => h
  | some slot =>
    refine Succeeds.bind (onConn_query _) fun entries => ?_
    exact (replaceSlot_kept slot content entries).strengthen fun _ _ h => h.1

theorem storeResolved_kept (kind content : String) :
    Succeeds Kept (storeResolved tools kind content) fun _ => Kept := by
  have hduplicate : ∀ slot content, Succeeds Kept (onConn (isDuplicate tools slot content))
      fun _ => Kept := fun slot content =>
    onConn_pending false fun _ => isDuplicate_keeps slot content query_memories
  refine Succeeds.bind (hduplicate _ _) fun duplicate => ?_
  split
  · exact Succeeds.pure fun _ _ h => h
  · refine Succeeds.bind (clearSlot_kept _ _ _) fun _ => ?_
    exact Succeeds.bind (storeAs_kept false kind _) fun _ => Succeeds.pure fun _ _ h => h

/-! ## Editing -/

/-- A text that can be written out. -/
def Writable (kind content : String) : Prop :=
  (assessMemoryRead (inferMetadata kind content) .sharedRoomVoice).allowed = true → OneLine kind

variable {id : Nat}

theorem update_pending (h : Kept memories dir) {existing : MemoryEntry}
    (hexisting : (memories.find? fun m => m.id = id) = some existing) (hcontent : OneLine content)
    (hkind : existing.promoted = true → Writable kind content) :
    Pending existing.promoted (memories.map fun m =>
      if m.id = id then { m with kind, content, metadata := inferMetadata kind content } else m)
      dir := by
  obtain ⟨promoted, hrowed, hlined, hfiles⟩ := h
  have hmapped := hrowed.map (f := fun m =>
    if m.id = id then { m with kind, content, metadata := inferMetadata kind content } else m)
    (fun m => by split <;> rfl) fun m hm => by
      have hold := hrowed.2.1 m hm
      split
      · exact hcontent
      · exact hold
  obtain ⟨hids, hcontents, rfl⟩ := hrowed
  cases hstale : existing.promoted with
  | true =>
    refine ⟨_, hmapped, fun m hm hsafe => ?_⟩
    obtain ⟨hm, hpromoted⟩ := List.mem_filter.mp hm
    obtain ⟨n, hn, rfl⟩ := List.mem_map.mp hm
    split at hsafe
    · rename_i hid
      rw [if_pos hid]
      exact ⟨hkind hstale hsafe, hcontent⟩
    · rename_i hid
      rw [if_neg hid] at hpromoted ⊢
      exact hlined n (List.mem_filter.mpr ⟨hn, hpromoted⟩) hsafe
  | false =>
    have hsame := @filter_promoted_map memories (fun m =>
      if m.id = id then { m with kind, content, metadata := inferMetadata kind content } else m)
      (fun m _ => by split <;> rfl) fun m hm hpromoted => by
        refine if_neg fun hid => ?_
        have heq := inj_on_of_nodup_map hids (found_id hexisting).1 hm
          ((found_id hexisting).2.trans hid.symm)
        rw [heq, hpromoted] at hstale
        cases hstale
    rw [hsame] at hmapped
    exact ⟨_, hmapped, hlined, hfiles⟩

theorem rederive_kept (existing : MemoryEntry) (updated id : Nat) (kind content : String) :
    Succeeds (fun memories dir => Pending existing.promoted memories dir ∧ 0 < updated)
      (rederive tools existing updated id kind content) fun _ => Kept := by
  have htables : ∀ promoted, Keeps (fun c => Rowed promoted c.db.memories)
      (DerivedTable.all.forM (upsertNow tools id kind content (inferMetadata kind content))) :=
    fun promoted => Keeps.forM fun table _ =>
      Keeps.bind (nowMs_ok fun db _ => Rowed promoted db.memories) fun now =>
        upsertFromMemory_memories id kind content _ now table
  unfold rederive
  split
  · refine Succeeds.bind ((onConn_pending existing.promoted htables).strengthen fun _ _ h => h.1)
      fun _ => updateCanonicalFiles_kept existing
  · rename_i hupdated
    exact Succeeds.pure fun _ _ h => absurd h.2 hupdated

theorem writeManaged_kept {existing : MemoryEntry} (hcontent : OneLine content)
    (hkind : existing.promoted = true → Writable kind content) :
    Succeeds (fun memories dir => Kept memories dir ∧
        (memories.find? fun m => m.id = id) = some existing)
      (writeManaged tools existing id kind content) fun _ => Kept := by
  have hupdate : Succeeds (fun memories dir => Kept memories dir ∧
        (memories.find? fun m => m.id = id) = some existing)
      (onConn (statement fun db => ((db.memories.filter fun m => m.id = id).length,
        db.updateMemory id kind content (inferMetadata kind content))))
      fun updated memories dir => Pending existing.promoted memories dir ∧ 0 < updated := by
    refine onConn_spec fun dir => statement_spec (fun db => Kept db.memories dir ∧
      (db.memories.find? fun m => m.id = id) = some existing) (fun updated db =>
        Pending existing.promoted db.memories dir ∧ 0 < updated) (fun _ => True) ?_
        fun _ _ => trivial
    rintro db ⟨hkept, hexisting⟩
    refine ⟨update_pending hkept hexisting hcontent hkind, Database.count_pos_iff.mpr ?_⟩
    exact ⟨existing, found_id hexisting⟩
  refine Succeeds.bind hupdate fun updated => ?_
  exact Succeeds.bind (rederive_kept existing updated id kind content) fun _ =>
    Succeeds.pure fun _ _ h => h

theorem updateManaged_kept (id : Nat) (content : String) (kind : Option String) :
    Succeeds (fun memories dir => Kept memories dir ∧
        ∀ m ∈ memories, m.id = id → m.promoted = true → ∀ next, nextKind m kind = .ok next →
          Writable next (normalizeMemoryContent content))
      (updateManaged tools id content kind) fun _ => Kept := by
  refine Succeeds.bind (onConn_query fun db => db.getById id) fun existing => ?_
  cases existing with
  | none => exact Succeeds.pure fun _ _ h => h.1.1
  | some existing =>
    dsimp only
    unfold updateExisting
    dsimp only
    split
    · exact Succeeds.fail
    · split
      · exact Succeeds.fail
      · rename_i next hnext
        split
        · exact Succeeds.fail
        · split
          · exact Succeeds.pure fun _ _ h => h.1.1
          · rintro s ⟨⟨hkept, hwritable⟩, db, hdb, hget⟩
            rw [Database.getById, hdb] at hget
            obtain ⟨hmem, hid⟩ := found_id hget.symm
            exact writeManaged_kept (oneLine_normalizeMemoryContent content)
              (fun hpromoted => hwritable existing hmem hid hpromoted next hnext) s
              ⟨hkept, hget.symm⟩

/-! ## Promoting, reordering and opening again -/

/-- The memories with these ids can be written out. -/
def Promotable (ids : List Nat) (memories : List MemoryEntry) : Prop :=
  ∀ m ∈ memories, m.id ∈ ids → m.sharedSafe = true → OneLine m.kind

theorem pending_ready {stale : Bool} (h : Pending stale memories dir) : Ready memories dir := by
  cases stale with
  | false => exact Kept.ready h
  | true => exact h

variable {db : Database}

theorem promote_of_absent (h : (db.memories.find? fun m => m.id = id) = none) :
    db.promote id = db := by
  have hsame : (db.memories.map fun m => if m.id = id then { m with promoted := true } else m) =
      db.memories.map fun m => m :=
    map_congr_left fun m hm => if_neg fun hid =>
      List.find?_eq_none.mp h m hm (decide_eq_true hid)
  unfold Database.promote
  rw [hsame, map_id']

theorem promote_pending {stale : Bool} {rest : List Nat} (h : Pending stale db.memories dir)
    (hids : Promotable (id :: rest) db.memories) :
    Pending (stale || (db.memories.find? fun m => m.id = id).isSome) (db.promote id).memories
      dir := by
  cases hfound : (db.memories.find? fun m => m.id = id).isSome with
  | false =>
    rw [promote_of_absent (Option.isNone_iff_eq_none.mp (by simpa using hfound)), Bool.or_false]
    exact h
  | true =>
    rw [Bool.or_true]
    obtain ⟨promoted, hrowed, hlined⟩ := pending_ready h
    refine ⟨_, hrowed.map (fun m => by split <;> rfl) fun m hm => ?_, fun m hm hsafe => ?_⟩
    · have hold := hrowed.2.1 m hm
      split
      · exact hold
      · exact hold
    · obtain ⟨hm, hpromoted⟩ := List.mem_filter.mp hm
      obtain ⟨n, hn, rfl⟩ := List.mem_map.mp hm
      split at hsafe
      · rename_i hid
        rw [if_pos hid]
        exact ⟨hids n hn (hid ▸ mem_cons_self) hsafe, hrowed.2.1 n hn⟩
      · rename_i hid
        rw [if_neg hid] at hpromoted ⊢
        exact hlined n (hrowed.2.2 ▸ List.mem_filter.mpr ⟨hn, hpromoted⟩) hsafe

theorem Promotable.promote {rest : List Nat} (h : Promotable (id :: rest) db.memories) :
    Promotable rest (db.promote id).memories := by
  intro m hm hid hsafe
  obtain ⟨n, hn, rfl⟩ := List.mem_map.mp hm
  split at hsafe
  · rename_i hsame
    rw [if_pos hsame] at hid ⊢
    exact h n hn (mem_cons_of_mem id hid) hsafe
  · rename_i hsame
    rw [if_neg hsame] at hid ⊢
    exact h n hn (mem_cons_of_mem id hid) hsafe

theorem promote_found (id : Nat) :
    ((db.promote id).memories.find? fun m => m.id = id).isSome =
      (db.memories.find? fun m => m.id = id).isSome := by
  rw [Bool.eq_iff_iff, find?_isSome, find?_isSome]
  constructor
  · rintro ⟨m, hm, hid⟩
    obtain ⟨n, hn, rfl⟩ := List.mem_map.mp hm
    split at hid
    · exact ⟨n, hn, hid⟩
    · exact ⟨n, hn, hid⟩
  · rintro ⟨m, hm, hid⟩
    refine ⟨_, mem_map_of_mem hm, ?_⟩
    rw [if_pos (of_decide_eq_true hid)]
    exact hid

theorem promoteEach_pending (ids : List Nat) (stale : Bool) :
    Succeeds (fun memories dir => Pending stale memories dir ∧ Promotable ids memories)
      (promoteEach ids) fun events => Pending (stale || !events.isEmpty) := by
  induction ids generalizing stale with
  | nil =>
    refine Succeeds.pure fun _ _ h => ?_
    rw [isEmpty_nil, Bool.not_true, Bool.or_false]
    exact h.1
  | cons id rest ih =>
    have hpromote : Succeeds
        (fun memories dir => Pending stale memories dir ∧ Promotable (id :: rest) memories)
        (onConn (execute fun db => db.promote id)) fun _ memories dir =>
          Pending (stale || (memories.find? fun m => m.id = id).isSome) memories dir ∧
            Promotable rest memories := by
      refine onConn_spec fun dir => statement_spec (fun db => Pending stale db.memories dir ∧
        Promotable (id :: rest) db.memories) (fun _ db => Pending
          (stale || (db.memories.find? fun m : MemoryEntry => m.id = id).isSome) db.memories dir ∧
            Promotable rest db.memories) (fun _ => True) ?_ fun _ _ => trivial
      rintro db ⟨hpending, hids⟩
      rw [promote_found]
      exact ⟨promote_pending hpending hids, hids.promote⟩
    refine Succeeds.bind hpromote fun _ => ?_
    refine Succeeds.bind (onConn_query fun db => db.getById id) fun entry => ?_
    refine Succeeds.bind ((ih (stale || entry.isSome)).strengthen ?_) fun events =>
      Succeeds.pure fun memories dir h => ?_
    · rintro memories dir ⟨⟨hpending, hids⟩, db, rfl, rfl⟩
      exact ⟨hpending, hids⟩
    cases entry with
    | none => simpa using h
    | some entry => simpa using h

theorem markPromotedMany_kept (ids : List Nat) :
    Succeeds (fun memories dir => Kept memories dir ∧ Promotable ids memories)
      (markPromotedMany ids) fun _ => Kept := by
  refine Succeeds.bind (promoteEach_pending ids false) fun events => ?_
  split
  · rename_i hempty
    rw [hempty]
    exact Succeeds.pure fun _ _ h => h
  · refine Succeeds.bind (rebuildRootMemoryFile_kept.strengthen fun _ _ h => pending_ready h)
      fun _ => ?_
    exact Succeeds.forM fun _ _ => onConn_pending false fun _ => changeFiles_memories

theorem reorderManaged_kept (ids : List Nat) :
    Succeeds Kept (reorderManaged ids) fun _ => Kept := by
  have hmoves : Succeeds Kept (ids.zipIdx.forM moveTo) fun _ => Kept := by
    refine Succeeds.forM fun move _ => ?_
    have hexecute : ∀ promoted, Keeps (fun c => Rowed promoted c.db.memories) (execute id) :=
      fun promoted => execute_keeps (fun db => Rowed promoted db.memories) fun _ hdb => hdb
    exact Succeeds.bind (onConn_pending false hexecute) fun _ s hs => hs
  exact Succeeds.bind hmoves fun _ =>
    rebuildRootMemoryFile_kept.strengthen fun _ _ h => Kept.ready h

theorem reopen_kept (migrate rederive : Bool) :
    Succeeds (fun memories dir => Kept memories dir ∧
        (migrate = true → ∀ m ∈ memories, m.promoted = true → m.Settled))
      (onConn (reopen tools migrate rederive)) fun _ => Kept := by
  refine onConn_spec fun dir c hc => ?_
  obtain ⟨⟨promoted, hrowed, hlined, hfiles⟩, hsettled⟩ := hc
  have hreopen : Triple (fun c => Rowed promoted c.db.memories ∧
      (migrate = true → ∀ m ∈ c.db.memories, m.promoted = true → m.Settled))
      (reopen tools migrate rederive) (fun _ c => Rowed promoted c.db.memories)
      fun _ _ => True := by
    have hbackfill : Triple (fun c => Rowed promoted c.db.memories ∧
        (migrate = true → ∀ m ∈ c.db.memories, m.promoted = true → m.Settled))
        (migrateSchema migrate) (fun _ c => Rowed promoted c.db.memories) fun _ _ => True := by
      cases migrate with
      | false => exact Triple.pure fun _ h => h.1
      | true =>
        exact backfill_rowed (P := fun memories => Rowed promoted memories ∧
          (true = true → ∀ m ∈ memories, m.promoted = true → m.Settled)) fun _ h => ⟨h.1, h.2 rfl⟩
    refine Triple.bind hbackfill fun _ => ?_
    have hrebuild : Keeps (fun c => Rowed promoted c.db.memories)
        (rebuildDerived tools rederive) :=
      Keeps.ite (Keeps.forM fun table _ => rebuildTable_memories table) (Keeps.pure ())
    exact hrebuild.weaken (fun _ h => h) (fun _ _ h => h) fun _ _ _ => trivial
  exact hreopen.weaken (fun _ h => h) (fun _ _ h => ⟨promoted, h, hlined, hfiles⟩)
    (fun _ _ _ => trivial) c ⟨hrowed, hsettled⟩

end

end Durable

/-! ## Runs -/

/-- No line break is written to the files with a kind, and a reopened store leaves the policies
of the promoted memories as they are. -/
def Plain (memories : List MemoryEntry) : DurableCommand → Prop
  | .updateManaged id content kind =>
    ∀ m ∈ memories, m.id = id → m.promoted = true → ∀ next, nextKind m kind = .ok next →
      Durable.Writable next (normalizeMemoryContent content)
  | .markPromotedMany ids => Durable.Promotable ids memories
  | .reopen migrate _ => migrate = true → ∀ m ∈ memories, m.promoted = true → m.Settled
  | _ => True

section

variable {tools : TextTools}

theorem step_kept {s : DurableStore} {call : DurableCall} (h : Kept s.memories s.dir)
    (hplain : Plain s.memories call.command)
    (hok : ((durableMachine tools).step s call).1 = .ok ()) :
    Kept ((durableMachine tools).step s call).2.memories
      ((durableMachine tools).step s call).2.dir := by
  have hcommand : Succeeds (fun memories dir => Kept memories dir ∧ Plain memories call.command)
      (performDurable tools call.command) fun _ => Kept := by
    cases call.command with
    | store kind content =>
      exact ((Durable.storeAs_kept false kind content).map _).strengthen fun _ _ h => h.1
    | storeEvergreen kind content =>
      exact ((Durable.storeAs_kept true kind content).map _).strengthen fun _ _ h => h.1
    | storeResolved kind content =>
      exact ((Durable.storeResolved_kept kind content).map _).strengthen fun _ _ h => h.1
    | updateManaged id content kind => exact (Durable.updateManaged_kept id content kind).map _
    | deleteById id => exact ((Durable.deleteById_kept id).map _).strengthen fun _ _ h => h.1
    | markPromotedMany ids => exact Durable.markPromotedMany_kept ids
    | reorderManaged ids =>
      exact (Durable.reorderManaged_kept ids).strengthen fun _ _ h => h.1
    | pruneDecayed decayed =>
      have hprune : ∀ promoted, Keeps (fun c => Rowed promoted c.db.memories)
          (pruneDecayed decayed) := fun _ =>
        pruneDecayed_memories Rowed.prunes (fun _ h => h.1) decayed
      exact ((onConn_pending false hprune).map _).strengthen fun _ _ h => h.1
    | pruneStale maxAgeDays =>
      have hprune : ∀ promoted, Keeps (fun c => Rowed promoted c.db.memories)
          (pruneStale maxAgeDays) := fun _ => pruneStale_memories Rowed.prunes maxAgeDays
      exact ((onConn_pending false hprune).map _).strengthen fun _ _ h => h.1
    | reopen migrate rederive => exact Durable.reopen_kept migrate rederive
  have hafter := hcommand (call.connect s) ⟨h, hplain⟩
  have hstep : (durableMachine tools).step s call =
    performDurable tools call.command (call.connect s) := rfl
  rw [hstep] at hok ⊢
  rcases hrun : performDurable tools call.command (call.connect s) with ⟨a | a, t⟩
  · rw [hrun] at hok
    cases hok
  · rw [hrun] at hafter
    exact hafter

/-- In a run of calls that succeed the files say what the memories say, as long as no kind with
a line break is written out and no reopening changes the policy of a promoted memory. -/
theorem files_agree (tools : TextTools) (s : DurableStore) (hstart : Kept s.memories s.dir)
    (calls : List DurableCall) (hok : ∀ e ∈ (durableMachine tools).trace s calls, e.output = .ok ())
    (hplain : ∀ e ∈ (durableMachine tools).trace s calls, Plain e.before.memories e.input.command) :
    ∀ e ∈ (durableMachine tools).trace s calls, FilesAgree e.after.dir e.after.memories := by
  induction calls generalizing s with
  | nil => intro e he; cases he
  | cons call rest ih =>
    rw [Machine.trace_cons] at hok hplain ⊢
    have hkept := step_kept hstart (hplain _ mem_cons_self) (hok _ mem_cons_self)
    intro e he
    rcases List.mem_cons.mp he with rfl | he
    · exact hkept.agrees
    · exact ih _ hkept (fun e he => hok e (mem_cons_of_mem _ he))
        (fun e he => hplain e (mem_cons_of_mem _ he)) e he

end

theorem kept_nil : Kept [] {} :=
  ⟨[], ⟨nodup_nil, fun _ hm => absurd hm not_mem_nil, rfl⟩,
    fun _ hm => absurd hm not_mem_nil, [], List.Perm.refl [], rfl⟩

instance (ids : List Nat) (memories : List MemoryEntry) :
    Decidable (Durable.Promotable ids memories) :=
  inferInstanceAs (Decidable (∀ m ∈ memories, _))

theorem files_agree_tea :
    (∀ e ∈ (durableMachine asciiTools).trace {}
        [⟨.store "fact" "tea", [], [], [0]⟩, ⟨.markPromotedMany [1], [], [], [1]⟩],
      e.output = .ok ()) ∧
    ∀ e ∈ (durableMachine asciiTools).trace {}
        [⟨.store "fact" "tea", [], [], [0]⟩, ⟨.markPromotedMany [1], [], [], [1]⟩],
      FilesAgree e.after.dir e.after.memories := by
  have hok : ∀ e ∈ (durableMachine asciiTools).trace {}
      [⟨.store "fact" "tea", [], [], [0]⟩, ⟨.markPromotedMany [1], [], [], [1]⟩],
      e.output = .ok () := by
    decide +kernel
  have hstore : ∀ memories, Plain memories (.store "fact" "tea") := fun _ => trivial
  have hpromote : ∀ memories, Durable.Promotable [1] memories →
      Plain memories (.markPromotedMany [1]) := fun _ h => h
  refine ⟨hok, files_agree asciiTools {} kept_nil _ hok ?_⟩
  rw [Machine.trace_cons, Machine.trace_cons, Machine.trace_nil]
  refine List.forall_mem_cons.mpr ⟨hstore _, List.forall_mem_singleton.mpr (hpromote _ ?_)⟩
  decide +kernel

/-- A promoted memory from before the policy columns, which have their defaults. -/
def legacyRow : MemoryEntry :=
  ⟨1, "fact", "gate code 1", 0, true, false, ⟨.household, .normal, .allow⟩⟩

def legacyStore : DurableStore where
  conn := { db := { memories := [legacyRow] } }
  dir := exportDir [legacyRow]

theorem legacyStore_agrees : FilesAgree legacyStore.dir legacyStore.memories := by
  have hpromoted : legacyStore.memories.filter MemoryEntry.promoted = [legacyRow] := rfl
  have hrecords : [legacyRow].Perm (legacyStore.memories.filter MemoryEntry.promoted) := by
    rw [hpromoted]
  refine exportDir_agrees hrecords fun m hm _ => ?_
  rw [hpromoted, mem_singleton] at hm
  rw [hm]
  decide

/-- A kind with a line break forges an entry, and a reopening that fills in policies leaves an
entry behind. -/
theorem entry_forged_or_left :
    (¬ ∀ (tools : TextTools) (calls : List DurableCall),
      (∀ e ∈ (durableMachine tools).trace {} calls, e.output = .ok ()) →
      ∀ e ∈ (durableMachine tools).trace {} calls, FilesAgree e.after.dir e.after.memories) ∧
    ¬ ∀ (tools : TextTools) (s : DurableStore) (call : DurableCall),
      FilesAgree s.dir s.memories → ((durableMachine tools).step s call).1 = .ok () →
      FilesAgree ((durableMachine tools).step s call).2.dir
        ((durableMachine tools).step s call).2.memories := by
  constructor
  · intro h
    have hstep : ∀ calls : List DurableCall,
        (∀ e ∈ (durableMachine asciiTools).trace {} calls, e.output = .ok ()) →
        ∀ e ∈ (durableMachine asciiTools).trace {} calls, (entriesOf e.after.dir.rootFile).length ≤
          e.after.memories.length := fun calls hok e he => by
      have hroot := (h asciiTools calls hok e he).root.length_eq
      rw [length_map] at hroot
      rw [hroot]
      exact length_filter_le _ _
    have hforged := hstep [⟨.store "fact]\n- [mem:9] [fact" "tea", [], [], [0]⟩,
      ⟨.markPromotedMany [1], [], [], [1]⟩] (by decide +kernel)
    revert hforged
    decide +kernel
  · intro h
    have hstep : ∀ s : DurableStore, ∀ call : DurableCall, FilesAgree s.dir s.memories →
        ((durableMachine asciiTools).step s call).1 = .ok () →
        (entriesOf ((durableMachine asciiTools).step s call).2.dir.rootFile).length =
          (((durableMachine asciiTools).step s call).2.memories.filter
            fun m => m.promoted && m.sharedSafe).length := fun s call hagree hok => by
      have hroot := (h asciiTools s call hagree hok).root.length_eq
      rw [length_map] at hroot
      exact hroot
    have hleft := hstep legacyStore ⟨.reopen true false, [], [], [0]⟩ legacyStore_agrees
      (by decide +kernel)
    revert hleft
    decide +kernel

end GenieClaw.Memory
