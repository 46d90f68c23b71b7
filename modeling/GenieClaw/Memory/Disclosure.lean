import GenieClaw.Memory.Store
import GenieClaw.Memory.Returned
import GenieClaw.Memory.Secrets
import GenieClaw.Memory.Slots

/-!
# What a structured answer gives away

Two stores are run side by side. Their calls are the same but for the texts of memories that may
not be spoken of in a shared room and do not mention a secret.

* `answers_indistinct` (the calls of the two stores correspond): both give every query the same
  answer.
-/

namespace GenieClaw.Memory

open Library Library.Program Library.Text List

/-- The references to secrets are found by the parser of the source. -/
def TextTools.withSecrets (tools : TextTools) : TextTools :=
  { tools with rows := fun table kind content metadata =>
      if table = .appOnlySecretReferences then (appOnlySecretColumns kind content metadata).toList
      else tools.rows table kind content metadata }

/-- Not for the shared room, and without mention of a secret. -/
def Hidden (content : String) (metadata : MemoryPolicyMetadata) : Prop :=
  (assessMemoryRead metadata MemoryReadContext.sharedRoomVoice).allowed = false ∧
    secretTypeFromText (toAsciiLowercase content) = none

theorem derive_of_hidden {tools : TextTools} {content : String} {metadata : MemoryPolicyMetadata}
    (h : Hidden content metadata) (table : DerivedTable) (kind : String) :
    derive tools.withSecrets table kind content metadata = [] := by
  by_cases htable : table = .appOnlySecretReferences
  · subst htable
    show (appOnlySecretColumns kind content metadata).toList = []
    simp [appOnlySecretColumns, appOnlySecretReferenceFromMemory, h.2]
  · exact derive_of_refused htable h.1

/-! ## Stores side by side -/

/-- The same memory, or one that is hidden in both stores. -/
structure MemoryEntry.Alike (m n : MemoryEntry) : Prop where
  id : m.id = n.id
  kind : m.kind = n.kind
  accessedMs : m.accessedMs = n.accessedMs
  promoted : m.promoted = n.promoted
  evergreen : m.evergreen = n.evergreen
  text : (m.content = n.content ∧ m.metadata = n.metadata) ∨
    (Hidden m.content m.metadata ∧ Hidden n.content n.metadata)

structure Database.Indistinct (a b : Database) : Prop where
  memories : List.Forall₂ MemoryEntry.Alike a.memories b.memories
  derived : a.derived = b.derived

/-- The texts of a memory of the kind in the two stores, with single spaces. -/
def Unheard (kind content other : String) : Prop :=
  content = other ∨
    (Hidden content (inferMetadata kind content) ∧ Hidden other (inferMetadata kind other))

/-- The calls of the two stores. The kind of an edited memory is the one that it will have. -/
inductive Counterpart (db : Database) : Command → Command → Prop where
  | store {kind content other : String}
      (h : Unheard kind (normalizeMemoryContent content) (normalizeMemoryContent other)) :
      Counterpart db (.store kind content) (.store kind other)
  | storeEvergreen {kind content other : String}
      (h : Unheard kind (normalizeMemoryContent content) (normalizeMemoryContent other)) :
      Counterpart db (.storeEvergreen kind content) (.storeEvergreen kind other)
  | updateManaged {id : Nat} {content other : String} {kind : Option String}
      (h : ∀ existing nk, db.getById id = some existing → nextKind existing kind = .ok nk →
        Unheard nk (normalizeMemoryContent content) (normalizeMemoryContent other)) :
      Counterpart db (.updateManaged id content kind) (.updateManaged id other kind)
  | deleteById (id : Nat) : Counterpart db (.deleteById id) (.deleteById id)

namespace MemoryEntry.Alike

theorem symm {m n : MemoryEntry} (h : m.Alike n) : n.Alike m where
  id := h.id.symm
  kind := h.kind.symm
  accessedMs := h.accessedMs.symm
  promoted := h.promoted.symm
  evergreen := h.evergreen.symm
  text := h.text.imp (fun hsame => ⟨hsame.1.symm, hsame.2.symm⟩) And.symm

end MemoryEntry.Alike

variable {kind content other : String}

theorem Unheard.symm (h : Unheard kind content other) : Unheard kind other content :=
  h.imp Eq.symm And.symm

theorem Unheard.derive {tools : TextTools} (h : Unheard kind content other) (table : DerivedTable) :
    derive tools.withSecrets table kind content (inferMetadata kind content) =
      derive tools.withSecrets table kind other (inferMetadata kind other) := by
  rcases h with rfl | ⟨hcontent, hother⟩
  · rfl
  · rw [derive_of_hidden hcontent, derive_of_hidden hother]

namespace Database

variable {a b : Database}

namespace Indistinct

theorem symm (h : a.Indistinct b) : b.Indistinct a where
  memories := (List.Forall₂.flip h.memories).imp fun _ _ hmn => hmn.symm
  derived := h.derived.symm

theorem ids (h : a.Indistinct b) :
    a.memories.map MemoryEntry.id = b.memories.map MemoryEntry.id := by
  have hids : List.Forall₂ (fun m n : MemoryEntry => m.id = n.id) a.memories b.memories :=
    h.memories.imp fun _ _ hmn => hmn.id
  rw [← forall₂_eq_eq_eq, forall₂_map_left_iff, forall₂_map_right_iff]
  exact hids

theorem nextId (h : a.Indistinct b) : a.nextId = b.nextId := by
  unfold Database.nextId
  rw [h.ids]

theorem getById (h : a.Indistinct b) (id : Nat) :
    (a.getById id = none ∧ b.getById id = none) ∨
      ∃ m n, a.getById id = some m ∧ b.getById id = some n ∧ m.Alike n := by
  unfold Database.getById
  have hmemories := h.memories
  generalize a.memories = ms, b.memories = ns at hmemories ⊢
  induction hmemories with
  | nil => exact .inl ⟨rfl, rfl⟩
  | @cons m n rest others hmn _ ih =>
    rw [find?_cons, find?_cons, ← hmn.id]
    cases decide (m.id = id) with
    | true => exact .inr ⟨m, n, rfl, rfl, hmn⟩
    | false => exact ih

end Indistinct

end Database

/-! ## One call -/

section

variable {tools : TextTools} {a b : Database}

theorem without_indistinct (h : a.Indistinct b) (id : Nat) :
    (a.without id).Indistinct (b.without id) where
  memories := by
    have hmemories := h.memories
    show List.Forall₂ MemoryEntry.Alike (a.memories.filter fun m => !decide (m.id = id))
      (b.memories.filter fun m => !decide (m.id = id))
    generalize a.memories = ms, b.memories = ns at hmemories ⊢
    induction hmemories with
    | nil => exact .nil
    | @cons m n _ _ hmn _ ih =>
      rw [filter_cons, filter_cons, ← hmn.id]
      split
      · exact .cons hmn ih
      · exact ih
  derived := by
    funext t
    show (a.derived t).filter _ = (b.derived t).filter _
    rw [h.derived]

theorem upserted_derived_eq {metadata others : MemoryPolicyMetadata}
    (hrows : ∀ table, derive tools table kind content metadata =
      derive tools table kind other others)
    (h : a.derived = b.derived) (id now : Nat) (table : DerivedTable) :
    (upserted tools id kind content metadata now a table).derived =
      (upserted tools id kind other others now b table).derived := by
  funext t
  rw [upserted_derived, upserted_derived, h, hrows]

theorem stored_indistinct (h : a.Indistinct b) (htexts : Unheard kind content other)
    (evergreen : Bool) (now : Nat) :
    (stored a tools.withSecrets kind content evergreen now).Indistinct
      (stored b tools.withSecrets kind other evergreen now) where
  memories := by
    unfold stored
    rw [foldl_upserted_memories, foldl_upserted_memories]
    refine rel_append h.memories (.cons ⟨h.nextId, rfl, rfl, rfl, rfl, ?_⟩ .nil)
    rcases htexts with rfl | hhidden
    · exact .inl ⟨rfl, rfl⟩
    · exact .inr hhidden
  derived := by
    funext t
    unfold stored
    rw [foldl_upserted_derived _ _ _ _ _ _ _ (by decide),
      foldl_upserted_derived _ _ _ _ _ _ _ (by decide), htexts.derive, h.nextId]
    show (if _ then (a.derived t).filter _ ++ _ else a.derived t) =
      if _ then (b.derived t).filter _ ++ _ else b.derived t
    rw [h.derived]

theorem rederived_memories (id : Nat) (kind content : String) (metadata : MemoryPolicyMetadata)
    (tables : List DerivedTable) (clock : List Nat) (db : Database) :
    (rederived tools id kind content metadata tables clock db).memories = db.memories := by
  induction tables generalizing clock db with
  | nil => rfl
  | cons table rest ih => rw [rederived, ih, upserted_memories]

theorem rederived_derived_eq {metadata others : MemoryPolicyMetadata}
    (hrows : ∀ table, derive tools table kind content metadata =
      derive tools table kind other others)
    (id : Nat) (tables : List DerivedTable) (clock : List Nat) (h : a.derived = b.derived) :
    (rederived tools id kind content metadata tables clock a).derived =
      (rederived tools id kind other others tables clock b).derived := by
  induction tables generalizing clock a b with
  | nil => exact h
  | cons table rest ih =>
    exact ih clock.tail (upserted_derived_eq hrows h id (clock.headD 0) table)

variable {id : Nat}

theorem rederived_derived_of_bare {kind content : String} {metadata : MemoryPolicyMetadata}
    (hrows : ∀ table, derive tools table kind content metadata = []) (tables : List DerivedTable)
    (clock : List Nat) (hbare : a.Bare id) :
    (rederived tools id kind content metadata tables clock a).derived = a.derived := by
  induction tables generalizing clock a with
  | nil => rfl
  | cons table rest ih =>
    have hsame : (upserted tools id kind content metadata (clock.headD 0) a table).derived =
        a.derived := by
      funext t
      rw [upserted_derived, hrows, map_nil, append_nil]
      by_cases ht : t = table
      · rw [if_pos ht]
        exact List.filter_eq_self.mpr fun row hrow => decide_eq_true (hbare t row hrow)
      · exact if_neg ht
    have hbare' : (upserted tools id kind content metadata (clock.headD 0) a table).Bare id := by
      intro t row hrow
      rw [hsame] at hrow
      exact hbare t row hrow
    rw [rederived, ih clock.tail hbare', hsame]

theorem edited_indistinct (h : a.Indistinct b) (htexts : Unheard kind content other)
    (clock : List Nat) :
    (a.edited tools.withSecrets id kind content clock).Indistinct
      (b.edited tools.withSecrets id kind other clock) where
  memories := by
    unfold Database.edited
    rw [rederived_memories, rederived_memories]
    show List.Forall₂ MemoryEntry.Alike (a.memories.map _) (b.memories.map _)
    rw [forall₂_map_left_iff, forall₂_map_right_iff]
    refine h.memories.imp fun m n hmn => ?_
    by_cases hid : m.id = id
    · rw [if_pos hid, if_pos (hmn.id ▸ hid)]
      refine ⟨hmn.id, rfl, hmn.accessedMs, hmn.promoted, hmn.evergreen, ?_⟩
      rcases htexts with rfl | hhidden
      · exact .inl ⟨rfl, rfl⟩
      · exact .inr hhidden
    · rw [if_neg hid, if_neg (hmn.id ▸ hid)]
      exact hmn
  derived := rederived_derived_eq htexts.derive id DerivedTable.all clock h.derived

theorem edited_unnoticed {kind content : String} (h : a.Indistinct b)
    (hcurrent : a.Current tools.withSecrets)
    (hbefore : ∀ m ∈ a.memories, m.id = id → m.kind = kind ∧ Hidden m.content m.metadata)
    (hafter : Hidden content (inferMetadata kind content)) (clock : List Nat) :
    a.Indistinct (b.edited tools.withSecrets id kind content clock) := by
  unfold Database.edited
  generalize inferMetadata kind content = metadata at hafter ⊢
  have hbare : (b.updateMemory id kind content metadata).Bare id := by
    intro t row hrow hrow_id
    change row ∈ b.derived t at hrow
    rw [← h.derived] at hrow
    obtain ⟨m, hm, hid, hcolumns⟩ := hcurrent t row hrow
    rw [derive_of_hidden (hbefore m hm (hid.trans hrow_id)).2] at hcolumns
    cases hcolumns
  refine ⟨?_, ?_⟩
  · rw [rederived_memories]
    show List.Forall₂ MemoryEntry.Alike a.memories (b.memories.map _)
    rw [forall₂_map_right_iff, forall₂_iff_get]
    obtain ⟨hlength, halike⟩ := List.forall₂_iff_get.mp h.memories
    refine ⟨hlength, fun i hi hi' => ?_⟩
    have hmn := halike i hi hi'
    by_cases hid : (a.memories.get ⟨i, hi⟩).id = id
    · obtain ⟨hkind, hhidden⟩ := hbefore _ (get_mem _ _) hid
      rw [if_pos (hmn.id ▸ hid)]
      exact ⟨hmn.id, hkind, hmn.accessedMs, hmn.promoted, hmn.evergreen, .inr ⟨hhidden, hafter⟩⟩
    · rw [if_neg (hmn.id ▸ hid)]
      exact hmn
  · rw [rederived_derived_of_bare (fun table => derive_of_hidden hafter table kind)
      DerivedTable.all clock hbare]
    exact h.derived

/-! ## Runs -/

/-- What is known of the two stores between two calls. -/
structure SideBySide (tools : TextTools) (a b : Database) : Prop where
  indistinct : a.Indistinct b
  identified : Identified a.memories
  left : a.Current tools.withSecrets
  right : b.Current tools.withSecrets

theorem SideBySide.symm (h : SideBySide tools a b) : SideBySide tools b a where
  indistinct := h.indistinct.symm
  identified := by
    unfold Identified
    rw [← h.indistinct.ids]
    exact h.identified
  left := h.right
  right := h.left

theorem edit_unnoticed (h : SideBySide tools a b) {m n : MemoryEntry} (hm : a.getById id = some m)
    (hmn : m.Alike n) (htexts : Unheard kind content other) (hstated : m.Says kind content)
    (hchanges : ¬ n.Says kind other) (clock : List Nat) :
    a.Indistinct (b.edited tools.withSecrets id kind other clock) := by
  obtain ⟨hkind, hcontent, hmetadata⟩ := hstated
  -- the second memory says something else, and so both are hidden
  have hhidden : Hidden m.content m.metadata ∧ Hidden other (inferMetadata kind other) := by
    rcases htexts with rfl | hhidden
    · rcases hmn.text with ⟨hsame, hsame'⟩ | ⟨hm', -⟩
      · exact absurd ⟨hmn.kind.symm.trans hkind, hsame.symm.trans hcontent,
          hsame'.symm.trans hmetadata⟩ hchanges
      · exact ⟨hm', by rwa [hcontent, hmetadata] at hm'⟩
    · rw [hcontent, hmetadata]
      exact hhidden
  refine edited_unnoticed h.indistinct h.left (fun m' hm' hid => ?_) hhidden.2 clock
  obtain ⟨hmem, hm_id⟩ := found_id hm
  rw [inj_on_of_nodup_map h.identified hm' hmem (hid.trans hm_id.symm)]
  exact ⟨hkind, hhidden.1⟩

theorem counterpart_smooth {command other : Command} (h : Counterpart a command other) :
    Smooth (perform tools command) ∧ Smooth (perform tools other) := by
  cases h with
  | store => exact ⟨.map _ (storeAs_smooth _ _ _), .map _ (storeAs_smooth _ _ _)⟩
  | storeEvergreen => exact ⟨.map _ (storeAs_smooth _ _ _), .map _ (storeAs_smooth _ _ _)⟩
  | updateManaged =>
    exact ⟨.map _ (updateManaged_smooth _ _ _), .map _ (updateManaged_smooth _ _ _)⟩
  | deleteById id => exact ⟨.map _ (deleteById_smooth id), .map _ (deleteById_smooth id)⟩

variable {clock : List Nat} {c d : Connection}

theorem storeAs_indistinct (h : a.Indistinct b) {evergreen : Bool}
    (htexts : Unheard kind (normalizeMemoryContent content) (normalizeMemoryContent other))
    {id id' : Nat}
    (hleft : storeAs tools.withSecrets evergreen kind content ⟨a, [], [], clock⟩ = (.ok id, c))
    (hright : storeAs tools.withSecrets evergreen kind other ⟨b, [], [], clock⟩ = (.ok id', d)) :
    c.db.Indistinct d.db := by
  rw [storeAs_run] at hleft hright
  generalize normalizeMemoryContent content = content, normalizeMemoryContent other = other
    at htexts hleft hright
  have hstored := @stored_indistinct kind content other tools a b h htexts evergreen
    (clock.headD 0)
  rw [← (Prod.mk.inj hleft).2, ← (Prod.mk.inj hright).2]
  exact hstored

theorem edit_indistinct (h : SideBySide tools a b) {content other : String} {kind : Option String}
    (htexts : ∀ existing nk, a.getById id = some existing → nextKind existing kind = .ok nk →
      Unheard nk (normalizeMemoryContent content) (normalizeMemoryContent other))
    {reply reply' : Bool}
    (hleft : updateManaged tools.withSecrets id content kind ⟨a, [], [], clock⟩ = (.ok reply, c))
    (hright : updateManaged tools.withSecrets id other kind ⟨b, [], [], clock⟩ = (.ok reply', d)) :
    c.db.Indistinct d.db := by
  rcases h.indistinct.getById id with ⟨hnone, hnone'⟩ | ⟨m, n, hm, hn, hmn⟩
  · rcases edit_cases hleft with ⟨-, hc⟩ | ⟨_, _, hfound, -⟩
    · rcases edit_cases hright with ⟨-, hd⟩ | ⟨_, _, hfound, -⟩
      · rw [hc, hd]
        exact h.indistinct
      · rw [hnone'] at hfound
        cases hfound
    · rw [hnone] at hfound
      cases hfound
  · rcases edit_cases hleft with ⟨hnone, -⟩ | ⟨_, nk, hfound, hkind, hleft⟩
    · rw [hnone] at hm
      cases hm
    · cases hm.symm.trans hfound
      have hunheard := htexts m nk hm hkind
      rcases edit_cases hright with ⟨hnone, -⟩ | ⟨_, nk', hfound, hkind', hright⟩
      · rw [hnone] at hn
        cases hn
      · cases hn.symm.trans hfound
        have hsame : nextKind m kind = nextKind n kind := by
          cases kind with
          | none => exact congrArg Except.ok hmn.kind
          | some kind => rfl
        rw [hsame, hkind'] at hkind
        cases hkind
        rcases hleft with ⟨hstated, hc⟩ | ⟨hchanges, hc⟩
        · rcases hright with ⟨-, hd⟩ | ⟨hchanges, hd⟩
          · rw [hc, hd]
            exact h.indistinct
          · rw [hc, hd]
            exact edit_unnoticed h hm hmn hunheard hstated hchanges clock
        · rcases hright with ⟨hstated, hd⟩ | ⟨-, hd⟩
          · rw [hc, hd]
            exact (edit_unnoticed h.symm hn hmn.symm hunheard.symm hstated hchanges clock).symm
          · rw [hc, hd]
            exact edited_indistinct h.indistinct hunheard clock

theorem perform_indistinct (h : SideBySide tools a b) {command other : Command}
    (hpart : Counterpart a command other) {reply reply' : Reply}
    (hleft : perform tools.withSecrets command ⟨a, [], [], clock⟩ = (.ok reply, c))
    (hright : perform tools.withSecrets other ⟨b, [], [], clock⟩ = (.ok reply', d)) :
    c.db.Indistinct d.db := by
  cases hpart with
  | store htexts =>
    rw [perform] at hleft hright
    obtain ⟨_, hleft⟩ := map_eq_ok hleft
    obtain ⟨_, hright⟩ := map_eq_ok hright
    exact storeAs_indistinct h.indistinct htexts hleft hright
  | storeEvergreen htexts =>
    rw [perform] at hleft hright
    obtain ⟨_, hleft⟩ := map_eq_ok hleft
    obtain ⟨_, hright⟩ := map_eq_ok hright
    exact storeAs_indistinct h.indistinct htexts hleft hright
  | updateManaged htexts =>
    rw [perform] at hleft hright
    obtain ⟨_, hleft⟩ := map_eq_ok hleft
    obtain ⟨_, hright⟩ := map_eq_ok hright
    exact edit_indistinct h htexts hleft hright
  | deleteById id =>
    rcases h.indistinct.getById id with ⟨hnone, hnone'⟩ | ⟨m, n, hm, hn, -⟩
    · rw [perform, map_apply_ok Reply.found (deleteById_absent _ _ hnone)] at hleft
      rw [perform, map_apply_ok Reply.found (deleteById_absent _ _ hnone')] at hright
      cases hleft
      cases hright
      exact h.indistinct
    · rw [perform, map_apply_ok Reply.found (deleteById_run _ _ hm)] at hleft
      rw [perform, map_apply_ok Reply.found (deleteById_run _ _ hn)] at hright
      cases hleft
      cases hright
      exact without_indistinct h.indistinct id

theorem counterpart_careful {command other : Command} (h : Counterpart a command other)
    (db : Database) (clock : List Nat) :
    Careful tools db ⟨command, [], [], clock⟩ ∧ Careful tools db ⟨other, [], [], clock⟩ := by
  have hok : AllOk [] := fun _ hok => by cases hok
  cases h with
  | store => exact ⟨trivial, trivial⟩
  | storeEvergreen => exact ⟨trivial, trivial⟩
  | updateManaged => exact ⟨.inl hok, .inl hok⟩
  | deleteById => exact ⟨.inl hok, .inl hok⟩

/-- Corresponding calls of the two stores that both returned. -/
structure Corresponds (e f : Machine.Event Database Call (Except MemoryError Reply)) : Prop where
  clock : e.input.clock = f.input.clock
  command : Counterpart e.before e.input.command f.input.command
  left : e.output.isOk = true
  right : f.output.isOk = true

theorem step_sideBySide (h : SideBySide tools a b) {call other : Call}
    (hcalls : Corresponds ((machine tools.withSecrets).eventAt a call)
      ((machine tools.withSecrets).eventAt b other)) :
    SideBySide tools ((machine tools.withSecrets).step a call).2
      ((machine tools.withSecrets).step b other).2 := by
  obtain ⟨hclock, hpart, hok, hok'⟩ := hcalls
  change call.clock = other.clock at hclock
  change Counterpart a call.command other.command at hpart
  obtain ⟨hsmooth, hsmooth'⟩ := @counterpart_smooth tools.withSecrets a _ _ hpart
  obtain ⟨reply, c, hrun, hstep⟩ := step_calm hsmooth hok
  obtain ⟨reply', d, hrun', hstep'⟩ := step_calm hsmooth' hok'
  have hleft := step_current h.left (counterpart_careful hpart a call.clock).1
  have hright := step_current h.right (counterpart_careful hpart b other.clock).2
  rw [step_snd, connect_mk] at hleft hright
  rw [hrun] at hleft
  rw [hrun'] at hright
  refine ⟨?_, ?_, ?_, ?_⟩
  · rw [← hclock] at hrun'
    rw [hstep, hstep']
    exact perform_indistinct h hpart hrun hrun'
  · exact (perform_identified call.command).after (s := call.connect a) h.identified
  · rw [hstep]
    exact hleft
  · rw [hstep']
    exact hright

theorem run_sideBySide (h : SideBySide tools a b) {calls others : List Call}
    (hcalls : List.Forall₂ Corresponds ((machine tools.withSecrets).trace a calls)
      ((machine tools.withSecrets).trace b others)) :
    SideBySide tools ((machine tools.withSecrets).run a calls)
      ((machine tools.withSecrets).run b others) := by
  induction calls generalizing a b others with
  | nil =>
    cases others with
    | nil => exact h
    | cons other others => cases hcalls
  | cons call calls ih =>
    cases others with
    | nil => cases hcalls
    | cons other others =>
      rw [Machine.trace_cons, Machine.trace_cons] at hcalls
      obtain ⟨hfirst, hrest⟩ := List.forall₂_cons.mp hcalls
      exact ih (step_sideBySide h hfirst) hrest

theorem sideBySide_fresh : SideBySide tools {} {} where
  indistinct := ⟨.nil, rfl⟩
  identified := nodup_nil
  left _ row hrow := by cases hrow
  right _ row hrow := by cases hrow

end

/-- Two stores whose calls differ in hidden texts have the same derived rows, and answer every
query alike. -/
theorem answers_indistinct (tools : TextTools) (calls others : List Call)
    (hcalls : List.Forall₂ Corresponds ((machine tools.withSecrets).trace {} calls)
      ((machine tools.withSecrets).trace {} others))
    (earlier later : List AnswerStage) (query : String) :
    structuredHouseholdAnswer earlier later ((machine tools.withSecrets).run {} calls).derived
        query =
      structuredHouseholdAnswer earlier later ((machine tools.withSecrets).run {} others).derived
        query := by
  rw [(run_sideBySide sideBySide_fresh hcalls).indistinct.derived]

theorem store_event (tools : TextTools) (db : Database) (kind content : String) (clock : List Nat) :
    (machine tools).eventAt db ⟨.store kind content, [], [], clock⟩ =
      ⟨db, ⟨.store kind content, [], [], clock⟩, .ok (.stored db.nextId),
        stored db tools kind (normalizeMemoryContent content) false (clock.headD 0)⟩ := by
  have hrun := @storeAs_run db clock tools kind content false
  generalize stored db tools kind (normalizeMemoryContent content) false (clock.headD 0) = after
    at hrun ⊢
  refine eventAt_of_perform (c := ⟨after, [], [], clock.tail⟩) ?_
  rw [perform, connect_mk, store, map_apply_ok Reply.stored hrun]

/-- Two stores in which different things are said of persons. -/
theorem answers_indistinct_person :
    structuredHouseholdAnswer [] [] ((machine asciiTools.withSecrets).run {}
        [⟨.store "shopping" "Shopping list: milk", [], [], [0]⟩,
          ⟨.store "person" "Mom likes tea", [], [], [1]⟩]).derived "what is on the shopping list" =
      structuredHouseholdAnswer [] [] ((machine asciiTools.withSecrets).run {}
        [⟨.store "shopping" "Shopping list: milk", [], [], [0]⟩,
          ⟨.store "person" "Dad plays chess", [], [], [1]⟩]).derived
        "what is on the shopping list" := by
  have hunheard : Unheard "person" (normalizeMemoryContent "Mom likes tea")
      (normalizeMemoryContent "Dad plays chess") := by
    have hhidden : ∀ content ∈ ["Mom likes tea", "Dad plays chess"],
        (assessMemoryRead (inferMetadata "person" (normalizeMemoryContent content))
            MemoryReadContext.sharedRoomVoice).allowed = false ∧
          secretTypeFromText (toAsciiLowercase (normalizeMemoryContent content)) = none := by
      decide +kernel
    exact .inr ⟨hhidden _ (by decide), hhidden _ (by decide)⟩
  have hcorresponds : ∀ (a b : Database) (kind content other : String) (clock : List Nat),
      Unheard kind (normalizeMemoryContent content) (normalizeMemoryContent other) →
      Corresponds ((machine asciiTools.withSecrets).eventAt a ⟨.store kind content, [], [], clock⟩)
        ((machine asciiTools.withSecrets).eventAt b ⟨.store kind other, [], [], clock⟩) := by
    intro a b kind content other clock h
    rw [store_event, store_event]
    exact ⟨rfl, .store h, rfl, rfl⟩
  refine answers_indistinct asciiTools _ _ ?_ [] [] _
  rw [Machine.trace_cons, Machine.trace_cons, Machine.trace_cons, Machine.trace_cons]
  exact .cons (hcorresponds _ _ _ _ _ [0] (.inl rfl))
    (.cons (hcorresponds _ _ _ _ _ [1] hunheard) .nil)

end GenieClaw.Memory
