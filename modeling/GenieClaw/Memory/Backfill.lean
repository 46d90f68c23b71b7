import GenieClaw.Memory.Canonical
import GenieClaw.Memory.Rows

/-!
# The backfill of the policy columns

`backfill_policy_columns` of `memory/mod.rs` on the columns as they are stored, which hold any
text. It tells for each column whether it has its default, but then writes all three.

* `foldl_backfillRow`: the rows that are still to come are as they were.
* `backfill_discreet_iff` (no assumption): the backfill discloses nothing exactly if no row is
  `Opened`.
-/

namespace GenieClaw.Memory

open Library Library.Text List

def MemoryScope.fromStorage (value : String) : MemoryScope :=
  match toAsciiLowercase (trim value) with
  | "session" => .session
  | "person" => .person
  | "private" => .«private»
  | _ => .household

def MemorySensitivity.fromStorage (value : String) : MemorySensitivity :=
  match toAsciiLowercase (trim value) with
  | "cautious" => .cautious
  | "restricted" => .restricted
  | _ => .normal

def SpokenMemoryPolicy.fromStorage (value : String) : SpokenMemoryPolicy :=
  match toAsciiLowercase (trim value) with
  | "confirm" => .confirm
  | "app_only" => .appOnly
  | "deny" => .deny
  | _ => .allow

/-- The columns of a memory that the backfill reads and writes. -/
structure PolicyRow where
  id : Int
  kind : String
  content : String
  scope : String
  sensitivity : String
  spokenPolicy : String
deriving DecidableEq

namespace PolicyRow

/-- The policy of a memory as it is read back. -/
def metadata (row : PolicyRow) : MemoryPolicyMetadata :=
  ⟨.fromStorage row.scope, .fromStorage row.sensitivity, .fromStorage row.spokenPolicy⟩

/-- The column is blank or has its default. -/
def isDefault (default value : String) : Bool :=
  trim value = "" || eqIgnoreAsciiCase value default

def needsScope (row : PolicyRow) : Bool := isDefault "household" row.scope

def needsSensitivity (row : PolicyRow) : Bool := isDefault "normal" row.sensitivity

def needsPolicy (row : PolicyRow) : Bool := isDefault "allow" row.spokenPolicy

def needsBackfill (row : PolicyRow) : Bool :=
  row.needsScope || row.needsSensitivity || row.needsPolicy

def setPolicy (row : PolicyRow) (metadata : MemoryPolicyMetadata) : PolicyRow :=
  { row with
    scope := metadata.scope.asStr
    sensitivity := metadata.sensitivity.asStr
    spokenPolicy := metadata.spokenPolicy.asStr }

/-- The row is as the schema made it. -/
def AtDefaults (row : PolicyRow) : Prop :=
  row.scope = "household" ∧ row.sensitivity = "normal" ∧ row.spokenPolicy = "allow"

end PolicyRow

/-- The table `memories`. -/
structure PolicyTable where
  rows : List PolicyRow
  primaryKey : (rows.map PolicyRow.id).Nodup

/-- `UPDATE memories SET scope, sensitivity, spoken_policy WHERE id`. -/
def updatePolicy (id : Int) (metadata : MemoryPolicyMetadata) (rows : List PolicyRow) :
    List PolicyRow :=
  rows.map fun row => if row.id = id then row.setPolicy metadata else row

theorem updatePolicy_ids (id : Int) (metadata : MemoryPolicyMetadata) (rows : List PolicyRow) :
    (updatePolicy id metadata rows).map PolicyRow.id = rows.map PolicyRow.id := by
  rw [updatePolicy, map_map]
  apply map_congr_left
  intro row _
  rw [Function.comp_apply]
  split_ifs
  · rfl
  · rfl

namespace PolicyTable

def update (table : PolicyTable) (id : Int) (metadata : MemoryPolicyMetadata) : PolicyTable where
  rows := updatePolicy id metadata table.rows
  primaryKey := updatePolicy_ids id metadata table.rows ▸ table.primaryKey

/-- The turn of the loop for a row as it was selected. -/
def backfillRow (table : PolicyTable) (row : PolicyRow) : PolicyTable :=
  if row.needsBackfill then table.update row.id (inferMetadata row.kind row.content) else table

/-- `backfill_policy_columns`: the rows are selected before the first is written. -/
def backfillPolicyColumns (table : PolicyTable) : PolicyTable :=
  table.rows.foldl backfillRow table

end PolicyTable

/-! ## Who a memory is disclosed to -/

/-- Those whom a policy admits. -/
inductive Audience where
  | nobody
  | identified
  | everyone
deriving DecidableEq

def Audience.rank : Audience → Nat
  | .nobody => 0
  | .identified => 1
  | .everyone => 2

def MemoryPolicyMetadata.audience (metadata : MemoryPolicyMetadata) : Audience :=
  if metadata.spokenPolicy = .deny ∨ metadata.sensitivity = .restricted then .nobody
  else
    match metadata.scope with
    | .«private» => .nobody
    | .person => .identified
    | .session | .household => if metadata.spokenPolicy = .allow then .everyone else .nobody

/-- The speaker of this context belongs to the audience. -/
def Audience.Admits (audience : Audience) (context : MemoryReadContext) : Prop :=
  match audience with
  | .nobody => False
  | .identified => context.explicitNamedPerson = true ∨ .medium ≤ context.identityConfidence
  | .everyone => True

instance (audience : Audience) (context : MemoryReadContext) :
    Decidable (audience.Admits context) :=
  match audience with
  | .nobody => inferInstanceAs (Decidable False)
  | .identified => inferInstanceAs (Decidable (_ ∨ _))
  | .everyone => inferInstanceAs (Decidable True)

theorem allowed_iff (metadata : MemoryPolicyMetadata) (context : MemoryReadContext) :
    (assessMemoryRead metadata context).allowed = true ↔ metadata.audience.Admits context := by
  obtain ⟨scope, sensitivity, spokenPolicy⟩ := metadata
  unfold assessMemoryRead MemoryPolicyMetadata.audience
  by_cases hrefused : spokenPolicy = .deny ∨ sensitivity = .restricted
  · rw [if_pos hrefused, if_pos hrefused]
    exact iff_of_false Bool.false_ne_true id
  · rw [if_neg hrefused, if_neg hrefused]
    cases scope with
    | «private» =>
      dsimp only
      refine iff_of_false ?_ id
      split_ifs <;> exact Bool.false_ne_true
    | person =>
      dsimp only
      split_ifs with heligible
      · exact iff_of_true rfl heligible
      · exact iff_of_false Bool.false_ne_true heligible
    | session => cases spokenPolicy <;> simp [decisionForMetadata, Audience.Admits]
    | household => cases spokenPolicy <;> simp [decisionForMetadata, Audience.Admits]

/-- A named speaker of whom nothing else is known. -/
def namedSpeaker : MemoryReadContext :=
  { MemoryReadContext.sharedRoomVoice with explicitNamedPerson := true }

theorem admits_le_iff (audience audience' : Audience) :
    (∀ context, audience.Admits context → audience'.Admits context) ↔
      audience.rank ≤ audience'.rank := by
  constructor
  · intro h
    cases audience with
    | nobody => exact Nat.zero_le _
    | identified =>
      have hnamed := h namedSpeaker (.inl rfl)
      cases audience' with
      | nobody => exact hnamed.elim
      | identified => exact Nat.le_refl _
      | everyone => exact Nat.le_succ _
    | everyone =>
      have hroom := h .sharedRoomVoice trivial
      cases audience' with
      | nobody => exact hroom.elim
      | identified => exact absurd hroom (by decide)
      | everyone => exact Nat.le_refl _
  · intro h context hadmits
    cases audience with
    | nobody => exact hadmits.elim
    | identified =>
      cases audience' with
      | nobody => exact absurd h (by decide)
      | identified => exact hadmits
      | everyone => trivial
    | everyone =>
      cases audience' with
      | nobody => exact absurd h (by decide)
      | identified => exact absurd h (by decide)
      | everyone => trivial

theorem allowed_le_iff (metadata metadata' : MemoryPolicyMetadata) :
    (∀ context, (assessMemoryRead metadata context).allowed = true →
        (assessMemoryRead metadata' context).allowed = true) ↔
      metadata.audience.rank ≤ metadata'.audience.rank := by
  rw [← admits_le_iff]
  exact forall_congr' fun context => by rw [allowed_iff, allowed_iff]

/-! ## Stored columns -/

@[simp] theorem MemoryScope.fromStorage_asStr (scope : MemoryScope) :
    MemoryScope.fromStorage scope.asStr = scope := by
  cases scope <;> decide

@[simp] theorem MemorySensitivity.fromStorage_asStr (sensitivity : MemorySensitivity) :
    MemorySensitivity.fromStorage sensitivity.asStr = sensitivity := by
  cases sensitivity <;> decide

@[simp] theorem SpokenMemoryPolicy.fromStorage_asStr (spokenPolicy : SpokenMemoryPolicy) :
    SpokenMemoryPolicy.fromStorage spokenPolicy.asStr = spokenPolicy := by
  cases spokenPolicy <;> decide

variable {row : PolicyRow}

namespace PolicyRow

@[simp] theorem setPolicy_metadata (row : PolicyRow) (metadata : MemoryPolicyMetadata) :
    (row.setPolicy metadata).metadata = metadata := by
  unfold PolicyRow.metadata setPolicy
  simp

theorem AtDefaults.audience (h : row.AtDefaults) : row.metadata.audience = .everyone := by
  obtain ⟨hscope, hsensitivity, hpolicy⟩ := h
  rw [PolicyRow.metadata, hscope, hsensitivity, hpolicy]
  decide

theorem AtDefaults.allowed (h : row.AtDefaults) (context : MemoryReadContext) :
    (assessMemoryRead row.metadata context).allowed = true := by
  rw [allowed_iff, h.audience]
  trivial

/-- What the backfill makes of a row. -/
def backfilled (row : PolicyRow) : PolicyRow :=
  if row.needsBackfill then row.setPolicy (inferMetadata row.kind row.content) else row

@[simp] theorem backfilled_id (row : PolicyRow) : row.backfilled.id = row.id := by
  unfold backfilled
  split_ifs
  · rfl
  · rfl

theorem backfilled_backfilled (row : PolicyRow) : row.backfilled.backfilled = row.backfilled := by
  by_cases hneeds : row.needsBackfill = true
  · have hrow : row.backfilled = row.setPolicy (inferMetadata row.kind row.content) :=
      if_pos hneeds
    rw [hrow, backfilled]
    split_ifs
    · rfl
    · rfl
  · have hrow : row.backfilled = row := if_neg hneeds
    rw [hrow, hrow]

/-- A row with a default that the inferred policy opens to more people than the stored one. -/
def Opened (row : PolicyRow) : Prop :=
  row.needsBackfill = true ∧
    row.metadata.audience.rank < (inferMetadata row.kind row.content).audience.rank

instance (row : PolicyRow) : Decidable row.Opened := inferInstanceAs (Decidable (_ ∧ _))

theorem audience_backfilled_le_iff (row : PolicyRow) :
    row.backfilled.metadata.audience.rank ≤ row.metadata.audience.rank ↔ ¬ row.Opened := by
  unfold backfilled Opened
  split_ifs with hneeds
  · rw [setPolicy_metadata]
    simp only [hneeds, true_and, Nat.not_lt]
  · exact iff_of_true (Nat.le_refl _) fun h => hneeds h.1

end PolicyRow

/-! ## The loop -/

theorem updatePolicy_own {before after : List PolicyRow}
    (h : ((before ++ row :: after).map PolicyRow.id).Nodup) (metadata : MemoryPolicyMetadata) :
    updatePolicy row.id metadata (before ++ row :: after) =
      before ++ row.setPolicy metadata :: after := by
  rw [map_append, map_cons, nodup_append, nodup_cons] at h
  obtain ⟨-, ⟨hafter, -⟩, hbefore⟩ := h
  have hkeep : ∀ rows : List PolicyRow, row.id ∉ rows.map PolicyRow.id →
      (rows.map fun r => if r.id = row.id then r.setPolicy metadata else r) = rows := by
    intro rows hrows
    conv_rhs => rw [← map_id rows]
    apply map_congr_left
    intro r hr
    refine if_neg fun heq => hrows ?_
    rw [← heq]
    exact mem_map_of_mem hr
  rw [updatePolicy, map_append, map_cons, if_pos rfl, hkeep after hafter, hkeep before]
  intro hmem
  exact hbefore _ hmem _ mem_cons_self rfl

namespace PolicyTable

theorem backfillRow_rows (table : PolicyTable) {before after : List PolicyRow}
    (h : table.rows = before ++ row :: after) :
    (table.backfillRow row).rows = before ++ row.backfilled :: after := by
  unfold backfillRow PolicyRow.backfilled
  split_ifs
  · have hkeys := table.primaryKey
    have hrows : (table.update row.id (inferMetadata row.kind row.content)).rows =
        updatePolicy row.id (inferMetadata row.kind row.content) table.rows := rfl
    rw [h] at hkeys
    rw [hrows, h]
    exact updatePolicy_own hkeys _
  · exact h

/-- By induction on the rows that were selected: those behind in the table are still as they
were. -/
theorem foldl_backfillRow (table : PolicyTable) {before selected : List PolicyRow}
    (h : table.rows = before ++ selected) :
    (selected.foldl backfillRow table).rows = before ++ selected.map PolicyRow.backfilled := by
  induction selected generalizing table before with
  | nil => exact h
  | cons row rest ih =>
    have hrow := table.backfillRow_rows h
    rw [append_cons] at hrow
    rw [foldl_cons, ih (table.backfillRow row) hrow, map_cons, ← append_cons]

theorem backfillPolicyColumns_rows (table : PolicyTable) :
    table.backfillPolicyColumns.rows = table.rows.map PolicyRow.backfilled :=
  table.foldl_backfillRow (nil_append _).symm

/-! ## What the backfill discloses -/

/-- Whoever is told a memory after the backfill was told it before, unless its columns were all at
their defaults, and a second backfill changes nothing. -/
structure Discreet (table : PolicyTable) : Prop where
  monotone : ∀ row ∈ table.rows, ∀ row' ∈ table.backfillPolicyColumns.rows, row'.id = row.id →
    ∀ context, (assessMemoryRead row'.metadata context).allowed = true →
      (assessMemoryRead row.metadata context).allowed = true ∨ row.AtDefaults
  idempotent : table.backfillPolicyColumns.backfillPolicyColumns.rows =
    table.backfillPolicyColumns.rows

theorem backfilled_of_id (table : PolicyTable) {row row' : PolicyRow} (hrow : row ∈ table.rows)
    (hrow' : row' ∈ table.backfillPolicyColumns.rows) (hid : row'.id = row.id) :
    row' = row.backfilled := by
  rw [backfillPolicyColumns_rows] at hrow'
  obtain ⟨source, hsource, rfl⟩ := List.mem_map.mp hrow'
  rw [PolicyRow.backfilled_id] at hid
  rw [inj_on_of_nodup_map table.primaryKey hsource hrow hid]

theorem backfill_idempotent (table : PolicyTable) :
    table.backfillPolicyColumns.backfillPolicyColumns.rows = table.backfillPolicyColumns.rows := by
  rw [backfillPolicyColumns_rows, backfillPolicyColumns_rows, map_map]
  apply map_congr_left
  intro row _
  rw [Function.comp_apply, PolicyRow.backfilled_backfilled]

theorem discreet_rows (table : PolicyTable) : table.Discreet ↔ ∀ row ∈ table.rows,
    row.backfilled.metadata.audience.rank ≤ row.metadata.audience.rank := by
  constructor
  · rintro ⟨hmonotone, -⟩ row hrow
    have hrow' : row.backfilled ∈ table.backfillPolicyColumns.rows := by
      rw [backfillPolicyColumns_rows]
      exact mem_map_of_mem hrow
    have hread := hmonotone row hrow row.backfilled hrow' row.backfilled_id
    rw [← allowed_le_iff]
    intro context hallowed
    rcases hread context hallowed with hbefore | hdefaults
    · exact hbefore
    · exact hdefaults.allowed context
  · intro h
    refine ⟨?_, table.backfill_idempotent⟩
    intro row hrow row' hrow' hid context hallowed
    have hsame := table.backfilled_of_id hrow hrow' hid
    rw [hsame] at hallowed
    have hle := h row hrow
    rw [← allowed_le_iff] at hle
    exact .inl (hle context hallowed)

/-- The backfill discloses no memory to more people exactly if no row has a default in one column
and is kept by the others from people whom its inferred policy admits. -/
theorem backfill_discreet_iff (table : PolicyTable) :
    table.Discreet ↔ ∀ row ∈ table.rows, ¬ row.Opened := by
  rw [discreet_rows]
  exact forall₂_congr fun row _ => row.audience_backfilled_le_iff

/-- A memory that was made private, with the sensitivity left at its default. -/
def privateRow : PolicyRow where
  id := 1
  kind := "fact"
  content := "the cabin is booked in june"
  scope := "private"
  sensitivity := "normal"
  spokenPolicy := "app_only"

def privateTable : PolicyTable := ⟨[privateRow], nodup_singleton _⟩

theorem private_row_disclosed : ¬ ∀ table : PolicyTable, table.Discreet := by
  intro h
  have hrow :=
    (discreet_rows privateTable).mp (h privateTable) privateRow (mem_singleton_self _)
  revert hrow
  decide +kernel

end PolicyTable

end GenieClaw.Memory
