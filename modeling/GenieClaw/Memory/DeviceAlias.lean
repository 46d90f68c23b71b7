import GenieClaw.Library.Text
import Mathlib.Data.List.Sort

/-!
# Device aliases

The `device_alias` query of `memory/mod.rs` over the two tables it joins. An alias row
belongs to the memory it was taken from; among the rows of one normalised alias an
evergreen memory beats a promoted one, which beats the others, and the oldest memory wins
a tie.
-/

namespace GenieClaw.Memory

open Library.Text

structure MemoryRow where
  id : Int
  evergreen : Int
  promoted : Int
deriving DecidableEq

structure DeviceAliasRow where
  sourceMemoryId : Int
  aliasText : String
  normalizedAlias : String
  targetId : String
  kind : String
deriving DecidableEq

structure DeviceAlias where
  sourceMemoryId : Int
  aliasText : String
  targetId : String
  kind : String
deriving DecidableEq

/-- `queryError` is what a query fails with while the store cannot be read. -/
structure MemoryStore where
  memories : List MemoryRow := []
  deviceAliases : List DeviceAliasRow := []
  queryError : Option String := none
deriving DecidableEq

/-- Lower case, with everything but ASCII letters, digits and white space as a blank, and
the words joined by single blanks. -/
def normalizeAliasKey (value : String) : String :=
  joinWith " " (splitWhitespace (String.ofList ((toAsciiLowercase value).toList.map fun ch =>
    if isAsciiAlphanumeric ch || isAsciiWhitespace ch then ch else ' ')))

/-- `ORDER BY m.evergreen DESC, m.promoted DESC, da.source_memory_id ASC`. -/
def Precedes (a b : MemoryRow × DeviceAliasRow) : Prop :=
  b.1.evergreen < a.1.evergreen ∨
    (a.1.evergreen = b.1.evergreen ∧
      (b.1.promoted < a.1.promoted ∨
        (a.1.promoted = b.1.promoted ∧ a.2.sourceMemoryId ≤ b.2.sourceMemoryId)))

instance (a b : MemoryRow × DeviceAliasRow) : Decidable (Precedes a b) := by
  unfold Precedes
  infer_instance

namespace MemoryStore

/-- The alias rows of a key with the memories they belong to. -/
def aliasRows (store : MemoryStore) (key : String) : List (MemoryRow × DeviceAliasRow) :=
  store.deviceAliases.flatMap fun row =>
    if row.normalizedAlias = key then
      (store.memories.filter fun m => m.id = row.sourceMemoryId).map fun m => (m, row)
    else []

def deviceAlias (store : MemoryStore) (query : String) : Except String (Option DeviceAlias) :=
  let normalized := normalizeAliasKey query
  if normalized.toList = [] then .ok none
  else match store.queryError with
    | some e => .error e
    | none =>
      .ok (((store.aliasRows normalized).insertionSort Precedes).head?.map fun found =>
        { sourceMemoryId := found.2.sourceMemoryId, aliasText := found.2.aliasText,
          targetId := found.2.targetId, kind := found.2.kind })

end MemoryStore

/-- The alias a lookup finds; a store that is missing or cannot be read has none. -/
def aliasOf (memory : Option MemoryStore) (query : String) : Option DeviceAlias :=
  memory.bind fun store => (store.deviceAlias query).toOption.join

/-- `resolve_device_alias`: the target of the alias, or the query itself. -/
def resolveDeviceAlias (memory : Option MemoryStore) (query : String) : String :=
  match memory with
  | none => query
  | some store =>
    match store.deviceAlias query with
    | .ok (some found) => found.targetId
    | .ok none => query
    | .error _ => query

theorem resolveDeviceAlias_eq (memory : Option MemoryStore) (query : String) :
    resolveDeviceAlias memory query =
      match aliasOf memory query with
      | some found => found.targetId
      | none => query := by
  cases memory with
  | none => rfl
  | some store =>
    unfold resolveDeviceAlias aliasOf
    dsimp only [Option.bind_some]
    cases store.deviceAlias query with
    | error e => rfl
    | ok found =>
      cases found with
      | none => rfl
      | some row => rfl

end GenieClaw.Memory
