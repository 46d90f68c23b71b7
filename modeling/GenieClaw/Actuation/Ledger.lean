import GenieClaw.Actuation.Origin
import GenieClaw.Home.Provider
import Mathlib.Data.Finset.Basic
import Mathlib.Data.List.DropRight

/-!
# The action ledger

The `ActionLedger` of `tools/actuation.rs`: the last 32 executed actions, oldest first,
with the ids of those that were undone. Ids count up from the last one issued.

* `recordInternal_spec`, `hydrate_spec`: what recording and hydrating do to the ledger.
* `undoable_of_undo`: what is undoable after an undo was so before, and is not what was undone.
-/

namespace GenieClaw.Actuation

open Library Home List

def actionHistoryLimit : Nat := 32

structure UndoRestore where
  action : String
  value : Option F64
deriving DecidableEq

namespace UndoRestore

def sameValue : Option F64 → Option F64 → Bool
  | none, none => true
  | some x, some y => x.eq y
  | _, _ => false

/-- `==`, with the equality of doubles. -/
def eq (a b : UndoRestore) : Bool := a.action == b.action && sameValue a.value b.value

end UndoRestore

structure RecordedAction where
  id : Nat
  undoOf : Option Nat
  entity : String
  action : String
  value : Option F64
  inverseAction : Option String
  undoRestore : Option UndoRestore
  origin : RequestOrigin
  summary : String
  confidence : Option F32
  executedMs : Nat
deriving DecidableEq

/-- Undo suffix of an `action_history` line; `displayF64` is the text `{}` prints. -/
def RecordedAction.actionHistoryUndoHint (displayF64 : F64 → String) (item : RecordedAction) :
    String :=
  match item.inverseAction, item.undoRestore with
  | some inverse, _ => " undo: " ++ inverse
  | none, some restore =>
    match restore.value with
    | some value => " undo: " ++ restore.action ++ " " ++ displayF64 value
    | none => " undo: " ++ restore.action
  | none, none => " not undoable"

structure ActionLedgerState where
  nextId : Nat := 0
  actions : List RecordedAction := []
  undoneActionIds : Finset Nat := ∅

def inverseAction : String → Option String
  | "turn_on" => some "turn_off"
  | "turn_off" => some "turn_on"
  | "open" => some "close"
  | "close" => some "open"
  | "lock" => some "unlock"
  | "unlock" => some "lock"
  | _ => none

/-- The loop that drops the oldest entries beyond the limit, with their undone marks. -/
def evict : List RecordedAction → Finset Nat → List RecordedAction × Finset Nat
  | [], undone => ([], undone)
  | removed :: rest, undone =>
    if actionHistoryLimit < rest.length + 1 then evict rest (undone.erase removed.id)
    else (removed :: rest, undone)

namespace ActionLedgerState

def recordInternal (entity action : String) (value : Option F64) (origin : RequestOrigin)
    (summary : String) (confidence : Option F32) (undoOf : Option Nat)
    (undoRestore : Option UndoRestore) (nowMs : Nat) (state : ActionLedgerState) :
    RecordedAction × ActionLedgerState :=
  let item : RecordedAction :=
    { id := state.nextId + 1, undoOf, entity, action, value,
      inverseAction := inverseAction action, undoRestore, origin, summary, confidence,
      executedMs := nowMs }
  let undone := match undoOf with
    | some originalId => insert originalId state.undoneActionIds
    | none => state.undoneActionIds
  let (actions, undone) := evict (state.actions ++ [item]) undone
  (item, { nextId := state.nextId + 1, actions, undoneActionIds := undone })

def record (entity action : String) (value : Option F64) (origin : RequestOrigin)
    (summary : String) (confidence : Option F32) (undoRestore : Option UndoRestore)
    (nowMs : Nat) (state : ActionLedgerState) : RecordedAction × ActionLedgerState :=
  state.recordInternal entity action value origin summary confidence none undoRestore nowMs

def recordUndo (originalId : Nat) (entity action : String) (value : Option F64)
    (origin : RequestOrigin) (summary : String) (confidence : Option F32)
    (undoRestore : Option UndoRestore) (nowMs : Nat) (state : ActionLedgerState) :
    RecordedAction × ActionLedgerState :=
  state.recordInternal entity action value origin summary confidence (some originalId)
    undoRestore nowMs

/-- Newest first. -/
def list (state : ActionLedgerState) : List RecordedAction := state.actions.reverse

def undoable (state : ActionLedgerState) (item : RecordedAction) : Bool :=
  item.undoOf.isNone && !decide (item.id ∈ state.undoneActionIds) &&
    (item.undoRestore.isSome || item.inverseAction.isSome)

def lastUndoable (state : ActionLedgerState) : Option RecordedAction :=
  state.actions.reverse.find? state.undoable

/-- The newest 32 of a list, in its order. -/
def newest (actions : List RecordedAction) : List RecordedAction :=
  (actions.reverse.take actionHistoryLimit).reverse

def hydrateStep (state : ActionLedgerState) (action : RecordedAction) : ActionLedgerState where
  nextId := max state.nextId action.id
  actions := state.actions ++ [action]
  undoneActionIds := match action.undoOf with
    | some originalId => insert originalId state.undoneActionIds
    | none => state.undoneActionIds

def hydrate (actions : List RecordedAction) : ActionLedgerState :=
  (newest actions).foldl hydrateStep {}

end ActionLedgerState

/-- The `home_control` arguments that restore the state before the action. The keys of a
JSON object stand in alphabetical order. -/
def undoHomeControlArgs (item : RecordedAction) : Option Json :=
  match item.undoRestore with
  | some restore =>
    some (.object ([("action", .string restore.action), ("entity", .string item.entity)] ++
      match restore.value with
      | some value => [("value", Json.ofOptionF64 (some value))]
      | none => []))
  | none => item.inverseAction.map fun inverse =>
    .object [("action", .string inverse), ("entity", .string item.entity)]

/-! ## Restoring a prior state -/

def undoRestoreForPowerState : String → Option UndoRestore
  | "on" => some ⟨"turn_on", none⟩
  | "off" => some ⟨"turn_off", none⟩
  | "open" => some ⟨"open", none⟩
  | "closed" => some ⟨"close", none⟩
  | "locked" => some ⟨"lock", none⟩
  | "unlocked" => some ⟨"unlock", none⟩
  | _ => none

def restoreForEntity (action : String) (entity : Entity) : Option UndoRestore :=
  match action with
  | "set_brightness" =>
    if entity.state = "off" then some ⟨"turn_off", none⟩
    else do
      let brightness ← (← entity.attributes.get "brightness").asU64
      some ⟨"set_brightness", some (((F64.ofNat brightness).mulNat 100).divNat 255)⟩
  | "set_temperature" =>
    if entity.state = "off" then some ⟨"turn_off", none⟩
    else do
      let temp ← ((entity.attributes.get "temperature").bind Json.asF64).or
        ((entity.attributes.get "target_temp").bind Json.asF64)
      some ⟨"set_temperature", some temp⟩
  | "toggle" => undoRestoreForPowerState entity.state
  | _ => none

def sameRestore : Option UndoRestore → Option UndoRestore → Bool
  | none, none => true
  | some a, some b => a.eq b
  | _, _ => false

/-- The call that restores `prior`, when it is the same for all its entities. -/
def undoRestoreFromPrior (action : String) (prior : HomeState) : Option UndoRestore :=
  match prior.entities with
  | [] => none
  | first :: rest =>
    let restore := restoreForEntity action first
    if rest.all (fun entity => sameRestore (restoreForEntity action entity) restore) then restore
    else none

/-! ## Eviction -/

theorem evict_actions (actions : List RecordedAction) (undone : Finset Nat) :
    ∃ old, actions = old ++ (evict actions undone).1 ∧
      ∀ id, id ∈ (evict actions undone).2 ↔ id ∈ undone ∧ id ∉ old.map RecordedAction.id := by
  induction actions generalizing undone with
  | nil => exact ⟨[], rfl, by simp [evict]⟩
  | cons removed rest ih =>
    unfold evict
    split
    · obtain ⟨old, hsplit, hundone⟩ := ih (undone.erase removed.id)
      refine ⟨removed :: old, by rw [cons_append, ← hsplit], fun id => ?_⟩
      rw [hundone, Finset.mem_erase, List.map_cons, List.mem_cons, not_or]
      tauto
    · exact ⟨[], rfl, by simp⟩

theorem length_evict (actions : List RecordedAction) (undone : Finset Nat) :
    (evict actions undone).1.length = min actions.length actionHistoryLimit := by
  induction actions generalizing undone with
  | nil => rfl
  | cons removed rest ih =>
    unfold evict
    split
    · rename_i hlong
      rw [ih, length_cons]
      omega
    · rename_i hfits
      rw [length_cons]
      omega

theorem evict_eq_rtake (actions : List RecordedAction) (undone : Finset Nat) :
    (evict actions undone).1 = actions.rtake actionHistoryLimit := by
  obtain ⟨old, hsplit, -⟩ := evict_actions actions undone
  have hlen := length_evict actions undone
  have htotal : actions.length = old.length + (evict actions undone).1.length := by
    rw [← length_append, ← hsplit]
  have hdrop : actions.length - actionHistoryLimit = old.length := by omega
  rw [List.rtake, hdrop]
  generalize (evict actions undone).1 = kept at hsplit ⊢
  rw [hsplit, drop_left]

/-! ## Order of ids -/

namespace ActionLedgerState

structure Ordered (state : ActionLedgerState) : Prop where
  increasing : state.actions.Pairwise (fun a b => a.id < b.id)
  bounded : ∀ item ∈ state.actions, item.id ≤ state.nextId

theorem ordered_empty : Ordered {} := ⟨.nil, by simp⟩

variable {item : RecordedAction} {state : ActionLedgerState} {entity action summary : String}
  {value : Option F64} {origin : RequestOrigin} {confidence : Option F32} {undoOf : Option Nat}
  {undoRestore : Option UndoRestore} {nowMs : Nat}

/-- What recording does: the new entry comes last, entries and marks only go from the
old end. -/
theorem recordInternal_spec (state : ActionLedgerState) (entity action : String)
    (value : Option F64) (origin : RequestOrigin) (summary : String) (confidence : Option F32)
    (undoOf : Option Nat) (undoRestore : Option UndoRestore) (nowMs : Nat) :
    let item : RecordedAction :=
      ⟨state.nextId + 1, undoOf, entity, action, value, inverseAction action, undoRestore, origin,
        summary, confidence, nowMs⟩
    let out := state.recordInternal entity action value origin summary confidence undoOf
      undoRestore nowMs
    out.1 = item ∧ out.2.nextId = state.nextId + 1 ∧
      ∃ old, state.actions ++ [item] = old ++ out.2.actions ∧
        ∀ id, id ∈ out.2.undoneActionIds ↔
          (undoOf = some id ∨ id ∈ state.undoneActionIds) ∧ id ∉ old.map RecordedAction.id := by
  intro item out
  refine ⟨rfl, rfl, ?_⟩
  obtain ⟨old, hsplit, hundone⟩ := evict_actions (state.actions ++ [item]) (match undoOf with
    | some originalId => insert originalId state.undoneActionIds
    | none => state.undoneActionIds)
  refine ⟨old, hsplit, fun id => (hundone id).trans ?_⟩
  cases undoOf with
  | none => simp
  | some originalId =>
    rw [Finset.mem_insert, Option.some.injEq]
    tauto

theorem Ordered.append (h : Ordered state) (hid : item.id = state.nextId + 1) :
    (state.actions ++ [item]).Pairwise (fun a b => a.id < b.id) := by
  rw [pairwise_append]
  refine ⟨h.increasing, pairwise_singleton _ _, fun a ha b hb => ?_⟩
  have hle := h.bounded a ha
  rw [List.mem_singleton.mp hb, hid]
  omega

theorem recordInternal_actions (state : ActionLedgerState) (entity action : String)
    (value : Option F64) (origin : RequestOrigin) (summary : String) (confidence : Option F32)
    (undoOf : Option Nat) (undoRestore : Option UndoRestore) (nowMs : Nat) :
    (state.recordInternal entity action value origin summary confidence undoOf undoRestore
        nowMs).2.actions =
      state.actions.rtake 31 ++ [⟨state.nextId + 1, undoOf, entity, action, value,
        inverseAction action, undoRestore, origin, summary, confidence, nowMs⟩] := by
  show (evict (state.actions ++ [_]) _).1 = _
  rw [evict_eq_rtake, actionHistoryLimit, rtake_concat_succ]

theorem Ordered.recordInternal (h : Ordered state) :
    Ordered (state.recordInternal entity action value origin summary confidence undoOf undoRestore
      nowMs).2 := by
  obtain ⟨-, hnext, old, hsplit, -⟩ := state.recordInternal_spec entity action value origin
    summary confidence undoOf undoRestore nowMs
  have hall : (old ++ (state.recordInternal entity action value origin summary confidence undoOf
      undoRestore nowMs).2.actions).Pairwise (fun a b => a.id < b.id) :=
    hsplit ▸ h.append rfl
  refine ⟨(List.pairwise_append.mp hall).2.1, fun a ha => ?_⟩
  have hmem : a ∈ state.actions ++ [_] := hsplit ▸ mem_append_right old ha
  rw [hnext]
  rcases List.mem_append.mp hmem with ha' | ha'
  · have := h.bounded a ha'
    omega
  · rw [mem_singleton] at ha'
    rw [ha']

/-! ## Hydration -/

theorem newest_eq_rtake (actions : List RecordedAction) :
    newest actions = actions.rtake actionHistoryLimit := by
  rw [newest, List.rtake, take_reverse, reverse_reverse]

theorem foldl_hydrateStep_spec (actions : List RecordedAction) (state : ActionLedgerState) :
    let out := actions.foldl hydrateStep state
    out.actions = state.actions ++ actions ∧
      (∀ id, id ∈ out.undoneActionIds ↔
        id ∈ state.undoneActionIds ∨ ∃ item ∈ actions, item.undoOf = some id) ∧
      state.nextId ≤ out.nextId ∧ (∀ item ∈ actions, item.id ≤ out.nextId) ∧
      (out.nextId = state.nextId ∨ ∃ item ∈ actions, item.id = out.nextId) := by
  induction actions generalizing state with
  | nil => simp
  | cons action rest ih =>
    intro out
    obtain ⟨hactions, hundone, hle, hbound, hlast⟩ := ih (state.hydrateStep action)
    have hnext : (state.hydrateStep action).nextId = max state.nextId action.id := rfl
    rw [hnext] at hle hlast
    refine ⟨?_, fun id => ?_, (le_max_left _ _).trans hle, ?_, ?_⟩
    · show (rest.foldl hydrateStep (state.hydrateStep action)).actions = _
      rw [hactions, hydrateStep, append_assoc]
      rfl
    · refine (hundone id).trans ?_
      have hmark : id ∈ (state.hydrateStep action).undoneActionIds ↔
          id ∈ state.undoneActionIds ∨ action.undoOf = some id := by
        unfold hydrateStep
        cases action.undoOf with
        | none => simp
        | some originalId =>
          simp only [Finset.mem_insert, Option.some.injEq]
          tauto
      rw [hmark, or_assoc, List.exists_mem_cons_iff]
    · intro item hitem
      rcases List.mem_cons.mp hitem with rfl | hitem
      · exact (le_max_right _ _).trans hle
      · exact hbound item hitem
    · rcases hlast with hlast | ⟨item, hitem, hid⟩
      · rcases max_choice state.nextId action.id with hmax | hmax
        · exact .inl (hlast.trans hmax)
        · exact .inr ⟨action, mem_cons_self, (hlast.trans hmax).symm⟩
      · exact .inr ⟨item, mem_cons_of_mem _ hitem, hid⟩

/-- A hydrated ledger holds the newest entries, takes its marks from them and counts on
from the greatest of their ids. -/
theorem hydrate_spec (actions : List RecordedAction) :
    (hydrate actions).actions = actions.rtake actionHistoryLimit ∧
      (∀ id, id ∈ (hydrate actions).undoneActionIds ↔
        ∃ item ∈ (hydrate actions).actions, item.undoOf = some id) ∧
      (∀ item ∈ (hydrate actions).actions, item.id ≤ (hydrate actions).nextId) ∧
      ((hydrate actions).nextId = 0 ∨
        ∃ item ∈ (hydrate actions).actions, item.id = (hydrate actions).nextId) := by
  obtain ⟨hactions, hundone, -, hbound, hlast⟩ := foldl_hydrateStep_spec (newest actions) {}
  have heq : (hydrate actions).actions = newest actions := hactions
  rw [heq, newest_eq_rtake]
  rw [newest_eq_rtake] at hundone hbound hlast
  refine ⟨rfl, fun id => ?_, ?_, ?_⟩
  · rw [hydrate, newest_eq_rtake, hundone]
    simp
  · rw [hydrate, newest_eq_rtake]
    exact hbound
  · rw [hydrate, newest_eq_rtake]
    exact hlast

/-! ## Ids out of reach of `lastUndoable` -/

/-- The id was issued, and no entry under it is undoable. -/
def Retired (state : ActionLedgerState) (id : Nat) : Prop :=
  id ≤ state.nextId ∧ ∀ item ∈ state.actions, item.id = id → state.undoable item = false

theorem lastUndoable_mem (h : state.lastUndoable = some item) :
    item ∈ state.actions ∧ state.undoable item = true :=
  ⟨List.mem_reverse.mp (mem_of_find?_eq_some h), find?_some h⟩

variable {id : Nat}

theorem Retired.not_lastUndoable (h : Retired state id) (hlast : state.lastUndoable = some item) :
    item.id ≠ id := by
  intro heq
  obtain ⟨hmem, hundoable⟩ := lastUndoable_mem hlast
  rw [h.2 item hmem heq] at hundoable
  cases hundoable

theorem undoable_of_recordInternal (h : Ordered state)
    (hmem : item ∈ (state.recordInternal entity action value origin summary confidence undoOf
      undoRestore nowMs).2.actions)
    (hundoable : (state.recordInternal entity action value origin summary confidence undoOf
      undoRestore nowMs).2.undoable item = true)
    (hold : item.id ≤ state.nextId) :
    item ∈ state.actions ∧ state.undoable item = true ∧ undoOf ≠ some item.id := by
  obtain ⟨-, -, old, hsplit, hundone⟩ := state.recordInternal_spec entity action value origin
    summary confidence undoOf undoRestore nowMs
  have hall : (old ++ (state.recordInternal entity action value origin summary confidence undoOf
      undoRestore nowMs).2.actions).Pairwise (fun a b => a.id < b.id) :=
    hsplit ▸ h.append rfl
  have hkept : item.id ∉ old.map RecordedAction.id := by
    rw [mem_map]
    rintro ⟨a, ha, heq⟩
    have := (List.pairwise_append.mp hall).2.2 a ha item hmem
    omega
  have hmem' : item ∈ state.actions := by
    have hin : item ∈ state.actions ++ [_] := hsplit ▸ mem_append_right old hmem
    rcases List.mem_append.mp hin with hin | hin
    · exact hin
    · rw [mem_singleton] at hin
      rw [hin] at hold
      exact absurd hold (Nat.not_succ_le_self _)
  unfold undoable at hundoable ⊢
  simp only [Bool.and_eq_true, Bool.not_eq_true', decide_eq_false_iff_not] at hundoable ⊢
  obtain ⟨⟨hnone, hnot⟩, hhas⟩ := hundoable
  rw [hundone item.id, not_and_not_right] at hnot
  refine ⟨hmem', ⟨⟨hnone, fun hin => hkept (hnot (.inr hin))⟩, hhas⟩,
    fun heq => hkept (hnot (.inl heq))⟩

theorem Retired.recordInternal (hret : Retired state id) (h : Ordered state) :
    Retired (state.recordInternal entity action value origin summary confidence undoOf undoRestore
      nowMs).2 id := by
  refine ⟨Nat.le_succ_of_le hret.1, fun item hmem heq => ?_⟩
  by_contra hundoable
  rw [Bool.not_eq_false] at hundoable
  obtain ⟨hmem', hundoable', -⟩ := undoable_of_recordInternal h hmem hundoable (heq ▸ hret.1)
  rw [hret.2 item hmem' heq] at hundoable'
  cases hundoable'

theorem retired_of_undo (h : Ordered state) (hid : id ≤ state.nextId) :
    Retired (state.recordInternal entity action value origin summary confidence (some id)
      undoRestore nowMs).2 id := by
  refine ⟨Nat.le_succ_of_le hid, fun item hmem heq => ?_⟩
  by_contra hundoable
  rw [Bool.not_eq_false] at hundoable
  obtain ⟨-, -, hne⟩ := undoable_of_recordInternal h hmem hundoable (heq ▸ hid)
  exact hne (congrArg some heq.symm)

theorem retired_undo_entry (h : Ordered state) :
    Retired (state.recordInternal entity action value origin summary confidence (some id)
      undoRestore nowMs).2 (state.nextId + 1) := by
  refine ⟨Nat.le_refl _, fun item hmem heq => ?_⟩
  obtain ⟨-, -, old, hsplit, -⟩ := state.recordInternal_spec entity action value origin
    summary confidence (some id) undoRestore nowMs
  have hin : item ∈ state.actions ++ [_] := hsplit ▸ mem_append_right old hmem
  rcases List.mem_append.mp hin with hin | hin
  · have := h.bounded item hin
    omega
  · rw [mem_singleton] at hin
    rw [hin]
    rfl

/-! ## Undoing walks back -/

theorem Ordered.le_lastUndoable (h : Ordered state) {item other : RecordedAction}
    (hlast : state.lastUndoable = some item) (hmem : other ∈ state.actions)
    (hundoable : state.undoable other = true) : other.id ≤ item.id := by
  obtain ⟨-, newer, older, hsplit, hnewer⟩ := List.find?_eq_some_iff_append.mp hlast
  have hin : other ∈ newer ++ item :: older := hsplit ▸ List.mem_reverse.mpr hmem
  have hback : (newer ++ item :: older).Pairwise (fun a b => b.id < a.id) := by
    rw [← hsplit, pairwise_reverse]
    exact h.increasing
  rcases List.mem_append.mp hin with hin | hin
  · have := hnewer other hin
    rw [hundoable] at this
    cases this
  · rcases List.mem_cons.mp hin with rfl | hin
    · exact Nat.le_refl _
    · have hrest := (List.pairwise_append.mp hback).2.1
      exact Nat.le_of_lt (rel_of_pairwise_cons hrest hin)

/-- Everything undoable is older than `id`. -/
def UndoableBefore (state : ActionLedgerState) (id : Nat) : Prop :=
  ∀ item ∈ state.actions, state.undoable item = true → item.id < id

/-- An entry that is undoable after an undo was recorded was undoable before, and is not
the one undone. -/
theorem undoable_of_undo (h : Ordered state)
    (hmem : item ∈ (state.recordInternal entity action value origin summary confidence (some id)
      undoRestore nowMs).2.actions)
    (hundoable : (state.recordInternal entity action value origin summary confidence (some id)
      undoRestore nowMs).2.undoable item = true) :
    item ∈ state.actions ∧ state.undoable item = true ∧ item.id ≠ id := by
  have hle := h.recordInternal.bounded item hmem
  have hne : item.id ≠ state.nextId + 1 := by
    intro heq
    rw [(retired_undo_entry h).2 item hmem heq] at hundoable
    cases hundoable
  obtain ⟨hmem', hundoable', hid⟩ := undoable_of_recordInternal h hmem hundoable
    (Nat.le_of_lt_succ (Nat.lt_of_le_of_ne hle hne))
  exact ⟨hmem', hundoable', fun heq => hid (congrArg some heq.symm)⟩

theorem undoableBefore_of_undo (h : Ordered state) {target : RecordedAction}
    (hlast : state.lastUndoable = some target) :
    UndoableBefore (state.recordInternal entity action value origin summary confidence
      (some target.id) undoRestore nowMs).2 target.id := by
  intro item hmem hundoable
  obtain ⟨hmem', hundoable', hne⟩ := undoable_of_undo h hmem hundoable
  exact Nat.lt_of_le_of_ne (h.le_lastUndoable hlast hmem' hundoable') hne

theorem UndoableBefore.recordUndo {id original : Nat} (hb : UndoableBefore state id)
    (h : Ordered state) :
    UndoableBefore (state.recordInternal entity action value origin summary confidence
      (some original) undoRestore nowMs).2 id := by
  intro item hmem hundoable
  obtain ⟨hmem', hundoable', -⟩ := undoable_of_undo h hmem hundoable
  exact hb item hmem' hundoable'

end ActionLedgerState

/-!
## The actuation audit log

The events of the `AuditLogger` of `tools/actuation.rs`, and what is read back from the
log at the next start. The log file is the list of the events whose lines it holds;
`LineFormat` is what `serde_json` decides about a line: its length, and which number its
text is read back as. Every append is taken to succeed.
-/

inductive AuditStatus where
  | confirmationIssued
  | blockedPolicy
  | blockedRuntime
  | executed
  | failed
deriving DecidableEq

structure AuditEvent where
  tsMs : Nat
  status : AuditStatus
  origin : RequestOrigin
  entity : String
  action : String
  value : Option F64
  reason : String
  token : Option String
  confidence : Option F32
  actionId : Option Nat
  undoOf : Option Nat
  undoRestore : Option UndoRestore
deriving DecidableEq

structure LineFormat where
  /-- Bytes of the event's line, without the line end. -/
  lineBytes : AuditEvent → Nat
  /-- The double read back from the text of a finite double, if that text parses. -/
  number64 : F64 → Option F64
  number32 : F32 → Option F32

/-- An optional number read back: absent and non-finite numbers are `null` in the line. -/
def rereadNumber {α : Type} (isFinite : α → Bool) (number : α → Option α) :
    Option α → Option (Option α)
  | none => some none
  | some x => if isFinite x then (number x).map some else some none

namespace LineFormat

variable (format : LineFormat)

def reread64 : Option F64 → Option (Option F64) := rereadNumber F64.isFinite format.number64

def reread32 : Option F32 → Option (Option F32) := rereadNumber F32.isFinite format.number32

def rereadRestore : Option UndoRestore → Option (Option UndoRestore)
  | none => some none
  | some restore => (format.reread64 restore.value).map fun value => some { restore with value }

/-- The event parsed from its own line; `none` when the line does not parse. -/
def readBack (event : AuditEvent) : Option AuditEvent := do
  let value ← format.reread64 event.value
  let confidence ← format.reread32 event.confidence
  let undoRestore ← format.rereadRestore event.undoRestore
  some { event with value, confidence, undoRestore }

end LineFormat

def maxJsonlLineBytes : Nat := 256 * 1024

/-- `tail_lines`: the last `limit` lines among those that are not too long. -/
def tailLines (format : LineFormat) (limit : Nat) (log : List AuditEvent) : List AuditEvent :=
  ((log.reverse.filter fun event => decide (format.lineBytes event ≤ maxJsonlLineBytes)).take
    limit).reverse

def auditEventToRecordedAction (event : AuditEvent) : Option RecordedAction :=
  if event.status ≠ .executed then none
  else event.actionId.map fun id =>
    { id, undoOf := event.undoOf, entity := event.entity, action := event.action,
      value := event.value, inverseAction := inverseAction event.action,
      undoRestore := event.undoRestore, origin := event.origin, summary := event.reason,
      confidence := event.confidence, executedMs := event.tsMs }

/-- The action a line of the log is read back as. -/
def LineFormat.recall (format : LineFormat) (event : AuditEvent) : Option RecordedAction :=
  (format.readBack event).bind auditEventToRecordedAction

/-- `limit.saturating_mul(16).max(limit)`. -/
def scanLimit (limit : Nat) : Nat := max (min (limit * 16) (2 ^ 64 - 1)) limit

/-- The executed actions found in the scanned tail of the log. -/
def scannedActions (format : LineFormat) (limit : Nat) (log : List AuditEvent) :
    List RecordedAction :=
  (tailLines format (scanLimit limit) log).filterMap format.recall

def readRecentExecutedActions (format : LineFormat) (limit : Nat) (log : List AuditEvent) :
    List RecordedAction :=
  let actions := scannedActions format limit log
  actions.drop (actions.length - limit)

/-- The line written for an executed action. -/
def executedEvent (tsMs : Nat) (recorded : RecordedAction) : AuditEvent where
  tsMs := tsMs
  status := .executed
  origin := recorded.origin
  entity := recorded.entity
  action := recorded.action
  value := recorded.value
  reason := "home action executed"
  token := none
  confidence := recorded.confidence
  actionId := some recorded.id
  undoOf := recorded.undoOf
  undoRestore := recorded.undoRestore

/-! ## Reading back -/

variable {format : LineFormat}

theorem readBack_spec {event event' : AuditEvent} (h : format.readBack event = some event') :
    ∃ value confidence undoRestore, format.reread64 event.value = some value ∧
      format.reread32 event.confidence = some confidence ∧
      format.rereadRestore event.undoRestore = some undoRestore ∧
      event' = { event with value, confidence, undoRestore } := by
  unfold LineFormat.readBack at h
  cases hvalue : format.reread64 event.value with
  | none => rw [hvalue] at h; cases h
  | some value =>
    cases hconfidence : format.reread32 event.confidence with
    | none => rw [hvalue, hconfidence] at h; cases h
    | some confidence =>
      cases hrestore : format.rereadRestore event.undoRestore with
      | none => rw [hvalue, hconfidence, hrestore] at h; cases h
      | some undoRestore =>
        rw [hvalue, hconfidence, hrestore] at h
        cases h
        exact ⟨value, confidence, undoRestore, rfl, rfl, rfl, rfl⟩

theorem recall_spec {event : AuditEvent} (h : format.recall event = some item) :
    event.status = .executed ∧ event.actionId = some item.id := by
  unfold LineFormat.recall at h
  obtain ⟨event', hback, hitem⟩ := Option.bind_eq_some_iff.mp h
  obtain ⟨_, _, _, -, -, -, rfl⟩ := readBack_spec hback
  unfold auditEventToRecordedAction at hitem
  split at hitem
  · cases hitem
  · rename_i hstatus
    obtain ⟨id, hid, rfl⟩ := Option.map_eq_some_iff.mp hitem
    exact ⟨not_not.mp hstatus, hid⟩

theorem recall_eq_none {event : AuditEvent} (h : event.status ≠ .executed) :
    format.recall event = none := by
  cases hrecall : format.recall event with
  | none => rfl
  | some item => exact absurd (recall_spec hrecall).1 h

/-! ## The scanned tail -/

theorem tailLines_sublist (limit : Nat) (log : List AuditEvent) :
    (tailLines format limit log).Sublist log := by
  unfold tailLines
  rw [← reverse_sublist, reverse_reverse]
  exact (take_sublist _ _).trans filter_sublist

theorem tailLines_append_sublist (limit : Nat) (log : List AuditEvent) (event : AuditEvent) :
    (tailLines format limit (log ++ [event])).Sublist (tailLines format limit log ++ [event]) := by
  unfold tailLines
  rw [← reverse_sublist, reverse_reverse, reverse_append, reverse_append,
    reverse_reverse, reverse_singleton, singleton_append, singleton_append,
    filter_cons]
  split
  · cases limit with
    | zero => exact nil_sublist _
    | succ limit =>
      rw [take_succ_cons]
      exact ((take_prefix_take_left (Nat.le_succ limit)).sublist).cons_cons event
  · exact List.Sublist.cons event (List.Sublist.refl _)

theorem scannedActions_append_sublist (limit : Nat) (log : List AuditEvent) (event : AuditEvent) :
    (scannedActions format limit (log ++ [event])).Sublist
      (scannedActions format limit log ++ (format.recall event).toList) := by
  have h := (@tailLines_append_sublist format (scanLimit limit) log event).filterMap
    format.recall
  rw [filterMap_append] at h
  unfold scannedActions
  cases hrecall : format.recall event <;> simpa [hrecall] using h

end GenieClaw.Actuation
