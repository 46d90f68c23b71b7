import GenieClaw.Quick.Assistant
import GenieClaw.Quick.Calculation
import GenieClaw.Quick.Durations
import GenieClaw.Quick.HomeStatus
import GenieClaw.Quick.PriorityControl
import GenieClaw.Quick.Recall
import GenieClaw.Quick.Stores
import GenieClaw.Quick.WebSearch

/-!
# The quick router

`route` of `tools/quick.rs`: the detectors in their order, each with the call it stands for.
-/

namespace GenieClaw.Quick

open Library Library.Text Home List Option

/-! ## Calls -/

/-- The value of a `home_control` call, a whole number or a double. -/
inductive ValueArgument where
  | integer (n : ℤ)
  | double (x : ℚ)
deriving DecidableEq

/-- A tool call of the router: the tool and its arguments. -/
inductive QuickCall where
  | homeUndo
  | actionHistory
  | memoryStatus
  | memoryStore (category content : String)
  | setTimer (seconds : Nat) (label : String)
  | homeControl (entity action : String) (value : Option ValueArgument)
  | getWeather (location : String) (forecast : Bool)
  | homeStatus (entity : String)
  | memoryForget (query : String)
  | memoryRecall (query : String) (limit : Nat)
  | systemInfo
  | webSearch (query : String) (limit : Nat) (fresh : Bool)
  | playMedia (query : String)
  | calculate (expression : String)
  | getTime
deriving DecidableEq

/-- A temperature without a fraction becomes an `i64`, as far as one is that large. -/
def homeControlValueArgument (action : String) (value : ℚ) : ValueArgument :=
  if action = "set_temperature" ∧ value.den = 1 ∧ -2 ^ 63 ≤ value ∧ value ≤ 2 ^ 63 then
    .integer (min value.num (2 ^ 63 - 1))
  else .double value

/-- An action of the household as a verb of `home_control`; the others are left to the model. -/
def canonicalizeHouseholdAction (action : String) : Option String :=
  (canonHomeControlAction action).or
    (if action = "set_level" then some "set_brightness" else none)

def controlCall (request : HomeRequest) : Option QuickCall :=
  (canonicalizeHouseholdAction request.action).map fun action =>
    .homeControl request.entity action (request.value.map (homeControlValueArgument action))

theorem controlCall_of_canonical {entity raw action : String} {value : Option ℚ}
    (h : canonicalizeHouseholdAction raw = some action) :
    controlCall ⟨entity, raw, value⟩ =
      some (.homeControl entity action (value.map (homeControlValueArgument action))) := by
  unfold controlCall
  rw [h, map_some]

theorem controlCall_eq_some {request : HomeRequest} {entity action : String}
    {value : Option ValueArgument} :
    controlCall request = some (.homeControl entity action value) ↔
      request.entity = entity ∧ canonicalizeHouseholdAction request.action = some action ∧
        request.value.map (homeControlValueArgument action) = value := by
  unfold controlCall
  rw [map_eq_some_iff]
  constructor
  · rintro ⟨verb, hverb, heq⟩
    rw [QuickCall.homeControl.injEq] at heq
    obtain ⟨rfl, rfl, rfl⟩ := heq
    exact ⟨rfl, hverb, rfl⟩
  · rintro ⟨rfl, haction, rfl⟩
    exact ⟨action, haction, rfl⟩

/-! ## The detectors -/

def flag (asks : Bool) (call : QuickCall) : Option QuickCall := if asks then some call else none

/-- The detectors in front of the phrases of the household. -/
def firstDetectors (text : String) : List (Option QuickCall) :=
  [flag (asksHomeUndo text) .homeUndo,
    flag (asksActionHistory text) .actionHistory,
    flag (asksMemoryStatus text) .memoryStatus,
    (shoppingListAddRequest text).map fun items =>
      .memoryStore "shopping" ("shopping list pending: " ++ items),
    (shoppingListRemoveRequest text).map fun items =>
      .memoryStore "shopping" ("shopping list removed: " ++ items),
    (householdRuleStoreRequest text).map fun rule => .memoryStore "fact" rule,
    (healthLogStoreRequest text).map fun entry => .memoryStore entry.1 entry.2,
    (reminderOrAlarmStoreRequest text).map fun entry => .memoryStore entry.1 entry.2,
    (personalFactStoreRequest text).map fun entry => .memoryStore entry.1 entry.2,
    (preferredTimerRequest text).map fun timer => .setTimer timer.1 timer.2]

/-- The detectors between the phrases of the household and the timers. -/
def questionDetectors (original text : String) : List (Option QuickCall) :=
  [(weatherRequest text).map fun weather => .getWeather weather.1 weather.2,
    (priorityHomeStatusTarget text).map fun entity => .homeStatus entity,
    (memoryForgetQuery text).map fun query => .memoryForget query,
    (memoryRecallQuery text).map fun query =>
      .memoryRecall ((noteRecallQueryFromOriginal original).getD query) 3,
    flag (asksSystemStatus text || asksHomeAssistantStatus text) .systemInfo,
    (webSearchRequest text).map fun search => .webSearch search.1 3 search.2]

variable (tables : CharTables) (doubles : Doubles) (display : Display)

def routeNormalized (original text : String) (speaker : Option String) : Option QuickCall :=
  (firstDetectors text ++
    [(priorityHomeControlRequest text).bind controlCall] ++
    questionDetectors original text ++
    [(timerRequest text).map fun timer => .setTimer timer.1 timer.2,
      (sceneOrRoutineActivationRequest text).map fun entity =>
        .homeControl entity "activate" none,
      (playMediaRequest text).map fun query =>
        .playMedia (resolveSpeakerPossessive query speaker),
      (homeControlRequest doubles text).bind controlCall,
      (calculationRequest doubles display
        (stripHouseholdSpeakerPrefix (prepare tables original))).map fun expression =>
          .calculate expression,
      (homeStatusTarget text).map fun entity => .homeStatus entity,
      flag (asksCurrentTime text) .getTime]).findSome? id

def route (text : String) : Option QuickCall :=
  let prenormalized := normalize tables text
  let normalized := stripHouseholdSpeakerPrefix prenormalized
  if normalized = "" then none
  else routeNormalized tables doubles display text normalized (householdSpeaker prenormalized)

/-! ## Where a `home_control` call comes from -/

/-- None of the detectors answers. -/
def Declined (calls : List (Option QuickCall)) : Prop := ∀ call ∈ calls, call = none

theorem findSome?_or_eq_some {α : Type} {calls : List (Option α)} {later : Option α} {answer : α}
    (hother : some answer ∉ calls) :
    (calls.findSome? id).or later = some answer ↔
      (∀ call ∈ calls, call = none) ∧ later = some answer := by
  cases hcalls : calls.findSome? id with
  | none =>
    rw [none_or]
    have hnone := List.findSome?_eq_none_iff.mp hcalls
    exact ⟨fun h => ⟨hnone, h⟩, And.right⟩
  | some found =>
    obtain ⟨call, hcall, hfound⟩ := exists_of_findSome?_eq_some hcalls
    rw [some_or]
    constructor
    · intro h
      rw [← h, ← hfound] at hother
      exact absurd hcall hother
    · intro h
      rw [h.1 call hcall] at hfound
      cases hfound

theorem findSome?_cons_id {α : Type} (call : Option α) (calls : List (Option α)) :
    (call :: calls).findSome? id = call.or (calls.findSome? id) := by
  cases call with
  | none => rfl
  | some answer => rfl

theorem or_map_eq_some {α β : Type} {found : Option α} {f : α → β} {later : Option β} {answer : β}
    (hother : ∀ a, f a ≠ answer) :
    (found.map f).or later = some answer ↔ found = none ∧ later = some answer := by
  cases found with
  | none => simp
  | some a => simp [hother a]

variable {tables : CharTables} {doubles : Doubles} {display : Display}
  {original text entity action : String} {speaker : Option String} {value : Option ValueArgument}

theorem notMem_firstDetectors : some (.homeControl entity action value) ∉ firstDetectors text := by
  simp [firstDetectors, flag]

theorem notMem_questionDetectors :
    some (.homeControl entity action value) ∉ questionDetectors original text := by
  simp [questionDetectors, flag]

/-- The answers to phrases of the household, to scenes and to the requests of the home. -/
theorem routeNormalized_homeControl :
    routeNormalized tables doubles display original text speaker =
        some (.homeControl entity action value) ↔
      Declined (firstDetectors text) ∧
        ((priorityHomeControlRequest text).bind controlCall =
            some (.homeControl entity action value) ∨
          (priorityHomeControlRequest text).bind controlCall = none ∧
            Declined (questionDetectors original text) ∧ timerRequest text = none ∧
              ((sceneOrRoutineActivationRequest text = some entity ∧
                  action = "activate" ∧ value = none) ∨
                sceneOrRoutineActivationRequest text = none ∧ playMediaRequest text = none ∧
                  (homeControlRequest doubles text).bind controlCall =
                    some (.homeControl entity action value))) := by
  unfold routeNormalized
  generalize timerRequest text = timer
  generalize sceneOrRoutineActivationRequest text = scene
  generalize playMediaRequest text = media
  generalize (homeControlRequest doubles text).bind controlCall = control
  generalize (priorityHomeControlRequest text).bind controlCall = household
  generalize calculationRequest doubles display
    (stripHouseholdSpeakerPrefix (prepare tables original)) = calculation
  generalize homeStatusTarget text = status
  generalize asksCurrentTime text = asksTime
  have hothers : ([calculation.map fun expression => QuickCall.calculate expression,
      status.map fun entity => .homeStatus entity, flag asksTime .getTime].findSome? id) ≠
        some (.homeControl entity action value) := by
    intro h
    obtain ⟨call, hcall, hfound⟩ := exists_of_findSome?_eq_some h
    revert hfound
    simp only [mem_cons, not_mem_nil, or_false] at hcall
    rcases hcall with rfl | rfl | rfl <;> simp [flag]
  rw [findSome?_append, findSome?_append, findSome?_append, Option.or_assoc,
    Option.or_assoc, findSome?_or_eq_some notMem_firstDetectors]
  refine and_congr_right fun _ => ?_
  rw [findSome?_singleton, id, or_eq_some_iff,
    findSome?_or_eq_some notMem_questionDetectors]
  refine or_congr_right (and_congr_right fun _ => and_congr_right fun _ => ?_)
  rw [findSome?_cons_id, or_map_eq_some fun _ h => QuickCall.noConfusion h]
  refine and_congr_right fun _ => ?_
  rw [findSome?_cons_id, or_eq_some_iff]
  refine or_congr ?_ ?_
  · simp only [map_eq_some_iff, QuickCall.homeControl.injEq]
    constructor
    · rintro ⟨found, hfound, rfl, rfl, rfl⟩
      exact ⟨hfound, rfl, rfl⟩
    · rintro ⟨hfound, rfl, rfl⟩
      exact ⟨entity, hfound, rfl, rfl, rfl⟩
  · rw [map_eq_none_iff]
    refine and_congr_right fun _ => ?_
    rw [findSome?_cons_id, or_map_eq_some fun _ h => QuickCall.noConfusion h]
    refine and_congr_right fun _ => ?_
    rw [findSome?_cons_id, or_eq_some_iff]
    exact or_iff_left fun h => hothers h.2

end GenieClaw.Quick
