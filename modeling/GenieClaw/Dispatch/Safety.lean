import GenieClaw.Dispatch.Runs

/-!
# Which actions `home_control` executes

`SafeExecution` is what an execution should have behind it: no refusal by the static
policy, a confirmation or a low risk, a passed runtime assessment and an allowed channel.
The confirmation that an action of medium risk needs is asked for in the name of the
channel, and two channels have no name there.

* `execHomeControlInner_cleared`: what a call executes has passed every check of that call.
* `executes_safely_iff`: it is safe unless it is an action of medium risk, unconfirmed and
  from one of these channels.
-/

namespace GenieClaw.Dispatch

open Library Library.Text Actuation Home Memory

variable {W : Type}

/-- The home as `control` finds it in a call: the request was admitted and the state to
restore captured. -/
def controlWorld (d : ToolDispatcher W) (home : HomeProvider W) (args : Json)
    (execCtx : ToolExecutionContext) (undoOf : Option Nat) (s : DispatcherState W) : W :=
  match d.admitRequest args execCtx s with
  | (.ok request, _, s₁) => (ToolDispatcher.captureUndoRestore home request undoOf s₁).2.world
  | (.error _, _, s₁) => s₁.world

/-- What an execution by a call should have behind it. -/
structure SafeExecution (d : ToolDispatcher W) (args : Json) (execCtx : ToolExecutionContext)
    (undoOf : Option Nat) (s : DispatcherState W) (p : Performance) : Prop where
  notRefused : ¬ ((assessHomeAction p.action).allowed = false ∧
    (assessHomeAction p.action).requiresConfirmation = false)
  confirmedOrLow : execCtx.confirmed = true ∨
    ((assessHomeAction p.action).allowed = true ∧
      (assessHomeAction p.action).requiresConfirmation = false ∧
      (assessHomeAction p.action).risk = .low)
  /-- The runtime assessment passed on the health and the state that the call read once it
  had resolved the target. -/
  runtime : ∃ home state, d.ha = some home ∧
    let (resolved, w) := home.resolveTarget p.entity (some p.action.kind)
      (controlWorld d home args execCtx undoOf s)
    resolved = .ok p.action.target ∧
      (currentState home p.action.target (home.health w).2).1 = .ok state ∧
      (d.actuationSafety.enabled = false ∨
        RuntimeSafe p.action (assessHomeAction p.action) (home.health w).1 state
          d.actuationSafety execCtx.requestOrigin execCtx.confirmed)
  allowed : actuationOriginAllowed d.actuationSafety execCtx.requestOrigin = true

/-- The call is not confirmed, its channel has no label, and on this target it is an action
that the static policy allows outright although its risk is not low. -/
def Unguarded (args : Json) (target : HomeTarget) (execCtx : ToolExecutionContext) : Prop :=
  execCtx.confirmed = false ∧ originLabel execCtx.requestOrigin = none ∧
    ∃ entity action value kind, parseHomeControlArgs args = .ok (entity, action, value) ∧
      homeActionKind action = .ok kind ∧
      (assessHomeAction ⟨kind, target, value⟩).allowed = true ∧
      (assessHomeAction ⟨kind, target, value⟩).risk ≠ .low

/-- Whatever the home, the configuration and the state, what the call executes on this
target is safe. -/
def ExecutesSafely (args : Json) (target : HomeTarget) (execCtx : ToolExecutionContext)
    (undoOf : Option Nat) : Prop :=
  ∀ (W : Type) (d : ToolDispatcher W) (s : DispatcherState W) (p : Performance),
    (d.execHomeControlInner args execCtx undoOf s).2.1.performed = some p →
    p.action.target = target → SafeExecution d args execCtx undoOf s p

/-! ## What was checked -/

variable {execCtx : ToolExecutionContext}

theorem execHomeControlInner_cleared {d : ToolDispatcher W} {args : Json} {undoOf : Option Nat}
    {s : DispatcherState W} {p : Performance}
    (h : (d.execHomeControlInner args execCtx undoOf s).2.1.performed = some p) :
    ∃ home entity action value, d.ha = some home ∧
      parseHomeControlArgs args = .ok (entity, action, value) ∧
      actuationOriginAllowed d.actuationSafety execCtx.requestOrigin = true ∧
      Cleared home p.entity action value d.actuationSafety execCtx.requestOrigin execCtx.confirmed
        (controlWorld d home args execCtx undoOf s) p.action := by
  rcases d.execHomeControlInner_cases args execCtx undoOf s with ⟨heffects, -⟩ |
    ⟨home, request, charged, s₁, hha, hadmission⟩
  · rw [heffects] at h
    cases h
  · obtain ⟨w, undoRestore, hcapture, hcall⟩ := d.execHomeControlInner_ok hha undoOf hadmission
    have hworld : controlWorld d home args execCtx undoOf s = w := by
      unfold controlWorld
      rw [hadmission]
      dsimp only
      rw [hcapture]
    rw [hcall] at h
    obtain ⟨action, haction, rfl⟩ := Option.map_eq_some_iff.mp h
    obtain ⟨⟨entity, hparse, -⟩, hallowed, -⟩ := d.admitRequest_ok hadmission
    rw [← hworld] at haction
    exact ⟨home, entity, request.action, request.value, hha, hparse, hallowed,
      (control_performed_iff _ _ _ _ _ _ _ _ _).mp haction⟩

theorem not_requires_of_allowed {action : HomeAction}
    (h : (assessHomeAction action).allowed = true) :
    (assessHomeAction action).requiresConfirmation = false := by
  rcases assessHomeAction_sound action with ⟨-, hnot⟩ | ⟨hrefused, -⟩
  · exact hnot
  · rw [h] at hrefused
    cases hrefused

theorem safe_of_guarded {args : Json} {target : HomeTarget}
    (hguarded : ¬ Unguarded args target execCtx) (undoOf : Option Nat) :
    ExecutesSafely args target execCtx undoOf := by
  intro W d s p hp htarget
  obtain ⟨home, entity, action, value, hha, hparse, hallowed, hkind, hvalue, hresolved, hpolicy,
    state, hstate, hruntime⟩ := execHomeControlInner_cleared hp
  have hpassed := (policyVerdict_none_iff _ _ _).mp hpolicy
  refine ⟨?_, ?_, ⟨home, state, hha, hresolved, hstate,
    (runtimeSafe_iff _ _ _ _ _ _ _).mp hruntime⟩, hallowed⟩
  · rintro ⟨hrefused, hnot⟩
    rcases hpassed with ⟨hall, -⟩ | ⟨-, hconf, -⟩
    · rw [hrefused] at hall
      cases hall
    · rw [hnot] at hconf
      cases hconf
  · rcases hpassed with ⟨hall, hconfirmed | hlow | hlabel⟩ | ⟨-, -, hconfirmed⟩
    · exact .inl hconfirmed
    · exact .inr ⟨hall, not_requires_of_allowed hall, hlow⟩
    · -- without a label the call is confirmed or of low risk, or it is unguarded
      by_contra hfails
      rw [not_or, Bool.not_eq_true] at hfails
      have haction : p.action = ⟨p.action.kind, target, value⟩ := by
        rw [← htarget, ← hvalue]
      refine hguarded ⟨hfails.1, hlabel, entity, action, value, p.action.kind, hparse, hkind, ?_,
        ?_⟩
      · rw [← haction]
        exact hall
      · rw [← haction]
        exact fun hlow => hfails.2 ⟨hall, not_requires_of_allowed hall, hlow⟩
    · exact .inl hconfirmed

/-! ## An unguarded call is executed -/

/-- A house that executes on one target, for one channel, up to twelve times a minute. -/
def houseOf (target : HomeTarget) (origin : RequestOrigin) : ToolDispatcher Unit :=
  obligingDispatcher (fun _ => target) {}
    { enabled := false, allowedOrigins := [origin.asPolicyKey] } fun _ => 0

theorem houseOf_charges (target : HomeTarget) (origin : RequestOrigin) :
    ∃ s', (houseOf target origin).chargeActuation origin { world := () } = (.ok 0, s') := by
  have hlimit : actuationRateLimit (houseOf target origin).actuationSafety origin = 12 := rfl
  unfold ToolDispatcher.chargeActuation
  dsimp only
  rw [hlimit]
  exact ⟨_, rfl⟩

theorem houseOf_admits {args : Json} {entity action : String} {value : Option F64}
    (hparse : parseHomeControlArgs args = .ok (entity, action, value)) (target : HomeTarget)
    (hunconfirmed : execCtx.confirmed = false) :
    ∃ s', (houseOf target execCtx.requestOrigin).admitRequest args execCtx { world := () } =
      (.ok ⟨entity, action, value⟩, some 0, s') := by
  have hallowed : actuationOriginAllowed
      (houseOf target execCtx.requestOrigin).actuationSafety execCtx.requestOrigin = true := by
    show actuationOriginAllowed
      { enabled := false, allowedOrigins := [execCtx.requestOrigin.asPolicyKey] } _ = true
    cases execCtx.requestOrigin <;> decide +kernel
  obtain ⟨s', hcharge⟩ := houseOf_charges target execCtx.requestOrigin
  refine ⟨s', ?_⟩
  unfold ToolDispatcher.admitRequest
  rw [hparse]
  dsimp only
  rw [if_neg (by rw [hallowed]; nofun), if_neg (by rw [hunconfirmed]; nofun), hcharge]
  rfl

/-- What a call executes on a target is safe, in every home, state and configuration,
exactly when it is confirmed, or its channel has a label, or on that target it is no action
that the policy allows outright although its risk is not low. -/
theorem executes_safely_iff (args : Json) (target : HomeTarget) (execCtx : ToolExecutionContext)
    (undoOf : Option Nat) :
    ExecutesSafely args target execCtx undoOf ↔ ¬ Unguarded args target execCtx := by
  refine ⟨?_, fun hguarded => safe_of_guarded hguarded undoOf⟩
  rintro hsafe ⟨hunconfirmed, hlabel, entity, action, value, kind, hparse, hkind, hall, hrisk⟩
  obtain ⟨s', hadmission⟩ := houseOf_admits hparse target hunconfirmed
  have hpolicy : policyVerdict ⟨kind, target, value⟩ execCtx.requestOrigin execCtx.confirmed =
      none := (policyVerdict_none_iff _ _ _).mpr (.inl ⟨hall, .inr (.inr hlabel)⟩)
  have hperformed := @execHomeControlInner_obliging Unit (houseOf target execCtx.requestOrigin)
    (fun _ => target) rfl rfl args entity action value kind execCtx undoOf { world := () } s' _
    hadmission hkind hpolicy
  have hexecution := hsafe Unit _ _ _ hperformed rfl
  rcases hexecution.confirmedOrLow with hconfirmed | ⟨-, -, hlow⟩
  · rw [hunconfirmed] at hconfirmed
    cases hconfirmed
  · exact hrisk hlow

/-! ## A thermostat -/

def thermostat : HomeTarget :=
  ⟨.entity, "thermostat", "Thermostat", ["climate.hall"], some "climate", ⟨0x3F800000⟩, true⟩

/-- The house of the thermostat under the default configuration. -/
def warmHouse : ToolDispatcher Unit := obligingDispatcher (fun _ => thermostat) {} {} id

def setTo21 : Json :=
  .object [("action", .string "set_temperature"), ("entity", .string "thermostat"),
    ("value", .number (.posInt 21))]

/-- The confirmation channel, unconfirmed, sets the temperature. -/
theorem unlabelled_channel_executes_medium_risk :
    ∃ p, (warmHouse.execHomeControlInner setTo21 { requestOrigin := .confirmation } none
        { world := () }).2.1.performed = some p ∧
      p.confirmed = false ∧ (assessHomeAction p.action).risk = .medium ∧
      ¬ SafeExecution warmHouse setTo21 { requestOrigin := .confirmation } none { world := () }
        p := by
  have hperformed : ((warmHouse.execHomeControlInner setTo21 { requestOrigin := .confirmation }
      none { world := () }).2.1.performed.map fun p =>
        (p.confirmed, (assessHomeAction p.action).risk)) = some (false, .medium) := by
    decide +kernel
  obtain ⟨p, hp, hfacts⟩ := Option.map_eq_some_iff.mp hperformed
  obtain ⟨hconfirmed, hrisk⟩ := Prod.mk.inj hfacts
  refine ⟨p, hp, hconfirmed, hrisk, fun hsafe => ?_⟩
  rcases hsafe.confirmedOrLow with hfalse | ⟨-, -, hlow⟩
  · cases hfalse
  · rw [hrisk] at hlow
    cases hlow

end GenieClaw.Dispatch
