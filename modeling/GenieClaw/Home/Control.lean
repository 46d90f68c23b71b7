import GenieClaw.Home.Provider
import GenieClaw.Home.Policy

/-!
# Controlling the home

`tools/home.rs`. `control` goes through its checks in order and calls the provider's
`execute` last; everything before that call is `controlVerdict`, which either settles the
outcome or names the action to execute.

* `policyVerdict_none_iff`: what the static policy lets through.
* `control_executed`, `control_confirmationRequired`: what an outcome says about the home.
-/

namespace GenieClaw.Home

open Library Actuation

inductive ControlOutcome where
  | executed (output : String) (confidence : Option F32)
  | confirmationRequired (reason targetDisplay : String)

inductive Verdict where
  | settled (outcome : Except String ControlOutcome)
  | execute (action : HomeAction)

def parseAction (action : String) : Except String HomeActionKind := homeActionKind action

/-- The channels whose name goes into the confirmation text. -/
def originLabel : RequestOrigin → Option String
  | .voice => some "voice"
  | .telegram => some "telegram"
  | .api => some "the API"
  | .dashboard => some "the dashboard"
  | .repl => some "the REPL"
  | .unknown => none
  | .confirmation => none

/-- The outcome when the static policy or the risk of the action ends the call. -/
def policyVerdict (action : HomeAction) (origin : RequestOrigin) (confirmed : Bool) :
    Option (Except String ControlOutcome) :=
  let policy := assessHomeAction action
  if policy.allowed = false ∧ policy.requiresConfirmation = false then
    some (.error ("Home action blocked by local policy: " ++ policy.reason))
  else if policy.allowed = false ∧ confirmed = false then
    some (.ok (.confirmationRequired policy.reason action.target.displayName))
  else if confirmed = false ∧ policy.risk ≠ .low then
    (originLabel origin).map fun label =>
      .ok (.confirmationRequired
        (action.target.displayName ++ " from " ++ label ++ " requires local confirmation")
        action.target.displayName)
  else none

variable {W : Type}

/-- The state of the target, which scenes and scripts do not have. -/
def currentState (home : HomeProvider W) (target : HomeTarget) (w : W) :
    Except String (Option HomeState) × W :=
  if target.kind.stateless then (.ok none, w)
  else
    let (state, w) := home.getState target w
    (state.map some, w)

def controlVerdict (home : HomeProvider W) (targetQuery action : String) (value : Option F64)
    (safety : ActuationSafetyConfig) (origin : RequestOrigin) (confirmed : Bool) (w : W) :
    Verdict × W :=
  match parseAction action with
  | .error e => (.settled (.error e), w)
  | .ok kind =>
    match home.resolveTarget targetQuery (some kind) w with
    | (.error e, w) => (.settled (.error e), w)
    | (.ok target, w) =>
      let action : HomeAction := { kind, target, value }
      match policyVerdict action origin confirmed with
      | some outcome => (.settled outcome, w)
      | none =>
        let (health, w) := home.health w
        match currentState home target w with
        | (.error e, w) => (.settled (.error e), w)
        | (.ok state, w) =>
          let runtime := assessRuntimeHomeAction action (assessHomeAction action) health state
            safety origin confirmed
          if runtime.allowed then (.execute action, w)
          else (.settled (.error ("Home action blocked by runtime safety: " ++ runtime.reason)), w)

/-- The outcome, and the action handed to the provider's `execute` if that was called. -/
def control (home : HomeProvider W) (targetQuery action : String) (value : Option F64)
    (safety : ActuationSafetyConfig) (origin : RequestOrigin) (confirmed : Bool) (w : W) :
    Except String ControlOutcome × Option HomeAction × W :=
  match controlVerdict home targetQuery action value safety origin confirmed w with
  | (.settled outcome, w) => (outcome, none, w)
  | (.execute action, w) =>
    let (result, w) := home.execute action w
    (result.map fun r => .executed r.spokenSummary r.confidence, some action, w)

def status (home : HomeProvider W) (targetQuery : String) (w : W) : Except String String × W :=
  match home.resolveTarget targetQuery none w with
  | (.error e, w) => (.error e, w)
  | (.ok target, w) =>
    let (state, w) := home.getState target w
    (state.map HomeState.spokenSummary, w)

/-! ## The static policy -/

/-- The static policy lets an action through when it allows it outright and, unconfirmed,
its risk is low or its channel has no label; or when it is confirmable and confirmed. -/
theorem policyVerdict_none_iff (action : HomeAction) (origin : RequestOrigin) (confirmed : Bool) :
    policyVerdict action origin confirmed = none ↔
      ((assessHomeAction action).allowed = true ∧
          (confirmed = true ∨ (assessHomeAction action).risk = .low ∨
            originLabel origin = none)) ∨
        ((assessHomeAction action).allowed = false ∧
          (assessHomeAction action).requiresConfirmation = true ∧ confirmed = true) := by
  unfold policyVerdict
  dsimp only
  cases hallowed : (assessHomeAction action).allowed with
  | true =>
    rw [if_neg (by simp), if_neg (by simp)]
    cases confirmed with
    | true => simp
    | false =>
      by_cases hlow : (assessHomeAction action).risk = .low
      · simp [hlow]
      · simp [hlow]
  | false =>
    cases hconf : (assessHomeAction action).requiresConfirmation with
    | false => simp
    | true => cases confirmed <;> simp

variable {origin : RequestOrigin}

theorem policyVerdict_confirmed {action : HomeAction} (h : action.target.voiceSafe = true) :
    policyVerdict action origin true = none := by
  rw [policyVerdict_none_iff]
  cases hallowed : (assessHomeAction action).allowed with
  | true => exact .inl ⟨rfl, .inl rfl⟩
  | false =>
    rcases assessHomeAction_voiceSafe h with hall | hconf
    · rw [hallowed] at hall
      cases hall
    · exact .inr ⟨rfl, hconf, rfl⟩

/-! ## Cleared actions -/

/-- Everything `control` has checked when it executes an action: the target is what the
provider resolved the query to, the static policy let it pass, and the runtime assessment
of the health and the state read in this call allowed it. -/
def Cleared (home : HomeProvider W) (targetQuery action : String) (value : Option F64)
    (safety : ActuationSafetyConfig) (origin : RequestOrigin) (confirmed : Bool) (w : W)
    (performed : HomeAction) : Prop :=
  parseAction action = .ok performed.kind ∧ performed.value = value ∧
    (home.resolveTarget targetQuery (some performed.kind) w).1 = .ok performed.target ∧
    policyVerdict performed origin confirmed = none ∧
    ∃ state, (currentState home performed.target (home.health
          (home.resolveTarget targetQuery (some performed.kind) w).2).2).1 = .ok state ∧
      (assessRuntimeHomeAction performed (assessHomeAction performed)
        (home.health (home.resolveTarget targetQuery (some performed.kind) w).2).1 state safety
        origin confirmed).allowed = true

theorem controlVerdict_execute_iff (home : HomeProvider W) (targetQuery action : String)
    (value : Option F64) (safety : ActuationSafetyConfig) (origin : RequestOrigin)
    (confirmed : Bool) (w : W) (performed : HomeAction) :
    (controlVerdict home targetQuery action value safety origin confirmed w).1 =
        .execute performed ↔
      Cleared home targetQuery action value safety origin confirmed w performed := by
  unfold controlVerdict Cleared
  cases hkind : parseAction action with
  | error e => simp
  | ok kind =>
    dsimp only
    rcases hres : home.resolveTarget targetQuery (some kind) w with ⟨res, w₁⟩
    cases res with
    | error e =>
      refine ⟨nofun, ?_⟩
      rintro ⟨hk, -, ht, -⟩
      cases hk
      rw [hres] at ht
      cases ht
    | ok target =>
      dsimp only
      -- the action is determined by the kind, the target and the value
      have haction : ∀ h : parseAction action = .ok performed.kind,
          performed.value = value → (home.resolveTarget targetQuery (some performed.kind) w).1 =
            .ok performed.target → performed = ⟨kind, target, value⟩ := by
        intro hk hv ht
        rw [hkind] at hk
        cases hk
        rw [hres] at ht
        cases ht
        cases hv
        rfl
      cases hpolicy : policyVerdict ⟨kind, target, value⟩ origin confirmed with
      | some outcome =>
        refine ⟨nofun, ?_⟩
        rintro ⟨hk, hv, ht, hp, -⟩
        rw [haction (hkind.trans hk) hv ht, hpolicy] at hp
        cases hp
      | none =>
        dsimp only
        rcases hstate : currentState home target (home.health w₁).2 with ⟨state, w₂⟩
        cases state with
        | error e =>
          refine ⟨nofun, ?_⟩
          rintro ⟨hk, hv, ht, -, state, hs, -⟩
          cases haction (hkind.trans hk) hv ht
          rw [hres] at hs
          dsimp only at hs
          rw [hstate] at hs
          cases hs
        | ok state =>
          dsimp only
          by_cases hrun : (assessRuntimeHomeAction ⟨kind, target, value⟩
              (assessHomeAction ⟨kind, target, value⟩) (home.health w₁).1 state safety origin
              confirmed).allowed = true
          · rw [if_pos hrun]
            constructor
            · intro h
              cases h
              refine ⟨rfl, rfl, by rw [hres], hpolicy, state, ?_, ?_⟩
              · rw [hres]
                dsimp only
                rw [hstate]
              · rw [hres]
                exact hrun
            · rintro ⟨hk, hv, ht, -⟩
              rw [haction (hkind.trans hk) hv ht]
          · rw [if_neg hrun]
            refine ⟨nofun, ?_⟩
            rintro ⟨hk, hv, ht, -, state', hs, hallowed⟩
            cases haction (hkind.trans hk) hv ht
            rw [hres] at hs hallowed
            dsimp only at hs hallowed
            rw [hstate] at hs
            cases hs
            exact absurd hallowed hrun

theorem control_performed_iff (home : HomeProvider W) (targetQuery action : String)
    (value : Option F64) (safety : ActuationSafetyConfig) (origin : RequestOrigin)
    (confirmed : Bool) (w : W) (performed : HomeAction) :
    (control home targetQuery action value safety origin confirmed w).2.1 = some performed ↔
      Cleared home targetQuery action value safety origin confirmed w performed := by
  rw [← controlVerdict_execute_iff]
  unfold control
  rcases controlVerdict home targetQuery action value safety origin confirmed w with ⟨verdict, w'⟩
  cases verdict with
  | settled outcome => simp
  | execute a => simp

variable {confirmed : Bool} {confidence : Option F32} {output : String}

theorem policyVerdict_not_executed {action : HomeAction} :
    policyVerdict action origin confirmed ≠ some (.ok (.executed output confidence)) := by
  intro h
  unfold policyVerdict at h
  dsimp only at h
  split at h
  · cases h
  · split at h
    · cases h
    · split at h
      · obtain ⟨_, -, hout⟩ := Option.map_eq_some_iff.mp h
        cases hout
      · cases h

variable {safety : ActuationSafetyConfig} {targetQuery action : String} {home : HomeProvider W}
  {value : Option F64}

theorem controlVerdict_not_executed {w : W} :
    (controlVerdict home targetQuery action value safety origin confirmed w).1 ≠
      .settled (.ok (.executed output confidence)) := by
  intro h
  unfold controlVerdict at h
  split at h
  · cases h
  · split at h
    · cases h
    · dsimp only at h
      split at h
      · rename_i outcome hpolicy
        cases h
        exact policyVerdict_not_executed hpolicy
      · split at h
        · cases h
        · split at h
          · cases h
          · cases h

theorem control_executed {w : W}
    (h : (control home targetQuery action value safety origin confirmed w).1 =
      .ok (.executed output confidence)) :
    ∃ performed, (control home targetQuery action value safety origin confirmed w).2.1 =
      some performed := by
  have hne := @controlVerdict_not_executed W origin confirmed confidence output safety targetQuery
    action home value w
  unfold control at h ⊢
  generalize controlVerdict home targetQuery action value safety origin confirmed w = out at h hne ⊢
  obtain ⟨verdict, w'⟩ := out
  cases verdict with
  | settled outcome => exact absurd (congrArg Verdict.settled h) hne
  | execute performed => exact ⟨performed, rfl⟩

variable {reason display : String}

theorem policyVerdict_confirmationRequired {action : HomeAction}
    (h : policyVerdict action origin confirmed =
      some (.ok (.confirmationRequired reason display))) :
    confirmed = false := by
  unfold policyVerdict at h
  dsimp only at h
  split at h
  · cases h
  · split at h
    · rename_i hunconfirmed
      exact hunconfirmed.2
    · split at h
      · rename_i hunconfirmed
        exact hunconfirmed.1
      · cases h

theorem controlVerdict_confirmationRequired {w : W}
    (h : (controlVerdict home targetQuery action value safety origin confirmed w).1 =
      .settled (.ok (.confirmationRequired reason display))) :
    confirmed = false := by
  unfold controlVerdict at h
  split at h
  · cases h
  · split at h
    · cases h
    · dsimp only at h
      split at h
      · rename_i outcome hpolicy
        cases h
        exact policyVerdict_confirmationRequired hpolicy
      · split at h
        · cases h
        · split at h
          · cases h
          · cases h

/-- A request for confirmation means that the call was not confirmed and nothing was
executed. -/
theorem control_confirmationRequired {w : W}
    (h : (control home targetQuery action value safety origin confirmed w).1 =
      .ok (.confirmationRequired reason display)) :
    confirmed = false ∧
      (control home targetQuery action value safety origin confirmed w).2.1 = none := by
  have hsettled := @controlVerdict_confirmationRequired W origin confirmed safety targetQuery
    action home value reason display w
  unfold control at h ⊢
  generalize controlVerdict home targetQuery action value safety origin confirmed w = out
    at h hsettled ⊢
  obtain ⟨verdict, w'⟩ := out
  cases verdict with
  | settled outcome => exact ⟨hsettled (congrArg Verdict.settled h), rfl⟩
  | execute performed =>
    dsimp only at h
    cases hresult : (home.execute performed w').1 with
    | error e =>
      rw [hresult] at h
      cases h
    | ok result =>
      rw [hresult] at h
      cases h

end GenieClaw.Home
