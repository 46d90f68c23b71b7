import GenieClaw.Actuation.Origin
import GenieClaw.Config
import GenieClaw.Home.Provider

/-!
# Policy of a home action

The two assessors of `ha/policy.rs`. `assessHomeAction` grades an action by its target and
kind alone; `assessRuntimeHomeAction` looks at the health of the home, the confidence of
the match and the state of the target.
-/

namespace GenieClaw.Home

open Library Library.Text Actuation

inductive ActionRisk where
  | low
  | medium
  | high
deriving DecidableEq

structure ActionPolicyDecision where
  risk : ActionRisk
  allowed : Bool
  requiresConfirmation : Bool
  reason : String
deriving DecidableEq

structure RuntimeSafetyDecision where
  allowed : Bool
  reason : String
deriving DecidableEq

namespace RuntimeSafetyDecision

def allow (reason : String) : RuntimeSafetyDecision := ⟨true, reason⟩

def deny (reason : String) : RuntimeSafetyDecision := ⟨false, reason⟩

end RuntimeSafetyDecision

namespace ActionPolicyDecision

def allow (risk : ActionRisk) (reason : String) : ActionPolicyDecision :=
  ⟨risk, true, false, reason⟩

def requireConfirmation (risk : ActionRisk) (reason : String) : ActionPolicyDecision :=
  ⟨risk, false, true, reason⟩

def deny (reason : String) : ActionPolicyDecision := ⟨.high, false, false, reason⟩

end ActionPolicyDecision

def opensPhysicalBarrier (target : HomeTarget) : Bool :=
  let descriptor := toLowercase
    (target.displayName ++ " " ++ target.query ++ " " ++ joinWith " " target.entityIds)
  containsText descriptor "garage" || containsText descriptor "door" ||
    containsText descriptor "gate"

def assessHomeAction (action : HomeAction) : ActionPolicyDecision :=
  let target := action.target
  let domain := target.domain.getD ""
  if action.kind = .activate ∧ target.kind = .script ∧ target.voiceSafe = false then
    .deny (target.displayName ++ " is not a voice-safe script")
  else if target.voiceSafe = false then
    .requireConfirmation .high (target.displayName ++ " is not marked voice-safe")
  else if domain = "lock" ∨ domain = "alarm_control_panel" ∨ domain = "camera" then
    .requireConfirmation .high
      (target.displayName ++ " controls a sensitive " ++ domain ++ " device")
  else if action.kind = .unlock then
    .requireConfirmation .high ("unlocking " ++ target.displayName ++ " requires confirmation")
  else if action.kind = .open ∧ (domain = "cover" ∨ opensPhysicalBarrier target = true) then
    .requireConfirmation .high ("opening " ++ target.displayName ++ " requires confirmation")
  else
    let risk : ActionRisk := match domain, action.kind with
      | "climate", .setTemperature => .medium
      | "cover", .close => .medium
      | "cover", .toggle => .medium
      | "script", .activate => .medium
      | _, _ => .low
    .allow risk "allowed by local household policy"

/-- Medium and high risk. -/
def ActionRisk.sensitive : ActionRisk → Bool
  | .low => false
  | .medium => true
  | .high => true

/-- The confidence asked of the match: the configured one, with a floor of 0.88 for voice,
0.90 for Telegram and 0.84 for the API while unconfirmed. -/
def requiredConfidence (policy : ActionPolicyDecision) (config : ActuationSafetyConfig)
    (origin : RequestOrigin) (confirmed : Bool) : F32 :=
  let required := if policy.risk.sensitive then config.minSensitiveConfidence
    else config.minTargetConfidence
  if confirmed then required
  else match origin with
    | .voice => required.max ⟨0x3F6147AE⟩
    | .telegram => required.max ⟨0x3F666666⟩
    | .api => required.max ⟨0x3F570A3D⟩
    | _ => required

/-- Scenes and scripts have no state to look at. -/
def HomeTargetKind.stateless : HomeTargetKind → Bool
  | .scene => true
  | .script => true
  | .entity => false
  | .group => false

def assessRuntimeHomeAction (action : HomeAction) (policy : ActionPolicyDecision)
    (health : IntegrationHealth) (currentState : Option HomeState)
    (config : ActuationSafetyConfig) (origin : RequestOrigin) (confirmed : Bool) :
    RuntimeSafetyDecision :=
  if config.enabled = false then .allow "runtime safety gate disabled"
  else if health.connected = false then
    .deny ("Home Assistant is not healthy enough for actuation: " ++ health.message)
  else if action.target.entityIds = [] then
    .deny "target resolution produced no concrete entities"
  else
    let required := requiredConfidence policy config origin confirmed
    if action.target.confidence.lt required = true then
      .deny ("target match confidence " ++ action.target.confidence.fixed2 ++
        " is below required " ++ required.fixed2)
    else if config.denyMultiTargetSensitive = true ∧ policy.risk.sensitive = true ∧
        1 < action.target.entityIds.length then
      .deny ("sensitive action targets " ++ action.target.entityIds.length.repr ++
        " entities, which is too broad")
    else if config.requireAvailableState = true ∧ action.target.kind.stateless = false then
      match currentState with
      | some state =>
        if state.available then .allow "passed runtime actuation safety checks"
        else .deny (action.target.displayName ++ " is currently unavailable")
      | none =>
        .deny ("runtime safety check could not verify current state for " ++
          action.target.displayName)
    else .allow "passed runtime actuation safety checks"

/-! ## What the assessors guarantee -/

theorem assessHomeAction_sound (action : HomeAction) :
    ((assessHomeAction action).allowed = true ∧
        (assessHomeAction action).requiresConfirmation = false) ∨
      ((assessHomeAction action).allowed = false ∧ (assessHomeAction action).risk = .high) := by
  unfold assessHomeAction
  dsimp only
  split
  · exact .inr ⟨rfl, rfl⟩
  · split
    · exact .inr ⟨rfl, rfl⟩
    · split
      · exact .inr ⟨rfl, rfl⟩
      · split
        · exact .inr ⟨rfl, rfl⟩
        · split
          · exact .inr ⟨rfl, rfl⟩
          · exact .inl ⟨rfl, rfl⟩

theorem assessHomeAction_voiceSafe {action : HomeAction} (h : action.target.voiceSafe = true) :
    (assessHomeAction action).allowed = true ∨
      (assessHomeAction action).requiresConfirmation = true := by
  unfold assessHomeAction
  dsimp only
  rw [if_neg (by simp [h]), if_neg (by simp [h])]
  split
  · exact .inr rfl
  · split
    · exact .inr rfl
    · split
      · exact .inr rfl
      · exact .inl rfl

/-- The checks of the runtime assessment, while it is enabled. -/
structure RuntimeSafe (action : HomeAction) (policy : ActionPolicyDecision)
    (health : IntegrationHealth) (currentState : Option HomeState)
    (config : ActuationSafetyConfig) (origin : RequestOrigin) (confirmed : Bool) : Prop where
  healthy : health.connected = true
  resolved : action.target.entityIds ≠ []
  confident :
    action.target.confidence.lt (requiredConfidence policy config origin confirmed) = false
  single : config.denyMultiTargetSensitive = true → policy.risk.sensitive = true →
    action.target.entityIds.length ≤ 1
  available : config.requireAvailableState = true → action.target.kind.stateless = false →
    ∃ state, currentState = some state ∧ state.available = true

/-- The runtime assessment allows exactly when it is disabled or all its checks pass. -/
theorem runtimeSafe_iff (action : HomeAction) (policy : ActionPolicyDecision)
    (health : IntegrationHealth) (currentState : Option HomeState)
    (config : ActuationSafetyConfig) (origin : RequestOrigin) (confirmed : Bool) :
    (assessRuntimeHomeAction action policy health currentState config origin confirmed).allowed =
        true ↔
      config.enabled = false ∨
        RuntimeSafe action policy health currentState config origin confirmed := by
  unfold assessRuntimeHomeAction
  by_cases henabled : config.enabled = false
  · rw [if_pos henabled]
    exact ⟨fun _ => .inl henabled, fun _ => rfl⟩
  rw [if_neg henabled]
  by_cases hhealth : action.target.entityIds = [] ∨ health.connected = false
  · -- the first two checks refuse
    refine ⟨fun h => ?_, ?_⟩
    · by_cases hconn : health.connected = false
      · rw [if_pos hconn] at h
        cases h
      · rw [if_neg hconn, if_pos (hhealth.resolve_right hconn)] at h
        cases h
    · rintro (hdis | hsafe)
      · exact absurd hdis henabled
      · rcases hhealth with hids | hconn
        · exact absurd hids hsafe.resolved
        · rw [hsafe.healthy] at hconn
          cases hconn
  obtain ⟨hids, hconn⟩ := not_or.mp hhealth
  rw [if_neg hconn, if_neg hids]
  dsimp only
  by_cases hconf : action.target.confidence.lt (requiredConfidence policy config origin confirmed) =
      true
  · rw [if_pos hconf]
    refine ⟨nofun, ?_⟩
    rintro (hdis | hsafe)
    · exact absurd hdis henabled
    · rw [hsafe.confident] at hconf
      cases hconf
  rw [if_neg hconf]
  by_cases hmulti : config.denyMultiTargetSensitive = true ∧ policy.risk.sensitive = true ∧
      1 < action.target.entityIds.length
  · rw [if_pos hmulti]
    refine ⟨nofun, ?_⟩
    rintro (hdis | hsafe)
    · exact absurd hdis henabled
    · have := hsafe.single hmulti.1 hmulti.2.1
      omega
  rw [if_neg hmulti]
  have hsafe : (config.requireAvailableState = true → action.target.kind.stateless = false →
      ∃ state, currentState = some state ∧ state.available = true) →
      RuntimeSafe action policy health currentState config origin confirmed := by
    intro havail
    refine ⟨by simpa using hconn, hids, by simpa using hconf, fun hdeny hsens => ?_, havail⟩
    by_contra hlen
    exact hmulti ⟨hdeny, hsens, by omega⟩
  by_cases hreq : config.requireAvailableState = true ∧ action.target.kind.stateless = false
  · rw [if_pos hreq]
    constructor
    · intro h
      refine .inr (hsafe fun _ _ => ?_)
      cases currentState with
      | none => cases h
      | some state =>
        by_cases havail : state.available = true
        · exact ⟨state, rfl, havail⟩
        · dsimp only at h
          rw [if_neg havail] at h
          cases h
    · rintro (hdis | hall)
      · exact absurd hdis henabled
      · obtain ⟨state, rfl, havail⟩ := hall.available hreq.1 hreq.2
        dsimp only
        rw [if_pos havail]
        rfl
  · rw [if_neg hreq]
    exact ⟨fun _ => .inr (hsafe fun h1 h2 => absurd ⟨h1, h2⟩ hreq), fun _ => rfl⟩

end GenieClaw.Home
