import GenieClaw.Dispatch.GateHistory
import GenieClaw.Dispatch.Runs

/-!
# What the gate covers

The gate decides by the name a call carries. Two names lead to the provider, and the
confirmation path is gated as `home_control`.

* `executions_pass_their_own_gate` (no assumption): whatever executes was admitted under the name
  and for the channel of its own call.
-/

namespace GenieClaw.Dispatch

open Library Actuation Home Memory

variable {W : Type}

namespace ToolDispatcher

variable (d : ToolDispatcher W)

/-! ## The conditions of the gate -/

/-- Everything the gate has checked about a call it lets through. -/
structure GateAdmits (call : ToolCall) (execCtx : ToolExecutionContext)
    (s : DispatcherState W) : Prop where
  listed : toolOriginAllowed d.toolPolicy execCtx.requestOrigin call.name = .ok ()
  confirmed : toolRequiresConfirmation d.toolPolicy call.name = true →
    execCtx.confirmed = true ∧ ∃ firstSeen,
      (sweepConfirmations (d.clock s.reads) s.toolConfirmations).lookup
        (toolConfirmationKey d.floatText execCtx.requestOrigin call.name call.arguments) =
        some firstSeen ∧
      d.clock s.reads - firstSeen ≤ confirmationTtlMs d.toolPolicy
  limited : execCtx.confirmed = false → ∀ limit,
    toolRateLimit d.toolPolicy call.name = some limit →
      limit ≠ 0 ∧ (attempt call.name limit (d.clock s.reads) s.toolAttempts).1 = true

theorem evaluate_passes_iff (floatText : F64 → String) (hasher : String → BitVec 64) (ttlMs : Nat)
    (order : HashOrder Nat) (origin : RequestOrigin) (tool : String) (args : Json)
    (confirmed : Bool) (nowMs : Nat) (pending : HashTable String Nat) :
    (evaluate floatText hasher order origin tool args ttlMs confirmed nowMs pending).1 =
        .confirmed ↔
      confirmed = true ∧ ∃ firstSeen,
        (sweepConfirmations nowMs pending).lookup (toolConfirmationKey floatText origin tool args) =
          some firstSeen ∧ nowMs - firstSeen ≤ ttlMs := by
  rw [evaluate_confirmed_iff]
  cases confirmed with
  | false =>
    refine ⟨nofun, ?_⟩
    rintro ⟨hfalse, -⟩
    cases hfalse
  | true =>
    rw [evaluateKey_confirmed_iff]
    exact ⟨fun h => ⟨rfl, h⟩, fun h => h.2⟩

/-- The confirmation step passes a tool that needs none, untouched, and a confirmed call
whose first leg is young enough. -/
theorem confirmGate_none_iff (call : ToolCall) (execCtx : ToolExecutionContext)
    (s : DispatcherState W) :
    (d.confirmGate call execCtx s).1 = none ↔
      (toolRequiresConfirmation d.toolPolicy call.name = true →
        execCtx.confirmed = true ∧ ∃ firstSeen,
          (sweepConfirmations (d.clock s.reads) s.toolConfirmations).lookup
            (toolConfirmationKey d.floatText execCtx.requestOrigin call.name call.arguments) =
            some firstSeen ∧
          d.clock s.reads - firstSeen ≤ confirmationTtlMs d.toolPolicy) := by
  unfold confirmGate nowMs
  by_cases hrequires : toolRequiresConfirmation d.toolPolicy call.name = true
  · rw [if_pos hrequires]
    dsimp only
    have hpasses := evaluate_passes_iff d.floatText d.hasher (confirmationTtlMs d.toolPolicy)
      (d.gateOrder s.reads) execCtx.requestOrigin call.name call.arguments execCtx.confirmed
      (d.clock s.reads) s.toolConfirmations
    generalize evaluate d.floatText d.hasher (d.gateOrder s.reads) execCtx.requestOrigin call.name
      call.arguments (confirmationTtlMs d.toolPolicy) execCtx.confirmed (d.clock s.reads)
      s.toolConfirmations = out at hpasses ⊢
    obtain ⟨decision, pending⟩ := out
    constructor
    · intro hnone _
      refine hpasses.mp ?_
      cases decision with
      | pending token => cases hnone
      | expired => cases hnone
      | confirmed => rfl
    · intro h
      have hdecision : decision = .confirmed := hpasses.mpr (h hrequires)
      subst hdecision
      rfl
  · rw [if_neg hrequires]
    exact ⟨fun _ h => absurd h hrequires, fun _ => rfl⟩

theorem rateGate_none_iff (call : ToolCall) (execCtx : ToolExecutionContext)
    (s : DispatcherState W) :
    (d.rateGate call execCtx s).1 = none ↔
      (execCtx.confirmed = false → ∀ limit, toolRateLimit d.toolPolicy call.name = some limit →
        limit ≠ 0 ∧ (attempt call.name limit (d.clock s.reads) s.toolAttempts).1 = true) := by
  unfold rateGate
  cases hconfirmed : execCtx.confirmed with
  | true => simp
  | false =>
    rw [if_neg (by simp)]
    unfold chargeTool nowMs
    cases hlimit : toolRateLimit d.toolPolicy call.name with
    | none => simp
    | some limit =>
      dsimp only
      by_cases hzero : limit = 0
      · rw [if_pos hzero]
        refine ⟨nofun, fun h => ?_⟩
        exact absurd hzero (h rfl limit rfl).1
      · rw [if_neg hzero]
        cases hattempt : (attempt call.name limit (d.clock s.reads) s.toolAttempts).1 with
        | false =>
          refine ⟨nofun, fun h => ?_⟩
          have hadmitted := (h rfl limit rfl).2
          rw [hattempt] at hadmitted
          cases hadmitted
        | true =>
          refine ⟨fun _ _ limit' hlimit' => ?_, fun _ => rfl⟩
          cases hlimit'
          exact ⟨hzero, hattempt⟩

theorem runGate_none_iff (call : ToolCall) (execCtx : ToolExecutionContext)
    (s : DispatcherState W) :
    (d.runGate call execCtx s).1 = none ↔ d.GateAdmits call execCtx s := by
  have hconfirm := d.confirmGate_none_iff call execCtx s
  unfold runGate
  cases hlisted : toolOriginAllowed d.toolPolicy execCtx.requestOrigin call.name with
  | error err =>
    refine ⟨nofun, fun h => ?_⟩
    rw [h.listed] at hlisted
    cases hlisted
  | ok _ =>
    dsimp only
    rcases hgate : d.confirmGate call execCtx s with ⟨refusal, s₁⟩
    rw [hgate] at hconfirm
    cases refusal with
    | some rejected =>
      refine ⟨nofun, fun h => ?_⟩
      cases hconfirm.mpr h.confirmed
    | none =>
      have hpassed := hconfirm.mp rfl
      dsimp only
      rw [rateGate_none_iff]
      -- an unconfirmed call got here because its tool needs no confirmation
      have hsame : execCtx.confirmed = false → s₁ = s := by
        intro hunconfirmed
        have hnot : ¬ toolRequiresConfirmation d.toolPolicy call.name = true := by
          intro hrequires
          have hconfirmed := (hpassed hrequires).1
          rw [hunconfirmed] at hconfirmed
          cases hconfirmed
        have hstate := congrArg Prod.snd hgate
        unfold confirmGate at hstate
        rw [if_neg hnot] at hstate
        exact hstate.symm
      constructor
      · intro hlimited
        exact ⟨hlisted, hpassed, fun hunconfirmed => hsame hunconfirmed ▸ hlimited hunconfirmed⟩
      · intro h hunconfirmed
        rw [hsame hunconfirmed]
        exact h.limited hunconfirmed

/-! ## Executions and the gate -/

/-- The event executes nothing, or its own call was admitted: a dispatch under its name and
for its channel, a confirmation as a `home_control` of the channel that asked. -/
def ExecutesThroughItsGate (e : DispatcherEvent W) : Prop :=
  ∀ p, DispatcherEvent.performed e = some p →
    actuationOriginAllowed d.actuationSafety p.origin = true ∧
      match e.input with
      | .dispatch call execCtx =>
        (call.name = "home_control" ∨ call.name = "home_undo") ∧
          p.origin = execCtx.requestOrigin ∧ d.GateAdmits call execCtx e.before ∧
          (execCtx.confirmed = true ∨ (DispatcherEvent.charged e).isSome = true)
      | .confirm token =>
        ∃ pending, DispatcherEvent.taken e = some pending ∧ p.origin = pending.requestedBy ∧
          d.GateAdmits (pendingCall pending) (confirmedContext pending)
            (d.afterTaking token e.before)
      | .pending => False
      | .elsewhere _ _ => False

theorem executesThroughItsGate_step (s : DispatcherState W) (op : DispatcherOp W) :
    d.ExecutesThroughItsGate (d.program.eventAt s op) := by
  intro p hp
  obtain ⟨hallowed, hcase⟩ := d.step_effects hp
  refine ⟨hallowed, ?_⟩
  rcases hcase with ⟨call, execCtx, rfl, horigin, -, hname, hgate⟩ |
    ⟨token, pending, rfl, -, htaken, horigin, -, hgate⟩
  · have hpaid := d.step_paid (.inl (congrArg Option.isSome hp))
    exact ⟨hname, horigin, (d.runGate_none_iff call execCtx s).mp hgate, hpaid⟩
  · exact ⟨pending, htaken, horigin, (d.runGate_none_iff _ _ _).mp hgate⟩

/-- The policy refuses the channel both names that lead to the provider. -/
def RefusesBothNames (origin : RequestOrigin) : Prop :=
  ∀ name, name = "home_control" ∨ name = "home_undo" →
    toolOriginAllowed d.toolPolicy origin name ≠ .ok ()

/-- In every run, whatever executes was admitted by the gate under the name and for the
channel of its own call, from an allowed channel, confirmed or charged; a channel that is
refused both names executes nothing. -/
theorem executions_pass_their_own_gate (s : DispatcherState W) (ops : List (DispatcherOp W)) :
    ∀ e ∈ d.program.trace s ops, d.ExecutesThroughItsGate e ∧
      ∀ origin, d.RefusesBothNames origin → ∀ p, DispatcherEvent.performed e = some p →
        p.origin ≠ origin := by
  intro e he
  obtain ⟨as, op, bs, -, rfl⟩ := d.program.mem_trace he
  have hgate := d.executesThroughItsGate_step (d.program.run s as) op
  refine ⟨hgate, fun origin hrefuses p hp horigin => ?_⟩
  obtain ⟨-, hcase⟩ := hgate p hp
  cases op with
  | dispatch call execCtx =>
    obtain ⟨hname, hctx, hadmits, -⟩ := hcase
    refine hrefuses call.name hname ?_
    rw [← horigin, hctx]
    exact hadmits.listed
  | confirm token =>
    obtain ⟨pending, -, hpending, hadmits⟩ := hcase
    refine hrefuses "home_control" (.inl rfl) ?_
    rw [← horigin, hpending]
    exact hadmits.listed
  | pending => exact hcase
  | elsewhere memory world => exact hcase

end ToolDispatcher

/-! ## One name refused -/

/-- A dispatch executes only where its channel may call `home_control`. -/
def GuardedByHomeControl (d : ToolDispatcher W) (e : DispatcherEvent W) : Prop :=
  ∀ call execCtx, e.input = .dispatch call execCtx →
    (DispatcherEvent.performed e).isSome = true →
    toolOriginAllowed d.toolPolicy execCtx.requestOrigin "home_control" = .ok ()

/-- A household whose policy keeps voice from `home_control`. -/
def voiceDenied : ToolDispatcher Unit :=
  obligingDispatcher (fun _ => porchLight)
    { deniedToolsByOrigin := (∅ : HashTable String (List String)).insert "voice" ["home_control"] }
    {} id

/-- The dashboard turns the porch light on, voice asks to undo that. -/
def undoByVoice : List (DispatcherOp Unit) :=
  [.dispatch
      ⟨"home_control", .object [("action", .string "turn_on"), ("entity", .string "porch")]⟩
      { requestOrigin := .dashboard },
    .dispatch ⟨"home_undo", .object []⟩ { requestOrigin := .voice }]

/-- A household whose policy keeps telegram from both names. -/
def telegramDenied : ToolDispatcher Unit :=
  obligingDispatcher (fun _ => porchLight)
    { deniedToolsByOrigin := (∅ : HashTable String (List String)).insert "telegram"
        ["home_control", "home_undo"] }
    {} id

theorem telegramDenied_refuses : telegramDenied.RefusesBothNames .telegram := by
  rintro name (rfl | rfl)
  · decide
  · decide

theorem executions_pass_their_own_gate_telegram :
    ∃ e ∈ telegramDenied.program.trace { world := () } undoByVoice,
      (DispatcherEvent.performed e).isSome = true ∧ telegramDenied.ExecutesThroughItsGate e ∧
        ∀ p, DispatcherEvent.performed e = some p → p.origin ≠ .telegram := by
  have hperformed : (DispatcherEvent.performed (telegramDenied.program.eventAt { world := () }
      undoByVoice[0])).isSome = true := by
    decide
  obtain ⟨hgate, horigins⟩ := telegramDenied.executions_pass_their_own_gate { world := () }
    undoByVoice _ List.mem_cons_self
  exact ⟨_, List.mem_cons_self, hperformed, hgate, horigins .telegram telegramDenied_refuses⟩

theorem undo_executes_where_control_is_denied :
    ∃ e ∈ voiceDenied.program.trace { world := () } undoByVoice,
      ¬ GuardedByHomeControl voiceDenied e := by
  refine ⟨_, List.mem_cons_of_mem _ List.mem_cons_self, fun h => ?_⟩
  have hperformed : (DispatcherEvent.performed (voiceDenied.program.eventAt
      (voiceDenied.program.step { world := () } undoByVoice[0]).2 undoByVoice[1])).isSome =
      true := by
    decide
  have hallowed := h _ _ rfl hperformed
  revert hallowed
  decide

end GenieClaw.Dispatch
