import GenieClaw.Actuation.ConfirmationHistory
import GenieClaw.Actuation.Restart
import GenieClaw.Dispatch.HomeSpec

/-!
# What a dispatch changes of the home state

`HomeChange` says, part by part, what one dispatch may change of the limiter, the ledger,
the confirmation table and the audit log, and how that goes with the effects it reports.
It holds of every dispatch, whichever tool is called and whether or not the gate lets it
through, so invariants of the home state are proved from it alone.

* `executeWithContext_change`, `executeWithContext_effects`: every dispatch is a `HomeChange` with
  the effects it reports.
-/

namespace GenieClaw.Dispatch

open Library Library.Text Actuation Home Memory Relation

variable {W : Type}

/-- Only readings of the clock and the state of the gate, the memory and the home may
differ. -/
structure Untouched (s s' : DispatcherState W) : Prop where
  reads : s.reads ≤ s'.reads
  drawn : s'.drawn = s.drawn
  actuationAttempts : s'.actuationAttempts = s.actuationAttempts
  actionLedger : s'.actionLedger = s.actionLedger
  confirmations : s'.confirmations = s.confirmations
  auditLog : s'.auditLog = s.auditLog

theorem Untouched.refl (s : DispatcherState W) : Untouched s s :=
  ⟨Nat.le_refl _, rfl, rfl, rfl, rfl, rfl⟩

/-- The recorded action a call is an undo of. -/
def undoneBy (call : ToolCall) (ledger : ActionLedgerState) : Option Nat :=
  if call.name = "home_undo" then (ToolDispatcher.undoTarget ledger).map fun target => target.1.id
  else none

namespace ToolDispatcher

variable (d : ToolDispatcher W)

/-- What a call does to the confirmation table: nothing, an `issue` for its channel, or a
`list`. -/
inductive Manages (origin : RequestOrigin) (state : ConfirmationState) :
    Option PendingConfirmation → ConfirmationState → Prop
  | nothing : Manages origin state none state
  | issue {sweptMs createdMs : Nat} {bytes : Vector UInt8 16} {entity action : String}
      {value : Option F64} {reason : String} {issued : Option PendingConfirmation}
      {state' : ConfirmationState}
      (h : state.issue sweptMs createdMs bytes entity action value reason origin =
        (issued, state')) :
      Manages origin state issued state'
  | list (order : HashOrder PendingConfirmation) (nowMs : Nat) :
      Manages origin state none (state.list order nowMs).2

/-- What a call with this context changes, with its effects. -/
structure HomeChange (execCtx : ToolExecutionContext) (undoOf : Option Nat)
    (s : DispatcherState W) (effects : Effects) (s' : DispatcherState W) : Prop where
  reads : s.reads ≤ s'.reads
  charges : d.Charges execCtx.requestOrigin s effects.charged s'
  /-- Confirmed calls are not charged. -/
  uncharged : execCtx.confirmed = true → effects.charged = none
  /-- Nothing is executed or issued that was not confirmed or charged. -/
  paid : effects.performed.isSome = true ∨ effects.issued.isSome = true →
    execCtx.confirmed = true ∨ effects.charged.isSome = true
  performed : ∀ p, effects.performed = some p → p.origin = execCtx.requestOrigin ∧
    p.confirmed = execCtx.confirmed ∧ p.undoOf = undoOf ∧
    actuationOriginAllowed d.actuationSafety execCtx.requestOrigin = true
  exclusive : effects.performed.isSome = true → effects.issued = none
  /-- Confirmed calls issue nothing. -/
  unconfirmed : effects.issued.isSome = true → execCtx.confirmed = false
  recorded : (effects.recorded = none ∧ s'.actionLedger = s.actionLedger) ∨
    effects.performed.isSome = true ∧
      ∃ entity action value summary confidence undoRestore nowMs item,
        effects.recorded = some item ∧
        s.actionLedger.recordInternal entity action value execCtx.requestOrigin summary confidence
          undoOf undoRestore nowMs = (item, s'.actionLedger)
  issued : Manages execCtx.requestOrigin s.confirmations effects.issued s'.confirmations
  /-- The ledger and the audit log move as a session does. -/
  session : ∀ (format : LineFormat) (AtRestart : List AuditEvent → Prop) (log : List AuditEvent),
    s.auditLog = some log → (∀ id, undoOf = some id → id ≤ s.actionLedger.nextId) →
    ∃ log', s'.auditLog = some log' ∧
      ReflTransGen (SessionStep format AtRestart) ⟨s.actionLedger, log⟩
        ⟨s'.actionLedger, log'⟩

variable {d} {execCtx : ToolExecutionContext} {undoOf : Option Nat} {effects : Effects}
  {s s' s'' : DispatcherState W}

variable {charged : Option Nat}

theorem Charges.extend {origin : RequestOrigin} (hbefore : Untouched s s')
    (h : d.Charges origin s' charged s'') {t : DispatcherState W} (hreads : s''.reads ≤ t.reads)
    (hattempts : t.actuationAttempts = s''.actuationAttempts) : d.Charges origin s charged t := by
  rcases h with ⟨hnone, hsame⟩ | ⟨read, admitted, hfrom, hto, hattempt, hcharged⟩
  · exact .inl ⟨hnone, hattempts.trans (hsame.trans hbefore.actuationAttempts)⟩
  · refine .inr ⟨read, admitted, hbefore.reads.trans hfrom, hto.trans_le hreads, ?_, hcharged⟩
    rw [← hbefore.actuationAttempts, hattempt, hattempts]

theorem HomeChange.extend (hbefore : Untouched s s')
    (h : d.HomeChange execCtx undoOf s' effects s'') {t : DispatcherState W}
    (hafter : Untouched s'' t) :
    d.HomeChange execCtx undoOf s effects t where
  reads := hbefore.reads.trans (h.reads.trans hafter.reads)
  charges := h.charges.extend hbefore hafter.reads hafter.actuationAttempts
  uncharged := h.uncharged
  paid := h.paid
  performed := h.performed
  exclusive := h.exclusive
  unconfirmed := h.unconfirmed
  recorded := by
    rw [hafter.actionLedger, ← hbefore.actionLedger]
    exact h.recorded
  issued := by
    rw [hafter.confirmations, ← hbefore.confirmations]
    exact h.issued
  session := by
    rw [hafter.actionLedger, hafter.auditLog, ← hbefore.actionLedger, ← hbefore.auditLog]
    exact h.session

theorem HomeChange.quiet (hreads : s.reads ≤ s'.reads)
    (hcharges : d.Charges execCtx.requestOrigin s none s')
    (hledger : s'.actionLedger = s.actionLedger)
    (hissued : Manages execCtx.requestOrigin s.confirmations none s'.confirmations)
    (haudit : s'.auditLog = s.auditLog ∨
      ∃ event, event.status ≠ .executed ∧ s'.auditLog = s.auditLog.map fun log => log ++ [event]) :
    d.HomeChange execCtx undoOf s {} s' where
  reads := hreads
  charges := hcharges
  uncharged := fun _ => rfl
  paid := by
    rintro (hsome | hsome)
    · cases hsome
    · cases hsome
  performed := by
    intro p hp
    cases hp
  exclusive := fun _ => rfl
  unconfirmed := by
    intro hsome
    cases hsome
  recorded := .inl ⟨rfl, hledger⟩
  issued := hissued
  session := by
    intro format _ log hlog _
    rw [hledger]
    rcases haudit with hsame | ⟨event, hstatus, happend⟩
    · exact ⟨log, hsame.trans hlog, .refl⟩
    · rw [hlog] at happend
      exact ⟨_, happend, .single (.audited event hstatus)⟩

theorem HomeChange.none (h : Untouched s s') : d.HomeChange execCtx undoOf s {} s' :=
  .quiet h.reads (.inl ⟨rfl, h.actuationAttempts⟩) h.actionLedger
    (by rw [h.confirmations]; exact .nothing) (.inl h.auditLog)

theorem Refused.change (h : d.Refused execCtx s s') : d.HomeChange execCtx undoOf s {} s' := by
  obtain ⟨⟨reads, attempts, log, rfl⟩, hreads, hcharges, haudit⟩ := h
  exact .quiet hreads hcharges rfl .nothing haudit

/-! ## Settling an admitted request -/

/-- What admission leaves to be settled: the context of an admitted request. -/
structure Admitted (execCtx : ToolExecutionContext) (charged : Option Nat)
    (s s' : DispatcherState W) : Prop where
  allowed : actuationOriginAllowed d.actuationSafety execCtx.requestOrigin = true
  reads : s.reads ≤ s'.reads
  charges : d.Charges execCtx.requestOrigin s charged s'
  uncharged : execCtx.confirmed = true → charged = none
  paid : execCtx.confirmed = true ∨ charged.isSome = true
  frame : ∃ reads attempts, s' = { s with reads := reads, actuationAttempts := attempts }

theorem admitRequest_admitted {args : Json} {request : HomeRequest}
    (h : d.admitRequest args execCtx s = (.ok request, charged, s')) :
    d.Admitted execCtx charged s s' := by
  obtain ⟨-, hallowed, hcase⟩ := d.admitRequest_ok h
  rcases hcase with ⟨hconfirmed, rfl, rfl⟩ | ⟨hconfirmed, now, rfl, hcharge⟩
  · exact ⟨hallowed, Nat.le_refl _, .inl ⟨rfl, rfl⟩, fun _ => rfl, .inl hconfirmed, _, _, rfl⟩
  · obtain ⟨hcharges, hle, reads, attempts, rfl⟩ := d.chargeActuation_charges hcharge
    refine ⟨hallowed, hle, hcharges, fun hc => ?_, .inr rfl, _, _, rfl⟩
    rw [hconfirmed] at hc
    cases hc

/-- The outcome of a call together with what it performed. -/
def Reported (confirmed : Bool) (outcome : Except String ControlOutcome)
    (performed : Option HomeAction) : Prop :=
  (∀ output confidence, outcome = .ok (.executed output confidence) → performed.isSome = true) ∧
    ∀ reason display, outcome = .ok (.confirmationRequired reason display) →
      confirmed = false ∧ performed = none

theorem control_reported (home : HomeProvider W) (targetQuery action : String)
    (value : Option F64) (safety : ActuationSafetyConfig) (origin : RequestOrigin)
    (confirmed : Bool) (w : W) :
    Reported confirmed (control home targetQuery action value safety origin confirmed w).1
      (control home targetQuery action value safety origin confirmed w).2.1 := by
  refine ⟨fun output confidence h => ?_, fun reason display h => control_confirmationRequired h⟩
  obtain ⟨performed, hperformed⟩ := control_executed h
  rw [hperformed]
  rfl

/-- Settling an admitted request in any of the three ways is a change. -/
theorem settle_change (h : d.Admitted execCtx charged s s') (request : HomeRequest)
    (undoRestore : Option UndoRestore) {outcome : Except String ControlOutcome}
    {action : Option HomeAction} (hreported : Reported execCtx.confirmed outcome action) (w : W) :
    let settled := d.settle request execCtx undoOf undoRestore outcome { s' with world := w }
    d.HomeChange execCtx undoOf s
      { charged
        performed := action.map fun action =>
          ⟨request.entity, action, execCtx.requestOrigin, execCtx.confirmed, undoOf⟩
        recorded := settled.2.1
        issued := settled.2.2.1 }
      settled.2.2.2 := by
  intro settled
  have hperformed : ∀ p, action.map (fun action => (⟨request.entity, action,
      execCtx.requestOrigin, execCtx.confirmed, undoOf⟩ : Performance)) = some p →
      p.origin = execCtx.requestOrigin ∧ p.confirmed = execCtx.confirmed ∧ p.undoOf = undoOf ∧
        actuationOriginAllowed d.actuationSafety execCtx.requestOrigin = true := by
    intro p hp
    obtain ⟨_, -, rfl⟩ := Option.map_eq_some_iff.mp hp
    exact ⟨rfl, rfl, rfl, h.allowed⟩
  have hsame : ∀ t : DispatcherState W, s'.reads ≤ t.reads →
      t.actuationAttempts = s'.actuationAttempts →
      d.Charges execCtx.requestOrigin s charged t :=
    fun t hle hattempts => h.charges.extend (.refl s) hle hattempts
  obtain ⟨reads, attempts, rfl⟩ := h.frame
  cases outcome with
  | error e =>
    have hsettle : settled = _ := d.settle_error request execCtx undoOf undoRestore e _
    rw [auditRequest_eq] at hsettle
    rw [hsettle]
    refine ⟨h.reads.trans (Nat.le_succ _), hsame _ (Nat.le_succ _) rfl, h.uncharged,
      fun _ => h.paid, hperformed, fun _ => rfl, nofun, .inl ⟨rfl, rfl⟩, .nothing, ?_⟩
    intro format _ log hlog _
    dsimp only at hlog ⊢
    rw [hlog]
    exact ⟨_, rfl, .single (.audited _ (by unfold failureStatus; split_ifs <;> simp))⟩
  | ok outcome =>
    cases outcome with
    | executed output confidence =>
      have hsettle : settled = _ :=
        d.settle_executed request execCtx undoOf undoRestore output confidence _
      rw [hsettle]
      have hsome := hreported.1 output confidence rfl
      refine ⟨h.reads.trans (Nat.le_add_right _ 2), hsame _ (Nat.le_add_right _ 2) rfl,
        h.uncharged, fun _ => h.paid, hperformed, fun _ => rfl, nofun, .inr ⟨?_, ?_⟩, .nothing,
        ?_⟩
      · rw [Option.isSome_map]
        exact hsome
      · exact ⟨_, _, _, _, _, _, _, _, rfl, rfl⟩
      · intro format _ log hlog hundo
        dsimp only at hlog ⊢
        rw [hlog]
        exact ⟨_, rfl, .single (.executed _ _ _ _ _ _ _ _ _ _ hundo)⟩
    | confirmationRequired reason display =>
      obtain ⟨hunconfirmed, hnone⟩ := hreported.2 reason display rfl
      rw [hnone] at hperformed ⊢
      obtain ⟨text, reads', drawn, log', hsettle, hle, hlog'⟩ := d.settle_confirmation request
        execCtx undoOf undoRestore reason display
        { s with world := w, reads := reads, actuationAttempts := attempts }
      have hsettle : settled = _ := hsettle
      rw [hsettle]
      refine ⟨h.reads.trans hle, hsame _ hle rfl, h.uncharged, fun _ => h.paid, hperformed, nofun,
        fun _ => hunconfirmed, .inl ⟨rfl, rfl⟩, .issue rfl, ?_⟩
      intro format _ log hlog _
      rcases hlog' with rfl | ⟨event, hstatus, rfl⟩
      · exact ⟨log, hlog, .refl⟩
      · dsimp only at hlog ⊢
        rw [hlog]
        exact ⟨_, rfl, .single (.audited event (by rw [hstatus]; nofun))⟩

theorem execHomeControlInner_change (args : Json) (execCtx : ToolExecutionContext)
    (undoOf : Option Nat) (s : DispatcherState W) :
    d.HomeChange execCtx undoOf s (d.execHomeControlInner args execCtx undoOf s).2.1
      (d.execHomeControlInner args execCtx undoOf s).2.2 := by
  rcases d.execHomeControlInner_cases args execCtx undoOf s with ⟨heffects, hrefused⟩ |
    ⟨home, request, charged, s₁, hha, hadmission⟩
  · rw [heffects]
    exact hrefused.change
  · obtain ⟨w, undoRestore, -, hcall⟩ := d.execHomeControlInner_ok hha undoOf hadmission
    rw [hcall]
    exact settle_change (admitRequest_admitted hadmission) request undoRestore
      (control_reported home request.entity request.action request.value d.actuationSafety
        execCtx.requestOrigin execCtx.confirmed w) _

/-! ## Every tool -/

theorem execHomeStatus_untouched (args : Json) (s : DispatcherState W) :
    Untouched s (d.execHomeStatus args s).2 := by
  unfold execHomeStatus
  split
  · exact .refl s
  · split
    · exact .refl s
    · exact ⟨Nat.le_refl _, rfl, rfl, rfl, rfl, rfl⟩

theorem execActionHistory_state (s : DispatcherState W) :
    (d.execActionHistory s).2 = (d.pendingConfirmations s).2 := by
  unfold execActionHistory
  dsimp only
  split
  · rfl
  · rfl

theorem execTool_change (call : ToolCall) (execCtx : ToolExecutionContext) (s : DispatcherState W) :
    d.HomeChange execCtx (undoneBy call s.actionLedger) s (d.execTool call execCtx s).2.1
      (d.execTool call execCtx s).2.2 := by
  unfold execTool
  split
  · rename_i hname
    have hundo : undoneBy call s.actionLedger = none := by
      unfold undoneBy
      rw [hname, if_neg (by decide)]
    rw [hundo]
    exact execHomeControlInner_change call.arguments execCtx none s
  · exact .none (execHomeStatus_untouched call.arguments s)
  · rename_i hname
    unfold undoneBy execHomeUndo
    rw [if_pos hname]
    cases htarget : undoTarget s.actionLedger with
    | none => exact .none (.refl s)
    | some target => exact execHomeControlInner_change target.2 execCtx (some target.1.id) s
  · dsimp only
    rw [execActionHistory_state]
    exact .quiet (Nat.le_succ _) (.inl ⟨rfl, rfl⟩) rfl
      (.list (d.confirmationOrder s.reads) (d.clock s.reads)) (.inl rfl)
  · exact .none ⟨Nat.le_refl _, rfl, rfl, rfl, rfl, rfl⟩

variable {call : ToolCall}

theorem execTool_effects
    (h : (d.execTool call execCtx s).2.1.performed.isSome = true ∨
      (d.execTool call execCtx s).2.1.issued.isSome = true) :
    call.name = "home_control" ∨ call.name = "home_undo" := by
  unfold execTool at h
  split at h
  · rename_i hname
    exact .inl hname
  · rcases h with h | h
    · cases h
    · cases h
  · rename_i hname
    exact .inr hname
  · rcases h with h | h
    · cases h
    · cases h
  · rcases h with h | h
    · cases h
    · cases h

/-! ## The gate -/

/-- Only what the gate keeps for itself may differ. -/
def GateOnly (s s' : DispatcherState W) : Prop :=
  ∃ reads attempts confirmations log, s.reads ≤ reads ∧ s' =
    { s with
      reads := reads
      toolAttempts := attempts
      toolConfirmations := confirmations
      toolAuditLog := log }

theorem GateOnly.refl (s : DispatcherState W) : GateOnly s s :=
  ⟨_, _, _, _, Nat.le_refl _, rfl⟩

theorem GateOnly.trans (h : GateOnly s s') (h' : GateOnly s' s'') : GateOnly s s'' := by
  obtain ⟨_, _, _, _, hle, rfl⟩ := h
  obtain ⟨_, _, _, _, hle', rfl⟩ := h'
  exact ⟨_, _, _, _, hle.trans hle', rfl⟩

theorem GateOnly.untouched (h : GateOnly s s') : Untouched s s' := by
  obtain ⟨_, _, _, _, hle, rfl⟩ := h
  exact ⟨hle, rfl, rfl, rfl, rfl, rfl⟩

theorem GateOnly.memory (h : GateOnly s s') : s'.memory = s.memory := by
  obtain ⟨_, _, _, _, -, rfl⟩ := h
  rfl

theorem refuse_gateOnly (call : ToolCall) (execCtx : ToolExecutionContext) (success : Bool)
    (output : String) (decision : GateDecision) (s : DispatcherState W) :
    GateOnly s (d.refuse call execCtx success output decision s).2 :=
  ⟨_, _, _, _, Nat.le_succ _, rfl⟩

theorem confirmGate_gateOnly (call : ToolCall) (execCtx : ToolExecutionContext)
    (s : DispatcherState W) : GateOnly s (d.confirmGate call execCtx s).2 := by
  unfold confirmGate nowMs
  split
  · dsimp only
    have hread : ∀ confirmations, GateOnly s
        { s with reads := s.reads + 1, toolConfirmations := confirmations } :=
      fun _ => ⟨_, _, _, _, Nat.le_succ _, rfl⟩
    split
    · exact (hread _).trans (refuse_gateOnly _ _ _ _ _ _)
    · exact (hread _).trans (refuse_gateOnly _ _ _ _ _ _)
    · exact hread _
  · exact .refl s

theorem chargeTool_gateOnly (tool : String) (s : DispatcherState W) :
    GateOnly s (d.chargeTool tool s).2 := by
  unfold chargeTool nowMs
  split
  · exact .refl s
  · split
    · exact .refl s
    · dsimp only
      split
      · exact ⟨_, _, _, _, Nat.le_succ _, rfl⟩
      · exact ⟨_, _, _, _, Nat.le_succ _, rfl⟩

theorem rateGate_gateOnly (call : ToolCall) (execCtx : ToolExecutionContext)
    (s : DispatcherState W) : GateOnly s (d.rateGate call execCtx s).2 := by
  unfold rateGate
  split
  · exact .refl s
  · have hcharge := d.chargeTool_gateOnly call.name s
    generalize d.chargeTool call.name s = out at hcharge ⊢
    obtain ⟨result, s'⟩ := out
    cases result with
    | ok _ => exact hcharge
    | error err => exact hcharge.trans (refuse_gateOnly _ _ _ _ _ _)

theorem runGate_gateOnly (call : ToolCall) (execCtx : ToolExecutionContext)
    (s : DispatcherState W) : GateOnly s (d.runGate call execCtx s).2 := by
  unfold runGate
  split
  · exact refuse_gateOnly _ _ _ _ _ _
  · have hconfirm := d.confirmGate_gateOnly call execCtx s
    generalize d.confirmGate call execCtx s = out at hconfirm ⊢
    obtain ⟨refusal, s'⟩ := out
    cases refusal with
    | some refusal => exact hconfirm
    | none => exact hconfirm.trans (d.rateGate_gateOnly call execCtx s')

theorem auditGateDecision_gateOnly (call : ToolCall) (execCtx : ToolExecutionContext)
    (result : ToolResult) (decision : GateDecision) (s : DispatcherState W) :
    GateOnly s (d.auditGateDecision call execCtx result decision s) :=
  ⟨_, _, _, _, Nat.le_succ _, rfl⟩

/-! ## A whole dispatch -/

theorem executeWithContext_cases (call : ToolCall) (execCtx : ToolExecutionContext)
    (s : DispatcherState W) :
    (∃ rejected s₁, d.runGate call execCtx s = (some rejected, s₁) ∧
        d.executeWithContext call execCtx s = (rejected, {}, s₁)) ∨
      ∃ s₁ result decision, d.runGate call execCtx s = (none, s₁) ∧
        let out := d.execTool call execCtx s₁
        d.executeWithContext call execCtx s =
          (result, { out.2.1 with entered := some (d.clock out.2.2.reads) },
            d.auditGateDecision call execCtx result decision out.2.2) := by
  unfold executeWithContext
  generalize d.runGate call execCtx s = gate
  obtain ⟨refusal, s₁⟩ := gate
  cases refusal with
  | some rejected => exact .inl ⟨rejected, s₁, rfl, rfl⟩
  | none =>
    refine .inr ⟨s₁, ?_⟩
    dsimp only
    generalize d.execTool call execCtx s₁ = out
    obtain ⟨answer, effects, s₂⟩ := out
    cases answer with
    | ok output => exact ⟨_, _, rfl, rfl⟩
    | error e => exact ⟨_, _, rfl, rfl⟩

theorem executeWithContext_change (call : ToolCall) (execCtx : ToolExecutionContext)
    (s : DispatcherState W) :
    d.HomeChange execCtx (undoneBy call s.actionLedger) s
      (d.executeWithContext call execCtx s).2.1.toEffects
      (d.executeWithContext call execCtx s).2.2 := by
  have hgate := (d.runGate_gateOnly call execCtx s).untouched
  rcases d.executeWithContext_cases call execCtx s with ⟨rejected, s₁, hrun, hcall⟩ |
    ⟨s₁, result, decision, hrun, hcall⟩
  · rw [hrun] at hgate
    rw [hcall]
    exact .none hgate
  · rw [hrun] at hgate
    rw [hcall]
    have hchange := d.execTool_change call execCtx s₁
    rw [hgate.actionLedger] at hchange
    exact hchange.extend hgate (d.auditGateDecision_gateOnly _ _ _ _ _).untouched

/-- A dispatch that executes an action or issues a pending one carries the name of one of
the two home tools and was let through by the gate under that name. -/
theorem executeWithContext_effects {execCtx : ToolExecutionContext} {s : DispatcherState W}
    (h : (d.executeWithContext call execCtx s).2.1.performed.isSome = true ∨
      (d.executeWithContext call execCtx s).2.1.issued.isSome = true) :
    (d.runGate call execCtx s).1 = none ∧
      (call.name = "home_control" ∨ call.name = "home_undo") := by
  rcases d.executeWithContext_cases call execCtx s with ⟨rejected, s₁, hrun, hcall⟩ |
    ⟨s₁, result, decision, hrun, hcall⟩
  · rw [hcall] at h
    rcases h with h | h
    · cases h
    · cases h
  · rw [hcall] at h
    rw [hrun]
    exact ⟨rfl, execTool_effects h⟩

theorem executeWithContext_entered {execCtx : ToolExecutionContext} {s : DispatcherState W}
    (h : (d.executeWithContext call execCtx s).2.1.entered.isSome = true) :
    (d.runGate call execCtx s).1 = none := by
  rcases d.executeWithContext_cases call execCtx s with ⟨rejected, s₁, hrun, hcall⟩ |
    ⟨s₁, result, decision, hrun, hcall⟩
  · rw [hcall] at h
    cases h
  · rw [hrun]

end ToolDispatcher

end GenieClaw.Dispatch
