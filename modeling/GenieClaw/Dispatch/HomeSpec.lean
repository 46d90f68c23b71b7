import GenieClaw.Dispatch.HomeTools

/-!
# What the home tools do to the state

One lemma for each phase of `execHomeControlInner`, each an equation for the state it
leaves, and from them the case analysis of a whole call. Proofs about runs use these and
never unfold a phase.

* `admitRequest_ok`, `settle_error`, `settle_confirmation`: the phases.
* `execHomeControlInner_cases`: a call is refused without effect, or its request is admitted.
-/

namespace GenieClaw.Dispatch

open Library Library.Text Actuation Home Memory

variable {args : Json}

/-- Accepted arguments name the trimmed entity and a canonical action, with a value where
the action needs one. -/
theorem parseHomeControlArgs_ok {entity action : String} {value : Option F64}
    (h : parseHomeControlArgs args = .ok (entity, action, value)) :
    entityArgument args = some entity ∧ action ∈ homeControlActions ∧
      (actionRequiresValue action = true → value.isSome = true) := by
  unfold parseHomeControlArgs at h
  split at h
  · cases h
  · rename_i found hfound
    split at h
    · cases h
    · split at h
      · cases h
      · rename_i canonical hcanonical
        dsimp only at h
        split at h
        · cases h
        · split at h
          · cases h
          · rename_i hvalue
            cases h
            refine ⟨hfound, canonHomeControlAction_mem hcanonical, fun hrequires => ?_⟩
            rw [hrequires, Bool.and_true] at hvalue
            cases value with
            | none => exact absurd rfl hvalue
            | some _ => rfl

namespace ToolDispatcher

variable {W : Type} (d : ToolDispatcher W)

/-! ## Clock, audit and limiter -/

theorem auditRequest_eq (status : AuditStatus) (origin : RequestOrigin) (request : HomeRequest)
    (reason : String) (token : Option String) (s : DispatcherState W) :
    d.auditRequest status origin request reason token s =
      { s with
        reads := s.reads + 1
        auditLog := s.auditLog.map fun log => log ++
          [⟨d.clock s.reads, status, origin, request.entity, request.action, request.value, reason,
            token, none, none, none, none⟩] } := rfl

/-- What a charge does to the limiter: nothing, or one attempt at a reading taken between
the two states, which admits or refuses. -/
def Charges (origin : RequestOrigin) (s : DispatcherState W) (charged : Option Nat)
    (s' : DispatcherState W) : Prop :=
  (charged = none ∧ s'.actuationAttempts = s.actuationAttempts) ∨
    ∃ read admitted, s.reads ≤ read ∧ read < s'.reads ∧
      attempt origin (actuationRateLimit d.actuationSafety origin) (d.clock read)
        s.actuationAttempts = (admitted, s'.actuationAttempts) ∧
      charged = if admitted then some (d.clock read) else none

variable {s s' : DispatcherState W}

theorem chargeActuation_charges {origin : RequestOrigin} {result : Except String Nat}
    (h : d.chargeActuation origin s = (result, s')) :
    d.Charges origin s result.toOption s' ∧ s.reads ≤ s'.reads ∧
      ∃ reads attempts, s' = { s with reads := reads, actuationAttempts := attempts } := by
  unfold chargeActuation nowMs at h
  dsimp only at h
  split at h
  · cases h
    exact ⟨.inl ⟨rfl, rfl⟩, Nat.le_refl _, _, _, rfl⟩
  · split at h
    · rename_i hadmitted
      cases h
      refine ⟨.inr ⟨s.reads, true, Nat.le_refl _, Nat.lt_succ_self _, ?_, rfl⟩, Nat.le_succ _, _,
        _, rfl⟩
      exact Prod.ext hadmitted rfl
    · rename_i hrefused
      cases h
      refine ⟨.inr ⟨s.reads, false, Nat.le_refl _, Nat.lt_succ_self _, ?_, rfl⟩, Nat.le_succ _, _,
        _, rfl⟩
      exact Prod.ext (Bool.eq_false_of_not_eq_true hrefused) rfl

/-! ## Admission -/

variable {execCtx : ToolExecutionContext} {charged : Option Nat}

/-- An admitted request names the resolved entity, comes from an allowed channel, and was
charged unless it is confirmed. -/
theorem admitRequest_ok {request : HomeRequest}
    (h : d.admitRequest args execCtx s = (.ok request, charged, s')) :
    (∃ entityName, parseHomeControlArgs args = .ok (entityName, request.action, request.value) ∧
        request.entity = resolveDeviceAlias s.memory entityName) ∧
      actuationOriginAllowed d.actuationSafety execCtx.requestOrigin = true ∧
      ((execCtx.confirmed = true ∧ charged = none ∧ s' = s) ∨
        (execCtx.confirmed = false ∧ ∃ now, charged = some now ∧
          d.chargeActuation execCtx.requestOrigin s = (.ok now, s'))) := by
  unfold admitRequest at h
  split at h
  · cases h
  · rename_i entityName action value hparse
    dsimp only at h
    split at h
    · cases h
    · rename_i hallowed
      have hallowed' : actuationOriginAllowed d.actuationSafety execCtx.requestOrigin = true := by
        simpa using hallowed
      split at h
      · rename_i hconfirmed
        cases h
        exact ⟨⟨entityName, hparse, rfl⟩, hallowed', .inl ⟨hconfirmed, rfl, rfl⟩⟩
      · rename_i hconfirmed
        split at h
        · rename_i now s'' hcharge
          cases h
          exact ⟨⟨entityName, hparse, rfl⟩, hallowed', .inr ⟨by simpa using hconfirmed, now, rfl,
            hcharge⟩⟩
        · cases h

theorem admitRequest_confirmed {s : DispatcherState W} {entityName action : String}
    {value : Option F64} (hparse : parseHomeControlArgs args = .ok (entityName, action, value))
    (hallowed : actuationOriginAllowed d.actuationSafety execCtx.requestOrigin = true)
    (hconfirmed : execCtx.confirmed = true) :
    d.admitRequest args execCtx s =
      (.ok ⟨resolveDeviceAlias s.memory entityName, action, value⟩, none, s) := by
  unfold admitRequest
  rw [hparse]
  dsimp only
  rw [if_neg (by rw [hallowed]; nofun), if_pos hconfirmed]

/-- The state a refused request leaves: at most a reading, a refused attempt and a line of
the audit that is not about an execution. -/
structure Refused (execCtx : ToolExecutionContext) (s s' : DispatcherState W) : Prop where
  frame : ∃ reads attempts log, s' =
    { s with reads := reads, actuationAttempts := attempts, auditLog := log }
  reads : s.reads ≤ s'.reads
  charges : d.Charges execCtx.requestOrigin s none s'
  audit : s'.auditLog = s.auditLog ∨
    ∃ event, event.status ≠ .executed ∧ s'.auditLog = s.auditLog.map fun log => log ++ [event]

theorem admitRequest_error {e : String}
    (h : d.admitRequest args execCtx s = (.error e, charged, s')) :
    charged = none ∧ d.Refused execCtx s s' := by
  unfold admitRequest at h
  split at h
  · cases h
    exact ⟨rfl, ⟨_, _, _, rfl⟩, Nat.le_refl _, .inl ⟨rfl, rfl⟩, .inl rfl⟩
  · dsimp only at h
    split at h
    · cases h
      rw [auditRequest_eq]
      exact ⟨rfl, ⟨_, _, _, rfl⟩, Nat.le_succ _, .inl ⟨rfl, rfl⟩, .inr ⟨_, by simp, rfl⟩⟩
    · split at h
      · cases h
      · split at h
        · cases h
        · rename_i reason s'' hcharge
          cases h
          obtain ⟨hcharges, hle, reads, attempts, rfl⟩ := d.chargeActuation_charges hcharge
          rw [auditRequest_eq]
          refine ⟨rfl, ⟨_, _, _, rfl⟩, Nat.le_succ_of_le hle, ?_, .inr ⟨_, by simp, rfl⟩⟩
          rcases hcharges with ⟨-, hsame⟩ | ⟨read, admitted, hfrom, hto, hattempt, hnone⟩
          · exact .inl ⟨rfl, hsame⟩
          · exact .inr ⟨read, admitted, hfrom, Nat.lt_succ_of_lt hto, hattempt, hnone⟩

/-! ## Capture and control -/

theorem captureUndoRestore_frame (home : HomeProvider W) (request : HomeRequest)
    (undoOf : Option Nat) (s : DispatcherState W) :
    ∃ w, (captureUndoRestore home request undoOf s).2 = { s with world := w } := by
  unfold captureUndoRestore
  split
  · exact ⟨_, rfl⟩
  · split
    · split
      · exact ⟨_, rfl⟩
      · split
        · exact ⟨_, rfl⟩
        · split
          · exact ⟨_, rfl⟩
          · exact ⟨_, rfl⟩
    · exact ⟨_, rfl⟩

/-! ## Settling -/

theorem settle_executed (request : HomeRequest) (execCtx : ToolExecutionContext)
    (undoOf : Option Nat) (undoRestore : Option UndoRestore) (output : String)
    (confidence : Option F32) (s : DispatcherState W) :
    let entry := s.actionLedger.recordInternal request.entity request.action request.value
      execCtx.requestOrigin output confidence undoOf
      (if undoOf.isSome then none else undoRestore) (d.clock s.reads)
    d.settle request execCtx undoOf undoRestore (.ok (.executed output confidence)) s =
      (.ok output, some entry.1, none,
        { s with
          reads := s.reads + 2
          actionLedger := entry.2
          auditLog := s.auditLog.map fun log => log ++
            [executedEvent (d.clock (s.reads + 1)) entry.1] }) := by
  cases undoOf with
  | none => rfl
  | some originalId => rfl

theorem settle_error (request : HomeRequest) (execCtx : ToolExecutionContext)
    (undoOf : Option Nat) (undoRestore : Option UndoRestore) (error : String)
    (s : DispatcherState W) :
    d.settle request execCtx undoOf undoRestore (.error error) s =
      (.error error, none, none,
        d.auditRequest (failureStatus error) execCtx.requestOrigin request error none s) := rfl

/-- A request for confirmation is an `issue` for exactly this request, and logged when it
entered a pending action. -/
theorem settle_confirmation (request : HomeRequest) (execCtx : ToolExecutionContext)
    (undoOf : Option Nat) (undoRestore : Option UndoRestore) (reason display : String)
    (s : DispatcherState W) :
    let out := s.confirmations.issue (d.clock s.reads) (d.clock (s.reads + 1))
      (d.entropy s.drawn) request.entity request.action request.value reason
      execCtx.requestOrigin
    ∃ text reads drawn log,
      d.settle request execCtx undoOf undoRestore (.ok (.confirmationRequired reason display)) s =
        (.ok text, none, out.1,
          { s with reads := reads, drawn := drawn, auditLog := log, confirmations := out.2 }) ∧
      s.reads ≤ reads ∧
      (log = s.auditLog ∨ ∃ event : AuditEvent, event.status = .confirmationIssued ∧
        log = s.auditLog.map fun log => log ++ [event]) := by
  intro out
  have hout : s.confirmations.issue (d.clock s.reads) (d.clock (s.reads + 1))
      (d.entropy s.drawn) request.entity request.action request.value reason
      execCtx.requestOrigin = out := rfl
  unfold settle settleConfirmation issueConfirmation nowMs
  dsimp only
  rw [hout]
  obtain ⟨issued, confirmations⟩ := out
  cases issued with
  | none => exact ⟨_, _, _, _, rfl, Nat.le_succ _, .inl rfl⟩
  | some pending =>
    refine ⟨_, _, _, _, rfl, ?_, .inr ⟨_, rfl, rfl⟩⟩
    exact Nat.le_add_right s.reads 3

/-! ## A whole call -/

theorem execHomeControlInner_ok {home : HomeProvider W} (hha : d.ha = some home)
    (undoOf : Option Nat) {s s₁ : DispatcherState W} {request : HomeRequest}
    (hadmission : d.admitRequest args execCtx s = (.ok request, charged, s₁)) :
    ∃ w undoRestore,
      captureUndoRestore home request undoOf s₁ = (undoRestore, { s₁ with world := w }) ∧
      let out := Home.control home request.entity request.action request.value d.actuationSafety
        execCtx.requestOrigin execCtx.confirmed w
      let settled := d.settle request execCtx undoOf undoRestore out.1
        { s₁ with world := out.2.2 }
      d.execHomeControlInner args execCtx undoOf s =
        (settled.1,
          { charged
            performed := out.2.1.map fun action =>
              ⟨request.entity, action, execCtx.requestOrigin, execCtx.confirmed, undoOf⟩
            recorded := settled.2.1
            issued := settled.2.2.1 },
          settled.2.2.2) := by
  obtain ⟨w, hframe⟩ := captureUndoRestore_frame home request undoOf s₁
  refine ⟨w, (captureUndoRestore home request undoOf s₁).1, ?_, ?_⟩
  · rw [← hframe]
  · unfold execHomeControlInner
    rw [hha]
    dsimp only
    rw [hadmission]
    dsimp only
    rw [hframe]
    rfl

/-- A call is refused without effect, or its request is admitted. -/
theorem execHomeControlInner_cases (args : Json) (execCtx : ToolExecutionContext)
    (undoOf : Option Nat) (s : DispatcherState W) :
    ((d.execHomeControlInner args execCtx undoOf s).2.1 = {} ∧
        d.Refused execCtx s (d.execHomeControlInner args execCtx undoOf s).2.2) ∨
      ∃ home request charged s₁, d.ha = some home ∧
        d.admitRequest args execCtx s = (.ok request, charged, s₁) := by
  cases hha : d.ha with
  | none =>
    left
    unfold execHomeControlInner
    rw [hha]
    exact ⟨rfl, ⟨_, _, _, rfl⟩, Nat.le_refl _, .inl ⟨rfl, rfl⟩, .inl rfl⟩
  | some home =>
    cases hadmission : d.admitRequest args execCtx s with
    | mk admitted rest =>
      obtain ⟨charged, s₁⟩ := rest
      cases admitted with
      | error e =>
        obtain ⟨rfl, hrefused⟩ := d.admitRequest_error hadmission
        left
        unfold execHomeControlInner
        rw [hha]
        dsimp only
        rw [hadmission]
        exact ⟨rfl, hrefused⟩
      | ok request => exact .inr ⟨home, request, charged, s₁, rfl, rfl⟩

end ToolDispatcher

end GenieClaw.Dispatch
