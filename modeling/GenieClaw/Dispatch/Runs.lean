import GenieClaw.Dispatch.HomeChange

/-!
# Runs of the dispatcher

The dispatcher as a machine: dispatches of every tool by every channel, confirmations by
token, listings of the pending actions, and changes of the memory and of the home that
come from elsewhere. One lemma for each part of the state says what a step does to it.

* `step_effects`, `step_issued`, `step_ledger`, `step_confirmations`: one step, part by part.
* `run_manages`: the confirmations of a run are a run of the manager.
* `run_ledger`, `run_survives_restart`: what a run leaves in the ledger, and what of it a restart
  brings back.
-/

namespace GenieClaw.Dispatch

open Library Actuation Home Memory Relation

inductive DispatcherOp (W : Type) where
  | dispatch (call : ToolCall) (execCtx : ToolExecutionContext)
  | confirm (token : String)
  | pending
  | elsewhere (memory : Option MemoryStore) (world : W)

/-- What is seen of an operation besides its answer. -/
structure DispatcherReport where
  taken : Option PendingConfirmation := none
  effects : DispatchEffects := {}

abbrev DispatcherEvent (W : Type) :=
  Machine.Event (DispatcherState W) (DispatcherOp W) DispatcherReport

variable {W : Type}

namespace DispatcherEvent

def taken (e : DispatcherEvent W) : Option PendingConfirmation := e.output.taken

def charged (e : DispatcherEvent W) : Option Nat := e.output.effects.charged

def performed (e : DispatcherEvent W) : Option Performance := e.output.effects.performed

def recorded (e : DispatcherEvent W) : Option RecordedAction := e.output.effects.recorded

def issued (e : DispatcherEvent W) : Option PendingConfirmation := e.output.effects.issued

end DispatcherEvent

/-- The tokens of the pending actions issued, in order. -/
def tokensIssued (events : List (DispatcherEvent W)) : List String :=
  (events.filterMap DispatcherEvent.issued).map PendingConfirmation.token

/-- The tokens taken by a confirmation. -/
def tokensTaken (events : List (DispatcherEvent W)) : List String :=
  (events.filterMap DispatcherEvent.taken).map PendingConfirmation.token

/-- Ledger and log are those of a session whose restarts found the log covered. -/
def InSession (format : LineFormat) (log : List AuditEvent) (s : DispatcherState W) : Prop :=
  s.auditLog = some log ∧
    ReflTransGen (SessionStep format (Covered format)) {} ⟨s.actionLedger, log⟩

namespace ToolDispatcher

variable (d : ToolDispatcher W)

def program : Machine (DispatcherState W) (DispatcherOp W) DispatcherReport where
  step s
    | .dispatch call execCtx =>
      let (_, effects, s) := d.executeWithContext call execCtx s
      ({ effects }, s)
    | .confirm token =>
      let (_, taken, effects, s) := d.confirmPendingHomeAction token s
      ({ taken, effects }, s)
    | .pending =>
      let (_, s) := d.pendingConfirmations s
      ({}, s)
    | .elsewhere memory world => ({}, { s with memory, world })

/-! ## Confirming -/

/-- The state in which the action taken by a confirmation is dispatched. -/
def afterTaking (token : String) (s : DispatcherState W) : DispatcherState W :=
  { s with
    reads := s.reads + 1
    confirmations := (s.confirmations.confirm (d.clock s.reads) token).2 }

def confirmedContext (pending : PendingConfirmation) : ToolExecutionContext :=
  { requestOrigin := pending.requestedBy, confirmed := true }

theorem confirm_cases (token : String) (s : DispatcherState W) :
    ((s.confirmations.confirm (d.clock s.reads) token).1 = none ∧
        d.program.step s (.confirm token) = ({}, d.afterTaking token s)) ∨
      ∃ pending, (s.confirmations.confirm (d.clock s.reads) token).1 = some pending ∧
        let out := d.executeWithContext (pendingCall pending) (confirmedContext pending)
          (d.afterTaking token s)
        d.program.step s (.confirm token) = ({ taken := some pending, effects := out.2.1 },
          out.2.2) := by
  unfold program confirmPendingHomeAction nowMs afterTaking
  dsimp only
  generalize s.confirmations.confirm (d.clock s.reads) token = out
  obtain ⟨taken, confirmations⟩ := out
  cases taken with
  | none => exact .inl ⟨rfl, rfl⟩
  | some pending => exact .inr ⟨pending, rfl, rfl⟩

/-! ## One step -/

theorem step_reads (s : DispatcherState W) (op : DispatcherOp W) :
    s.reads ≤ (d.program.step s op).2.reads := by
  cases op with
  | dispatch call execCtx => exact (d.executeWithContext_change call execCtx s).reads
  | confirm token =>
    rcases d.confirm_cases token s with ⟨-, hstep⟩ | ⟨pending, -, hstep⟩
    · rw [hstep]
      exact Nat.le_succ _
    · rw [hstep]
      exact (Nat.le_succ _).trans (d.executeWithContext_change _ _ (d.afterTaking token s)).reads
  | pending => exact Nat.le_succ _
  | elsewhere memory world => exact Nat.le_refl _

theorem step_charges (s : DispatcherState W) (op : DispatcherOp W) :
    ((d.program.step s op).1.effects.charged = none ∧
        (d.program.step s op).2.actuationAttempts = s.actuationAttempts) ∨
      ∃ origin, (∀ now, (d.program.step s op).1.effects.charged = some now →
          ∃ call execCtx, op = .dispatch call execCtx ∧ execCtx.requestOrigin = origin) ∧
        d.Charges origin s (d.program.step s op).1.effects.charged (d.program.step s op).2 := by
  cases op with
  | dispatch call execCtx =>
    exact .inr ⟨execCtx.requestOrigin, fun _ _ => ⟨call, execCtx, rfl, rfl⟩,
      (d.executeWithContext_change call execCtx s).charges⟩
  | confirm token =>
    rcases d.confirm_cases token s with ⟨-, hstep⟩ | ⟨pending, -, hstep⟩
    · rw [hstep]
      exact .inl ⟨rfl, rfl⟩
    · rw [hstep]
      have hchange := d.executeWithContext_change (pendingCall pending) (confirmedContext pending)
        (d.afterTaking token s)
      have huncharged := hchange.uncharged rfl
      refine .inr ⟨pending.requestedBy, fun now hnow => ?_, ?_⟩
      · rw [huncharged] at hnow
        cases hnow
      · rcases hchange.charges with hnone | ⟨read, admitted, hfrom, hto, hattempt, hcharged⟩
        · exact .inl hnone
        · exact .inr ⟨read, admitted, (Nat.le_succ _).trans hfrom, hto, hattempt, hcharged⟩
  | pending => exact .inl ⟨rfl, rfl⟩
  | elsewhere memory world => exact .inl ⟨rfl, rfl⟩

/-- The recorded action an operation is an undo of, as far as the ledger will know. -/
def undoneByOp (ledger : ActionLedgerState) : DispatcherOp W → Option Nat
  | .dispatch call _ => undoneBy call ledger
  | _ => none

theorem undoneBy_pendingCall (pending : PendingConfirmation) (ledger : ActionLedgerState) :
    undoneBy (pendingCall pending) ledger = none := by
  have hname : ¬ (pendingCall pending).name = "home_undo" := by
    show ¬ "home_control" = "home_undo"
    decide
  exact if_neg hname

theorem step_ledger (s : DispatcherState W) (op : DispatcherOp W) :
    ((d.program.step s op).1.effects.recorded = none ∧
        (d.program.step s op).2.actionLedger = s.actionLedger) ∨
      (d.program.step s op).1.effects.performed.isSome = true ∧
        ∃ origin entity action value summary confidence undoRestore nowMs item,
          (d.program.step s op).1.effects.recorded = some item ∧
          s.actionLedger.recordInternal entity action value origin summary confidence
            (undoneByOp s.actionLedger op) undoRestore nowMs =
            (item, (d.program.step s op).2.actionLedger) := by
  cases op with
  | dispatch call execCtx =>
    rcases (d.executeWithContext_change call execCtx s).recorded with hnone | ⟨hsome, hrec⟩
    · exact .inl hnone
    · exact .inr ⟨hsome, execCtx.requestOrigin, hrec⟩
  | confirm token =>
    rcases d.confirm_cases token s with ⟨-, hstep⟩ | ⟨pending, -, hstep⟩
    · rw [hstep]
      exact .inl ⟨rfl, rfl⟩
    · rw [hstep]
      have hrecorded := (d.executeWithContext_change (pendingCall pending)
        (confirmedContext pending) (d.afterTaking token s)).recorded
      rw [undoneBy_pendingCall] at hrecorded
      rcases hrecorded with hnone | ⟨hsome, hrec⟩
      · exact .inl hnone
      · exact .inr ⟨hsome, pending.requestedBy, hrec⟩
  | pending => exact .inl ⟨rfl, rfl⟩
  | elsewhere memory world => exact .inl ⟨rfl, rfl⟩

variable {s : DispatcherState W}

/-- A step executes an action only if the gate let the call through under its own name,
which is one of two, and the channel may actuate: a dispatch for its context, a
confirmation for the channel that asked. -/
theorem step_effects {op : DispatcherOp W} {p : Performance}
    (h : (d.program.step s op).1.effects.performed = some p) :
    actuationOriginAllowed d.actuationSafety p.origin = true ∧
      ((∃ call execCtx, op = .dispatch call execCtx ∧
          p.origin = execCtx.requestOrigin ∧ p.confirmed = execCtx.confirmed ∧
          (call.name = "home_control" ∨ call.name = "home_undo") ∧
          (d.runGate call execCtx s).1 = none) ∨
        ∃ token pending, op = .confirm token ∧
          (s.confirmations.confirm (d.clock s.reads) token).1 = some pending ∧
          (d.program.step s op).1.taken = some pending ∧
          p.origin = pending.requestedBy ∧ p.confirmed = true ∧
          (d.runGate (pendingCall pending) (confirmedContext pending)
            (d.afterTaking token s)).1 = none) := by
  cases op with
  | dispatch call execCtx =>
    obtain ⟨horigin, hconfirmed, -, hallowed⟩ :=
      (d.executeWithContext_change call execCtx s).performed p h
    have hsome : (d.executeWithContext call execCtx s).2.1.performed.isSome = true :=
      congrArg Option.isSome h
    obtain ⟨hgate, hname⟩ := d.executeWithContext_effects (.inl hsome)
    exact ⟨horigin ▸ hallowed, .inl ⟨call, execCtx, rfl, horigin, hconfirmed, hname, hgate⟩⟩
  | confirm token =>
    rcases d.confirm_cases token s with ⟨-, hstep⟩ | ⟨pending, htaken, hstep⟩
    · rw [hstep] at h
      cases h
    · rw [hstep] at h
      obtain ⟨horigin, hconfirmed, -, hallowed⟩ := (d.executeWithContext_change _ _ _).performed p h
      have hsome := congrArg Option.isSome h
      obtain ⟨hgate, -⟩ := d.executeWithContext_effects (.inl hsome)
      refine ⟨horigin ▸ hallowed, .inr ⟨token, pending, rfl, htaken, ?_, horigin, hconfirmed,
        hgate⟩⟩
      rw [hstep]
  | pending => cases h
  | elsewhere memory world => cases h

variable {origin : RequestOrigin} {issued : Option PendingConfirmation}

theorem Manages.requestedBy {state state' : ConfirmationState}
    (h : Manages origin state issued state') {pending : PendingConfirmation}
    (hissued : issued = some pending) : pending.requestedBy = origin := by
  cases h with
  | nothing => cases hissued
  | issue h =>
    have hsome := (congrArg Prod.fst h).trans hissued
    obtain ⟨-, hitem, -⟩ := ConfirmationState.issue_some hsome
    rw [hitem]
  | list order nowMs => cases hissued

/-- A pending action is issued by a dispatch that is not confirmed, for its channel, which
was charged and executed nothing. -/
theorem step_issued {op : DispatcherOp W} {pending : PendingConfirmation}
    (h : (d.program.step s op).1.effects.issued = some pending) :
    ∃ call execCtx, op = .dispatch call execCtx ∧ pending.requestedBy = execCtx.requestOrigin ∧
      (d.program.step s op).1.effects.charged.isSome = true ∧
      (d.program.step s op).1.effects.performed = none := by
  have hsome := congrArg Option.isSome h
  cases op with
  | dispatch call execCtx =>
    have hchange := d.executeWithContext_change call execCtx s
    have hunconfirmed := hchange.unconfirmed hsome
    refine ⟨call, execCtx, rfl, hchange.issued.requestedBy h, ?_, ?_⟩
    · rcases hchange.paid (.inr hsome) with hconfirmed | hcharged
      · rw [hunconfirmed] at hconfirmed
        cases hconfirmed
      · exact hcharged
    · by_contra hne
      have hnone := hchange.exclusive (Option.isSome_iff_ne_none.mpr hne)
      cases hnone.symm.trans h
  | confirm token =>
    rcases d.confirm_cases token s with ⟨-, hstep⟩ | ⟨taken, -, hstep⟩
    · rw [hstep] at h
      cases h
    · rw [hstep] at hsome
      cases (d.executeWithContext_change _ _ _).unconfirmed hsome
  | pending => cases h
  | elsewhere memory world => cases h

variable {call : ToolCall}

theorem step_paid {execCtx : ToolExecutionContext}
    (h : (d.program.step s (.dispatch call execCtx)).1.effects.performed.isSome = true ∨
      (d.program.step s (.dispatch call execCtx)).1.effects.issued.isSome = true) :
    execCtx.confirmed = true ∨
      (d.program.step s (.dispatch call execCtx)).1.effects.charged.isSome = true :=
  (d.executeWithContext_change call execCtx s).paid h

/-! ## The confirmation table goes through a run of the manager -/

/-- The run of the manager that a step amounts to. -/
structure ManagedBy (before after : ConfirmationState) (taken issued : Option PendingConfirmation)
    (ops : List ManagerOp) : Prop where
  state : manager.run before ops = after
  taken : (manager.trace before ops).filterMap ManagerEvent.confirmedItem = taken.toList
  issued : (manager.trace before ops).filterMap ManagerEvent.issuedItem = issued.toList

theorem Manages.managedBy {before after : ConfirmationState}
    (h : Manages origin before issued after) : ∃ ops, ManagedBy before after none issued ops := by
  cases h with
  | nothing => exact ⟨[], rfl, rfl, rfl⟩
  | @issue sweptMs createdMs bytes entity action value reason _ _ h =>
    refine ⟨[.issue sweptMs createdMs bytes entity action value reason origin], ?_, rfl, ?_⟩
    · exact congrArg Prod.snd h
    · have hitem : ManagerEvent.issuedItem (manager.eventAt before (.issue sweptMs createdMs bytes
          entity action value reason origin)) = issued := congrArg Prod.fst h
      rw [manager.trace_cons, manager.trace_nil, List.filterMap_cons, hitem]
      cases issued <;> rfl
  | list order nowMs => exact ⟨[.list order nowMs], rfl, rfl, rfl⟩

theorem ManagedBy.confirm {before after : ConfirmationState} {ops : List ManagerOp} (nowMs : Nat)
    (token : String) (h : ManagedBy (before.confirm nowMs token).2 after none issued ops) :
    ManagedBy before after (before.confirm nowMs token).1 issued (.confirm nowMs token :: ops) := by
  refine ⟨h.state, ?_, ?_⟩
  · have hitem : ManagerEvent.confirmedItem (manager.eventAt before (.confirm nowMs token)) =
        (before.confirm nowMs token).1 := rfl
    rw [manager.trace_cons, List.filterMap_cons, hitem]
    have hrest : (manager.trace (manager.step before (.confirm nowMs token)).2 ops).filterMap
        ManagerEvent.confirmedItem = [] := h.taken
    cases (before.confirm nowMs token).1 with
    | none => exact hrest
    | some item => exact congrArg (item :: ·) hrest
  · exact h.issued

theorem step_confirmations (s : DispatcherState W) (op : DispatcherOp W) :
    ∃ ops, ManagedBy s.confirmations (d.program.step s op).2.confirmations
      (d.program.step s op).1.taken (d.program.step s op).1.effects.issued ops := by
  cases op with
  | dispatch call execCtx => exact (d.executeWithContext_change call execCtx s).issued.managedBy
  | confirm token =>
    rcases d.confirm_cases token s with ⟨hnone, hstep⟩ | ⟨pending, hsome, hstep⟩
    · rw [hstep]
      have hidle : ManagedBy (s.confirmations.confirm (d.clock s.reads) token).2
          (s.confirmations.confirm (d.clock s.reads) token).2 none none [] := ⟨rfl, rfl, rfl⟩
      have hconfirm := hidle.confirm
      rw [hnone] at hconfirm
      exact ⟨_, hconfirm⟩
    · rw [hstep]
      obtain ⟨ops, hops⟩ := (d.executeWithContext_change (pendingCall pending)
        (confirmedContext pending) (d.afterTaking token s)).issued.managedBy
      have hconfirm : ManagedBy s.confirmations _ _ _ _ :=
        ManagedBy.confirm (d.clock s.reads) token hops
      rw [hsome] at hconfirm
      exact ⟨_, hconfirm⟩
  | pending => exact ⟨[.list (d.confirmationOrder s.reads) (d.clock s.reads)], rfl, rfl, rfl⟩
  | elsewhere memory world => exact ⟨[], rfl, rfl, rfl⟩

/-- What the dispatcher takes and issues in a run is what the manager confirms and issues
in a run of its own. -/
theorem run_manages (hs : s.confirmations = {}) (ops : List (DispatcherOp W)) :
    ∃ mops, manager.run {} mops = (d.program.run s ops).confirmations ∧
      (manager.trace {} mops).filterMap ManagerEvent.confirmedItem =
        (d.program.trace s ops).filterMap DispatcherEvent.taken ∧
      (manager.trace {} mops).filterMap ManagerEvent.issuedItem =
        (d.program.trace s ops).filterMap DispatcherEvent.issued := by
  induction ops using List.reverseRecOn with
  | nil => exact ⟨[], hs.symm, rfl, rfl⟩
  | append_singleton ops op ih =>
    obtain ⟨mops, hrun, htaken, hissued⟩ := ih
    obtain ⟨sops, hstate, hstaken, hsissued⟩ := d.step_confirmations (d.program.run s ops) op
    rw [← hrun] at hstate hstaken hsissued
    refine ⟨mops ++ sops, ?_, ?_, ?_⟩
    · rw [manager.run_append, hstate, d.program.run_concat]
    · rw [manager.trace_append, List.filterMap_append, htaken, hstaken, d.program.trace_concat,
        filterMap_concat]
      rfl
    · rw [manager.trace_append, List.filterMap_append, hissued, hsissued, d.program.trace_concat,
        filterMap_concat]
      rfl

theorem tokensIssued_prefix (s : DispatcherState W) (ops : List (DispatcherOp W))
    (op : DispatcherOp W) (h : (tokensIssued (d.program.trace s (ops ++ [op]))).Nodup) :
    (tokensIssued (d.program.trace s ops)).Nodup := by
  unfold tokensIssued at h ⊢
  rw [d.program.trace_concat, filterMap_concat, List.map_append] at h
  exact (List.nodup_append.mp h).1

/-- What the tokens of a run look like from the table it leaves. -/
structure TokensKept (events : List (DispatcherEvent W)) (state : ConfirmationState) : Prop where
  /-- A pending entry was issued in the run and was not taken since. -/
  pending : ∀ token item, state.pending.lookup token = some item → item.token = token ∧
    (∃ r ∈ events, DispatcherEvent.issued r = some item) ∧ token ∉ tokensTaken events
  once : (tokensTaken events).Nodup
  issued : ∀ token ∈ tokensTaken events, token ∈ tokensIssued events

theorem run_tokens (hs : s.confirmations = {}) (ops : List (DispatcherOp W))
    (hdistinct : (tokensIssued (d.program.trace s ops)).Nodup) :
    TokensKept (d.program.trace s ops) (d.program.run s ops).confirmations := by
  obtain ⟨mops, hrun, htaken, hissued⟩ := d.run_manages hs ops
  have hitokens : issuedTokens (manager.trace {} mops) = tokensIssued (d.program.trace s ops) :=
    congrArg (List.map PendingConfirmation.token) hissued
  have hctokens : confirmedTokens (manager.trace {} mops) = tokensTaken (d.program.trace s ops) :=
    congrArg (List.map PendingConfirmation.token) htaken
  rw [← hitokens] at hdistinct
  have haccounts := (faithful_run mops hdistinct).accounts
  rw [hrun] at haccounts
  refine ⟨fun token item hlook => ⟨(haccounts.keyed token item hlook).symm, ?_, ?_⟩, ?_, ?_⟩
  · obtain ⟨i, hi, _, _, -, hout, -⟩ := haccounts.issued token item hlook
    have hitem : item ∈ (manager.trace {} mops).filterMap ManagerEvent.issuedItem :=
      List.mem_filterMap.mpr ⟨i, hi, by rw [ManagerEvent.issuedItem, hout]⟩
    rw [hissued] at hitem
    exact List.mem_filterMap.mp hitem
  · rw [← hctokens]
    exact haccounts.unspent token item hlook
  · rw [← hctokens]
    exact haccounts.once
  · rw [← hctokens, ← hitokens]
    exact haccounts.spent

/-! ## Ledger and audit log go through a session -/

variable {ledger : ActionLedgerState}

theorem undoTarget_mem {action : RecordedAction} {args : Json}
    (h : undoTarget ledger = some (action, args)) :
    ledger.lastUndoable = some action ∧ action ∈ ledger.actions ∧
      ledger.undoable action = true := by
  obtain ⟨found, hlast, hargs⟩ := Option.bind_eq_some_iff.mp h
  obtain ⟨_, -, hpair⟩ := Option.map_eq_some_iff.mp hargs
  cases hpair
  obtain ⟨hmem, hundoable⟩ := ActionLedgerState.lastUndoable_mem hlast
  exact ⟨hlast, hmem, hundoable⟩

theorem undoneBy_eq_some {id : Nat} (h : undoneBy call ledger = some id) :
    call.name = "home_undo" ∧ ∃ action args, undoTarget ledger = some (action, args) ∧
      action.id = id := by
  unfold undoneBy at h
  split at h
  · rename_i hname
    obtain ⟨⟨action, args⟩, htarget, hid⟩ := Option.map_eq_some_iff.mp h
    exact ⟨hname, action, args, htarget, hid⟩
  · cases h

theorem undoneBy_le (hordered : ledger.Ordered) {id : Nat} (h : undoneBy call ledger = some id) :
    id ≤ ledger.nextId := by
  obtain ⟨-, action, args, htarget, rfl⟩ := undoneBy_eq_some h
  exact hordered.bounded action (undoTarget_mem htarget).2.1

variable {format : LineFormat} {log : List AuditEvent}

theorem step_session (h : InSession format log s) (op : DispatcherOp W) :
    ∃ log', InSession format log' (d.program.step s op).2 := by
  obtain ⟨hlog, hsteps⟩ := h
  have hordered := (reachable_sound hsteps).ordered
  cases op with
  | dispatch call execCtx =>
    obtain ⟨log', hlog', hmore⟩ := (d.executeWithContext_change call execCtx s).session format
      (Covered format) log hlog (fun id => undoneBy_le hordered)
    exact ⟨log', hlog', hsteps.trans hmore⟩
  | confirm token =>
    rcases d.confirm_cases token s with ⟨-, hstep⟩ | ⟨pending, -, hstep⟩
    · rw [hstep]
      exact ⟨log, hlog, hsteps⟩
    · rw [hstep]
      obtain ⟨log', hlog', hmore⟩ := (d.executeWithContext_change (pendingCall pending)
        (confirmedContext pending) (d.afterTaking token s)).session format (Covered format) log hlog
        (fun id => undoneBy_le hordered)
      exact ⟨log', hlog', hsteps.trans hmore⟩
  | pending => exact ⟨log, hlog, hsteps⟩
  | elsewhere memory world => exact ⟨log, hlog, hsteps⟩

/-- A restart after any run, with its log covered, goes on where the dispatcher stopped. -/
theorem run_survives_restart (h : InSession format log s) (ops : List (DispatcherOp W)) :
    let ledger := (d.program.run s ops).actionLedger
    ∃ log', (d.program.run s ops).auditLog = some log' ∧ (Covered format log' →
      (restarted format log').nextId = ledger.nextId ∧
        Option.Rel (SameAction format) ledger.lastUndoable
          (restarted format log').lastUndoable) := by
  have hrun : ∃ log', InSession format log' (d.program.run s ops) :=
    @Machine.run_invariant _ _ _ d.program (fun s => ∃ log, InSession format log s) s ⟨log, h⟩
      (fun _ op ⟨_, h⟩ => d.step_session h op) ops
  obtain ⟨log', hlog', hsteps⟩ := hrun
  have hmirrors := mirrors_of_covered_run hsteps
  refine ⟨log', hlog', fun hcov => ?_⟩
  have hnext := restarted_nextId hmirrors hcov
  have hlast := restarted_lastUndoable hmirrors hcov
  exact ⟨hnext, hlast⟩

/-- The ledger of a run from an empty one keeps the newest of what was recorded. All that was
recorded is numbered in order and was executed. -/
theorem run_ledger (hs : s.actionLedger = {}) (ops : List (DispatcherOp W)) :
    let recorded := (d.program.trace s ops).filterMap DispatcherEvent.recorded
    let ledger := (d.program.run s ops).actionLedger
    ledger.actions = recorded.rtake 32 ∧ ledger.nextId = recorded.length ∧
      recorded.map RecordedAction.id = List.range' 1 recorded.length ∧
      ∀ e ∈ d.program.trace s ops, (DispatcherEvent.recorded e).isSome = true →
        (DispatcherEvent.performed e).isSome = true := by
  induction ops using List.reverseRecOn with
  | nil =>
    show s.actionLedger.actions = _ ∧ s.actionLedger.nextId = _ ∧ _
    rw [hs]
    exact ⟨rfl, rfl, rfl, fun e he => absurd he List.not_mem_nil⟩
  | append_singleton ops op ih =>
    obtain ⟨hactions, hnext, hids, hexecuted⟩ := ih
    rw [d.program.trace_concat, filterMap_concat, d.program.run_concat]
    simp only [List.forall_mem_append, List.forall_mem_singleton]
    generalize (d.program.trace s ops).filterMap DispatcherEvent.recorded = recorded at *
    generalize d.program.run s ops = t at *
    rcases d.step_ledger t op with ⟨hnone, hsame⟩ | ⟨hperformed, origin, entity, action, value,
      summary, confidence, undoRestore, nowMs, item, hsome, hrecord⟩
    · have hlist : (DispatcherEvent.recorded (d.program.eventAt t op)).toList = [] :=
        congrArg Option.toList hnone
      rw [hlist, List.append_nil, hsame]
      refine ⟨hactions, hnext, hids, hexecuted, fun h => ?_⟩
      cases h.symm.trans (congrArg Option.isSome hnone)
    · have hlist : (DispatcherEvent.recorded (d.program.eventAt t op)).toList = [item] :=
        congrArg Option.toList hsome
      have hkept := t.actionLedger.recordInternal_actions entity action value origin summary
        confidence (undoneByOp t.actionLedger op) undoRestore nowMs
      obtain ⟨hitem, hid, -⟩ := t.actionLedger.recordInternal_spec entity action value origin
        summary confidence (undoneByOp t.actionLedger op) undoRestore nowMs
      rw [hrecord] at hkept hitem hid
      rw [hactions, rtake_rtake _ _ _ (by decide), ← hitem, ← List.rtake_concat_succ] at hkept
      rw [hlist]
      refine ⟨hkept, ?_, ?_, hexecuted, fun _ => hperformed⟩
      · rw [List.length_append, ← hnext]
        exact hid
      · have hnumber : item.id = 1 + recorded.length := by
          rw [Nat.add_comm, ← hnext]
          exact congrArg RecordedAction.id hitem
        rw [List.map_append, hids, List.map_singleton, hnumber, List.length_append,
          List.length_singleton, List.range'_1_concat]

end ToolDispatcher

/-!
## A home that does everything

The provider that resolves every query, is always healthy and executes whatever it is
given, and a dispatcher in front of it whose configuration, clock and targets are left
open. With the runtime assessment switched off nothing but the static policy and the
channel policy stands between a request and its execution, so what this dispatcher
refuses is refused by them.

* `control_obliging`: the outcome of control is the verdict of the static policy.
* `execHomeControlInner_obliging`: a request that passes is executed.
-/

variable {origin : RequestOrigin}

/-- The provider that resolves a query by a function and executes everything. -/
def obliging (targetOf : String → HomeTarget) : HomeProvider W where
  health w := (⟨true, "connected"⟩, w)
  resolveTarget query _ w := (.ok (targetOf query), w)
  getState _ w := (.ok ⟨[], true, "on"⟩, w)
  execute _ w := (.ok ⟨"Done.", none⟩, w)

/-- The dispatcher of an obliging home; its n-th token is drawn from the bytes of n. -/
def obligingDispatcher (targetOf : String → HomeTarget) (toolPolicy : ToolPolicyConfig)
    (actuationSafety : ActuationSafetyConfig) (clock : Nat → Nat) : ToolDispatcher W where
  ha := some (obliging targetOf)
  toolPolicy := toolPolicy
  actuationSafety := actuationSafety
  clock := clock
  entropy n := Vector.ofFn fun i => if i.val = 0 then UInt8.ofNat n else 0
  confirmationOrder _ := .listed _
  gateOrder _ := .listed _
  floatText _ := "0.0"
  displayF64 _ := "0"
  hasher _ := 0
  otherTool _ _ _ memory w := (.ok "done", memory, w)

theorem control_obliging (targetOf : String → HomeTarget) {query action : String}
    {value : Option F64} {safety : ActuationSafetyConfig} {confirmed : Bool}
    {kind : HomeActionKind} (w : W) (hoff : safety.enabled = false)
    (hkind : homeActionKind action = .ok kind)
    (hpolicy : policyVerdict ⟨kind, targetOf query, value⟩ origin confirmed = none) :
    Home.control (obliging targetOf) query action value safety origin confirmed w =
      (.ok (.executed "Done." none), some ⟨kind, targetOf query, value⟩, w) := by
  have hverdict : controlVerdict (obliging targetOf) query action value safety origin confirmed w =
      (.execute ⟨kind, targetOf query, value⟩, w) := by
    have hallow : ∀ state, (assessRuntimeHomeAction ⟨kind, targetOf query, value⟩
        (assessHomeAction ⟨kind, targetOf query, value⟩) ⟨true, "connected"⟩ state safety origin
        confirmed).allowed = true :=
      fun state => (runtimeSafe_iff _ _ _ _ _ _ _).mpr (.inl hoff)
    have hstate : ∃ state,
        currentState (obliging targetOf) (targetOf query) w = (.ok state, w) := by
      unfold currentState
      split
      · exact ⟨_, rfl⟩
      · exact ⟨_, rfl⟩
    obtain ⟨state, hstate⟩ := hstate
    unfold controlVerdict parseAction
    rw [hkind]
    dsimp only [obliging] at hstate ⊢
    rw [hpolicy]
    dsimp only
    rw [hstate]
    dsimp only
    rw [if_pos (hallow state)]
  unfold Home.control
  rw [hverdict]
  rfl

/-- In front of an obliging home, with the runtime assessment off, an admitted request for
a canonical action that passes the static policy is executed. -/
theorem execHomeControlInner_obliging {d : ToolDispatcher W} {targetOf : String → HomeTarget}
    (hha : d.ha = some (obliging targetOf)) (hoff : d.actuationSafety.enabled = false)
    {args : Json} {entity action : String} {value : Option F64} {kind : HomeActionKind}
    {execCtx : ToolExecutionContext} (undoOf : Option Nat) {s s₁ : DispatcherState W}
    {charged : Option Nat}
    (hadmission : d.admitRequest args execCtx s = (.ok ⟨entity, action, value⟩, charged, s₁))
    (hkind : homeActionKind action = .ok kind)
    (hpolicy : policyVerdict ⟨kind, targetOf entity, value⟩ execCtx.requestOrigin
      execCtx.confirmed = none) :
    (d.execHomeControlInner args execCtx undoOf s).2.1.performed =
      some ⟨entity, ⟨kind, targetOf entity, value⟩, execCtx.requestOrigin, execCtx.confirmed,
        undoOf⟩ := by
  obtain ⟨w, undoRestore, -, hcall⟩ := d.execHomeControlInner_ok hha undoOf hadmission
  rw [hcall]
  have hcontrol := control_obliging targetOf w hoff hkind hpolicy
  exact congrArg (fun out => out.2.1.map fun action => (⟨entity, action, execCtx.requestOrigin,
    execCtx.confirmed, undoOf⟩ : Performance)) hcontrol

/-! ## Two targets -/

def porchLight : HomeTarget :=
  ⟨.entity, "porch", "Porch", ["light.porch"], some "light", ⟨0x3F800000⟩, true⟩

def frontDoor : HomeTarget :=
  ⟨.entity, "front door", "Front door", ["lock.front"], some "lock", ⟨0x3F800000⟩, true⟩

/-- A house with this light under the default configuration. -/
def porchHouse : ToolDispatcher Unit := obligingDispatcher (fun _ => porchLight) {} {} id

def doorHouse : ToolDispatcher Unit := obligingDispatcher (fun _ => frontDoor) {} {} id

/-! ## A light switched on -/

def switchedOn : List (DispatcherOp Unit) :=
  [.dispatch ⟨"home_control", .object [("action", .string "turn_on"), ("entity", .string "porch")]⟩
    { requestOrigin := .voice }]

def logging : DispatcherState Unit := { auditLog := some [], world := () }

theorem run_survives_restart_light :
    InSession plainFormat [] logging ∧
      ∃ log, (porchHouse.program.run logging switchedOn).auditLog = some log ∧
        (Covered plainFormat log → (restarted plainFormat log).nextId =
          (porchHouse.program.run logging switchedOn).actionLedger.nextId) := by
  have hstart : InSession plainFormat [] logging := ⟨rfl, .refl⟩
  obtain ⟨log, hlog, hsame⟩ := porchHouse.run_survives_restart hstart switchedOn
  exact ⟨hstart, log, hlog, fun hcov => (hsame hcov).1⟩

theorem run_ledger_light :
    logging.actionLedger = {} ∧ (porchHouse.program.run logging switchedOn).actionLedger.actions =
      ((porchHouse.program.trace logging switchedOn).filterMap DispatcherEvent.recorded).rtake 32 :=
  ⟨rfl, (porchHouse.run_ledger rfl switchedOn).1⟩

end GenieClaw.Dispatch
