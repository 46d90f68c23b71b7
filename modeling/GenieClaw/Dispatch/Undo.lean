import GenieClaw.Dispatch.Runs

/-!
# Undoing over whole runs

An undo is done when the inverse action was executed and recorded: by `home_undo` itself,
or by confirming the pending action that a `home_undo` raised. `UndoneForGood` is what a
history then promises of the ledger. The confirmation path rebuilds a plain
`home_control` and so forgets what the pending action was to undo.

* `UndosKept.record`: recording an action keeps the promises.
* `undone_for_good` (no confirmation presents the token of an undo): what a run promises of the
  actions it has undone.
-/

namespace GenieClaw.Dispatch

open Library Actuation Home Memory List

variable {W : Type}

/-- The event raised a pending action, under this token, that is to undo the action
`id`. -/
def RaisesUndo (e : DispatcherEvent W) (token : String) (id : Nat) : Prop :=
  ∃ call execCtx pending, e.input = .dispatch call execCtx ∧
    undoneBy call e.before.actionLedger = some id ∧ DispatcherEvent.issued e = some pending ∧
    pending.token = token

/-- The event executed the undo of the action `id`, at once or after its confirmation. -/
inductive UndoDone (past : List (DispatcherEvent W)) (e : DispatcherEvent W) (id : Nat) : Prop
  | direct {call : ToolCall} {execCtx : ToolExecutionContext}
      (hinput : e.input = .dispatch call execCtx)
      (hundo : undoneBy call e.before.actionLedger = some id)
      (hrecorded : (DispatcherEvent.recorded e).isSome = true)
  | confirmed {token : String} {r : DispatcherEvent W} (hinput : e.input = .confirm token)
      (hmem : r ∈ past) (hraised : RaisesUndo r token id)
      (hrecorded : (DispatcherEvent.recorded e).isSome = true)

/-- What a history of events promises of the ledger it led to. -/
structure UndoneForGood (events : List (DispatcherEvent W)) (ledger : ActionLedgerState) :
    Prop where
  /-- Neither an undone action nor the entry of its undo is undoable. -/
  never : ∀ as e bs id, events = as ++ e :: bs → UndoDone as e id →
    ∀ item, ledger.lastUndoable = some item → item.id ≠ id ∧
      ∀ entry, DispatcherEvent.recorded e = some entry → item.id ≠ entry.id
  /-- As long as only undos follow, the next one is of an older action. -/
  back : ∀ as e bs id, events = as ++ e :: bs → UndoDone as e id →
    (∀ cs f ds, bs = cs ++ f :: ds → (DispatcherEvent.recorded f).isSome = true →
      ∃ id', UndoDone (as ++ e :: cs) f id') →
    ∀ item, ledger.lastUndoable = some item → item.id < id

namespace ToolDispatcher

variable (d : ToolDispatcher W)

/-- The event presents the token of a live pending action that an undo raised. -/
def ConfirmsAnUndo (past : List (DispatcherEvent W)) (e : DispatcherEvent W) : Prop :=
  ∃ token r id pending, e.input = .confirm token ∧ r ∈ past ∧ RaisesUndo r token id ∧
    e.before.confirmations.pending.lookup token = some pending ∧
    d.clock e.before.reads < pending.expiresMs

/-- What the ledger keeps of the undos done, in its own terms. -/
structure UndosKept (past : List (DispatcherEvent W)) (ledger : ActionLedgerState) : Prop where
  ordered : ledger.Ordered
  retired : ∀ as e bs id, past = as ++ e :: bs → UndoDone as e id →
    ledger.Retired id ∧ ∀ entry, DispatcherEvent.recorded e = some entry → ledger.Retired entry.id
  back : ∀ as e bs id, past = as ++ e :: bs → UndoDone as e id →
    (∀ cs f ds, bs = cs ++ f :: ds → (DispatcherEvent.recorded f).isSome = true →
      ∃ id', UndoDone (as ++ e :: cs) f id') →
    ledger.UndoableBefore id

variable {past : List (DispatcherEvent W)}

theorem UndosKept.undoneForGood {ledger : ActionLedgerState} (h : UndosKept past ledger) :
    UndoneForGood past ledger where
  never := by
    intro as e bs id hsplit hdone item hlast
    obtain ⟨hid, hentry⟩ := h.retired as e bs id hsplit hdone
    exact ⟨hid.not_lastUndoable hlast, fun entry hrec => (hentry entry hrec).not_lastUndoable hlast⟩
  back := by
    intro as e bs id hsplit hdone hundos item hlast
    obtain ⟨hmem, hundoable⟩ := ActionLedgerState.lastUndoable_mem hlast
    exact h.back as e bs id hsplit hdone hundos item hmem hundoable

theorem UndosKept.idle {ledger ledger' : ActionLedgerState} (h : UndosKept past ledger)
    (e : DispatcherEvent W) (hrecorded : DispatcherEvent.recorded e = none)
    (hledger : ledger' = ledger) : UndosKept (past ++ [e]) ledger' := by
  subst hledger
  have hno : ∀ as id, ¬ UndoDone as e id := by
    intro as id hdone
    cases hdone with
    | direct _ _ hsome =>
      rw [hrecorded] at hsome
      cases hsome
    | confirmed _ _ _ hsome =>
      rw [hrecorded] at hsome
      cases hsome
  refine ⟨h.ordered, ?_, ?_⟩
  · intro as f bs id hsplit hdone
    rcases split_concat hsplit with ⟨-, -, rfl⟩ | ⟨bs', rfl, hpast⟩
    · exact absurd hdone (hno as id)
    · exact h.retired as f bs' id hpast hdone
  · intro as f bs id hsplit hdone hundos
    rcases split_concat hsplit with ⟨-, -, rfl⟩ | ⟨bs', rfl, hpast⟩
    · exact absurd hdone (hno as id)
    · refine h.back as f bs' id hpast hdone fun cs g ds hbs hsome => ?_
      exact hundos cs g (ds ++ [e]) (by rw [hbs, append_assoc, cons_append]) hsome

/-- An event that records an action keeps the promises, provided an undo is recorded as one
and is of the newest undoable action. -/
theorem UndosKept.record {ledger ledger' : ActionLedgerState} (h : UndosKept past ledger)
    (e : DispatcherEvent W) {entity action summary : String} {value : Option F64}
    {origin : RequestOrigin} {confidence : Option F32} {undoOf : Option Nat}
    {undoRestore : Option UndoRestore} {nowMs : Nat} {entry : RecordedAction}
    (hrecorded : DispatcherEvent.recorded e = some entry)
    (hledger : ledger.recordInternal entity action value origin summary confidence undoOf
      undoRestore nowMs = (entry, ledger'))
    (hlinked : ∀ id, UndoDone past e id → undoOf = some id ∧
      ∃ target, ledger.lastUndoable = some target ∧ target.id = id) :
    UndosKept (past ++ [e]) ledger' := by
  obtain ⟨hentry, -, -⟩ := ledger.recordInternal_spec entity action value origin summary confidence
    undoOf undoRestore nowMs
  have hid : entry.id = ledger.nextId + 1 := by
    rw [hledger] at hentry
    exact congrArg RecordedAction.id hentry
  obtain rfl : _ = ledger' := congrArg Prod.snd hledger
  refine ⟨h.ordered.recordInternal, ?_, ?_⟩
  · intro as f bs id hsplit hdone
    rcases split_concat hsplit with ⟨-, rfl, rfl⟩ | ⟨bs', -, hpast⟩
    · obtain ⟨rfl, target, hlast, rfl⟩ := hlinked id hdone
      have hle := h.ordered.bounded target (ActionLedgerState.lastUndoable_mem hlast).1
      refine ⟨ActionLedgerState.retired_of_undo h.ordered hle, fun entry hrec => ?_⟩
      rw [hrecorded] at hrec
      rw [← Option.some.inj hrec, hid]
      exact ActionLedgerState.retired_undo_entry h.ordered
    · obtain ⟨hid, hentries⟩ := h.retired as f bs' id hpast hdone
      exact ⟨hid.recordInternal h.ordered, fun entry hrec =>
        (hentries entry hrec).recordInternal h.ordered⟩
  · intro as f bs id hsplit hdone hundos
    rcases split_concat hsplit with ⟨-, rfl, rfl⟩ | ⟨bs', rfl, hpast⟩
    · obtain ⟨rfl, target, hlast, rfl⟩ := hlinked id hdone
      exact ActionLedgerState.undoableBefore_of_undo h.ordered hlast
    · -- the new event is one of the undos that follow
      have hsome : (DispatcherEvent.recorded e).isSome = true := by
        rw [hrecorded]
        rfl
      obtain ⟨id', hdone'⟩ := hundos bs' e [] rfl hsome
      rw [← hpast] at hdone'
      obtain ⟨rfl, -⟩ := hlinked id' hdone'
      have hbefore := h.back as f bs' id hpast hdone fun cs g ds hbs hg =>
        hundos cs g (ds ++ [e]) (by rw [hbs, append_assoc, cons_append]) hg
      exact hbefore.recordUndo h.ordered

theorem UndosKept.step {s : DispatcherState W} (h : UndosKept past s.actionLedger)
    (op : DispatcherOp W) (hmeets : ¬ d.ConfirmsAnUndo past (d.program.eventAt s op)) :
    UndosKept (past ++ [d.program.eventAt s op]) (d.program.step s op).2.actionLedger := by
  rcases d.step_ledger s op with ⟨hnone, hsame⟩ |
    ⟨-, origin, entity, action, value, summary, confidence, undoRestore, nowMs, entry, hsome,
      hrecord⟩
  · exact h.idle _ hnone hsame
  · refine h.record _ hsome hrecord fun id hdone => ?_
    cases hdone with
    | @direct call execCtx hinput hundo _ =>
      have hop : op = .dispatch call execCtx := hinput
      subst hop
      obtain ⟨-, target, args, htarget, hid⟩ := undoneBy_eq_some hundo
      exact ⟨hundo, target, (undoTarget_mem htarget).1, hid⟩
    | @confirmed token r hinput hmem hraised _ =>
      have hop : op = .confirm token := hinput
      subst hop
      -- the token was live, so this run is one that is left out
      refine absurd ?_ hmeets
      rcases d.confirm_cases token s with ⟨-, hstep⟩ | ⟨pending, htaken, -⟩
      · rw [hstep] at hsome
        cases hsome
      · obtain ⟨hlook, hlive, -⟩ := ConfirmationState.confirm_some htaken
        exact ⟨token, r, id, pending, rfl, hmem, hraised, hlook, hlive⟩

theorem undosKept_run (s : DispatcherState W) (hordered : s.actionLedger.Ordered)
    (ops : List (DispatcherOp W))
    (hmeets : EachPast (fun past e => ¬ d.ConfirmsAnUndo past e) (d.program.trace s ops)) :
    UndosKept (d.program.trace s ops) (d.program.run s ops).actionLedger := by
  refine @Machine.run_history _ _ _ d.program
    (fun ops => EachPast (fun past e => ¬ d.ConfirmsAnUndo past e) (d.program.trace s ops))
    (fun past s => UndosKept past s.actionLedger) s ?_ ⟨hordered, by simp, by simp⟩ ?_ ops hmeets
  · intro ops op hall
    rw [d.program.trace_concat] at hall
    exact (eachPast_concat.mp hall).1
  · intro ops op hall h
    rw [d.program.trace_concat] at hall
    exact h.step d op (eachPast_concat.mp hall).2

/-- From every ledger a session can have, in every run in which no confirmation presents
the token of a live pending action that a `home_undo` raised, an action that was undone is
never the next to undo again, nor is the entry of its undo, and while only undos follow
each is of an older action than the last. -/
theorem undone_for_good (format : LineFormat) (s : DispatcherState W) (log : List AuditEvent)
    (hstart : Session.Reachable format ⟨s.actionLedger, log⟩) (ops : List (DispatcherOp W))
    (hmeets : EachPast (fun past e => ¬ d.ConfirmsAnUndo past e) (d.program.trace s ops)) :
    UndoneForGood (d.program.trace s ops) (d.program.run s ops).actionLedger :=
  (d.undosKept_run s (reachable_sound hstart).ordered ops hmeets).undoneForGood

theorem confirmsNoUndo (s : DispatcherState W) {ops : List (DispatcherOp W)}
    (h : ∀ token, DispatcherOp.confirm token ∉ ops) :
    EachPast (fun past e => ¬ d.ConfirmsAnUndo past e) (d.program.trace s ops) := by
  intro as e bs hsplit
  rintro ⟨token, -, -, -, hinput, -⟩
  have hmem : e ∈ d.program.trace s ops := hsplit ▸ mem_append_right as mem_cons_self
  have hop : e.input ∈ ops := by
    rw [← d.program.map_input_trace s ops]
    exact mem_map_of_mem hmem
  exact h token (hinput ▸ hop)

end ToolDispatcher

/-! ## Two households -/

/-- The porch light was switched on; voice asks to undo that, twice. -/
def undoTwice : List (DispatcherOp Unit) :=
  [.dispatch ⟨"home_undo", .object []⟩ { requestOrigin := .voice },
    .dispatch ⟨"home_undo", .object []⟩ { requestOrigin := .voice }]

theorem undone_for_good_porch :
    Session.Reachable plainFormat oneAction ∧
      UndoneForGood
        (porchHouse.program.trace { world := (), actionLedger := oneAction.ledger } undoTwice)
        (porchHouse.program.run { world := (), actionLedger := oneAction.ledger }
          undoTwice).actionLedger := by
  have hstart : Session.Reachable plainFormat oneAction := .single (oneAction_step _)
  have hmeets := porchHouse.confirmsNoUndo { world := (), actionLedger := oneAction.ledger }
    (fun token => (by simp [undoTwice] : DispatcherOp.confirm token ∉ undoTwice))
  exact ⟨hstart, porchHouse.undone_for_good plainFormat _ _ hstart undoTwice hmeets⟩

/-- The dashboard locks the door and undoes that; both have to be confirmed. -/
def lockAndUndo : List (DispatcherOp Unit) :=
  [.dispatch
      ⟨"home_control", .object [("action", .string "lock"), ("entity", .string "front door")]⟩
      { requestOrigin := .dashboard },
    .confirm "act-00000000000000000000000000000000",
    .dispatch ⟨"home_undo", .object []⟩ { requestOrigin := .dashboard },
    .confirm "act-01000000000000000000000000000000"]

/-- The undo was executed as action 2 and is the next to be undone. -/
theorem confirmed_undo_is_undoable :
    Session.Reachable plainFormat ⟨({ world := () } : DispatcherState Unit).actionLedger, []⟩ ∧
      ¬ UndoneForGood (doorHouse.program.trace { world := () } lockAndUndo)
        (doorHouse.program.run { world := () } lockAndUndo).actionLedger := by
  refine ⟨.refl, fun h => ?_⟩
  have hlast : ((doorHouse.program.run { world := () } lockAndUndo).actionLedger.lastUndoable.map
      RecordedAction.id) = some 2 := by
    decide +kernel
  have hraised : RaisesUndo (doorHouse.program.eventAt
      (doorHouse.program.run { world := () } (lockAndUndo.take 2)) lockAndUndo[2])
      "act-01000000000000000000000000000000" 1 := by
    have hissued : ((DispatcherEvent.issued (doorHouse.program.eventAt
        (doorHouse.program.run { world := () } (lockAndUndo.take 2)) lockAndUndo[2])).map
        PendingConfirmation.token) = some "act-01000000000000000000000000000000" := by
      decide
    obtain ⟨pending, hpending, htoken⟩ := Option.map_eq_some_iff.mp hissued
    exact ⟨_, _, pending, rfl, by decide, hpending, htoken⟩
  have hrecorded : ((DispatcherEvent.recorded (doorHouse.program.eventAt
      (doorHouse.program.run { world := () } (lockAndUndo.take 3)) lockAndUndo[3])).map
      RecordedAction.id) = some 2 := by
    decide
  obtain ⟨item, hitem, hid⟩ := Option.map_eq_some_iff.mp hlast
  obtain ⟨entry, hentry, heid⟩ := Option.map_eq_some_iff.mp hrecorded
  have hdone : UndoDone (doorHouse.program.trace { world := () } (lockAndUndo.take 3))
      (doorHouse.program.eventAt
        (doorHouse.program.run { world := () } (lockAndUndo.take 3)) lockAndUndo[3]) 1 := by
    refine .confirmed rfl ?_ hraised ?_
    · exact mem_cons_of_mem _ (mem_cons_of_mem _ mem_cons_self)
    · rw [hentry]
      rfl
  exact (h.never _ _ [] 1 rfl hdone item hitem).2 entry hentry (hid.trans heid.symm)

end GenieClaw.Dispatch
