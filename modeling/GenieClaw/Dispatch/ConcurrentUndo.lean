import GenieClaw.Dispatch.HomeChange
import GenieClaw.Dispatch.HomeTurns
import GenieClaw.Dispatch.Runs
import Mathlib.Data.Fintype.Defs

/-!
# Undos that overlap

An undo reads the ledger for the action to undo, waits for the home and records the undo
only then. Under any schedule of requests `UndosApart` says which executed inverses the
ledger knows of and which are still waiting to be recorded.

* `undone_at_most_once` (no undo chooses an action that another request is undoing): no action is
  undone twice, whatever the schedule.
-/

namespace GenieClaw.Dispatch

open Library Actuation Home List Option

variable {ι W : Type}

namespace HomeTask

/-- The action that a request in flight has chosen to undo. -/
def undoing : HomeTask W → Option Nat
  | .choosing _ => none
  | .admitting _ _ undoOf => undoOf
  | .capturing job => job.undoOf
  | .capturingState job _ => job.undoOf
  | .resolving job _ => job.undoOf
  | .checkingHealth job _ _ => job.undoOf
  | .readingState job _ _ _ => job.undoOf
  | .executing job _ _ => job.undoOf
  | .settling job _ _ => job.undoOf
  | .answered _ => none

/-- The action whose inverse was executed by a request that has yet to record it. -/
def unrecorded : HomeTask W → Option Nat
  | .settling job _ (.ok (.executed _ _)) => job.undoOf
  | _ => none

/-- The action that the request chooses to undo in its next turn. -/
def choice (ledger : ActionLedgerState) : HomeTask W → Option Nat
  | .choosing _ => (ToolDispatcher.undoTarget ledger).map fun target => target.1.id
  | _ => none

theorem undoing_of_unrecorded {t : HomeTask W} {id : Nat} (h : t.unrecorded = some id) :
    t.undoing = some id := by
  unfold unrecorded at h
  split at h
  · exact h
  · cases h

theorem choice_undoable {ledger : ActionLedgerState} {t : HomeTask W} {id : Nat}
    (h : t.choice ledger = some id) :
    ∃ target, ledger.lastUndoable = some target ∧ target.id = id := by
  cases t with
  | choosing execCtx =>
    obtain ⟨⟨action, args⟩, htarget, rfl⟩ := Option.map_eq_some_iff.mp h
    exact ⟨action, (ToolDispatcher.undoTarget_mem htarget).1, rfl⟩
  | _ => cases h

end HomeTask

/-- One turn of a schedule. -/
abbrev TurnEvent (ι W : Type) :=
  Machine.Event (Pool ι (DispatcherState W) (HomeTask W)) ι (Option Performance)

/-- The action whose inverse the home executed in this turn. -/
def TurnEvent.undone (e : TurnEvent ι W) : Option Nat := e.output.bind Performance.undoOf

/-- If the turn chooses an action to undo, no request in flight is undoing it. -/
def TurnEvent.ChoosesAlone (e : TurnEvent ι W) : Prop :=
  ∀ j, ((e.before.task e.input).choice e.before.shared.actionLedger).isSome = true →
    (e.before.task j).undoing ≠ (e.before.task e.input).choice e.before.shared.actionLedger

instance [Fintype ι] (e : TurnEvent ι W) : Decidable e.ChoosesAlone :=
  inferInstanceAs (Decidable (∀ _, _))

/-- No two turns execute the inverse of the same action. -/
def UndoneAtMostOnce (events : List (TurnEvent ι W)) : Prop :=
  (events.filterMap TurnEvent.undone).Nodup

/-! ## One turn -/

/-- What a turn does to the ledger and to the action that is being undone. -/
inductive Turned (t : HomeTask W) (ledger : ActionLedgerState) :
    Option Performance → HomeTask W → ActionLedgerState → Prop
  | chooses {id : Nat} {t' : HomeTask W} (hchoice : t.choice ledger = some id)
      (hnew : t'.undoing = some id) (hbefore : t.unrecorded = none) :
      Turned t ledger none t' ledger
  | moves {t' : HomeTask W} (hkept : t'.undoing = none ∨ t'.undoing = t.undoing)
      (hbefore : t.unrecorded = none) :
      Turned t ledger none t' ledger
  | executes {p : Performance} {t' : HomeTask W} (hundo : p.undoOf = t.undoing)
      (hkept : t'.undoing = t.undoing) (hafter : t'.unrecorded = t.undoing)
      (hbefore : t.unrecorded = none) :
      Turned t ledger (some p) t' ledger
  | records {entity action summary : String} {value : Option F64} {origin : RequestOrigin}
      {confidence : Option F32} {undoRestore : Option UndoRestore} {nowMs : Nat}
      {t' : HomeTask W} (hdone : t'.undoing = none) :
      Turned t ledger none t'
        (ledger.recordInternal entity action value origin summary confidence t.undoing undoRestore
          nowMs).2

namespace ToolDispatcher

variable (d : ToolDispatcher W)

theorem advanceAdmission_turned (args : Json) (execCtx : ToolExecutionContext)
    (undoOf : Option Nat) (s : DispatcherState W) :
    Turned (.admitting args execCtx undoOf) s.actionLedger none
      (d.advanceAdmission args execCtx undoOf s).1
      (d.advanceAdmission args execCtx undoOf s).2.actionLedger := by
  unfold advanceAdmission
  cases d.ha with
  | none => exact .moves (.inl rfl) rfl
  | some home =>
    dsimp only
    cases hadmission : d.admitRequest args execCtx s with
    | mk admitted rest =>
      obtain ⟨charged, s'⟩ := rest
      cases admitted with
      | error e =>
        obtain ⟨reads, attempts, log, rfl⟩ := (d.admitRequest_error hadmission).2.frame
        exact .moves (.inl rfl) rfl
      | ok request =>
        obtain ⟨reads, attempts, rfl⟩ := (admitRequest_admitted hadmission).frame
        exact .moves (.inr rfl) rfl

theorem advanceCapture_turned (job : HomeJob W) (s : DispatcherState W) :
    Turned (.capturing job) s.actionLedger none (advanceCapture job s).1
      (advanceCapture job s).2.actionLedger := by
  unfold advanceCapture
  split
  · exact .moves (.inr rfl) rfl
  · split
    · split
      · exact .moves (.inr rfl) rfl
      · split
        · exact .moves (.inr rfl) rfl
        · exact .moves (.inr rfl) rfl
    · exact .moves (.inr rfl) rfl

theorem advanceResolve_turned (job : HomeJob W) (undoRestore : Option UndoRestore)
    (s : DispatcherState W) :
    Turned (.resolving job undoRestore) s.actionLedger none
      (advanceResolve job undoRestore s).1 (advanceResolve job undoRestore s).2.actionLedger := by
  unfold advanceResolve
  split
  · exact .moves (.inr rfl) rfl
  · split
    · exact .moves (.inr rfl) rfl
    · dsimp only
      split
      · exact .moves (.inr rfl) rfl
      · exact .moves (.inr rfl) rfl

theorem advanceState_turned (job : HomeJob W) (undoRestore : Option UndoRestore)
    (action : HomeAction) (health : IntegrationHealth) (s : DispatcherState W) :
    Turned (.readingState job undoRestore action health) s.actionLedger none
      (d.advanceState job undoRestore action health s).1
      (d.advanceState job undoRestore action health s).2.actionLedger := by
  unfold advanceState
  split
  · exact .moves (.inr rfl) rfl
  · dsimp only
    split
    · exact .moves (.inr rfl) rfl
    · exact .moves (.inr rfl) rfl

theorem advanceExecution_turned (job : HomeJob W) (undoRestore : Option UndoRestore)
    (action : HomeAction) (s : DispatcherState W) :
    Turned (.executing job undoRestore action) s.actionLedger
      (advanceExecution job undoRestore action s).1
      (advanceExecution job undoRestore action s).2.1
      (advanceExecution job undoRestore action s).2.2.actionLedger := by
  unfold advanceExecution
  split
  · exact .moves (.inr rfl) rfl
  · exact .executes rfl rfl rfl rfl

theorem advanceSettlement_turned (job : HomeJob W) (undoRestore : Option UndoRestore)
    (outcome : Except String ControlOutcome) (s : DispatcherState W) :
    Turned (.settling job undoRestore outcome) s.actionLedger none
      (d.advanceSettlement job undoRestore outcome s).1
      (d.advanceSettlement job undoRestore outcome s).2.actionLedger := by
  unfold advanceSettlement
  cases outcome with
  | error e => exact .moves (.inl rfl) rfl
  | ok outcome =>
    cases outcome with
    | executed output confidence =>
      rw [settle_executed]
      exact .records rfl
    | confirmationRequired reason display =>
      obtain ⟨text, reads, drawn, log, hsettle, -, -⟩ := d.settle_confirmation job.request
        job.execCtx job.undoOf undoRestore reason display s
      rw [hsettle]
      exact .moves (.inl rfl) rfl

theorem advance_turned (t : HomeTask W) (s : DispatcherState W) :
    Turned t s.actionLedger (d.advance t s).1 (d.advance t s).2.1
      (d.advance t s).2.2.actionLedger := by
  cases t with
  | choosing execCtx =>
    show Turned _ _ none (advanceChoice execCtx s).1 (advanceChoice execCtx s).2.actionLedger
    unfold advanceChoice
    cases htarget : undoTarget s.actionLedger with
    | none => exact .moves (.inl rfl) rfl
    | some target =>
      refine .chooses ?_ rfl rfl
      unfold HomeTask.choice
      rw [htarget]
      rfl
  | admitting args execCtx undoOf => exact d.advanceAdmission_turned args execCtx undoOf s
  | capturing job => exact advanceCapture_turned job s
  | capturingState job target =>
    show Turned _ _ none (advanceCaptureState job target s).1
      (advanceCaptureState job target s).2.actionLedger
    unfold advanceCaptureState
    split
    · exact .moves (.inr rfl) rfl
    · exact .moves (.inr rfl) rfl
  | resolving job undoRestore => exact advanceResolve_turned job undoRestore s
  | checkingHealth job undoRestore action => exact .moves (.inr rfl) rfl
  | readingState job undoRestore action health =>
    exact d.advanceState_turned job undoRestore action health s
  | executing job undoRestore action => exact advanceExecution_turned job undoRestore action s
  | settling job undoRestore outcome =>
    exact d.advanceSettlement_turned job undoRestore outcome s
  | answered answer => exact .moves (.inl rfl) rfl

end ToolDispatcher

/-! ## Every schedule -/

/-- What holds between two turns of the executed inverses, the requests in flight and the
ledger. -/
structure UndosApart (executed : List Nat) (task : ι → HomeTask W) (ledger : ActionLedgerState) :
    Prop where
  ordered : ledger.Ordered
  issued : ∀ i id, (task i).undoing = some id → id ≤ ledger.nextId
  apart : ∀ i j id, (task i).undoing = some id → (task j).undoing = some id → i = j
  /-- Who is undoing an action already executed has only to record it. -/
  unspent : ∀ i id, (task i).undoing = some id → id ∈ executed → (task i).unrecorded = some id
  settled : ∀ id ∈ executed, ledger.Retired id ∨ ∃ i, (task i).unrecorded = some id
  once : executed.Nodup

theorem undosApart_start {ledger : ActionLedgerState} (hordered : ledger.Ordered)
    (calls : ι → HomeCall) :
    UndosApart [] (fun i => (HomeTask.start (calls i) : HomeTask W)) ledger := by
  have hnone : ∀ i, (HomeTask.start (calls i) : HomeTask W).undoing = none := by
    intro i
    cases calls i with
    | control args execCtx => rfl
    | undo execCtx => rfl
  refine ⟨hordered, ?_, ?_, ?_, by simp, nodup_nil⟩
  · intro i id hi
    rw [hnone] at hi
    cases hi
  · intro i j id hi
    rw [hnone] at hi
    cases hi
  · intro i id hi
    rw [hnone] at hi
    cases hi

section Update

variable [DecidableEq ι] {task : ι → HomeTask W} {i j : ι} {t' : HomeTask W} {id : Nat}

theorem undoing_update (hkept : t'.undoing = none ∨ t'.undoing = (task i).undoing)
    (h : (Function.update task i t' j).undoing = some id) : (task j).undoing = some id := by
  rw [Function.update_apply] at h
  split at h
  · rename_i hji
    subst hji
    rcases hkept with hnone | hsame
    · rw [hnone] at h
      cases h
    · exact hsame ▸ h
  · exact h

theorem unrecorded_update (hbefore : (task i).unrecorded = none)
    (h : (task j).unrecorded = some id) : (Function.update task i t' j).unrecorded = some id := by
  rw [Function.update_apply, if_neg]
  · exact h
  · rintro rfl
    rw [hbefore] at h
    cases h

end Update

namespace UndosApart

variable [DecidableEq ι] {executed : List Nat} {task : ι → HomeTask W}
  {ledger : ActionLedgerState} {i : ι} {t' : HomeTask W} {id : Nat}

theorem choose (h : UndosApart executed task ledger) (hchoice : (task i).choice ledger = some id)
    (hnew : t'.undoing = some id) (hbefore : (task i).unrecorded = none)
    (halone : ∀ j, (task j).undoing ≠ some id) :
    UndosApart executed (Function.update task i t') ledger := by
  obtain ⟨target, hlast, rfl⟩ := HomeTask.choice_undoable hchoice
  have hfresh : target.id ∉ executed := by
    intro hmem
    rcases h.settled target.id hmem with hretired | ⟨k, hk⟩
    · exact hretired.not_lastUndoable hlast rfl
    · exact halone k (HomeTask.undoing_of_unrecorded hk)
  have hundoing : ∀ j id, (Function.update task i t' j).undoing = some id →
      (j = i ∧ id = target.id) ∨ (task j).undoing = some id := by
    intro j id hj
    rw [Function.update_apply] at hj
    split at hj
    · rename_i hji
      rw [hnew] at hj
      exact .inl ⟨hji, (Option.some.inj hj).symm⟩
    · exact .inr hj
  refine ⟨h.ordered, ?_, ?_, ?_, ?_, h.once⟩
  · intro j id hj
    rcases hundoing j id hj with ⟨-, rfl⟩ | hj
    · exact h.ordered.bounded target (ActionLedgerState.lastUndoable_mem hlast).1
    · exact h.issued j id hj
  · intro j k id hj hk
    rcases hundoing j id hj with ⟨rfl, rfl⟩ | hj
    · rcases hundoing k target.id hk with ⟨rfl, -⟩ | hk
      · rfl
      · exact absurd hk (halone k)
    · rcases hundoing k id hk with ⟨-, rfl⟩ | hk
      · exact absurd hj (halone j)
      · exact h.apart j k id hj hk
  · intro j id hj hmem
    rcases hundoing j id hj with ⟨-, rfl⟩ | hj
    · exact absurd hmem hfresh
    · exact unrecorded_update hbefore (h.unspent j id hj hmem)
  · intro id hmem
    exact (h.settled id hmem).imp_right fun ⟨k, hk⟩ => ⟨k, unrecorded_update hbefore hk⟩

theorem move (h : UndosApart executed task ledger)
    (hkept : t'.undoing = none ∨ t'.undoing = (task i).undoing)
    (hbefore : (task i).unrecorded = none) :
    UndosApart executed (Function.update task i t') ledger := by
  refine ⟨h.ordered, ?_, ?_, ?_, ?_, h.once⟩
  · intro j id hj
    exact h.issued j id (undoing_update hkept hj)
  · intro j k id hj hk
    exact h.apart j k id (undoing_update hkept hj) (undoing_update hkept hk)
  · intro j id hj hmem
    exact unrecorded_update hbefore (h.unspent j id (undoing_update hkept hj) hmem)
  · intro id hmem
    exact (h.settled id hmem).imp_right fun ⟨k, hk⟩ => ⟨k, unrecorded_update hbefore hk⟩

/-- The inverse of an action is executed by the one request that undoes it, and was not
before. -/
theorem execute (h : UndosApart executed task ledger) (hundoing : (task i).undoing = some id)
    (hkept : t'.undoing = some id) (hafter : t'.unrecorded = some id)
    (hbefore : (task i).unrecorded = none) :
    UndosApart (executed ++ [id]) (Function.update task i t') ledger := by
  have hfresh : id ∉ executed := by
    intro hmem
    have hspent := h.unspent i id hundoing hmem
    rw [hbefore] at hspent
    cases hspent
  have hmoved := h.move (.inr (hkept.trans hundoing.symm)) hbefore
  have hi : Function.update task i t' i = t' := Function.update_self i t' task
  refine ⟨h.ordered, hmoved.issued, hmoved.apart, ?_, ?_, ?_⟩
  · intro j id' hj hmem
    rcases List.mem_append.mp hmem with hmem | hmem
    · exact hmoved.unspent j id' hj hmem
    · obtain rfl := List.mem_singleton.mp hmem
      have hji : j = i := hmoved.apart j i id' hj (by rw [hi]; exact hkept)
      rw [hji, hi]
      exact hafter
  · intro id' hmem
    rcases List.mem_append.mp hmem with hmem | hmem
    · exact hmoved.settled id' hmem
    · obtain rfl := List.mem_singleton.mp hmem
      exact .inr ⟨i, by rw [hi]; exact hafter⟩
  · refine List.nodup_append.mpr ⟨h.once, nodup_singleton id, ?_⟩
    rintro a ha b hb rfl
    rw [mem_singleton] at hb
    exact hfresh (hb ▸ ha)

theorem record (h : UndosApart executed task ledger) (hdone : t'.undoing = none)
    {entity action summary : String} {value : Option F64} {origin : RequestOrigin}
    {confidence : Option F32} {undoRestore : Option UndoRestore} {nowMs : Nat} :
    UndosApart executed (Function.update task i t')
      (ledger.recordInternal entity action value origin summary confidence (task i).undoing
        undoRestore nowMs).2 := by
  refine ⟨h.ordered.recordInternal, ?_, ?_, ?_, ?_, h.once⟩
  · intro j id hj
    exact Nat.le_succ_of_le (h.issued j id (undoing_update (.inl hdone) hj))
  · intro j k id hj hk
    exact h.apart j k id (undoing_update (.inl hdone) hj) (undoing_update (.inl hdone) hk)
  · intro j id hj hmem
    have hspent := h.unspent j id (undoing_update (.inl hdone) hj) hmem
    rw [Function.update_apply] at hj ⊢
    split at hj
    · rw [hdone] at hj
      cases hj
    · rename_i hji
      rw [if_neg hji]
      exact hspent
  · intro id hmem
    rcases h.settled id hmem with hretired | ⟨k, hk⟩
    · exact .inl (hretired.recordInternal h.ordered)
    · have hundoing := HomeTask.undoing_of_unrecorded hk
      by_cases hki : k = i
      · subst hki
        left
        rw [hundoing]
        exact ActionLedgerState.retired_of_undo h.ordered (h.issued k id hundoing)
      · right
        refine ⟨k, ?_⟩
        rw [Function.update_apply, if_neg hki]
        exact hk

theorem turn (h : UndosApart executed task ledger) {output : Option Performance}
    {ledger' : ActionLedgerState} (hturned : Turned (task i) ledger output t' ledger')
    (halone : ∀ j, ((task i).choice ledger).isSome = true →
      (task j).undoing ≠ (task i).choice ledger) :
    UndosApart (executed ++ (output.bind Performance.undoOf).toList) (Function.update task i t')
      ledger' := by
  cases hturned with
  | @chooses id _ hchoice hnew hbefore =>
    rw [bind_none, toList_none, append_nil]
    rw [hchoice] at halone
    exact h.choose hchoice hnew hbefore fun j => halone j rfl
  | moves hkept hbefore =>
    rw [bind_none, toList_none, append_nil]
    exact h.move hkept hbefore
  | executes hundo hkept hafter hbefore =>
    rw [bind_some, hundo]
    cases hundoing : (task i).undoing with
    | none =>
      rw [toList_none, append_nil]
      exact h.move (.inr hkept) hbefore
    | some id =>
      rw [hundoing] at hkept hafter
      exact h.execute hundoing hkept hafter hbefore
  | records hdone =>
    rw [bind_none, toList_none, append_nil]
    exact h.record hdone

end UndosApart

namespace ToolDispatcher

variable [DecidableEq ι] (d : ToolDispatcher W)

theorem undosApart_run (s : DispatcherState W) (hordered : s.actionLedger.Ordered)
    (calls : ι → HomeCall) (schedule : List ι)
    (hmeets : ∀ e ∈ d.turns.trace (HomeTask.pool s calls) schedule, TurnEvent.ChoosesAlone e) :
    let pool := d.turns.run (HomeTask.pool s calls) schedule
    UndosApart ((d.turns.trace (HomeTask.pool s calls) schedule).filterMap TurnEvent.undone)
      pool.task pool.shared.actionLedger := by
  refine @Machine.run_history _ _ _ d.turns
    (fun schedule => ∀ e ∈ d.turns.trace (HomeTask.pool s calls) schedule,
      TurnEvent.ChoosesAlone e)
    (fun past pool => UndosApart (past.filterMap TurnEvent.undone) pool.task
      pool.shared.actionLedger)
    (HomeTask.pool s calls) ?_ (undosApart_start hordered calls) ?_ schedule hmeets
  · intro is i hall e he
    refine hall e ?_
    rw [Machine.trace_concat]
    exact mem_append_left _ he
  · intro is i hall h
    have halone := hall (d.turns.eventAt (d.turns.run (HomeTask.pool s calls) is) i)
      (by rw [Machine.trace_concat]; exact mem_append_right _ mem_cons_self)
    rw [filterMap_concat]
    exact h.turn (d.advance_turned _ _) halone

/-- Whatever the requests and their schedule, from every ledger a session can have: if no
undo chooses an action that another request in flight is undoing, then no action is undone
twice. -/
theorem undone_at_most_once (format : LineFormat) (s : DispatcherState W) (log : List AuditEvent)
    (hstart : Session.Reachable format ⟨s.actionLedger, log⟩) (calls : ι → HomeCall)
    (schedule : List ι)
    (hmeets : ∀ e ∈ d.turns.trace (HomeTask.pool s calls) schedule, TurnEvent.ChoosesAlone e) :
    UndoneAtMostOnce (d.turns.trace (HomeTask.pool s calls) schedule) :=
  (d.undosApart_run s (reachable_sound hstart).ordered calls schedule hmeets).once

end ToolDispatcher

/-! ## Two requests to undo one action -/

def litPorchState : DispatcherState Unit := { world := (), actionLedger := oneAction.ledger }

def bothUndo : Bool → HomeCall := fun _ => .undo { requestOrigin := .voice }

/-- One after the other. -/
def inSequence : List Bool := List.replicate 9 false ++ List.replicate 9 true

/-- Both read the ledger before either waits for the home. -/
def overlapping : List Bool := [false, true] ++ List.replicate 8 false ++ List.replicate 8 true

theorem undone_at_most_once_porch :
    Session.Reachable plainFormat oneAction ∧
      UndoneAtMostOnce (porchHouse.turns.trace (HomeTask.pool litPorchState bothUndo)
        inSequence) := by
  have hstart : Session.Reachable plainFormat oneAction := .single (oneAction_step _)
  have hmeets : ∀ e ∈ porchHouse.turns.trace (HomeTask.pool litPorchState bothUndo) inSequence,
      TurnEvent.ChoosesAlone e := by
    decide +kernel
  exact ⟨hstart, porchHouse.undone_at_most_once plainFormat litPorchState _ hstart bothUndo
    inSequence hmeets⟩

/-- The porch light was switched on once and is switched off twice for it. -/
theorem overlapping_undos_execute_twice :
    Session.Reachable plainFormat oneAction ∧
      ¬ UndoneAtMostOnce (porchHouse.turns.trace (HomeTask.pool litPorchState bothUndo)
        overlapping) := by
  refine ⟨.single (oneAction_step _), ?_⟩
  have htwice : (porchHouse.turns.trace (HomeTask.pool litPorchState bothUndo)
      overlapping).filterMap TurnEvent.undone = [1, 1] := by
    decide +kernel
  unfold UndoneAtMostOnce
  rw [htwice]
  decide

end GenieClaw.Dispatch
