import GenieClaw.Library.Machine
import GenieClaw.Dispatch.HomeTools

/-!
# The home tools, turn by turn

`execHomeControlInner` and `execHomeUndo` wait for the home several times, and other
requests run while they wait. A `HomeTask` is a request between two of its turns: a turn
reads the ledger, admits the request, makes one call of the provider or settles the
outcome.

* `execHomeControlInner_alone`, `execHomeUndo_alone`: the turns of one request, one after the other,
  are the function as it is written.
* `turns_alone`: so it is in a pool where no other request moves.
-/

namespace GenieClaw.Dispatch

open Library Actuation Home

inductive HomeCall where
  | control (args : Json) (execCtx : ToolExecutionContext)
  | undo (execCtx : ToolExecutionContext)

/-- What an admitted request carries from turn to turn. -/
structure HomeJob (W : Type) where
  home : HomeProvider W
  request : HomeRequest
  execCtx : ToolExecutionContext
  undoOf : Option Nat

/-- A request in flight, named after what its next turn does. -/
inductive HomeTask (W : Type) where
  | choosing (execCtx : ToolExecutionContext)
  | admitting (args : Json) (execCtx : ToolExecutionContext) (undoOf : Option Nat)
  | capturing (job : HomeJob W)
  | capturingState (job : HomeJob W) (target : HomeTarget)
  | resolving (job : HomeJob W) (undoRestore : Option UndoRestore)
  | checkingHealth (job : HomeJob W) (undoRestore : Option UndoRestore) (action : HomeAction)
  | readingState (job : HomeJob W) (undoRestore : Option UndoRestore) (action : HomeAction)
      (health : IntegrationHealth)
  | executing (job : HomeJob W) (undoRestore : Option UndoRestore) (action : HomeAction)
  | settling (job : HomeJob W) (undoRestore : Option UndoRestore)
      (outcome : Except String ControlOutcome)
  | answered (answer : Except String String)

namespace HomeTask

variable {W : Type}

def start : HomeCall → HomeTask W
  | .control args execCtx => .admitting args execCtx none
  | .undo execCtx => .choosing execCtx

/-- Requests of which none had a turn yet. -/
def pool {ι : Type} (s : DispatcherState W) (calls : ι → HomeCall) :
    Pool ι (DispatcherState W) (HomeTask W) where
  shared := s
  task i := start (calls i)

/-- The text an undo puts before its output. -/
def finish (undoOf : Option Nat) (answer : Except String String) : Except String String :=
  if undoOf.isSome then answer.map formatUndoOutput else answer

@[simp] theorem finish_error (undoOf : Option Nat) (e : String) :
    finish undoOf (.error e) = .error e := by
  unfold finish
  split
  · rfl
  · rfl

end HomeTask

namespace ToolDispatcher

variable {W : Type} (d : ToolDispatcher W)

/-- `exec_home_undo` up to its call of `exec_home_control_inner`. -/
def advanceChoice (execCtx : ToolExecutionContext) (s : DispatcherState W) :
    HomeTask W × DispatcherState W :=
  match undoTarget s.actionLedger with
  | none => (.answered (.error "No recent reversible home action to undo."), s)
  | some (action, args) => (.admitting args execCtx (some action.id), s)

def advanceAdmission (args : Json) (execCtx : ToolExecutionContext) (undoOf : Option Nat)
    (s : DispatcherState W) : HomeTask W × DispatcherState W :=
  match d.ha with
  | none => (.answered (.error "Home Assistant not connected"), s)
  | some home =>
    match d.admitRequest args execCtx s with
    | (.error e, _, s) => (.answered (.error e), s)
    | (.ok request, _, s) => (.capturing { home, request, execCtx, undoOf }, s)

/-- The state to restore is asked for only before some of the actions, and by no undo. -/
def advanceCapture (job : HomeJob W) (s : DispatcherState W) : HomeTask W × DispatcherState W :=
  if job.undoOf.isSome then (.resolving job none, s)
  else if job.request.action = "set_brightness" ∨ job.request.action = "set_temperature" ∨
      job.request.action = "toggle" then
    match homeActionKind job.request.action with
    | .error _ => (.resolving job none, s)
    | .ok kind =>
      match job.home.resolveTarget job.request.entity (some kind) s.world with
      | (.error _, w) => (.resolving job none, { s with world := w })
      | (.ok target, w) => (.capturingState job target, { s with world := w })
  else (.resolving job none, s)

def advanceCaptureState (job : HomeJob W) (target : HomeTarget) (s : DispatcherState W) :
    HomeTask W × DispatcherState W :=
  match job.home.getState target s.world with
  | (.error _, w) => (.resolving job none, { s with world := w })
  | (.ok prior, w) =>
    (.resolving job (undoRestoreFromPrior job.request.action prior), { s with world := w })

/-- `home::control` up to its static policy. -/
def advanceResolve (job : HomeJob W) (undoRestore : Option UndoRestore) (s : DispatcherState W) :
    HomeTask W × DispatcherState W :=
  match parseAction job.request.action with
  | .error e => (.settling job undoRestore (.error e), s)
  | .ok kind =>
    match job.home.resolveTarget job.request.entity (some kind) s.world with
    | (.error e, w) => (.settling job undoRestore (.error e), { s with world := w })
    | (.ok target, w) =>
      let action : HomeAction := { kind, target, value := job.request.value }
      match policyVerdict action job.execCtx.requestOrigin job.execCtx.confirmed with
      | some outcome => (.settling job undoRestore outcome, { s with world := w })
      | none => (.checkingHealth job undoRestore action, { s with world := w })

def advanceHealth (job : HomeJob W) (undoRestore : Option UndoRestore) (action : HomeAction)
    (s : DispatcherState W) : HomeTask W × DispatcherState W :=
  let (health, w) := job.home.health s.world
  (.readingState job undoRestore action health, { s with world := w })

/-- `home::control` from the state of the target to its runtime assessment. -/
def advanceState (job : HomeJob W) (undoRestore : Option UndoRestore) (action : HomeAction)
    (health : IntegrationHealth) (s : DispatcherState W) : HomeTask W × DispatcherState W :=
  match currentState job.home action.target s.world with
  | (.error e, w) => (.settling job undoRestore (.error e), { s with world := w })
  | (.ok state, w) =>
    let runtime := assessRuntimeHomeAction action (assessHomeAction action) health state
      d.actuationSafety job.execCtx.requestOrigin job.execCtx.confirmed
    if runtime.allowed then (.executing job undoRestore action, { s with world := w })
    else
      (.settling job undoRestore
        (.error ("Home action blocked by runtime safety: " ++ runtime.reason)),
        { s with world := w })

/-- The call of the provider's `execute`, with the action if the home reported success. -/
def advanceExecution (job : HomeJob W) (undoRestore : Option UndoRestore) (action : HomeAction)
    (s : DispatcherState W) : Option Performance × HomeTask W × DispatcherState W :=
  match job.home.execute action s.world with
  | (.error e, w) => (none, .settling job undoRestore (.error e), { s with world := w })
  | (.ok result, w) =>
    (some
      { entity := job.request.entity, action, origin := job.execCtx.requestOrigin,
        confirmed := job.execCtx.confirmed, undoOf := job.undoOf },
      .settling job undoRestore (.ok (.executed result.spokenSummary result.confidence)),
      { s with world := w })

def advanceSettlement (job : HomeJob W) (undoRestore : Option UndoRestore)
    (outcome : Except String ControlOutcome) (s : DispatcherState W) :
    HomeTask W × DispatcherState W :=
  let (answer, _, _, s) := d.settle job.request job.execCtx job.undoOf undoRestore outcome s
  (.answered (HomeTask.finish job.undoOf answer), s)

/-- One turn of a request, with the action it executed. -/
def advance : HomeTask W → DispatcherState W →
    Option Performance × HomeTask W × DispatcherState W
  | .choosing execCtx, s => (none, advanceChoice execCtx s)
  | .admitting args execCtx undoOf, s => (none, d.advanceAdmission args execCtx undoOf s)
  | .capturing job, s => (none, advanceCapture job s)
  | .capturingState job target, s => (none, advanceCaptureState job target s)
  | .resolving job undoRestore, s => (none, advanceResolve job undoRestore s)
  | .checkingHealth job undoRestore action, s => (none, advanceHealth job undoRestore action s)
  | .readingState job undoRestore action health, s =>
    (none, d.advanceState job undoRestore action health s)
  | .executing job undoRestore action, s => advanceExecution job undoRestore action s
  | .settling job undoRestore outcome, s => (none, d.advanceSettlement job undoRestore outcome s)
  | .answered answer, s => (none, .answered answer, s)

/-- Requests that take turns. -/
def turns {ι : Type} [DecidableEq ι] :
    Machine (Pool ι (DispatcherState W) (HomeTask W)) ι (Option Performance) :=
  Pool.turns d.advance

/-! ## A request that nobody interrupts -/

theorem capture_alone (job : HomeJob W) (s : DispatcherState W) :
    let out := captureUndoRestore job.home job.request job.undoOf s
    Pool.Within d.advance 2 (.capturing job, s) (.resolving job out.1, out.2) := by
  intro out
  have hout : captureUndoRestore job.home job.request job.undoOf s = out := rfl
  refine Pool.Within.turn ?_
  show Pool.Within d.advance 1 (advanceCapture job s) _
  unfold captureUndoRestore at hout
  unfold advanceCapture
  by_cases hundo : job.undoOf.isSome = true
  · rw [if_pos hundo] at hout ⊢
    rw [← hout]
    exact .refl _
  · rw [if_neg hundo] at hout ⊢
    split at hout
    · rename_i haction
      rw [if_pos haction]
      cases hkind : homeActionKind job.request.action with
      | error e =>
        rw [hkind] at hout
        rw [← hout]
        exact .refl _
      | ok kind =>
        rw [hkind] at hout
        dsimp only at hout ⊢
        cases hres : job.home.resolveTarget job.request.entity (some kind) s.world with
        | mk target w =>
          rw [hres] at hout
          cases target with
          | error e =>
            rw [← hout]
            exact .refl _
          | ok target =>
            refine Pool.Within.turn ?_
            show Pool.Within d.advance 0 (advanceCaptureState job target { s with world := w }) _
            unfold advanceCaptureState
            dsimp only at hout ⊢
            cases hstate : job.home.getState target w with
            | mk prior w =>
              rw [hstate] at hout
              cases prior with
              | error e =>
                rw [← hout]
                exact .refl _
              | ok prior =>
                rw [← hout]
                exact .refl _
    · rename_i haction
      rw [if_neg haction, ← hout]
      exact .refl _

theorem execute_alone (job : HomeJob W) (undoRestore : Option UndoRestore) (action : HomeAction)
    (s : DispatcherState W) :
    let out := job.home.execute action s.world
    Pool.Within d.advance 1 (.executing job undoRestore action, s)
      (.settling job undoRestore (out.1.map fun r => .executed r.spokenSummary r.confidence),
        { s with world := out.2 }) := by
  refine Pool.Within.turn ?_
  show Pool.Within d.advance 0 (advanceExecution job undoRestore action s).2 _
  unfold advanceExecution
  cases job.home.execute action s.world with
  | mk result w =>
    cases result with
    | error e => exact .refl _
    | ok result => exact .refl _

theorem control_alone (job : HomeJob W) (undoRestore : Option UndoRestore) (s : DispatcherState W) :
    let out := Home.control job.home job.request.entity job.request.action job.request.value
      d.actuationSafety job.execCtx.requestOrigin job.execCtx.confirmed s.world
    Pool.Within d.advance 4 (.resolving job undoRestore, s)
      (.settling job undoRestore out.1, { s with world := out.2.2 }) := by
  intro out
  have hout : Home.control job.home job.request.entity job.request.action job.request.value
      d.actuationSafety job.execCtx.requestOrigin job.execCtx.confirmed s.world = out := rfl
  refine Pool.Within.turn ?_
  show Pool.Within d.advance 3 (advanceResolve job undoRestore s) _
  unfold Home.control controlVerdict at hout
  unfold advanceResolve
  cases hkind : parseAction job.request.action with
  | error e =>
    rw [hkind] at hout
    rw [← hout]
    exact .refl _
  | ok kind =>
    rw [hkind] at hout
    dsimp only at hout ⊢
    cases hres : job.home.resolveTarget job.request.entity (some kind) s.world with
    | mk target w =>
      rw [hres] at hout
      cases target with
      | error e =>
        rw [← hout]
        exact .refl _
      | ok target =>
        dsimp only at hout ⊢
        cases hpolicy : policyVerdict ⟨kind, target, job.request.value⟩ job.execCtx.requestOrigin
            job.execCtx.confirmed with
        | some outcome =>
          rw [hpolicy] at hout
          rw [← hout]
          exact .refl _
        | none =>
          rw [hpolicy] at hout
          refine Pool.Within.turn (Pool.Within.turn ?_)
          show Pool.Within d.advance 1 (d.advanceState job undoRestore
            ⟨kind, target, job.request.value⟩ (job.home.health w).1
            { s with world := (job.home.health w).2 }) _
          unfold advanceState
          dsimp only at hout ⊢
          cases hstate : currentState job.home target (job.home.health w).2 with
          | mk state w =>
            rw [hstate] at hout
            cases state with
            | error e =>
              rw [← hout]
              exact .refl _
            | ok state =>
              dsimp only at hout ⊢
              generalize assessRuntimeHomeAction _ _ _ _ _ _ _ = runtime at hout ⊢
              cases hallowed : runtime.allowed with
              | true =>
                rw [hallowed, if_pos rfl] at hout
                rw [if_pos rfl, ← hout]
                exact d.execute_alone job undoRestore ⟨kind, target, job.request.value⟩
                  { s with world := w }
              | false =>
                rw [hallowed, if_neg nofun] at hout
                rw [if_neg nofun, ← hout]
                exact .refl _

theorem settle_alone (job : HomeJob W) (undoRestore : Option UndoRestore)
    (outcome : Except String ControlOutcome) (s : DispatcherState W) :
    Pool.Within d.advance 1 (.settling job undoRestore outcome, s)
      (d.advanceSettlement job undoRestore outcome s) :=
  Pool.Within.turn (.refl _)

theorem execHomeControlInner_alone (args : Json) (execCtx : ToolExecutionContext)
    (undoOf : Option Nat) (s : DispatcherState W) :
    let out := d.execHomeControlInner args execCtx undoOf s
    Pool.Within d.advance 8 (.admitting args execCtx undoOf, s)
      (.answered (HomeTask.finish undoOf out.1), out.2.2) := by
  refine Pool.Within.turn ?_
  show Pool.Within d.advance 7 (d.advanceAdmission args execCtx undoOf s) _
  unfold advanceAdmission execHomeControlInner
  cases hha : d.ha with
  | none =>
    dsimp only
    rw [HomeTask.finish_error]
    exact .refl _
  | some home =>
    dsimp only
    cases hadmission : d.admitRequest args execCtx s with
    | mk admitted rest =>
      obtain ⟨charged, s₁⟩ := rest
      cases admitted with
      | error e =>
        dsimp only
        rw [HomeTask.finish_error]
        exact .refl _
      | ok request =>
        have hcapture := d.capture_alone ⟨home, request, execCtx, undoOf⟩ s₁
        have hcontrol := d.control_alone ⟨home, request, execCtx, undoOf⟩
          (captureUndoRestore home request undoOf s₁).1
          (captureUndoRestore home request undoOf s₁).2
        exact (hcapture.trans hcontrol).trans
          (d.settle_alone ⟨home, request, execCtx, undoOf⟩ _ _ _)

theorem execHomeUndo_alone (execCtx : ToolExecutionContext) (s : DispatcherState W) :
    let out := d.execHomeUndo execCtx s
    Pool.Within d.advance 9 (.choosing execCtx, s) (.answered out.1, out.2.2) := by
  refine Pool.Within.turn ?_
  show Pool.Within d.advance 8 (advanceChoice execCtx s) _
  unfold advanceChoice execHomeUndo
  cases undoTarget s.actionLedger with
  | none => exact .refl _
  | some target => exact d.execHomeControlInner_alone target.2 execCtx (some target.1.id) s

/-- What a request answers when nothing runs beside it. -/
def execHomeCall (call : HomeCall) (s : DispatcherState W) :
    Except String String × Effects × DispatcherState W :=
  match call with
  | .control args execCtx => d.execHomeControl args execCtx s
  | .undo execCtx => d.execHomeUndo execCtx s

theorem turns_alone {ι : Type} [DecidableEq ι] (calls : ι → HomeCall) (s : DispatcherState W)
    (i : ι) :
    let out := d.execHomeCall (calls i) s
    let pool := d.turns.run (HomeTask.pool s calls) (List.replicate 9 i)
    pool.task i = .answered out.1 ∧ pool.shared = out.2.2 := by
  intro out pool
  have hwithin : Pool.Within d.advance 9 (.start (calls i), s) (.answered out.1, out.2.2) := by
    have hout : d.execHomeCall (calls i) s = out := rfl
    cases hcall : calls i with
    | control args execCtx =>
      rw [hcall] at hout
      rw [← hout]
      exact (d.execHomeControlInner_alone args execCtx none s).mono (by omega)
    | undo execCtx =>
      rw [hcall] at hout
      rw [← hout]
      exact d.execHomeUndo_alone execCtx s
  have hend := hwithin.settled rfl
  have hpool : pool = _ := Pool.run_replicate d.advance (HomeTask.pool s calls) i 9
  have hstart : ((HomeTask.pool s calls).task i, (HomeTask.pool s calls).shared) =
      (HomeTask.start (calls i), s) := rfl
  rw [hpool, hstart, hend]
  dsimp only
  rw [Function.update_self]
  exact ⟨rfl, rfl⟩

end ToolDispatcher

end GenieClaw.Dispatch
