import GenieClaw.Dispatch.Dispatcher
import GenieClaw.Library.KeyedWindow

/-!
# The limiters over whole runs

`check_and_record` of the two limiters as machines: a call names its key and the reading of
the clock it is made at. Both stand for a table with one sliding window a key.

* `actuationLimiter_stands`, `toolLimiter_stands`: the limiters are tables of windows.
* `limiters_keep` (no assumption but on the clock): both admit what their limits allow.
-/

namespace GenieClaw.Dispatch

open Library Library.SlidingWindow Actuation

variable {W : Type}

namespace ToolDispatcher

variable (d : ToolDispatcher W)

/-- The program while the clock shows `now`. -/
def showing (now : Nat) : ToolDispatcher W := { d with clock := fun _ => now }

def actuationLimiter : Machine (DispatcherState W) (Call RequestOrigin) Bool where
  step s call :=
    let (result, s) := (d.showing call.now).chargeActuation call.key s
    (result.isOk, s)

def toolLimiter : Machine (DispatcherState W) (Call String) Bool where
  step s call :=
    let (result, s) := (d.showing call.now).chargeTool call.key s
    (result.isOk, s)

/-- No limiter has admitted a call yet. -/
def idle (s : DispatcherState W) : DispatcherState W :=
  { s with actuationAttempts := ∅, toolAttempts := ∅ }

theorem bucket_attempt_eq {K : Type} [DecidableEq K] (key : K) (limit now : Nat)
    (attempts : HashTable K (List Nat)) : bucket (attempt key limit now attempts).2 =
      Function.update (bucket attempts) key
        (slide actuationRateWindowMs limit now (bucket attempts key)).2 := by
  funext other
  rw [bucket_attempt, Function.update_apply]

theorem bucket_empty {K : Type} [DecidableEq K] :
    bucket (∅ : HashTable K (List Nat)) = fun _ => [] := rfl

theorem chargeActuation_spec (origin : RequestOrigin) (s : DispatcherState W) :
    let charged := charge actuationRateWindowMs (some (actuationRateLimit d.actuationSafety origin))
      (d.clock s.reads) (bucket s.actuationAttempts origin)
    (d.chargeActuation origin s).1.isOk = charged.1 ∧
      bucket (d.chargeActuation origin s).2.actuationAttempts =
        Function.update (bucket s.actuationAttempts) origin charged.2 := by
  unfold chargeActuation
  cases actuationRateLimit d.actuationSafety origin with
  | zero => exact ⟨rfl, (Function.update_eq_self origin _).symm⟩
  | succ n =>
    have hbuckets := bucket_attempt_eq origin (n + 1) (d.clock s.reads) s.actuationAttempts
    dsimp only [charge_succ, nowMs]
    rw [if_neg (Nat.succ_ne_zero n), ← hbuckets]
    cases hadmitted : (attempt origin (n + 1) (d.clock s.reads) s.actuationAttempts).1 with
    | true => exact ⟨hadmitted.symm, rfl⟩
    | false => exact ⟨hadmitted.symm, rfl⟩

theorem chargeTool_spec (tool : String) (s : DispatcherState W) :
    let charged := charge actuationRateWindowMs (toolRateLimit d.toolPolicy tool)
      (d.clock s.reads) (bucket s.toolAttempts tool)
    (d.chargeTool tool s).1.isOk = charged.1 ∧
      bucket (d.chargeTool tool s).2.toolAttempts =
        Function.update (bucket s.toolAttempts) tool charged.2 := by
  unfold chargeTool
  cases toolRateLimit d.toolPolicy tool with
  | none => exact ⟨rfl, (Function.update_eq_self tool _).symm⟩
  | some limit =>
    cases limit with
    | zero => exact ⟨rfl, (Function.update_eq_self tool _).symm⟩
    | succ n =>
      have hbuckets := bucket_attempt_eq tool (n + 1) (d.clock s.reads) s.toolAttempts
      dsimp only [charge_succ, nowMs]
      rw [if_neg (Nat.succ_ne_zero n), ← hbuckets]
      cases hadmitted : (attempt tool (n + 1) (d.clock s.reads) s.toolAttempts).1 with
      | true => exact ⟨hadmitted.symm, rfl⟩
      | false => exact ⟨hadmitted.symm, rfl⟩

theorem actuationLimiter_stands :
    Stands actuationRateWindowMs (fun origin => some (actuationRateLimit d.actuationSafety origin))
      d.actuationLimiter fun s => bucket s.actuationAttempts := by
  intro s call
  obtain ⟨hanswer, hbuckets⟩ := (d.showing call.now).chargeActuation_spec call.key s
  exact Prod.ext hanswer.symm hbuckets.symm

theorem toolLimiter_stands :
    Stands actuationRateWindowMs (toolRateLimit d.toolPolicy) d.toolLimiter
      fun s => bucket s.toolAttempts := by
  intro s call
  obtain ⟨hanswer, hbuckets⟩ := (d.showing call.now).chargeTool_spec call.key s
  exact Prod.ext hanswer.symm hbuckets.symm

/-- In every run with readings that do not decrease both limiters admit at most their limit
in any minute, refuse exactly when the minute before the call is used up, charge nothing
for a refusal and keep their keys apart. -/
theorem limiters_keep (s : DispatcherState W) :
    Keeps actuationRateWindowMs (fun origin => some (actuationRateLimit d.actuationSafety origin))
        d.actuationLimiter (idle s) ∧
      Keeps actuationRateWindowMs (toolRateLimit d.toolPolicy) d.toolLimiter (idle s) :=
  ⟨Keeps.of_stands d.actuationLimiter_stands bucket_empty,
    Keeps.of_stands d.toolLimiter_stands bucket_empty⟩

end ToolDispatcher

end GenieClaw.Dispatch
