import GenieClaw.Library.Text

/-!
# Request origins

The channel a request came from, as `tools/actuation.rs` names it. Policies, rate limits
and audit lines are keyed by `asPolicyKey`.
-/

namespace GenieClaw.Actuation

open Library.Text

inductive RequestOrigin where
  | unknown
  | voice
  | dashboard
  | api
  | telegram
  | repl
  | confirmation
deriving DecidableEq

namespace RequestOrigin

def fromHeader (value : String) : RequestOrigin :=
  match toAsciiLowercase (trim value) with
  | "voice" => .voice
  | "dashboard" => .dashboard
  | "api" => .api
  | "telegram" => .telegram
  | "repl" => .repl
  | "confirmation" => .confirmation
  | _ => .unknown

def asPolicyKey : RequestOrigin → String
  | .unknown => "unknown"
  | .voice => "voice"
  | .dashboard => "dashboard"
  | .api => "api"
  | .telegram => "telegram"
  | .repl => "repl"
  | .confirmation => "confirmation"

/-- The text `{:?}` prints. -/
def debugName : RequestOrigin → String
  | .unknown => "Unknown"
  | .voice => "Voice"
  | .dashboard => "Dashboard"
  | .api => "Api"
  | .telegram => "Telegram"
  | .repl => "Repl"
  | .confirmation => "Confirmation"

theorem asPolicyKey_injective : Function.Injective asPolicyKey := by
  intro a b h
  cases a <;> cases b <;> first | rfl | (revert h; decide)

theorem fromHeader_asPolicyKey (o : RequestOrigin) : fromHeader o.asPolicyKey = o := by
  cases o <;> decide

end RequestOrigin

end GenieClaw.Actuation
