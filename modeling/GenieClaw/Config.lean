import GenieClaw.Library.Binary
import GenieClaw.Library.HashTable

/-!
# Configuration of the tool policy and of home actuation

`ToolPolicyConfig` and `ActuationSafetyConfig` of `genie-common/src/config.rs`, with their
defaults. A table of the configuration never changes while the program runs, so the order
in which it is walked is fixed: it is the order of its entries here.
-/

namespace GenieClaw

open Library

structure ToolPolicyConfig where
  enabled : Bool := true
  allowedToolsByOrigin : HashTable String (List String) := ∅
  deniedToolsByOrigin : HashTable String (List String) := ∅
  maxActionsPerMinuteByTool : HashTable String Nat := ∅
  requiresConfirmationTools : List String := []
  confirmationTtlSecs : Nat := 120

structure ActuationSafetyConfig where
  enabled : Bool := true
  /-- 0.78 -/
  minTargetConfidence : F32 := ⟨0x3F47AE14⟩
  /-- 0.90 -/
  minSensitiveConfidence : F32 := ⟨0x3F666666⟩
  denyMultiTargetSensitive : Bool := true
  requireAvailableState : Bool := true
  allowedOrigins : List String := ["voice", "dashboard", "api", "telegram", "repl", "confirmation"]
  maxActionsPerMinute : Nat := 12
  maxActionsPerMinuteByOrigin : HashTable String Nat := ∅

end GenieClaw
