import GenieClaw.Actuation.Origin
import GenieClaw.Config
import GenieClaw.Json
import GenieClaw.Library.HashTable

/-!
# The two-step confirmation gate

`ToolConfirmationGate` of `tools/dispatch/mod.rs`. A first leg enters the time it was seen
under its key, a confirming leg removes the entry and passes while it is not older than
the lifetime. Every evaluation first drops the entries that are an hour old.
-/

namespace GenieClaw.Dispatch

open Library Library.Text Actuation List

def toolConfirmationRetentionMs : Nat := 60 * 60 * 1000

def maxToolConfirmations : Nat := 256

inductive ToolConfirmDecision where
  | pending (token : String)
  | confirmed
  | expired
deriving DecidableEq

/-- `tool_requires_confirmation`. -/
def toolRequiresConfirmation (policy : ToolPolicyConfig) (tool : String) : Bool :=
  policy.enabled && policy.requiresConfirmationTools.any fun entry =>
    entry == "*" || eqIgnoreAsciiCase (trim entry) tool

/-- Origin, tool and serialised arguments, with unit separators between. -/
def toolConfirmationKey (floatText : F64 → String) (origin : RequestOrigin) (tool : String)
    (args : Json) : String :=
  origin.asPolicyKey ++ "\x1f" ++ tool ++ "\x1f" ++ Json.render floatText args

/-- `{:016x}` of a 64-bit hash. -/
def hex16 (hash : BitVec 64) : String :=
  String.ofList ((List.range 16).reverse.map fun i => hexDigit (hash.toNat / 16 ^ i % 16))

def toolConfirmationToken (hasher : String → BitVec 64) (key : String) : String :=
  "conf-" ++ hex16 (hasher key)

/-- The key of the first entry, in the order of the walk, with the least time. -/
def oldestKey : List (Sigma fun _ : String => Nat) → Option String
  | [] => none
  | e :: rest =>
    some (rest.foldl (fun best e => if e.2 < best.2 then e else best) e).1

/-- Entries an hour old are dropped. -/
def sweepConfirmations (nowMs : Nat) (pending : HashTable String Nat) : HashTable String Nat :=
  HashTable.retain (fun firstSeen => decide (nowMs - firstSeen < toolConfirmationRetentionMs))
    pending

/-- The table with room for a new key: past 256 entries the oldest one goes. -/
def makeRoom (order : HashOrder Nat) (key : String) (pending : HashTable String Nat) :
    HashTable String Nat :=
  if maxToolConfirmations ≤ pending.size ∧ key ∉ pending then
    match oldestKey (order.walk pending.entries) with
    | some oldest => pending.erase oldest
    | none => pending
  else pending

/-- What one evaluation decides for a key, and the table it leaves. The token of a
pending request is its caller's business. -/
inductive GateAnswer where
  | pending
  | confirmed
  | expired
deriving DecidableEq

def evaluateKey (order : HashOrder Nat) (key : String) (nowMs ttlMs : Nat) (confirmed : Bool)
    (pending : HashTable String Nat) : GateAnswer × HashTable String Nat :=
  let swept := sweepConfirmations nowMs pending
  if confirmed then
    match swept.lookup key with
    | some firstSeen =>
      (if nowMs - firstSeen ≤ ttlMs then .confirmed else .expired, swept.erase key)
    | none => (.expired, swept)
  else (.pending, (makeRoom order key swept).insert key nowMs)

/-- `ToolConfirmationGate::evaluate` at a clock reading. -/
def evaluate (floatText : F64 → String) (hasher : String → BitVec 64) (order : HashOrder Nat)
    (origin : RequestOrigin) (tool : String) (args : Json) (ttlMs : Nat) (confirmed : Bool)
    (nowMs : Nat) (pending : HashTable String Nat) : ToolConfirmDecision × HashTable String Nat :=
  let key := toolConfirmationKey floatText origin tool args
  let (answer, pending) := evaluateKey order key nowMs ttlMs confirmed pending
  (match answer with
    | .pending => .pending (toolConfirmationToken hasher key)
    | .confirmed => .confirmed
    | .expired => .expired, pending)

/-- `confirmation_ttl_secs.saturating_mul(1000)` on 64 bits. -/
def confirmationTtlMs (policy : ToolPolicyConfig) : Nat :=
  min (policy.confirmationTtlSecs * 1000) (2 ^ 64 - 1)

/-! ## Keys -/

theorem split_at_first {c : Char} {as as' bs bs' : List Char} (ha : c ∉ as) (ha' : c ∉ as')
    (h : as ++ ([c] ++ bs) = as' ++ ([c] ++ bs')) : as = as' ∧ bs = bs' := by
  induction as generalizing as' with
  | nil =>
    cases as' with
    | nil =>
      rw [nil_append, nil_append] at h
      exact ⟨rfl, (List.cons.inj h).2⟩
    | cons a' as' =>
      have := (List.cons.inj h).1
      exact absurd (this ▸ mem_cons_self) ha'
  | cons a as ih =>
    cases as' with
    | nil =>
      have := (List.cons.inj h).1
      exact absurd (this ▸ mem_cons_self) ha
    | cons a' as' =>
      obtain ⟨rfl, hrest⟩ := List.cons.inj h
      obtain ⟨rfl, hbs⟩ := ih (fun hm => ha (mem_cons_of_mem _ hm))
        (fun hm => ha' (mem_cons_of_mem _ hm)) hrest
      exact ⟨rfl, hbs⟩

theorem split_at_last {c : Char} {as as' bs bs' : List Char} (hb : c ∉ bs) (hb' : c ∉ bs')
    (h : as ++ ([c] ++ bs) = as' ++ ([c] ++ bs')) : as = as' ∧ bs = bs' := by
  have hrev := congrArg List.reverse h
  simp only [reverse_append, reverse_singleton, append_assoc] at hrev
  obtain ⟨hbs, has⟩ := split_at_first (by rwa [mem_reverse]) (by rwa [mem_reverse]) hrev
  exact ⟨reverse_injective has, reverse_injective hbs⟩

/-- The three parts of a key can be told apart: neither an origin nor serialised JSON
contains the separator. -/
theorem toolConfirmationKey_inj {floatText : F64 → String} (hfloat : Json.PlainNumbers floatText)
    {o o' : RequestOrigin} {tool tool' : String} {args args' : Json} :
    toolConfirmationKey floatText o tool args = toolConfirmationKey floatText o' tool' args' ↔
      o = o' ∧ tool = tool' ∧ Json.render floatText args = Json.render floatText args' := by
  constructor
  · intro h
    have hchars := congrArg String.toList h
    unfold toolConfirmationKey at hchars
    simp only [String.toList_append, append_assoc] at hchars
    have hsep : "\x1f".toList = [Char.ofNat 31] := by decide
    rw [hsep] at hchars
    have horigin : ∀ o : RequestOrigin, Char.ofNat 31 ∉ o.asPolicyKey.toList := by
      intro o
      cases o <;> decide
    have hargs : ∀ args, Char.ofNat 31 ∉ (Json.render floatText args).toList := by
      intro args hmem
      rw [Json.render, String.toList_ofList] at hmem
      exact absurd (Json.write_printable hfloat args _ hmem) (by decide)
    obtain ⟨ho, hrest⟩ := split_at_first (horigin o) (horigin o') hchars
    obtain ⟨htool, hrender⟩ := split_at_last (hargs args) (hargs args') hrest
    exact ⟨RequestOrigin.asPolicyKey_injective (String.toList_injective ho),
      String.toList_injective htool, String.toList_injective hrender⟩
  · rintro ⟨rfl, rfl, hrender⟩
    rw [toolConfirmationKey, toolConfirmationKey, hrender]

end GenieClaw.Dispatch
