import GenieClaw.Actuation.Origin
import GenieClaw.Library.Binary
import GenieClaw.Library.HashTable
import Mathlib.Data.List.Sort

/-!
# Pending confirmations

The `ConfirmationManager` of `tools/actuation.rs`. Every operation runs under one lock
and starts with a sweep of the entries that have expired at the clock reading it takes;
`issue` takes a second reading for the new entry. A full table refuses a new entry, it
never makes room for one.
-/

namespace GenieClaw.Actuation

open Library Library.Text

def maxPendingConfirmations : Nat := 64

def confirmationLifetimeMs : Nat := 10 * 60 * 1000

structure PendingConfirmation where
  token : String
  entity : String
  action : String
  value : Option F64
  reason : String
  requestedBy : RequestOrigin
  createdMs : Nat
  expiresMs : Nat
deriving DecidableEq

structure ConfirmationState where
  nextId : Nat := 0
  pending : HashTable String PendingConfirmation := ∅

/-- The token of 16 random bytes: `act-` and their hexadecimal text. -/
def randomToken (bytes : Vector UInt8 16) : String :=
  String.ofList ("act-".toList ++ bytes.toList.flatMap hexByte)

/-- Equality of byte strings without an early exit. -/
def ctEq (a b : List UInt8) : Bool :=
  if a.length ≠ b.length then false
  else (a.zip b).foldl (fun diff xy => diff ||| (xy.1 ^^^ xy.2)) 0 == 0

def pruneExpired (nowMs : Nat) (pending : HashTable String PendingConfirmation) :
    HashTable String PendingConfirmation :=
  HashTable.retain (fun item => decide (nowMs < item.expiresMs)) pending

/-- The last key of the walk that equals the token; the walk never stops early. -/
def matchToken (token : String) (keys : List String) : Option String :=
  keys.foldl (fun found key => if ctEq (asBytes key) (asBytes token) then some key else found) none

namespace ConfirmationState

def issue (sweptMs createdMs : Nat) (bytes : Vector UInt8 16) (entity action : String)
    (value : Option F64) (reason : String) (requestedBy : RequestOrigin)
    (state : ConfirmationState) : Option PendingConfirmation × ConfirmationState :=
  let swept := pruneExpired sweptMs state.pending
  if maxPendingConfirmations ≤ swept.size then (none, { state with pending := swept })
  else
    let token := randomToken bytes
    let pending : PendingConfirmation :=
      { token, entity, action, value, reason, requestedBy, createdMs,
        expiresMs := createdMs + confirmationLifetimeMs }
    (some pending,
      { nextId := state.nextId + 1, pending := swept.insert token pending })

def confirm (nowMs : Nat) (token : String) (state : ConfirmationState) :
    Option PendingConfirmation × ConfirmationState :=
  let swept := pruneExpired nowMs state.pending
  match matchToken token swept.keys with
  | none => (none, { state with pending := swept })
  | some key => (swept.lookup key, { state with pending := swept.erase key })

/-- The order of entries created in the same millisecond is that of the walk. -/
def list (order : HashOrder PendingConfirmation) (nowMs : Nat) (state : ConfirmationState) :
    List PendingConfirmation × ConfirmationState :=
  let swept := pruneExpired nowMs state.pending
  (((order.walk swept.entries).map Sigma.snd).insertionSort
      (fun a b => a.createdMs ≤ b.createdMs),
    { state with pending := swept })

end ConfirmationState

/-! ## Tokens -/

theorem randomToken_injective : Function.Injective randomToken := by
  intro a b h
  have htext := String.ofList_injective h
  have hbytes := List.append_cancel_left htext
  exact Vector.toList_inj.mp (flatMap_hexByte_injective hbytes)

theorem foldl_diff_eq_zero (ps : List (UInt8 × UInt8)) (diff : UInt8) :
    ps.foldl (fun diff xy => diff ||| (xy.1 ^^^ xy.2)) diff = 0 ↔
      diff = 0 ∧ ∀ xy ∈ ps, xy.1 = xy.2 := by
  induction ps generalizing diff with
  | nil => simp
  | cons p ps ih =>
    rw [List.foldl_cons, ih, UInt8.or_eq_zero_iff, UInt8.xor_eq_zero_iff, List.forall_mem_cons]
    tauto

theorem ctEq_iff (a b : List UInt8) : ctEq a b = true ↔ a = b := by
  unfold ctEq
  by_cases hlen : a.length = b.length
  · rw [if_neg (not_not.mpr hlen), beq_iff_eq, foldl_diff_eq_zero]
    constructor
    · rintro ⟨-, hall⟩
      apply List.ext_getElem hlen
      intro i ha hb
      have hi : i < (a.zip b).length := by
        rw [List.length_zip]
        omega
      have hmem := List.getElem_mem hi
      rw [List.getElem_zip] at hmem
      exact hall _ hmem
    · rintro rfl
      refine ⟨rfl, ?_⟩
      rintro ⟨x, y⟩ hxy
      obtain ⟨i, hi, heq⟩ := List.getElem_of_mem hxy
      rw [List.getElem_zip, Prod.mk.injEq] at heq
      exact heq.1.symm.trans heq.2
  · rw [if_pos hlen]
    constructor
    · intro h
      cases h
    · rintro rfl
      exact absurd rfl hlen

theorem ctEq_asBytes (a b : String) : ctEq (asBytes a) (asBytes b) = true ↔ a = b := by
  rw [ctEq_iff]
  exact asBytes_injective.eq_iff

theorem matchToken_eq (token : String) (keys : List String) :
    matchToken token keys = if token ∈ keys then some token else none := by
  have hgo : ∀ (keys : List String) (found : Option String),
      keys.foldl (fun found key =>
        if ctEq (asBytes key) (asBytes token) then some key else found) found =
      if token ∈ keys then some token else found := by
    intro keys
    induction keys with
    | nil => simp
    | cons key keys ih =>
      intro found
      rw [List.foldl_cons, ih]
      by_cases hkey : key = token
      · subst hkey
        simp [(ctEq_asBytes key key).mpr rfl]
      · have hne : ¬ ctEq (asBytes key) (asBytes token) = true :=
          fun h => hkey ((ctEq_asBytes key token).mp h)
        rw [if_neg hne]
        simp [Ne.symm hkey]
  exact hgo keys none

/-! ## Effects of the operations -/

theorem lookup_pruneExpired {nowMs : Nat} {pending : HashTable String PendingConfirmation}
    {token : String} {item : PendingConfirmation} :
    (pruneExpired nowMs pending).lookup token = some item ↔
      pending.lookup token = some item ∧ nowMs < item.expiresMs := by
  rw [pruneExpired, HashTable.lookup_retain_iff, decide_eq_true_iff]

theorem size_pruneExpired_le (nowMs : Nat) (pending : HashTable String PendingConfirmation) :
    (pruneExpired nowMs pending).size ≤ pending.size :=
  HashTable.size_retain_le _ _

namespace ConfirmationState

variable {state : ConfirmationState} {sweptMs createdMs nowMs : Nat} {bytes : Vector UInt8 16}
  {entity action reason token : String} {value : Option F64} {requestedBy : RequestOrigin}
  {item : PendingConfirmation}

theorem issue_some
    (h : (state.issue sweptMs createdMs bytes entity action value reason requestedBy).1 =
      some item) :
    (pruneExpired sweptMs state.pending).size < maxPendingConfirmations ∧
      item = ⟨randomToken bytes, entity, action, value, reason, requestedBy, createdMs,
        createdMs + confirmationLifetimeMs⟩ ∧
      (state.issue sweptMs createdMs bytes entity action value reason requestedBy).2 =
        ⟨state.nextId + 1, (pruneExpired sweptMs state.pending).insert item.token item⟩ := by
  unfold issue at h ⊢
  dsimp only at h ⊢
  split at h
  · cases h
  · rename_i hroom
    cases h
    exact ⟨by omega, rfl, by rw [if_neg hroom]⟩

theorem issue_none
    (h : (state.issue sweptMs createdMs bytes entity action value reason requestedBy).1 = none) :
    maxPendingConfirmations ≤ (pruneExpired sweptMs state.pending).size ∧
      (state.issue sweptMs createdMs bytes entity action value reason requestedBy).2 =
        { state with pending := pruneExpired sweptMs state.pending } := by
  unfold issue at h ⊢
  dsimp only at h ⊢
  split at h
  · rename_i hfull
    exact ⟨hfull, by rw [if_pos hfull]⟩
  · cases h

theorem confirm_eq (nowMs : Nat) (token : String) (state : ConfirmationState) :
    state.confirm nowMs token =
      ((pruneExpired nowMs state.pending).lookup token,
        { state with pending := (pruneExpired nowMs state.pending).erase token }) := by
  unfold confirm
  dsimp only
  rw [matchToken_eq]
  by_cases hmem : token ∈ (pruneExpired nowMs state.pending).keys
  · rw [if_pos hmem]
  · have hlook : (pruneExpired nowMs state.pending).lookup token = none :=
      AList.lookup_eq_none.mpr (fun h => hmem (AList.mem_keys.mp h))
    rw [if_neg hmem, hlook, HashTable.erase_of_lookup_eq_none hlook]

/-- A successful `confirm` returns an entry that was live under the token and removes
it. -/
theorem confirm_some (h : (state.confirm nowMs token).1 = some item) :
    state.pending.lookup token = some item ∧ nowMs < item.expiresMs ∧
      (state.confirm nowMs token).2 =
        { state with pending := (pruneExpired nowMs state.pending).erase token } := by
  rw [confirm_eq] at h ⊢
  obtain ⟨hlook, hlive⟩ := lookup_pruneExpired.mp h
  exact ⟨hlook, hlive, rfl⟩

theorem confirm_none (h : (state.confirm nowMs token).1 = none) :
    (state.confirm nowMs token).2 = { state with pending := pruneExpired nowMs state.pending } := by
  rw [confirm_eq] at h ⊢
  rw [HashTable.erase_of_lookup_eq_none h]

end ConfirmationState

end GenieClaw.Actuation
