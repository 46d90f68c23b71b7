import GenieClaw.Actuation.Confirmation
import GenieClaw.Library.Machine

/-!
# Runs of the confirmation manager

The manager as a machine of `issue`, `confirm` and `list`, with the clock readings and
the random bytes of each operation as its input. `Accounts` relates the table to the
history of the run: every pending entry stems from an earlier `issue` and was never
confirmed. No law below needs the clock to be monotone.

* `Accounts.step`: every operation keeps the accounts, if the token it draws is a new one.
* `confirmations_follow_their_issue` (the tokens of the run are distinct): what a run confirms,
  refuses and keeps.
-/

namespace GenieClaw.Actuation

open Library

inductive ManagerOp where
  | issue (sweptMs createdMs : Nat) (bytes : Vector UInt8 16) (entity action : String)
      (value : Option F64) (reason : String) (requestedBy : RequestOrigin)
  | confirm (nowMs : Nat) (token : String)
  | list (order : HashOrder PendingConfirmation) (nowMs : Nat)

inductive ManagerAnswer where
  | issued (item : Option PendingConfirmation)
  | confirmed (item : Option PendingConfirmation)
  | listed (items : List PendingConfirmation)

def manager : Machine ConfirmationState ManagerOp ManagerAnswer where
  step state
    | .issue sweptMs createdMs bytes entity action value reason requestedBy =>
      let (item, state) :=
        state.issue sweptMs createdMs bytes entity action value reason requestedBy
      (.issued item, state)
    | .confirm nowMs token =>
      let (item, state) := state.confirm nowMs token
      (.confirmed item, state)
    | .list order nowMs =>
      let (items, state) := state.list order nowMs
      (.listed items, state)

/-- The clock readings an operation takes, in order. -/
def ManagerOp.readings : ManagerOp → List Nat
  | .issue sweptMs createdMs .. => [sweptMs, createdMs]
  | .confirm nowMs _ => [nowMs]
  | .list _ nowMs => [nowMs]

/-- The random bytes an operation has at hand for its token. -/
def ManagerOp.drawn : ManagerOp → Option (Vector UInt8 16)
  | .issue _ _ bytes .. => some bytes
  | _ => none

abbrev ManagerEvent := Machine.Event ConfirmationState ManagerOp ManagerAnswer

namespace ManagerEvent

def issuedItem (e : ManagerEvent) : Option PendingConfirmation :=
  match e.output with
  | .issued item => item
  | _ => none

def confirmedItem (e : ManagerEvent) : Option PendingConfirmation :=
  match e.output with
  | .confirmed item => item
  | _ => none

end ManagerEvent

/-- The tokens of the entries issued, in order. -/
def issuedTokens (events : List ManagerEvent) : List String :=
  (events.filterMap ManagerEvent.issuedItem).map PendingConfirmation.token

def confirmedTokens (events : List ManagerEvent) : List String :=
  (events.filterMap ManagerEvent.confirmedItem).map PendingConfirmation.token

/-- The event issues exactly this entry for the request it was given. -/
def Issues (e : ManagerEvent) (item : PendingConfirmation) : Prop :=
  ∃ sweptMs bytes,
    e.input = .issue sweptMs item.createdMs bytes item.entity item.action item.value item.reason
      item.requestedBy ∧
    e.output = .issued (some item) ∧
    item.expiresMs = item.createdMs + confirmationLifetimeMs

/-- The entry is pending under its token and has not expired. -/
def Live (state : ConfirmationState) (nowMs : Nat) (item : PendingConfirmation) : Prop :=
  state.pending.lookup item.token = some item ∧ nowMs < item.expiresMs

def liveCount (state : ConfirmationState) (nowMs : Nat) : Nat :=
  state.pending.values.countP (fun item => decide (nowMs < item.expiresMs))

/-- A successful `confirm` returns, before its expiry, an entry issued earlier. -/
def ConfirmsItsIssue (past : List ManagerEvent) (e : ManagerEvent) : Prop :=
  ∀ nowMs token item, e.input = .confirm nowMs token → e.output = .confirmed (some item) →
    item.token = token ∧ nowMs < item.expiresMs ∧ ∃ i ∈ past, Issues i item

/-- A `confirm` that fails leaves the live entries as they are. -/
def FailsWithoutEffect (e : ManagerEvent) : Prop :=
  ∀ nowMs token, e.input = .confirm nowMs token → e.output = .confirmed none →
    ∀ item, Live e.after nowMs item ↔ Live e.before nowMs item

/-- An `issue` is refused exactly when 64 entries are live, and in no case drops one. -/
def RefusesWhenFull (e : ManagerEvent) : Prop :=
  ∀ sweptMs createdMs bytes entity action value reason requestedBy,
    e.input = .issue sweptMs createdMs bytes entity action value reason requestedBy →
    (e.output = .issued none ↔ maxPendingConfirmations ≤ liveCount e.before sweptMs) ∧
    ∀ item, Live e.before sweptMs item → Live e.after sweptMs item

variable {state : ConfirmationState} {item : PendingConfirmation}

theorem issuedToken_eq {op : ManagerOp}
    (h : ManagerEvent.issuedItem (manager.eventAt state op) = some item) :
    (op.drawn.map randomToken) = some item.token := by
  cases op with
  | issue sweptMs createdMs bytes entity action value reason requestedBy =>
    obtain ⟨-, hitem, -⟩ := ConfirmationState.issue_some h
    subst hitem
    rfl
  | confirm nowMs token => cases h
  | list order nowMs => cases h

theorem issuedTokens_sublist (state : ConfirmationState) (ops : List ManagerOp) :
    (issuedTokens (manager.trace state ops)).Sublist
      ((ops.filterMap ManagerOp.drawn).map randomToken) := by
  induction ops generalizing state with
  | nil => exact List.Sublist.refl _
  | cons op ops ih =>
    have hrest := ih (manager.step state op).2
    unfold issuedTokens at hrest ⊢
    rw [manager.trace_cons, List.filterMap_cons, List.filterMap_cons]
    cases hitem : ManagerEvent.issuedItem (manager.eventAt state op) with
    | none =>
      cases op.drawn with
      | none => exact hrest
      | some bytes => exact hrest.cons _
    | some item =>
      obtain ⟨bytes, hbytes, htoken⟩ := Option.map_eq_some_iff.mp (issuedToken_eq hitem)
      rw [hbytes]
      simp only [List.map_cons, htoken]
      exact hrest.cons_cons _

theorem nodup_issuedTokens (state : ConfirmationState) (ops : List ManagerOp)
    (h : (ops.filterMap ManagerOp.drawn).Nodup) : (issuedTokens (manager.trace state ops)).Nodup :=
  (h.map randomToken_injective).sublist (issuedTokens_sublist state ops)

/-! ## The table and its history -/

/-- The table against the history: an entry sits under its own token, was issued and was
never confirmed; only issued tokens are confirmed, each once. -/
structure Accounts (past : List ManagerEvent) (state : ConfirmationState) : Prop where
  keyed : ∀ token item, state.pending.lookup token = some item → token = item.token
  issued : ∀ token item, state.pending.lookup token = some item → ∃ i ∈ past, Issues i item
  unspent : ∀ token item, state.pending.lookup token = some item → token ∉ confirmedTokens past
  spent : ∀ token ∈ confirmedTokens past, token ∈ issuedTokens past
  once : (confirmedTokens past).Nodup
  bounded : state.pending.size ≤ maxPendingConfirmations

theorem issuedTokens_concat (past : List ManagerEvent) (e : ManagerEvent) :
    issuedTokens (past ++ [e]) =
      issuedTokens past ++ (e.issuedItem.map PendingConfirmation.token).toList := by
  unfold issuedTokens
  rw [filterMap_concat, List.map_append]
  cases e.issuedItem <;> rfl

theorem confirmedTokens_concat (past : List ManagerEvent) (e : ManagerEvent) :
    confirmedTokens (past ++ [e]) =
      confirmedTokens past ++ (e.confirmedItem.map PendingConfirmation.token).toList := by
  unfold confirmedTokens
  rw [filterMap_concat, List.map_append]
  cases e.confirmedItem <;> rfl

variable {past : List ManagerEvent}

theorem Issues.token_mem (h : ∃ i ∈ past, Issues i item) : item.token ∈ issuedTokens past := by
  obtain ⟨i, hi, _, _, _, hout, _⟩ := h
  apply List.mem_map_of_mem
  rw [List.mem_filterMap]
  exact ⟨i, hi, by rw [ManagerEvent.issuedItem, hout]⟩

theorem accounts_nil : Accounts [] {} where
  keyed := by intro token item h; cases h
  issued := by intro token item h; cases h
  unspent := by intro token item h; cases h
  spent := by intro token h; cases h
  once := .nil
  bounded := Nat.zero_le _

variable {e : ManagerEvent}

theorem Accounts.sweep {state state' : ConfirmationState} (h : Accounts past state)
    (hsub : ∀ token item, state'.pending.lookup token = some item →
      state.pending.lookup token = some item)
    (hsize : state'.pending.size ≤ state.pending.size) (hissued : e.issuedItem = none)
    (hconfirmed : e.confirmedItem = none) : Accounts (past ++ [e]) state' := by
  have hi := issuedTokens_concat past e
  have hc := confirmedTokens_concat past e
  rw [hissued, Option.map_none, Option.toList_none, List.append_nil] at hi
  rw [hconfirmed, Option.map_none, Option.toList_none, List.append_nil] at hc
  refine ⟨fun t v ht => h.keyed t v (hsub t v ht), ?_, ?_, ?_, ?_, hsize.trans h.bounded⟩
  · intro t v ht
    obtain ⟨i, hmem, hiss⟩ := h.issued t v (hsub t v ht)
    exact ⟨i, List.mem_append_left _ hmem, hiss⟩
  · rw [hc]
    exact fun t v ht => h.unspent t v (hsub t v ht)
  · rw [hc, hi]
    exact h.spent
  · rw [hc]
    exact h.once

theorem Accounts.enter {state state' : ConfirmationState}
    {table : HashTable String PendingConfirmation} (h : Accounts past state)
    (item : PendingConfirmation)
    (hsub : ∀ token item, table.lookup token = some item → state.pending.lookup token = some item)
    (hroom : table.size < maxPendingConfirmations)
    (hpending : state'.pending = table.insert item.token item) (hissues : Issues e item)
    (hfresh : item.token ∉ issuedTokens past) : Accounts (past ++ [e]) state' := by
  have hi := issuedTokens_concat past e
  have hc := confirmedTokens_concat past e
  obtain ⟨sweptMs, bytes, hin, hout, hexp⟩ := hissues
  have hissued : e.issuedItem = some item := by rw [ManagerEvent.issuedItem, hout]
  have hconfirmed : e.confirmedItem = none := by rw [ManagerEvent.confirmedItem, hout]
  rw [hissued] at hi
  rw [hconfirmed, Option.map_none, Option.toList_none, List.append_nil] at hc
  -- an entry of the new table is the new one or an old one
  have hcases : ∀ t v, state'.pending.lookup t = some v →
      (t = item.token ∧ v = item) ∨ state.pending.lookup t = some v := by
    intro t v ht
    rw [hpending] at ht
    by_cases heq : t = item.token
    · subst heq
      rw [AList.lookup_insert] at ht
      cases ht
      exact .inl ⟨rfl, rfl⟩
    · rw [AList.lookup_insert_ne heq] at ht
      exact .inr (hsub t v ht)
  refine ⟨?_, ?_, ?_, ?_, ?_, ?_⟩
  · intro t v ht
    rcases hcases t v ht with ⟨rfl, rfl⟩ | hold
    · rfl
    · exact h.keyed t v hold
  · intro t v ht
    rcases hcases t v ht with ⟨rfl, rfl⟩ | hold
    · exact ⟨e, List.mem_append_right _ List.mem_cons_self, sweptMs, bytes, hin, hout, hexp⟩
    · obtain ⟨i, hmem, hiss⟩ := h.issued t v hold
      exact ⟨i, List.mem_append_left _ hmem, hiss⟩
  · intro t v ht
    rw [hc]
    rcases hcases t v ht with ⟨rfl, rfl⟩ | hold
    · exact fun hspent => hfresh (h.spent _ hspent)
    · exact h.unspent t v hold
  · intro t ht
    rw [hc] at ht
    rw [hi]
    exact List.mem_append_left _ (h.spent t ht)
  · rw [hc]
    exact h.once
  · rw [hpending, HashTable.size_insert]
    split_ifs <;> omega

theorem Accounts.spend {state state' : ConfirmationState}
    {table : HashTable String PendingConfirmation} {token : String} (h : Accounts past state)
    (hsub : ∀ token item, table.lookup token = some item → state.pending.lookup token = some item)
    (hsize : table.size ≤ state.pending.size) (hlook : state.pending.lookup token = some item)
    (hpending : state'.pending = table.erase token)
    (hconfirmed : e.output = .confirmed (some item)) : Accounts (past ++ [e]) state' := by
  have htoken := h.keyed token item hlook
  have hi := issuedTokens_concat past e
  have hc := confirmedTokens_concat past e
  have hissued : e.issuedItem = none := by rw [ManagerEvent.issuedItem, hconfirmed]
  have hitem : e.confirmedItem = some item := by rw [ManagerEvent.confirmedItem, hconfirmed]
  rw [hissued, Option.map_none, Option.toList_none, List.append_nil] at hi
  rw [hitem, Option.map_some, Option.toList_some, ← htoken] at hc
  have hcases : ∀ t v, state'.pending.lookup t = some v →
      t ≠ token ∧ state.pending.lookup t = some v := by
    intro t v ht
    rw [hpending] at ht
    by_cases heq : t = token
    · subst heq
      rw [AList.lookup_erase] at ht
      cases ht
    · rw [AList.lookup_erase_ne heq] at ht
      exact ⟨heq, hsub t v ht⟩
  have hunspent := h.unspent token item hlook
  refine ⟨fun t v ht => h.keyed t v (hcases t v ht).2, ?_, ?_, ?_, ?_, ?_⟩
  · intro t v ht
    obtain ⟨i, hmem, hiss⟩ := h.issued t v (hcases t v ht).2
    exact ⟨i, List.mem_append_left _ hmem, hiss⟩
  · intro t v ht hspent
    obtain ⟨hne, hold⟩ := hcases t v ht
    rw [hc, List.mem_append, List.mem_singleton] at hspent
    rcases hspent with hspent | rfl
    · exact h.unspent t v hold hspent
    · exact hne rfl
  · intro t ht
    rw [hi]
    rw [hc, List.mem_append, List.mem_singleton] at ht
    rcases ht with ht | rfl
    · exact h.spent t ht
    · rw [htoken]
      exact Issues.token_mem (h.issued t item hlook)
  · rw [hc, List.nodup_append]
    refine ⟨h.once, List.nodup_singleton _, ?_⟩
    intro t ht t' ht'
    rw [List.mem_singleton] at ht'
    rintro rfl
    exact hunspent (ht' ▸ ht)
  · rw [hpending]
    exact (HashTable.size_erase_le _ _).trans (hsize.trans h.bounded)

/-- Every operation of the manager keeps the accounts, as long as the token it draws was
not drawn before. -/
theorem Accounts.step (op : ManagerOp)
    (hfresh : (issuedTokens (past ++ [manager.eventAt state op])).Nodup) (h : Accounts past state) :
    Accounts (past ++ [manager.eventAt state op]) (manager.step state op).2 := by
  cases op with
  | issue sweptMs createdMs bytes entity action value reason requestedBy =>
    cases hout : (state.issue sweptMs createdMs bytes entity action value reason
        requestedBy).1 with
    | none =>
      obtain ⟨-, hstate⟩ := ConfirmationState.issue_none hout
      apply h.sweep
      · intro t v ht
        rw [manager, hstate] at ht
        exact (lookup_pruneExpired.mp ht).1
      · rw [manager, hstate]
        exact size_pruneExpired_le _ _
      · exact hout
      · rfl
    | some item =>
      obtain ⟨hroom, hitem, hstate⟩ := ConfirmationState.issue_some hout
      apply h.enter item (fun t v ht => (lookup_pruneExpired.mp ht).1) hroom
      · rw [manager, hstate]
      · subst hitem
        exact ⟨sweptMs, bytes, rfl, congrArg ManagerAnswer.issued hout, rfl⟩
      · intro hmem
        have hissued : ManagerEvent.issuedItem (manager.eventAt state (.issue sweptMs createdMs
            bytes entity action value reason requestedBy)) = some item := hout
        rw [issuedTokens_concat, hissued, List.nodup_append] at hfresh
        exact hfresh.2.2 _ hmem _ List.mem_cons_self rfl
  | confirm nowMs token =>
    cases hout : (state.confirm nowMs token).1 with
    | none =>
      have hstate := ConfirmationState.confirm_none hout
      apply h.sweep
      · intro t v ht
        rw [manager, hstate] at ht
        exact (lookup_pruneExpired.mp ht).1
      · rw [manager, hstate]
        exact size_pruneExpired_le _ _
      · rfl
      · exact hout
    | some item =>
      obtain ⟨hlook, -, hstate⟩ := ConfirmationState.confirm_some hout
      apply h.spend (fun t v ht => (lookup_pruneExpired.mp ht).1) (size_pruneExpired_le nowMs _)
        hlook
      · rw [manager, hstate]
      · exact congrArg ManagerAnswer.confirmed hout
  | list order nowMs =>
    apply h.sweep
    · exact fun t v ht => (lookup_pruneExpired.mp ht).1
    · exact size_pruneExpired_le _ _
    · rfl
    · rfl

/-! ## Laws of one event -/

theorem confirmsItsIssue_step (h : Accounts past state) (op : ManagerOp) :
    ConfirmsItsIssue past (manager.eventAt state op) := by
  intro nowMs token item hin hout
  cases hin
  have hsome : (state.confirm nowMs token).1 = some item := ManagerAnswer.confirmed.inj hout
  obtain ⟨hlook, hlive, -⟩ := ConfirmationState.confirm_some hsome
  exact ⟨(h.keyed token item hlook).symm, hlive, h.issued token item hlook⟩

theorem failsWithoutEffect_step (state : ConfirmationState) (op : ManagerOp) :
    FailsWithoutEffect (manager.eventAt state op) := by
  intro nowMs token hin hout item
  cases hin
  have hnone : (state.confirm nowMs token).1 = none := ManagerAnswer.confirmed.inj hout
  have hstate := ConfirmationState.confirm_none hnone
  show Live (state.confirm nowMs token).2 nowMs item ↔ Live state nowMs item
  rw [hstate]
  unfold Live
  rw [lookup_pruneExpired]
  tauto

theorem size_pruneExpired (state : ConfirmationState) (nowMs : Nat) :
    (pruneExpired nowMs state.pending).size = liveCount state nowMs := by
  unfold pruneExpired HashTable.retain HashTable.size liveCount HashTable.values
  rw [List.countP_map, List.countP_eq_length_filter]
  rfl

theorem refusesWhenFull_step (h : Accounts past state) (op : ManagerOp)
    (hfresh : (issuedTokens (past ++ [manager.eventAt state op])).Nodup) :
    RefusesWhenFull (manager.eventAt state op) := by
  intro sweptMs createdMs bytes entity action value reason requestedBy hin
  cases hin
  cases hout : (state.issue sweptMs createdMs bytes entity action value reason requestedBy).1 with
  | none =>
    obtain ⟨hfull, hstate⟩ := ConfirmationState.issue_none hout
    refine ⟨⟨fun _ => size_pruneExpired state sweptMs ▸ hfull,
      fun _ => congrArg ManagerAnswer.issued hout⟩, ?_⟩
    rintro item ⟨hlook, hlive⟩
    refine ⟨?_, hlive⟩
    show (state.issue sweptMs createdMs bytes entity action value reason
      requestedBy).2.pending.lookup _ = _
    rw [hstate]
    exact lookup_pruneExpired.mpr ⟨hlook, hlive⟩
  | some new =>
    obtain ⟨hroom, -, hstate⟩ := ConfirmationState.issue_some hout
    have hissued : ManagerEvent.issuedItem (manager.eventAt state (.issue sweptMs createdMs bytes
        entity action value reason requestedBy)) = some new := hout
    rw [issuedTokens_concat, hissued, List.nodup_append] at hfresh
    constructor
    · constructor
      · intro hnone
        have hrefused : (state.issue sweptMs createdMs bytes entity action value reason
            requestedBy).1 = none := ManagerAnswer.issued.inj hnone
        rw [hout] at hrefused
        cases hrefused
      · intro hfull
        rw [size_pruneExpired] at hroom
        exact absurd hfull (by show ¬ maxPendingConfirmations ≤ liveCount state sweptMs; omega)
    · rintro item ⟨hlook, hlive⟩
      refine ⟨?_, hlive⟩
      -- the new token differs from that of every entry in the table
      have hne : item.token ≠ new.token := by
        intro heq
        have hmem := Issues.token_mem (h.issued _ _ hlook)
        exact hfresh.2.2 _ hmem _ List.mem_cons_self heq
      show (state.issue sweptMs createdMs bytes entity action value reason
        requestedBy).2.pending.lookup _ = _
      rw [hstate, AList.lookup_insert_ne hne]
      exact lookup_pruneExpired.mpr ⟨hlook, hlive⟩

/-! ## Laws of every run -/

/-- What holds of a history and the state it leads to. -/
structure Faithful (past : List ManagerEvent) (state : ConfirmationState) : Prop where
  accounts : Accounts past state
  confirms : EachPast ConfirmsItsIssue past
  fails : ∀ e ∈ past, FailsWithoutEffect e
  refuses : ∀ e ∈ past, RefusesWhenFull e

theorem faithful_run (ops : List ManagerOp)
    (hdistinct : (issuedTokens (manager.trace {} ops)).Nodup) :
    Faithful (manager.trace {} ops) (manager.run {} ops) := by
  refine manager.run_history (fun ops => (issuedTokens (manager.trace {} ops)).Nodup)
    ?_ ⟨accounts_nil, eachPast_nil _, by simp, by simp⟩ ?_ ops hdistinct
  · intro ops op hnodup
    rw [manager.trace_concat, issuedTokens_concat] at hnodup
    exact (List.nodup_append.mp hnodup).1
  · intro ops op hnodup h
    rw [manager.trace_concat] at hnodup
    refine ⟨h.accounts.step op hnodup,
      eachPast_concat.mpr ⟨h.confirms, confirmsItsIssue_step h.accounts op⟩, ?_, ?_⟩
    · intro e he
      rcases List.mem_append.mp he with he | he
      · exact h.fails e he
      · rw [List.mem_singleton.mp he]
        exact failsWithoutEffect_step _ op
    · intro e he
      rcases List.mem_append.mp he with he | he
      · exact h.refuses e he
      · rw [List.mem_singleton.mp he]
        exact refusesWhenFull_step h.accounts op hnodup

/-- In every run whose tokens are distinct, a token is confirmed at most once, before its
expiry, for exactly the request it was issued for; a failed `confirm` changes no live
entry; at most 64 entries are ever pending, and an `issue` that meets 64 live entries is
refused while no `issue` drops a live entry. -/
theorem confirmations_follow_their_issue (ops : List ManagerOp)
    (hdistinct : (issuedTokens (manager.trace {} ops)).Nodup) :
    (confirmedTokens (manager.trace {} ops)).Nodup ∧
      EachPast ConfirmsItsIssue (manager.trace {} ops) ∧
      (∀ e ∈ manager.trace {} ops, FailsWithoutEffect e ∧ RefusesWhenFull e) ∧
      (manager.run {} ops).pending.size ≤ maxPendingConfirmations := by
  have h := faithful_run ops hdistinct
  exact ⟨h.accounts.once, h.confirms, fun e he => ⟨h.fails e he, h.refuses e he⟩,
    h.accounts.bounded⟩

/-- One request whose token is presented twice. -/
def presentTwice : List ManagerOp :=
  [.issue 1 1 (Vector.replicate 16 7) "lock.front" "unlock" none "unlocking requires confirmation"
      .voice,
    .confirm 5 "act-07070707070707070707070707070707",
    .confirm 6 "act-07070707070707070707070707070707"]

theorem confirmations_follow_their_issue_once :
    confirmedTokens (manager.trace {} presentTwice) = ["act-07070707070707070707070707070707"] ∧
      (confirmedTokens (manager.trace {} presentTwice)).Nodup := by
  have hdistinct := nodup_issuedTokens {} presentTwice (List.nodup_singleton _)
  exact ⟨by decide +kernel, (confirmations_follow_their_issue presentTwice hdistinct).1⟩

/-! ## A full table -/

def fillBytes (i : Nat) : Vector UInt8 16 := (Vector.replicate 16 0).set 0 (UInt8.ofNat i)

/-- The `i`-th of a series of requests a millisecond apart, all before the first expiry. -/
def fillOp (i : Nat) : ManagerOp :=
  .issue i i (fillBytes i) "cover.garage" "open" none "opening Garage requires confirmation" .voice

def fillItem (i : Nat) : PendingConfirmation :=
  ⟨randomToken (fillBytes i), "cover.garage", "open", none,
    "opening Garage requires confirmation", .voice, i, i + confirmationLifetimeMs⟩

theorem fillItem_expires (i : Nat) {n : Nat} (hn : n ≤ 64) : n < (fillItem i).expiresMs := by
  unfold fillItem confirmationLifetimeMs
  dsimp only
  omega

theorem fillBytes_injective : ∀ i < 65, ∀ j < 65, fillBytes i = fillBytes j → i = j := by
  intro i hi j hj h
  have hhead : UInt8.ofNat i = UInt8.ofNat j := by
    have := congrArg (fun v : Vector UInt8 16 => v[0]) h
    simpa [fillBytes] using this
  have := congrArg UInt8.toNat hhead
  simp only [UInt8.toNat_ofNat'] at this
  omega

theorem fill_entries (n : Nat) (hn : n ≤ 64) :
    (manager.run {} ((List.range n).map fillOp)).pending.entries =
      ((List.range n).map (fun i => ⟨(fillItem i).token, fillItem i⟩)).reverse := by
  induction n with
  | zero => rfl
  | succ n ih =>
    have hbefore := ih (by omega)
    rw [List.range_succ, List.map_append, List.map_cons, List.map_nil, manager.run_concat]
    generalize manager.run {} ((List.range n).map fillOp) = state at hbefore ⊢
    have hswept : (pruneExpired n state.pending).entries = state.pending.entries := by
      apply List.filter_eq_self.mpr
      intro e he
      rw [hbefore, List.mem_reverse, List.mem_map] at he
      obtain ⟨i, -, rfl⟩ := he
      exact decide_eq_true (fillItem_expires i (by omega))
    have hsize : (pruneExpired n state.pending).size = n := by
      rw [HashTable.size, hswept, hbefore, List.length_reverse, List.length_map, List.length_range]
    have hnew : (fillItem n).token ∉ (pruneExpired n state.pending).keys := by
      rw [AList.keys, List.keys, hswept, hbefore, List.mem_map]
      rintro ⟨e, he, htoken⟩
      rw [List.mem_reverse, List.mem_map] at he
      obtain ⟨i, hi, rfl⟩ := he
      have hi' := List.mem_range.mp hi
      have := fillBytes_injective i (by omega) n (by omega) (randomToken_injective htoken)
      omega
    have hroom : ¬ maxPendingConfirmations ≤ (pruneExpired n state.pending).size := by
      rw [hsize, maxPendingConfirmations]
      omega
    have hstep : (manager.step state (fillOp n)).2.pending =
        (pruneExpired n state.pending).insert (fillItem n).token (fillItem n) := by
      show (ConfirmationState.issue n n (fillBytes n) _ _ _ _ _ state).2.pending = _
      unfold ConfirmationState.issue
      rw [if_neg hroom]
      rfl
    rw [hstep, AList.entries_insert_of_notMem (fun h => hnew (AList.mem_keys.mp h)), hswept,
      hbefore]
    simp

/-- An `issue` that meets a full table drops the oldest live entry for the new one. -/
def DropsOldestWhenFull (e : ManagerEvent) : Prop :=
  ∀ sweptMs createdMs bytes entity action value reason requestedBy,
    e.input = .issue sweptMs createdMs bytes entity action value reason requestedBy →
    liveCount e.before sweptMs = maxPendingConfirmations →
    ∃ oldest, Live e.before sweptMs oldest ∧
      (∀ item, Live e.before sweptMs item → oldest.createdMs ≤ item.createdMs) ∧
      ¬ Live e.after sweptMs oldest

theorem not_dropsOldest_of_refuses {op : ManagerOp}
    (hrefuses : RefusesWhenFull (manager.eventAt state op)) {sweptMs createdMs : Nat}
    {bytes : Vector UInt8 16} {entity action reason : String} {value : Option F64}
    {requestedBy : RequestOrigin}
    (hop : op = .issue sweptMs createdMs bytes entity action value reason requestedBy)
    (hfull : liveCount state sweptMs = maxPendingConfirmations) :
    ¬ DropsOldestWhenFull (manager.eventAt state op) := by
  intro hdrops
  obtain ⟨oldest, hlive, -, hgone⟩ := hdrops _ _ _ _ _ _ _ _ hop hfull
  exact hgone ((hrefuses _ _ _ _ _ _ _ _ hop).2 oldest hlive)

theorem fill_liveCount :
    liveCount (manager.run {} ((List.range 64).map fillOp)) 64 = maxPendingConfirmations := by
  unfold liveCount HashTable.values
  rw [fill_entries 64 (Nat.le_refl 64), List.countP_map, List.countP_eq_length.mpr,
    List.length_reverse, List.length_map, List.length_range]
  · rfl
  · intro e he
    rw [List.mem_reverse, List.mem_map] at he
    obtain ⟨i, -, rfl⟩ := he
    rw [Function.comp_apply, decide_eq_true_iff]
    exact fillItem_expires i (Nat.le_refl 64)

theorem fill_drawn : (((List.range 65).map fillOp).filterMap ManagerOp.drawn).Nodup := by
  have heq : ((List.range 65).map fillOp).filterMap ManagerOp.drawn =
      (List.range 65).map fillBytes := by
    rw [List.filterMap_map, ← List.filterMap_eq_map]
    apply List.filterMap_congr
    intro i _
    rfl
  rw [heq]
  exact List.Nodup.map_on
    (fun i hi j hj => fillBytes_injective i (List.mem_range.mp hi) j (List.mem_range.mp hj))
    List.nodup_range

/-- The 65th request of a series within one second drops no entry. -/
theorem issue_at_capacity_keeps_the_oldest :
    (((List.range 65).map fillOp).flatMap ManagerOp.readings).Pairwise (· ≤ ·) ∧
      (issuedTokens (manager.trace {} ((List.range 65).map fillOp))).Nodup ∧
      ∃ e ∈ manager.trace {} ((List.range 65).map fillOp), ¬ DropsOldestWhenFull e := by
  have hdistinct := nodup_issuedTokens {} _ fill_drawn
  refine ⟨by decide +kernel, hdistinct, ?_⟩
  have hrefuses := (faithful_run _ hdistinct).refuses
  have hops : (List.range 65).map fillOp = (List.range 64).map fillOp ++ [fillOp 64] := by
    rw [List.range_succ, List.map_append]
    rfl
  rw [hops, manager.trace_concat] at hrefuses ⊢
  refine ⟨_, List.mem_append_right _ List.mem_cons_self, ?_⟩
  exact not_dropsOldest_of_refuses
    (hrefuses _ (List.mem_append_right _ List.mem_cons_self)) rfl fill_liveCount

end GenieClaw.Actuation
