import GenieClaw.Dispatch.ConfirmationGate
import GenieClaw.Library.Machine

/-!
# Runs of the confirmation gate

The gate as a machine whose inputs are the calls of gated tools with the clock reading of
each evaluation. `Remains` says, of the history alone, when a first leg is still waiting:
its request was not evaluated again and it was not dropped for capacity.
`lookup_iff_remains` ties it to the table, and from it follow the two laws of every run.

* `GateTable.step_lookup`, `GateTable.step_counted`: what one evaluation does to the table, said of
  the history.
* `confirming_legs_follow_first_legs` (the clock readings are in order, numbers print apart): which
  legs pass, and how often.
-/

namespace GenieClaw.Dispatch

open Library Actuation List Bool

structure GateCall where
  origin : RequestOrigin
  tool : String
  args : Json
  confirmed : Bool
  nowMs : Nat
  /-- The order the table is walked in when an entry must go. -/
  order : HashOrder Nat

variable (floatText : F64 → String) (hasher : String → BitVec 64) (ttlMs : Nat)

def GateCall.key (call : GateCall) : String :=
  toolConfirmationKey floatText call.origin call.tool call.args

def gate : Machine (HashTable String Nat) GateCall ToolConfirmDecision where
  step pending call :=
    evaluate floatText hasher call.order call.origin call.tool call.args ttlMs call.confirmed
      call.nowMs pending

abbrev GateEvent := Machine.Event (HashTable String Nat) GateCall ToolConfirmDecision

/-- The first leg of another request drops this key's entry to stay within capacity. -/
def Evicts (e : GateEvent) (key : String) : Prop :=
  e.input.confirmed = false ∧
    maxToolConfirmations ≤ (sweepConfirmations e.input.nowMs e.before).size ∧
    e.input.key floatText ∉ sweepConfirmations e.input.nowMs e.before ∧
    oldestKey (e.input.order.walk (sweepConfirmations e.input.nowMs e.before).entries) = some key

/-- A first leg of the key at time `firstSeen` remains: nothing after it touched the key. -/
def Remains (past : List GateEvent) (key : String) (firstSeen : Nat) : Prop :=
  ∃ earlier leg later, past = earlier ++ leg :: later ∧ leg.input.confirmed = false ∧
    leg.input.key floatText = key ∧ leg.input.nowMs = firstSeen ∧
    ∀ f ∈ later, f.input.key floatText ≠ key ∧ ¬ Evicts floatText f key

/-- The two calls have the same origin, tool and serialised arguments. -/
def SameRequest (a b : GateCall) : Prop :=
  a.origin = b.origin ∧ a.tool = b.tool ∧
    Json.render floatText a.args = Json.render floatText b.args

/-- A confirming leg passes exactly when there is an earlier first leg of the same request,
at most the lifetime and less than an hour old, after which the request was not
evaluated again and its entry was not dropped for capacity. -/
def PassesItsLeg (past : List GateEvent) (e : GateEvent) : Prop :=
  e.input.confirmed = true →
    (e.output = .confirmed ↔
      ∃ earlier leg later, past = earlier ++ leg :: later ∧ leg.input.confirmed = false ∧
        SameRequest floatText leg.input e.input ∧
        (∀ f ∈ later, ¬ SameRequest floatText f.input e.input ∧
          ¬ Evicts floatText f (e.input.key floatText)) ∧
        e.input.nowMs - leg.input.nowMs ≤ ttlMs ∧
        e.input.nowMs - leg.input.nowMs < toolConfirmationRetentionMs)

/-- The event is a first leg of the key. -/
def asks (key : String) (e : GateEvent) : Bool :=
  !e.input.confirmed && e.input.key floatText == key

/-- The event lets the key pass. -/
def passes (key : String) (e : GateEvent) : Bool :=
  e.output == .confirmed && e.input.key floatText == key

/-! ## One evaluation -/

variable {pending : HashTable String Nat}

theorem lookup_sweep {nowMs : Nat} {key : String} {firstSeen : Nat} :
    (sweepConfirmations nowMs pending).lookup key = some firstSeen ↔
      pending.lookup key = some firstSeen ∧ nowMs - firstSeen < toolConfirmationRetentionMs := by
  unfold sweepConfirmations
  rw [HashTable.lookup_retain_iff, decide_eq_true_iff]

theorem lookup_firstLeg (e : GateEvent) (hleg : e.input.confirmed = false)
    (hafter : e.after = (evaluateKey e.input.order (e.input.key floatText) e.input.nowMs ttlMs
      e.input.confirmed e.before).2) (key : String) (firstSeen : Nat) :
    e.after.lookup key = some firstSeen ↔
      (key = e.input.key floatText ∧ firstSeen = e.input.nowMs) ∨
        (key ≠ e.input.key floatText ∧ ¬ Evicts floatText e key ∧
          (sweepConfirmations e.input.nowMs e.before).lookup key = some firstSeen) := by
  have htable : e.after = (makeRoom e.input.order (e.input.key floatText)
      (sweepConfirmations e.input.nowMs e.before)).insert (e.input.key floatText)
        e.input.nowMs := by
    rw [hafter, evaluateKey, hleg]
    rfl
  rw [htable]
  by_cases hkey : key = e.input.key floatText
  · rw [hkey, AList.lookup_insert, Option.some.injEq]
    constructor
    · exact fun h => .inl ⟨rfl, h.symm⟩
    · rintro (⟨-, h⟩ | ⟨hne, -⟩)
      · exact h.symm
      · exact absurd rfl hne
  · rw [AList.lookup_insert_ne hkey]
    generalize hswept : sweepConfirmations e.input.nowMs e.before = swept
    have hev : Evicts floatText e key ↔ maxToolConfirmations ≤ swept.size ∧
        e.input.key floatText ∉ swept ∧
        oldestKey (e.input.order.walk swept.entries) = some key := by
      unfold Evicts
      rw [hswept]
      simp [hleg]
    rw [hev]
    unfold makeRoom
    by_cases hfull : maxToolConfirmations ≤ swept.size ∧ e.input.key floatText ∉ swept
    · rw [if_pos hfull]
      cases hold : oldestKey (e.input.order.walk swept.entries) with
      | none => simp [hkey]
      | some oldest =>
        dsimp only
        by_cases heq : key = oldest
        · subst heq
          rw [AList.lookup_erase]
          simp [hkey, hfull]
        · rw [AList.lookup_erase_ne heq]
          simp [hkey, Ne.symm heq]
    · rw [if_neg hfull]
      constructor
      · exact fun h => .inr ⟨hkey, fun hev => hfull ⟨hev.1, hev.2.1⟩, h⟩
      · rintro (⟨heq, -⟩ | ⟨-, -, h⟩)
        · exact absurd heq hkey
        · exact h

theorem lookup_confirmingLeg (e : GateEvent) (hleg : e.input.confirmed = true)
    (hafter : e.after = (evaluateKey e.input.order (e.input.key floatText) e.input.nowMs ttlMs
      e.input.confirmed e.before).2) (key : String) (firstSeen : Nat) :
    e.after.lookup key = some firstSeen ↔
      key ≠ e.input.key floatText ∧
        (sweepConfirmations e.input.nowMs e.before).lookup key = some firstSeen := by
  have htable : e.after =
      (sweepConfirmations e.input.nowMs e.before).erase (e.input.key floatText) := by
    rw [hafter, evaluateKey, hleg, if_pos rfl]
    cases hlook : (sweepConfirmations e.input.nowMs e.before).lookup (e.input.key floatText) with
    | none => exact (HashTable.erase_of_lookup_eq_none hlook).symm
    | some firstSeen => rfl
  rw [htable]
  by_cases hkey : key = e.input.key floatText
  · rw [hkey, AList.lookup_erase]
    simp
  · rw [AList.lookup_erase_ne hkey]
    simp [hkey]

theorem evaluateKey_confirmed_iff (order : HashOrder Nat) (key : String) (nowMs : Nat)
    (pending : HashTable String Nat) :
    (evaluateKey order key nowMs ttlMs true pending).1 = .confirmed ↔
      ∃ firstSeen, (sweepConfirmations nowMs pending).lookup key = some firstSeen ∧
        nowMs - firstSeen ≤ ttlMs := by
  unfold evaluateKey
  dsimp only
  rw [if_pos rfl]
  cases (sweepConfirmations nowMs pending).lookup key with
  | none => simp
  | some firstSeen =>
    dsimp only
    by_cases hage : nowMs - firstSeen ≤ ttlMs
    · rw [if_pos hage]
      exact ⟨fun _ => ⟨firstSeen, rfl, hage⟩, fun _ => rfl⟩
    · rw [if_neg hage]
      refine ⟨nofun, ?_⟩
      rintro ⟨seen, hseen, hle⟩
      rw [← Option.some.inj hseen] at hle
      exact absurd hle hage

theorem evaluate_confirmed_iff (order : HashOrder Nat) (origin : RequestOrigin) (tool : String)
    (args : Json) (confirmed : Bool) (nowMs : Nat) (pending : HashTable String Nat) :
    (evaluate floatText hasher order origin tool args ttlMs confirmed nowMs pending).1 =
        .confirmed ↔
      (evaluateKey order (toolConfirmationKey floatText origin tool args) nowMs ttlMs confirmed
        pending).1 = .confirmed := by
  unfold evaluate
  dsimp only
  generalize (evaluateKey order (toolConfirmationKey floatText origin tool args) nowMs ttlMs
    confirmed pending).1 = answer
  cases answer <;> simp

theorem confirmed_of_passes {call : GateCall}
    (h : ((gate floatText hasher ttlMs).step pending call).1 = .confirmed) :
    call.confirmed = true := by
  by_contra hfirst
  rw [not_eq_true] at hfirst
  have := (evaluate_confirmed_iff floatText hasher ttlMs call.order call.origin call.tool call.args
    call.confirmed call.nowMs pending).mp h
  rw [hfirst, evaluateKey] at this
  cases this

/-! ## The table and its history -/

theorem remains_concat (past : List GateEvent) (e : GateEvent) (key : String) (firstSeen : Nat) :
    Remains floatText (past ++ [e]) key firstSeen ↔
      (e.input.confirmed = false ∧ e.input.key floatText = key ∧ e.input.nowMs = firstSeen) ∨
        (e.input.key floatText ≠ key ∧ ¬ Evicts floatText e key ∧
          Remains floatText past key firstSeen) := by
  constructor
  · rintro ⟨earlier, leg, later, hsplit, hfirst, hkey, htime, hlater⟩
    rcases eq_nil_or_concat later with rfl | ⟨later', f, rfl⟩
    · obtain ⟨-, hlast⟩ := append_inj' hsplit rfl
      obtain rfl := List.singleton_inj.mp hlast
      exact .inl ⟨hfirst, hkey, htime⟩
    · rw [concat_eq_append, ← cons_append, ← append_assoc] at hsplit
      obtain ⟨hpast, hlast⟩ := append_inj' hsplit rfl
      obtain rfl := List.singleton_inj.mp hlast
      have hmem : e ∈ later'.concat e := by
        rw [concat_eq_append]
        exact mem_append_right _ mem_cons_self
      refine .inr ⟨(hlater e hmem).1, (hlater e hmem).2, earlier, leg, later', hpast, hfirst, hkey,
        htime, fun g hg => hlater g ?_⟩
      rw [concat_eq_append]
      exact mem_append_left _ hg
  · rintro (⟨hfirst, hkey, htime⟩ | ⟨hne, hkeep, earlier, leg, later, rfl, hfirst, hkey, htime,
      hlater⟩)
    · exact ⟨past, e, [], rfl, hfirst, hkey, htime, by simp⟩
    · refine ⟨earlier, leg, later ++ [e], by simp, hfirst, hkey, htime, fun f hf => ?_⟩
      rcases List.mem_append.mp hf with hf | hf
      · exact hlater f hf
      · rw [List.mem_singleton.mp hf]
        exact ⟨hne, hkeep⟩

/-- The table against the history, seen from any time that is not before the last
evaluation. -/
structure GateTable (past : List GateEvent) (pending : HashTable String Nat) : Prop where
  lookup : ∀ nowMs, (∀ e ∈ past, e.input.nowMs ≤ nowMs) → ∀ key firstSeen,
    (sweepConfirmations nowMs pending).lookup key = some firstSeen ↔
      Remains floatText past key firstSeen ∧ nowMs - firstSeen < toolConfirmationRetentionMs
  counted : ∀ key, past.countP (passes floatText key) + (if key ∈ pending then 1 else 0) ≤
    past.countP (asks floatText key)

theorem gateTable_nil : GateTable floatText [] ∅ where
  lookup := by
    intro nowMs _ key firstSeen
    constructor
    · intro h
      cases (lookup_sweep.mp h).1
    · rintro ⟨⟨earlier, leg, later, hsplit, -⟩, -⟩
      simp at hsplit
  counted := by
    intro key
    simp

variable {past : List GateEvent}

theorem GateTable.step_lookup (h : GateTable floatText past pending) (call : GateCall)
    (htime : ∀ e ∈ past, e.input.nowMs ≤ call.nowMs) (nowMs : Nat) (hnow : call.nowMs ≤ nowMs)
    (key : String) (firstSeen : Nat) :
    (sweepConfirmations nowMs ((gate floatText hasher ttlMs).step pending call).2).lookup key =
        some firstSeen ↔
      Remains floatText (past ++ [(gate floatText hasher ttlMs).eventAt pending call]) key
          firstSeen ∧ nowMs - firstSeen < toolConfirmationRetentionMs := by
  have hbefore := h.lookup call.nowMs htime key firstSeen
  rw [lookup_sweep, remains_concat]
  cases hconf : call.confirmed with
  | false =>
    have hafter := lookup_firstLeg floatText ttlMs ((gate floatText hasher ttlMs).eventAt pending
      call) hconf rfl key firstSeen
    change ((gate floatText hasher ttlMs).step pending call).2.lookup key = some firstSeen ↔ _
      at hafter
    rw [hafter]
    constructor
    · rintro ⟨⟨hkey, hseen⟩ | ⟨hne, hkeep, hlook⟩, hage⟩
      · exact ⟨.inl ⟨hconf, hkey.symm, hseen.symm⟩, hage⟩
      · exact ⟨.inr ⟨Ne.symm hne, hkeep, (hbefore.mp hlook).1⟩, hage⟩
    · rintro ⟨⟨-, hkey, hseen⟩ | ⟨hne, hkeep, hrem⟩, hage⟩
      · exact ⟨.inl ⟨hkey.symm, hseen.symm⟩, hage⟩
      · exact ⟨.inr ⟨Ne.symm hne, hkeep, hbefore.mpr ⟨hrem, by omega⟩⟩, hage⟩
  | true =>
    have hafter := lookup_confirmingLeg floatText ttlMs ((gate floatText hasher ttlMs).eventAt
      pending call) hconf rfl key firstSeen
    change ((gate floatText hasher ttlMs).step pending call).2.lookup key = some firstSeen ↔ _
      at hafter
    have hkeep : ¬ Evicts floatText ((gate floatText hasher ttlMs).eventAt pending call) key := by
      rintro ⟨hfirst, -⟩
      exact Bool.false_ne_true (hfirst.symm.trans hconf)
    rw [hafter]
    constructor
    · rintro ⟨⟨hne, hlook⟩, hage⟩
      exact ⟨.inr ⟨Ne.symm hne, hkeep, (hbefore.mp hlook).1⟩, hage⟩
    · rintro ⟨⟨hfirst, -⟩ | ⟨hne, -, hrem⟩, hage⟩
      · exact absurd (hfirst.symm.trans hconf) Bool.false_ne_true
      · exact ⟨⟨Ne.symm hne, hbefore.mpr ⟨hrem, by omega⟩⟩, hage⟩

theorem GateTable.step_counted (h : GateTable floatText past pending) (call : GateCall)
    (key : String) :
    (past ++ [(gate floatText hasher ttlMs).eventAt pending call]).countP (passes floatText key) +
        (if key ∈ ((gate floatText hasher ttlMs).step pending call).2 then 1 else 0) ≤
      (past ++ [(gate floatText hasher ttlMs).eventAt pending call]).countP
        (asks floatText key) := by
  have hcount := h.counted key
  have hmem : ∀ (table : HashTable String Nat) (key : String),
      key ∈ table ↔ ∃ firstSeen, table.lookup key = some firstSeen := by
    intro table key
    rw [← AList.lookup_isSome, Option.isSome_iff_exists]
  generalize he : (gate floatText hasher ttlMs).eventAt pending call = e
  have hinput : e.input = call := by rw [← he]; rfl
  have hout : e.output = ((gate floatText hasher ttlMs).step pending call).1 := by rw [← he]; rfl
  have hkeep : key ∈ e.after → key ≠ call.key floatText → key ∈ pending := by
    intro hin hne
    obtain ⟨firstSeen, hlook⟩ := (hmem _ _).mp hin
    rw [hmem]
    refine ⟨firstSeen, ?_⟩
    have hbefore : e.before = pending := by rw [← he]; rfl
    cases hconf : call.confirmed with
    | false =>
      have hafter := lookup_firstLeg floatText ttlMs e (hinput ▸ hconf) (by rw [← he]; rfl) key
        firstSeen
      rcases hafter.mp hlook with ⟨hkey, -⟩ | ⟨-, -, hswept⟩
      · exact absurd (hinput ▸ hkey) hne
      · exact hbefore ▸ (lookup_sweep.mp hswept).1
    | true =>
      have hafter := lookup_confirmingLeg floatText ttlMs e (hinput ▸ hconf) (by rw [← he]; rfl)
        key firstSeen
      exact hbefore ▸ (lookup_sweep.mp (hafter.mp hlook).2).1
  have hafter : ((gate floatText hasher ttlMs).step pending call).2 = e.after := by
    rw [← he]
    rfl
  rw [hafter, countP_append, countP_append, countP_singleton, countP_singleton]
  by_cases hkey : call.key floatText = key
  · -- the request of this key is evaluated
    cases hconf : call.confirmed with
    | false =>
      have hasks : asks floatText key e = true := by
        unfold asks
        rw [hinput, hconf, hkey]
        simp
      have hpasses : passes floatText key e = false := by
        unfold passes
        rw [and_eq_false_iff, beq_eq_false_iff_ne]
        refine .inl fun hpass => ?_
        have := confirmed_of_passes floatText hasher ttlMs (hout.symm.trans hpass)
        rw [hconf] at this
        cases this
      rw [hasks, hpasses]
      simp only [false_eq_true, if_false, if_true]
      split_ifs <;> omega
    | true =>
      have hgone : key ∉ e.after := by
        rw [hmem]
        rintro ⟨firstSeen, hlook⟩
        have hnew := lookup_confirmingLeg floatText ttlMs e (hinput ▸ hconf) (by rw [← he]; rfl)
          key firstSeen
        exact (hnew.mp hlook).1 (hinput ▸ hkey.symm)
      rw [if_neg hgone]
      cases hpasses : passes floatText key e with
      | false =>
        simp only [false_eq_true, if_false]
        omega
      | true =>
        -- the leg that passed was in the table
        have hin : key ∈ pending := by
          unfold passes at hpasses
          rw [and_eq_true, beq_iff_eq] at hpasses
          have hpass := (evaluate_confirmed_iff floatText hasher ttlMs call.order call.origin
            call.tool call.args call.confirmed call.nowMs pending).mp (hout.symm.trans hpasses.1)
          rw [hconf] at hpass
          obtain ⟨firstSeen, hlook, -⟩ := (evaluateKey_confirmed_iff ttlMs _ _ _ _).mp hpass
          rw [hmem, ← hkey]
          exact ⟨firstSeen, (lookup_sweep.mp hlook).1⟩
        rw [if_pos hin] at hcount
        simp only [if_true]
        omega
  · have hasks : asks floatText key e = false := by
      unfold asks
      rw [hinput, and_eq_false_iff, beq_eq_false_iff_ne]
      exact .inr hkey
    have hpasses : passes floatText key e = false := by
      unfold passes
      rw [hinput, and_eq_false_iff]
      exact .inr (beq_eq_false_iff_ne.mpr hkey)
    rw [hasks, hpasses]
    by_cases hin : key ∈ e.after
    · rw [if_pos hin]
      rw [if_pos (hkeep hin (Ne.symm hkey))] at hcount
      simpa using hcount
    · rw [if_neg hin]
      simp only [false_eq_true, if_false]
      omega

/-! ## Laws of every run -/

/-- The clock readings of the calls do not decrease. -/
def Timely (calls : List GateCall) : Prop := (calls.map GateCall.nowMs).Pairwise (· ≤ ·)

theorem key_eq_iff {floatText : F64 → String} (hfloat : Json.PlainNumbers floatText)
    (a b : GateCall) : a.key floatText = b.key floatText ↔ SameRequest floatText a b :=
  toolConfirmationKey_inj hfloat

theorem passesItsLeg_step (hfloat : Json.PlainNumbers floatText)
    (h : GateTable floatText past pending) (call : GateCall)
    (htime : ∀ e ∈ past, e.input.nowMs ≤ call.nowMs) :
    PassesItsLeg floatText ttlMs past ((gate floatText hasher ttlMs).eventAt pending call) := by
  intro hconf
  change call.confirmed = true at hconf
  have hpass := evaluate_confirmed_iff floatText hasher ttlMs call.order call.origin call.tool
    call.args call.confirmed call.nowMs pending
  rw [hconf, evaluateKey_confirmed_iff] at hpass
  show (evaluate floatText hasher call.order call.origin call.tool call.args ttlMs call.confirmed
    call.nowMs pending).1 = .confirmed ↔ _
  rw [hconf, hpass]
  constructor
  · rintro ⟨firstSeen, hlook, hage⟩
    obtain ⟨⟨earlier, leg, later, hsplit, hfirst, hkey, rfl, hlater⟩, hfresh⟩ :=
      (h.lookup call.nowMs htime (call.key floatText) firstSeen).mp hlook
    refine ⟨earlier, leg, later, hsplit, hfirst, (key_eq_iff hfloat _ _).mp hkey,
      fun f hf => ⟨fun hsame => ?_, (hlater f hf).2⟩, hage, hfresh⟩
    exact (hlater f hf).1 ((key_eq_iff hfloat _ _).mpr hsame)
  · rintro ⟨earlier, leg, later, hsplit, hfirst, hsame, hlater, hage, hfresh⟩
    refine ⟨leg.input.nowMs, ?_, hage⟩
    refine (h.lookup call.nowMs htime (call.key floatText) leg.input.nowMs).mpr ⟨?_, hfresh⟩
    refine ⟨earlier, leg, later, hsplit, hfirst, (key_eq_iff hfloat _ _).mpr hsame, rfl,
      fun f hf => ⟨fun hkey => (hlater f hf).1 ((key_eq_iff hfloat _ _).mp hkey),
        (hlater f hf).2⟩⟩

/-- What holds of a history of the gate and the table it leaves. -/
structure GateFaithful (past : List GateEvent) (pending : HashTable String Nat) : Prop where
  table : GateTable floatText past pending
  passes : EachPast (PassesItsLeg floatText ttlMs) past

theorem gate_run (hfloat : Json.PlainNumbers floatText) (calls : List GateCall)
    (htimely : Timely calls) :
    GateFaithful floatText ttlMs ((gate floatText hasher ttlMs).trace ∅ calls)
      ((gate floatText hasher ttlMs).run ∅ calls) := by
  refine (gate floatText hasher ttlMs).run_history Timely ?_
    ⟨gateTable_nil floatText, eachPast_nil _⟩ ?_ calls htimely
  · intro calls call htimely
    unfold Timely at htimely ⊢
    rw [map_append, pairwise_append] at htimely
    exact htimely.1
  · intro calls call htimely h
    have htime : ∀ e ∈ (gate floatText hasher ttlMs).trace ∅ calls,
        e.input.nowMs ≤ call.nowMs := by
      intro e he
      unfold Timely at htimely
      rw [map_append, pairwise_append] at htimely
      refine htimely.2.2 e.input.nowMs ?_ call.nowMs mem_cons_self
      have hmap := (gate floatText hasher ttlMs).map_input_trace ∅ calls
      rw [← hmap, map_map]
      exact mem_map_of_mem he
    refine ⟨⟨fun nowMs hnow key firstSeen => ?_, h.table.step_counted floatText hasher ttlMs call⟩,
      eachPast_concat.mpr ⟨h.passes, passesItsLeg_step floatText hasher ttlMs hfloat h.table call
        htime⟩⟩
    exact h.table.step_lookup floatText hasher ttlMs call htime nowMs
      (hnow _ (mem_append_right _ mem_cons_self)) key firstSeen

/-- In every run of the gate, a confirming leg passes exactly when a first leg of the same
origin, tool and serialised arguments is waiting that is at most the lifetime and less
than an hour old; and a request passes at most as often as it was first asked for. -/
theorem confirming_legs_follow_first_legs (hfloat : Json.PlainNumbers floatText)
    (calls : List GateCall) (htimely : Timely calls) :
    EachPast (PassesItsLeg floatText ttlMs) ((gate floatText hasher ttlMs).trace ∅ calls) ∧
      ∀ key, ((gate floatText hasher ttlMs).trace ∅ calls).countP (passes floatText key) ≤
        ((gate floatText hasher ttlMs).trace ∅ calls).countP (asks floatText key) := by
  have h := gate_run floatText hasher ttlMs hfloat calls htimely
  refine ⟨h.passes, fun key => ?_⟩
  have := h.table.counted key
  omega

/-! ## The lifetime of a first leg -/

/-- A number writer for calls without fractions. -/
def zeroText (_ : F64) : String := "0.0"

theorem plainNumbers_zeroText : Json.PlainNumbers zeroText := by
  intro x
  show ∀ c ∈ "0.0".toList, 32 ≤ c.toNat
  simp

/-- A request to play music, at a time. -/
def musicCall (confirmed : Bool) (nowMs : Nat) : GateCall :=
  ⟨.voice, "play_media", .object [("query", .string "jazz")], confirmed, nowMs, .listed Nat⟩

theorem musicCalls_timely {a b : Nat} (h : a ≤ b) :
    Timely [musicCall false a, musicCall true b] := by
  unfold Timely
  simpa [musicCall] using h

theorem confirming_legs_follow_first_legs_music :
    Timely [musicCall false 0, musicCall true 1000] ∧
      ((gate zeroText (fun _ => 0) 1000).trace ∅
        [musicCall false 0, musicCall true 1000]).countP
          (passes zeroText ((musicCall true 1000).key zeroText)) ≤
      ((gate zeroText (fun _ => 0) 1000).trace ∅
        [musicCall false 0, musicCall true 1000]).countP
          (asks zeroText ((musicCall true 1000).key zeroText)) := by
  have htimely := musicCalls_timely (Nat.zero_le 1000)
  exact ⟨htimely,
    (confirming_legs_follow_first_legs _ (fun _ => 0) 1000 plainNumbers_zeroText _ htimely).2 _⟩

/-- A confirming leg passes exactly when there is an earlier first leg of the same request
that is younger than the lifetime and let no other leg pass. -/
def PassesIffYounger (past : List GateEvent) (e : GateEvent) : Prop :=
  e.input.confirmed = true →
    (e.output = .confirmed ↔
      ∃ earlier leg later, past = earlier ++ leg :: later ∧ leg.input.confirmed = false ∧
        SameRequest floatText leg.input e.input ∧
        e.input.nowMs - leg.input.nowMs < ttlMs ∧
        ∀ f ∈ later, SameRequest floatText f.input e.input → f.output ≠ .confirmed)

/-- A leg passes at exactly the lifetime, and no leg passes after an hour, however long the
configured lifetime is. -/
theorem lifetime_inclusive_and_capped :
    ¬ EachPast (PassesIffYounger zeroText 1000)
        ((gate zeroText (fun _ => 0) 1000).trace ∅
          [musicCall false 0, musicCall true 1000]) ∧
      ¬ EachPast (PassesIffYounger zeroText 7200000)
        ((gate zeroText (fun _ => 0) 7200000).trace ∅
          [musicCall false 0, musicCall true 3600000]) := by
  constructor
  · intro hlaw
    have hiff := hlaw [_] _ [] rfl rfl
    have hpass : (((gate zeroText (fun _ => 0) 1000).step
        ((gate zeroText (fun _ => 0) 1000).step ∅ (musicCall false 0)).2
        (musicCall true 1000)).1) = .confirmed := by
      decide +kernel
    obtain ⟨earlier, leg, later, hsplit, -, -, hyoung, -⟩ := hiff.mp hpass
    have hmem : leg ∈ [(gate zeroText (fun _ => 0) 1000).eventAt ∅ (musicCall false 0)] :=
      hsplit ▸ mem_append_right _ mem_cons_self
    rw [List.mem_singleton.mp hmem] at hyoung
    exact absurd hyoung (by decide)
  · intro hlaw
    have hiff := hlaw [_] _ [] rfl rfl
    have hexpired : (((gate zeroText (fun _ => 0) 7200000).step
        ((gate zeroText (fun _ => 0) 7200000).step ∅ (musicCall false 0)).2
        (musicCall true 3600000)).1) ≠ .confirmed := by
      decide +kernel
    refine hexpired (hiff.mpr ⟨[], _, [], rfl, rfl, ⟨rfl, rfl, rfl⟩, ?_, nofun⟩)
    exact (by decide : 3600000 - 0 < 7200000)

end GenieClaw.Dispatch
