import GenieClaw.Library.HashTable
import GenieClaw.Library.Machine
import GenieClaw.Library.Text

/-!
# The guard against tool call loops

`genie-core/src/security/loop_guard.rs`: within one turn the calls are counted, in all and by
their hash, and the names of the recent ones are searched for a pattern A, B, A, B. A call that
is warned about is executed, but its name is not recorded.

* `alternation_blocked` (fewer than 2³² calls): which alternations are blocked, and how many calls a
  turn has at most.
-/

namespace GenieClaw.Security

open Library Library.Text List

structure LoopGuardConfig where
  maxRepeatCalls : Nat
  maxTotalCalls : Nat
  maxPingpongCycles : Nat

def LoopGuardConfig.default : LoopGuardConfig where
  maxRepeatCalls := 3
  maxTotalCalls := 20
  maxPingpongCycles := 3

inductive LoopCheck where
  | allow
  | warn (message : String)
  | block (message : String)
deriving DecidableEq

def LoopCheck.isBlock : LoopCheck → Bool
  | .allow => false
  | .warn _ => false
  | .block _ => true

/-- The names of the recent tools in the order of the calls. -/
structure LoopGuard where
  callCounts : HashTable UInt64 Nat
  recentTools : List String
  totalCalls : Nat
  config : LoopGuardConfig

def hashCall (toolName argsJson : String) : UInt64 :=
  (asBytes toolName ++ asBytes ":" ++ asBytes argsJson).foldl
    (fun hash b => hash * 33 + b.toUInt64) 5381

/-- How often the newest two names, read from the newest, are what came right before them. -/
def pingpongCycles : List String → Nat
  | d :: c :: b :: a :: rest =>
    if a = c ∧ b = d then pingpongCycles (b :: a :: rest) + 1 else 0
  | _ => 0

namespace LoopGuard

def new (config : LoopGuardConfig) : LoopGuard := ⟨∅, [], 0, config⟩

def reset (g : LoopGuard) : LoopGuard :=
  { g with callCounts := ∅, recentTools := [], totalCalls := 0 }

def count (g : LoopGuard) (hash : UInt64) : Nat := (g.callCounts.lookup hash).getD 0

def detectPingpong (g : LoopGuard) : Option String :=
  match g.recentTools.reverse with
  | newest :: before :: b :: a :: rest =>
    let cycles := pingpongCycles (newest :: before :: b :: a :: rest)
    if g.config.maxPingpongCycles ≤ cycles then
      some s!"ping-pong blocked: {before} ↔ {newest} repeated {cycles} cycles"
    else none
  | _ => none

/-- The counters are 32 bits wide. -/
def check (g : LoopGuard) (toolName argsJson : String) : LoopCheck × LoopGuard :=
  let total := (g.totalCalls + 1) % 2 ^ 32
  let g := { g with totalCalls := total }
  let limit := g.config.maxTotalCalls
  if limit < total then
    (.block s!"circuit breaker: {total} total tool calls exceeded limit of {limit}", g)
  else
    let hash := hashCall toolName argsJson
    let count := (g.count hash + 1) % 2 ^ 32
    let g := { g with callCounts := g.callCounts.insert hash count }
    let limit := g.config.maxRepeatCalls
    if limit < count then
      (.block (s!"repeat blocked: {toolName} called {count} times with same args " ++
        s!"(limit: {limit})"), g)
    else if count = limit then
      (.warn s!"repeat warning: {toolName} called {count} times — next call will be blocked", g)
    else
      let g := { g with recentTools := g.recentTools ++ [toolName] }
      match g.detectPingpong with
      | some message => (.block message, g)
      | none => (.allow, g)

end LoopGuard

/-! ## Calls -/

structure ToolCall where
  toolName : String
  argsJson : String
deriving DecidableEq

def ToolCall.hash (c : ToolCall) : UInt64 := hashCall c.toolName c.argsJson

def guardMachine : Machine LoopGuard ToolCall LoopCheck where
  step g c := g.check c.toolName c.argsJson

/-- The guard after the calls of a turn. -/
def guardAfter (config : LoopGuardConfig) (calls : List ToolCall) : LoopGuard :=
  guardMachine.run (.new config) calls

/-- The answer to a call after others. -/
def answerTo (config : LoopGuardConfig) (calls : List ToolCall) (c : ToolCall) : LoopCheck :=
  ((guardAfter config calls).check c.toolName c.argsJson).1

/-- The answers to the calls of a turn. -/
def answers (config : LoopGuardConfig) (calls : List ToolCall) : List LoopCheck :=
  (guardMachine.trace (.new config) calls).map Machine.Event.output

namespace LoopGuard

variable (g : LoopGuard) (c : ToolCall)

/-- The number of calls of the turn with this one. -/
def nextTotal : Nat := (g.totalCalls + 1) % 2 ^ 32

/-- The number of equal calls of the turn with this one. -/
def nextCount : Nat := (g.count c.hash + 1) % 2 ^ 32

theorem count_insert (t : HashTable UInt64 Nat) (hash other : UInt64) (n : Nat) :
    ((t.insert hash n).lookup other).getD 0 =
      if other = hash then n else (t.lookup other).getD 0 := by
  by_cases h : other = hash
  · rw [if_pos h, h, AList.lookup_insert, Option.getD_some]
  · rw [if_neg h, AList.lookup_insert_ne h]

variable {g c}

/-- The guard with the call counted and not recorded. -/
def counted (g : LoopGuard) (c : ToolCall) : LoopGuard :=
  { g with totalCalls := g.nextTotal, callCounts := g.callCounts.insert c.hash (g.nextCount c) }

/-- The guard with the call counted and recorded. -/
def recorded (g : LoopGuard) (c : ToolCall) : LoopGuard :=
  { g.counted c with recentTools := g.recentTools ++ [c.toolName] }

theorem check_cases (g : LoopGuard) (c : ToolCall) :
    (g.config.maxTotalCalls < g.nextTotal ∧ ∃ message, g.check c.toolName c.argsJson =
      (.block message, { g with totalCalls := g.nextTotal })) ∨
    (g.nextTotal ≤ g.config.maxTotalCalls ∧ g.config.maxRepeatCalls < g.nextCount c ∧
      ∃ message, g.check c.toolName c.argsJson = (.block message, g.counted c)) ∨
    (g.nextTotal ≤ g.config.maxTotalCalls ∧ g.nextCount c = g.config.maxRepeatCalls ∧
      ∃ message, g.check c.toolName c.argsJson = (.warn message, g.counted c)) ∨
    (g.nextTotal ≤ g.config.maxTotalCalls ∧ g.nextCount c < g.config.maxRepeatCalls ∧
      ∃ answer, answer.isBlock = (g.recorded c).detectPingpong.isSome ∧
        g.check c.toolName c.argsJson = (answer, g.recorded c)) := by
  unfold check
  dsimp only
  split
  · rename_i hover
    exact .inl ⟨hover, _, rfl⟩
  · rename_i hwithin
    have hwithin := Nat.not_lt.mp hwithin
    split
    · rename_i hrepeat
      exact .inr (.inl ⟨hwithin, hrepeat, _, rfl⟩)
    · rename_i hfew
      split
      · rename_i hwarn
        exact .inr (.inr (.inl ⟨hwithin, hwarn, _, rfl⟩))
      · rename_i hne
        have hlt : g.nextCount c < g.config.maxRepeatCalls :=
          Nat.lt_of_le_of_ne (Nat.not_lt.mp hfew) hne
        refine .inr (.inr (.inr ⟨hwithin, hlt, ?_⟩))
        cases hdetect : (g.recorded c).detectPingpong with
        | none =>
          refine ⟨.allow, rfl, ?_⟩
          show (match (g.recorded c).detectPingpong with
            | some message => (LoopCheck.block message, g.recorded c)
            | none => (.allow, g.recorded c)) = _
          rw [hdetect]
        | some message =>
          refine ⟨.block message, rfl, ?_⟩
          show (match (g.recorded c).detectPingpong with
            | some message => (LoopCheck.block message, g.recorded c)
            | none => (.allow, g.recorded c)) = _
          rw [hdetect]

theorem check_spec (g : LoopGuard) (c : ToolCall) :
    (g.check c.toolName c.argsJson).2.config = g.config ∧
    (g.check c.toolName c.argsJson).2.totalCalls = g.nextTotal ∧
    (g.nextTotal ≤ g.config.maxTotalCalls → ∀ hash,
      (g.check c.toolName c.argsJson).2.count hash =
        if hash = c.hash then g.nextCount c else g.count hash) := by
  have hcounted := fun hash => count_insert g.callCounts c.hash hash (g.nextCount c)
  rcases check_cases g c with ⟨hover, message, heq⟩ | ⟨-, -, message, heq⟩ |
    ⟨-, -, message, heq⟩ | ⟨-, -, answer, -, heq⟩
  · rw [heq]
    exact ⟨rfl, rfl, fun hwithin => absurd hwithin (Nat.not_le.mpr hover)⟩
  all_goals
    rw [heq]
    exact ⟨rfl, rfl, fun _ => hcounted⟩

end LoopGuard

/-! ## The counters -/

variable {config : LoopGuardConfig} {calls : List ToolCall}

theorem guardAfter_concat (calls : List ToolCall) (c : ToolCall) :
    guardAfter config (calls ++ [c]) = ((guardAfter config calls).check c.toolName c.argsJson).2 :=
  guardMachine.run_concat _ calls c

theorem config_guardAfter (calls : List ToolCall) : (guardAfter config calls).config = config := by
  induction calls using List.reverseRecOn with
  | nil => rfl
  | append_singleton calls c ih =>
    rw [guardAfter_concat, ((guardAfter config calls).check_spec c).1, ih]

theorem totalCalls_guardAfter (h : calls.length < 2 ^ 32) :
    (guardAfter config calls).totalCalls = calls.length := by
  induction calls using List.reverseRecOn with
  | nil => rfl
  | append_singleton calls c ih =>
    rw [length_append, length_singleton] at h ⊢
    rw [guardAfter_concat, ((guardAfter config calls).check_spec c).2.1, LoopGuard.nextTotal,
      ih (Nat.lt_of_succ_lt h), Nat.mod_eq_of_lt h]

theorem nextTotal_guardAfter (h : calls.length + 1 < 2 ^ 32) :
    (guardAfter config calls).nextTotal = calls.length + 1 := by
  rw [LoopGuard.nextTotal, totalCalls_guardAfter (Nat.lt_of_succ_lt h), Nat.mod_eq_of_lt h]

/-- How many of the calls have the hash. -/
def countOf (calls : List ToolCall) (hash : UInt64) : Nat :=
  calls.countP fun c => decide (c.hash = hash)

theorem countOf_concat (calls : List ToolCall) (c : ToolCall) (hash : UInt64) :
    countOf (calls ++ [c]) hash = countOf calls hash + if hash = c.hash then 1 else 0 := by
  unfold countOf
  rw [countP_append, countP_singleton]
  congr 1
  exact ite_congr (propext (decide_eq_true_iff.trans eq_comm)) (fun _ => rfl) fun _ => rfl

theorem countOf_le (calls : List ToolCall) (hash : UInt64) : countOf calls hash ≤ calls.length :=
  countP_le_length

theorem count_guardAfter (h : calls.length < 2 ^ 32) (hmax : calls.length ≤ config.maxTotalCalls)
    (hash : UInt64) : (guardAfter config calls).count hash = countOf calls hash := by
  induction calls using List.reverseRecOn generalizing hash with
  | nil => rfl
  | append_singleton calls c ih =>
    rw [length_append, length_singleton] at h hmax
    have ih := ih (Nat.lt_of_succ_lt h) (Nat.le_of_succ_le hmax)
    have hwithin : (guardAfter config calls).nextTotal ≤
        (guardAfter config calls).config.maxTotalCalls := by
      rw [nextTotal_guardAfter h, config_guardAfter]
      exact hmax
    have hfits : countOf calls c.hash + 1 < 2 ^ 32 :=
      Nat.lt_of_le_of_lt (Nat.succ_le_succ (countOf_le calls c.hash)) h
    rw [guardAfter_concat, ((guardAfter config calls).check_spec c).2.2 hwithin, countOf_concat,
      LoopGuard.nextCount, ih, ih, Nat.mod_eq_of_lt hfits]
    split
    · rename_i heq
      rw [heq]
    · rfl

theorem nextCount_guardAfter (h : calls.length + 1 < 2 ^ 32)
    (hmax : calls.length ≤ config.maxTotalCalls) (c : ToolCall) :
    (guardAfter config calls).nextCount c = countOf (calls ++ [c]) c.hash := by
  have hfits : countOf calls c.hash + 1 < 2 ^ 32 :=
    Nat.lt_of_le_of_lt (Nat.succ_le_succ (countOf_le calls c.hash)) h
  rw [LoopGuard.nextCount, count_guardAfter (Nat.lt_of_succ_lt h) hmax, Nat.mod_eq_of_lt hfits,
    countOf_concat, if_pos rfl]

theorem answerTo_cases (h : calls.length + 1 < 2 ^ 32) (c : ToolCall) :
    (config.maxTotalCalls < calls.length + 1 ∧ (answerTo config calls c).isBlock = true) ∨
    (calls.length + 1 ≤ config.maxTotalCalls ∧
      ((config.maxRepeatCalls < countOf (calls ++ [c]) c.hash ∧
          (answerTo config calls c).isBlock = true) ∨
        (countOf (calls ++ [c]) c.hash = config.maxRepeatCalls ∧
          (answerTo config calls c).isBlock = false) ∨
        (countOf (calls ++ [c]) c.hash < config.maxRepeatCalls ∧
          (answerTo config calls c).isBlock =
            (guardAfter config (calls ++ [c])).detectPingpong.isSome ∧
          (guardAfter config (calls ++ [c])).recentTools =
            (guardAfter config calls).recentTools ++ [c.toolName]))) := by
  have hconfig := @config_guardAfter config calls
  have htotal := @nextTotal_guardAfter config calls h
  have hcount := fun hmax => @nextCount_guardAfter config calls h hmax c
  have hcases := (guardAfter config calls).check_cases c
  rw [hconfig, htotal] at hcases
  unfold answerTo
  rw [guardAfter_concat]
  rcases hcases with ⟨hover, message, heq⟩ | ⟨hwithin, hrest⟩ | ⟨hwithin, hrest⟩ | ⟨hwithin, hrest⟩
  · exact .inl ⟨hover, by rw [heq]; rfl⟩
  all_goals
    rw [hcount (Nat.le_of_succ_le hwithin)] at hrest
    refine .inr ⟨hwithin, ?_⟩
  · obtain ⟨hrepeat, message, heq⟩ := hrest
    exact .inl ⟨hrepeat, by rw [heq]; rfl⟩
  · obtain ⟨hwarn, message, heq⟩ := hrest
    exact .inr (.inl ⟨hwarn, by rw [heq]; rfl⟩)
  · obtain ⟨hfew, answer, hblock, heq⟩ := hrest
    exact .inr (.inr ⟨hfew, by rw [heq]; exact hblock, by rw [heq]; rfl⟩)

/-! ## Alternations -/

/-- The call at a position of the alternation, from 0. -/
def nth (a b : ToolCall) (i : Nat) : ToolCall := if i % 2 = 0 then a else b

theorem nth_add_two (a b : ToolCall) (i : Nat) : nth a b (i + 2) = nth a b i := by
  unfold nth
  rw [Nat.add_mod_right]

def alternation (a b : ToolCall) : Nat → List ToolCall
  | 0 => []
  | n + 1 => alternation a b n ++ [nth a b n]

@[simp] theorem length_alternation (a b : ToolCall) (n : Nat) : (alternation a b n).length = n := by
  induction n with
  | zero => rfl
  | succ n ih => rw [alternation, length_append, ih, length_singleton]

/-- Two names in turn, in front of others. -/
def zigzag (x y : String) (rest : List String) : Nat → List String
  | 0 => rest
  | n + 1 => x :: zigzag y x rest n

theorem le_pingpongCycles (x y : String) (rest : List String) (n : Nat) :
    n ≤ pingpongCycles (zigzag x y rest (2 * n + 2)) := by
  induction n with
  | zero => exact Nat.zero_le _
  | succ n ih =>
    have hstep : pingpongCycles (zigzag x y rest (2 * (n + 1) + 2)) =
        pingpongCycles (zigzag x y rest (2 * n + 2)) + 1 := by
      show pingpongCycles (x :: y :: x :: y :: zigzag x y rest (2 * n)) = _
      rw [pingpongCycles, if_pos ⟨rfl, rfl⟩]
      rfl
    rw [hstep]
    exact Nat.succ_le_succ ih

theorem zigzag_add (x y : String) (rest : List String) (k n : Nat) :
    zigzag x y rest (2 * n + k) = zigzag x y (zigzag x y rest k) (2 * n) := by
  induction n with
  | zero => rw [Nat.mul_zero, Nat.zero_add]; rfl
  | succ n ih =>
    rw [show 2 * (n + 1) + k = 2 * n + k + 1 + 1 from by omega]
    show x :: y :: zigzag x y rest (2 * n + k) = _
    rw [ih]
    rfl

theorem detectPingpong_of_zigzag {g : LoopGuard} {x y : String} {rest : List String} {m : Nat}
    (hm : 2 * max g.config.maxPingpongCycles 1 + 2 ≤ m)
    (h : g.recentTools.reverse = zigzag x y rest m) : g.detectPingpong.isSome = true := by
  have hcycles : g.config.maxPingpongCycles ≤ pingpongCycles (zigzag x y rest m) := by
    obtain ⟨k, rfl⟩ := Nat.exists_eq_add_of_le hm
    have hle := le_pingpongCycles x y (zigzag x y rest k) (max g.config.maxPingpongCycles 1)
    have heq := zigzag_add x y rest k (max g.config.maxPingpongCycles 1 + 1)
    rw [Nat.mul_add] at heq
    rw [heq]
    exact Nat.le_trans (Nat.le_max_left _ _) hle
  obtain ⟨i, rfl⟩ : ∃ i, m = i + 4 := ⟨m - 4, by omega⟩
  rw [LoopGuard.detectPingpong, h]
  show (if g.config.maxPingpongCycles ≤ pingpongCycles (zigzag x y rest (i + 4)) then
    some _ else none).isSome = true
  rw [if_pos hcycles]
  rfl

variable {pre : List ToolCall} {a b : ToolCall}

theorem reverse_alternation (a b : ToolCall) (w : List String) (n : Nat) :
    (w ++ (alternation a b n).map ToolCall.toolName).reverse =
      zigzag (nth a b (n + 1)).toolName (nth a b n).toolName w.reverse n := by
  induction n with
  | zero => rw [alternation, map_nil, append_nil]; rfl
  | succ n ih =>
    rw [alternation, map_append, ← append_assoc, reverse_append, ih, nth_add_two]
    rfl

/-- How many calls the turn has equal to the last of `n + 1` calls of the alternation. -/
def callCount (pre : List ToolCall) (a b : ToolCall) (n : Nat) : Nat :=
  countOf (pre ++ alternation a b (n + 1)) (nth a b n).hash

theorem countOf_append_le (xs ys : List ToolCall) (hash : UInt64) :
    countOf xs hash ≤ countOf (xs ++ ys) hash := by
  unfold countOf
  rw [countP_append]
  exact Nat.le_add_right _ _

theorem countOf_alternation_le (pre : List ToolCall) (a b : ToolCall) (hash : UInt64) {i n : Nat}
    (h : i ≤ n) :
    countOf (pre ++ alternation a b i) hash ≤ countOf (pre ++ alternation a b n) hash := by
  induction n, h using Nat.le_induction with
  | base => exact Nat.le_refl _
  | succ n _ ih =>
    rw [alternation, ← append_assoc]
    exact Nat.le_trans ih (countOf_append_le _ _ hash)

theorem callCount_le_of_parity {i n : Nat} (h : i ≤ n) (hparity : i % 2 = n % 2) :
    callCount pre a b i ≤ callCount pre a b n := by
  have hsame : nth a b i = nth a b n := by
    unfold nth
    rw [hparity]
  unfold callCount
  rw [hsame]
  exact countOf_alternation_le pre a b _ (Nat.succ_le_succ h)

theorem recentTools_alternation {n : Nat} (hlen : pre.length + n < 2 ^ 32)
    (hmax : pre.length + n ≤ config.maxTotalCalls)
    (hfew : ∀ i < n, callCount pre a b i < config.maxRepeatCalls) :
    (guardAfter config (pre ++ alternation a b n)).recentTools =
      (guardAfter config pre).recentTools ++ (alternation a b n).map ToolCall.toolName := by
  induction n with
  | zero => rw [alternation, append_nil, map_nil, append_nil]
  | succ n ih =>
    have ih := ih (by omega) (by omega) fun i hi => hfew i (Nat.lt_succ_of_lt hi)
    have hlength : (pre ++ alternation a b n).length = pre.length + n := by
      rw [length_append, length_alternation]
    have hcount := hfew n (Nat.lt_succ_self n)
    unfold callCount at hcount
    rw [alternation, ← append_assoc] at hcount
    rw [alternation, ← append_assoc, map_append, ← append_assoc, ← ih]
    have hcases := @answerTo_cases config (pre ++ alternation a b n) (by omega) (nth a b n)
    rcases hcases with ⟨hover, -⟩ | ⟨-, ⟨hrepeat, -⟩ | ⟨hwarn, -⟩ | ⟨-, -, hrecent⟩⟩
    · omega
    · omega
    · omega
    · exact hrecent

/-- The call ends a repeated alternation, and neither its own repeats nor those of the call before
keep it from being recognized. -/
def Recognized (config : LoopGuardConfig) (pre : List ToolCall) (a b : ToolCall) (n : Nat) : Prop :=
  config.maxTotalCalls < pre.length + n + 1 ∨
  config.maxRepeatCalls < callCount pre a b n ∨
  (callCount pre a b n < config.maxRepeatCalls ∧ callCount pre a b (n - 1) < config.maxRepeatCalls)

theorem block_of_recognized {n : Nat} (hlen : pre.length + n + 1 < 2 ^ 32)
    (hn : 2 * max config.maxPingpongCycles 1 + 2 ≤ n + 1) (h : Recognized config pre a b n) :
    (answerTo config (pre ++ alternation a b n) (nth a b n)).isBlock = true := by
  have hlength : (pre ++ alternation a b n).length = pre.length + n := by
    rw [length_append, length_alternation]
  have hown : countOf (pre ++ alternation a b n ++ [nth a b n]) (nth a b n).hash =
      callCount pre a b n := by
    rw [callCount, alternation, append_assoc]
  have hcases := @answerTo_cases config (pre ++ alternation a b n) (by omega) (nth a b n)
  rw [hown, hlength] at hcases
  rcases hcases with ⟨-, hblock⟩ | ⟨hwithin, ⟨-, hblock⟩ | ⟨hwarn, -⟩ | ⟨hfew, hblock, -⟩⟩
  · exact hblock
  · exact hblock
  · rcases h with hover | hrepeat | ⟨hless, -⟩ <;> omega
  · have hbefore : callCount pre a b (n - 1) < config.maxRepeatCalls := by
      rcases h with hover | hrepeat | ⟨-, hbefore⟩
      · omega
      · omega
      · exact hbefore
    have hall : ∀ i < n + 1, callCount pre a b i < config.maxRepeatCalls := by
      intro i hi
      rcases Nat.mod_two_eq_zero_or_one (n - i) with heven | hodd
      · exact Nat.lt_of_le_of_lt (callCount_le_of_parity (by omega) (by omega)) hfew
      · exact Nat.lt_of_le_of_lt (callCount_le_of_parity (by omega) (by omega)) hbefore
    have hrecent := @recentTools_alternation config pre a b (n + 1) hlen hwithin hall
    rw [hblock, append_assoc]
    refine detectPingpong_of_zigzag (m := n + 1) ?_ ((congrArg List.reverse hrecent).trans
      (reverse_alternation a b _ (n + 1)))
    rw [config_guardAfter]
    exact hn

/-! ## Turns that are one alternation -/

theorem countOf_alternation_same (h : a.hash = b.hash) (n : Nat) :
    countOf (alternation a b n) a.hash = n := by
  induction n with
  | zero => rfl
  | succ n ih =>
    have hnth : a.hash = (nth a b n).hash := by
      unfold nth
      split
      · rfl
      · exact h
    rw [alternation, countOf_concat, ih, if_pos hnth]

theorem countOf_alternation (h : a.hash ≠ b.hash) (n : Nat) :
    countOf (alternation a b n) a.hash = (n + 1) / 2 ∧
      countOf (alternation a b n) b.hash = n / 2 := by
  induction n with
  | zero => exact ⟨rfl, rfl⟩
  | succ n ih =>
    rw [alternation, countOf_concat, countOf_concat, ih.1, ih.2]
    rcases Nat.mod_two_eq_zero_or_one n with heven | hodd
    · have hnth : nth a b n = a := if_pos heven
      rw [hnth, if_pos rfl, if_neg h.symm]
      omega
    · have hnth : nth a b n = b := if_neg (by omega)
      rw [hnth, if_neg h, if_pos rfl]
      omega

/-- How many of `n + 1` calls of the alternation are equal to the last. -/
def ownCount (a b : ToolCall) (n : Nat) : Nat := if a.hash = b.hash then n + 1 else n / 2 + 1

theorem callCount_nil (a b : ToolCall) (n : Nat) : callCount [] a b n = ownCount a b n := by
  unfold callCount ownCount
  rw [nil_append]
  split
  · rename_i hsame
    have hnth : (nth a b n).hash = a.hash := by
      unfold nth
      split
      · rfl
      · exact hsame.symm
    rw [hnth, countOf_alternation_same hsame]
  · rename_i hdiffer
    rcases Nat.mod_two_eq_zero_or_one n with heven | hodd
    · rw [show nth a b n = a from if_pos heven, (countOf_alternation hdiffer _).1]
      omega
    · rw [show nth a b n = b from if_neg (by omega), (countOf_alternation hdiffer _).2]
      omega

theorem ownCount_le (a b : ToolCall) (n : Nat) : ownCount a b (n - 1) ≤ ownCount a b n := by
  unfold ownCount
  split <;> omega

theorem recognized_nil_iff {n : Nat} : Recognized config [] a b n ↔
    config.maxTotalCalls < n + 1 ∨ ownCount a b n ≠ config.maxRepeatCalls := by
  have hle := ownCount_le a b n
  unfold Recognized
  rw [callCount_nil, callCount_nil, length_nil, Nat.zero_add]
  constructor
  · rintro (hover | hrepeat | ⟨hfew, -⟩)
    · exact .inl hover
    · exact .inr (Nat.ne_of_gt hrepeat)
    · exact .inr (Nat.ne_of_lt hfew)
  · rintro (hover | hne)
    · exact .inl hover
    · rcases Nat.lt_or_gt_of_ne hne with hfew | hrepeat
      · exact .inr (.inr ⟨hfew, Nat.lt_of_le_of_lt hle hfew⟩)
      · exact .inr (.inl hrepeat)

theorem warned_of_exact {n : Nat} (hlen : n + 1 < 2 ^ 32) (hwithin : n + 1 ≤ config.maxTotalCalls)
    (hexact : ownCount a b n = config.maxRepeatCalls) :
    (answerTo config (alternation a b n) (nth a b n)).isBlock = false := by
  have hlength := length_alternation a b n
  have hown : countOf (alternation a b n ++ [nth a b n]) (nth a b n).hash = ownCount a b n := by
    rw [← callCount_nil, callCount, alternation, nil_append]
  have hcases := @answerTo_cases config (alternation a b n) (by omega) (nth a b n)
  rw [hown, hlength] at hcases
  rcases hcases with ⟨hover, -⟩ | ⟨-, ⟨hrepeat, -⟩ | ⟨-, hwarn⟩ | ⟨hfew, -⟩⟩
  · omega
  · omega
  · exact hwarn
  · omega

/-! ## All calls of a turn -/

theorem answers_concat (calls : List ToolCall) (c : ToolCall) :
    answers config (calls ++ [c]) = answers config calls ++ [answerTo config calls c] := by
  unfold answers
  rw [guardMachine.trace_concat, map_append]
  rfl

/-- The calls of a turn that are not blocked. -/
def allowedCalls (config : LoopGuardConfig) (calls : List ToolCall) : Nat :=
  (answers config calls).countP fun answer => !answer.isBlock

theorem allowedCalls_le (h : calls.length < 2 ^ 32) :
    allowedCalls config calls ≤ min calls.length config.maxTotalCalls := by
  induction calls using List.reverseRecOn with
  | nil => exact Nat.zero_le _
  | append_singleton calls c ih =>
    rw [length_append, length_singleton] at h ⊢
    have ih := ih (Nat.lt_of_succ_lt h)
    have hone : allowedCalls config (calls ++ [c]) =
        allowedCalls config calls + if (answerTo config calls c).isBlock then 0 else 1 := by
      unfold allowedCalls
      rw [answers_concat, countP_append, countP_singleton]
      cases (answerTo config calls c).isBlock <;> rfl
    rw [hone]
    rcases @answerTo_cases config calls h c with ⟨hover, hblock⟩ | ⟨hwithin, -⟩
    · rw [hblock, if_pos rfl]
      omega
    · split <;> omega

/-- A repeated alternation that makes up the turn is blocked, except where a call is the last that
its repeats allow; after other calls it is blocked where it is recognized. A turn has at most the
configured number of calls. -/
theorem alternation_blocked (config : LoopGuardConfig) :
    (∀ a b n, n + 1 < 2 ^ 32 → 2 * max config.maxPingpongCycles 1 + 2 ≤ n + 1 →
      ((answerTo config (alternation a b n) (nth a b n)).isBlock = true ↔
        ¬(n + 1 ≤ config.maxTotalCalls ∧ ownCount a b n = config.maxRepeatCalls))) ∧
    (∀ pre a b n, pre.length + n + 1 < 2 ^ 32 →
      2 * max config.maxPingpongCycles 1 + 2 ≤ n + 1 → Recognized config pre a b n →
      (answerTo config (pre ++ alternation a b n) (nth a b n)).isBlock = true) ∧
    ∀ calls, calls.length < 2 ^ 32 → allowedCalls config calls ≤ config.maxTotalCalls := by
  refine ⟨fun a b n hlen hn => ⟨fun hblock => ?_, fun hnot => ?_⟩,
    fun pre a b n hlen hn h => block_of_recognized hlen hn h,
    fun calls h => Nat.le_trans (allowedCalls_le h) (Nat.min_le_right _ _)⟩
  · rintro ⟨hwithin, hexact⟩
    rw [warned_of_exact hlen hwithin hexact] at hblock
    exact absurd hblock Bool.false_ne_true
  · have hrecognized : Recognized config [] a b n := by
      rw [recognized_nil_iff]
      by_contra hneither
      exact hnot ⟨Nat.not_lt.mp fun hover => hneither (.inl hover),
        by_contra fun hne => hneither (.inr hne)⟩
    have hlen' : ([] : List ToolCall).length + n + 1 < 2 ^ 32 := by
      rw [length_nil, Nat.zero_add]
      exact hlen
    exact @block_of_recognized config [] a b n hlen' hn hrecognized

theorem alternation_blocked_default :
    (answerTo .default (alternation ⟨"lights", "on"⟩ ⟨"lights", "off"⟩ 7)
      (nth ⟨"lights", "on"⟩ ⟨"lights", "off"⟩ 7)).isBlock = true :=
  ((alternation_blocked .default).1 _ _ 7 (by decide) (by decide)).mpr (by decide)

/-- Every repeated alternation is blocked. -/
def BlocksAlternations (config : LoopGuardConfig) : Prop :=
  ∀ a b n, 2 * max config.maxPingpongCycles 1 + 2 ≤ n + 1 →
    (answerTo config (alternation a b n) (nth a b n)).isBlock = true

/-- With two repeats and one cycle the second B is warned about. -/
theorem alternation_warned : ¬ BlocksAlternations ⟨2, 20, 1⟩ := by
  intro h
  have hfourth := h ⟨"lights", "on"⟩ ⟨"lights", "off"⟩ 3 (by decide)
  exact absurd hfourth (by decide)

end GenieClaw.Security
