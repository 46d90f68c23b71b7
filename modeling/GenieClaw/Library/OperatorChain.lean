import Mathlib.Data.List.Chain
import Mathlib.Data.Option.Basic

/-!
# Chains of operands read from the left

A chain is an operand, then any number of operators with an operand each; it associates to the
left. A loop reads it: it reads an operand, and goes on as long as an operator comes next.

* `exactReader_readChain`: the loop reads chains exactly if its operands are read so.
* `writeSteps_injective`, `selfDelimiting_chain`: a chain is told by its text.
-/

namespace GenieClaw.Library

open List
section

variable {τ α β ε ω : Type}

/-- The reader takes the written form of a tree off the front of its tokens and returns the value
of the tree, whenever the tree has one and what follows is a place to stop; it succeeds on nothing
else, and fails in a regular way only. -/
structure ExactReader (read : List τ → Except ε (β × List τ)) (write : α → List τ)
    (value : α → Option β) (ends : List τ → Prop) (regular : ε → Prop) : Prop where
  sound : ∀ {tokens rest v}, read tokens = .ok (v, rest) →
    ∃ x, write x ++ rest = tokens ∧ value x = some v ∧ ends rest
  complete : ∀ {x rest v}, value x = some v → ends rest → read (write x ++ rest) = .ok (v, rest)
  regular : ∀ {tokens e}, read tokens = .error e → regular e

/-- What is written can be told apart from what follows it. -/
def SelfDelimiting (write : α → List τ) (ends : List τ → Prop) : Prop :=
  ∀ x y r s, ends r → ends s → write x ++ r = write y ++ s → x = y ∧ r = s

theorem ExactReader.length_le {read : List τ → Except ε (β × List τ)} {write : α → List τ}
    {value : α → Option β} {ends : List τ → Prop} {regular : ε → Prop}
    (h : ExactReader read write value ends regular) {tokens rest : List τ} {v : β}
    (hread : read tokens = .ok (v, rest)) : rest.length ≤ tokens.length := by
  obtain ⟨x, rfl, -, -⟩ := h.sound hread
  simp

/-! ## Chains -/

/-- An operand followed by operators with an operand each, associated to the left. -/
inductive Chain (ω α : Type) where
  | one (x : α)
  | step (c : Chain ω α) (op : ω) (x : α)

namespace Chain

def first : Chain ω α → α
  | one x => x
  | step c _ _ => c.first

def steps : Chain ω α → List (ω × α)
  | one _ => []
  | step c op x => c.steps ++ [(op, x)]

theorem ext_steps {c d : Chain ω α} (hfirst : c.first = d.first) (hsteps : c.steps = d.steps) :
    c = d := by
  induction c generalizing d with
  | one x =>
    cases d with
    | one y => exact congrArg one hfirst
    | step d op y => simp [steps] at hsteps
  | step c op x ih =>
    cases d with
    | one y => simp [steps] at hsteps
    | step d op' y =>
      obtain ⟨hinit, hlast⟩ := append_inj' hsteps rfl
      obtain ⟨hop, hx⟩ : op = op' ∧ x = y := by simpa using hlast
      rw [ih (d := d) hfirst hinit, hop, hx]

end Chain

/-- The operators between the operands: their tokens and what they do, which may fail. -/
structure Operators (τ ε ω β : Type) where
  symbol : ω → τ
  ofToken : τ → Option ω
  apply : ω → β → β → Except ε β
  ofToken_eq_some : ∀ {t op}, ofToken t = some op ↔ t = symbol op

namespace Operators

variable (ops : Operators τ ε ω β) (spinning : ε)

def write (writeOperand : α → List τ) : Chain ω α → List τ
  | .one x => writeOperand x
  | .step c op x => write writeOperand c ++ ops.symbol op :: writeOperand x

/-- The value of a chain, from the left. -/
def value (valueOperand : α → Option β) : Chain ω α → Option β
  | .one x => valueOperand x
  | .step c op x => (value valueOperand c).bind fun a =>
      (valueOperand x).bind fun b => (ops.apply op a b).toOption

/-- The tokens do not go on with an operator. -/
def Done (tokens : List τ) : Prop := ∀ t ∈ tokens.head?, ops.ofToken t = none

/-- The loop over the operators, with a bound on the number of its rounds. -/
def loop (operand : List τ → Except ε (β × List τ)) : Nat → β → List τ → Except ε (β × List τ)
  | _, result, [] => .ok (result, [])
  | 0, result, t :: rest =>
    match ops.ofToken t with
    | none => .ok (result, t :: rest)
    | some _ => .error spinning
  | rounds + 1, result, t :: rest =>
    match ops.ofToken t with
    | none => .ok (result, t :: rest)
    | some op =>
      match operand rest with
      | .error e => .error e
      | .ok (b, rest) =>
        match ops.apply op result b with
        | .error e => .error e
        | .ok result => loop operand rounds result rest

/-- An operand, then the loop; each of its rounds takes a token. -/
def readChain (operand : List τ → Except ε (β × List τ)) (tokens : List τ) :
    Except ε (β × List τ) :=
  match operand tokens with
  | .error e => .error e
  | .ok (result, rest) => loop ops spinning operand rest.length result rest

variable {ops spinning}

theorem ofToken_symbol (op : ω) : ops.ofToken (ops.symbol op) = some op :=
  ops.ofToken_eq_some.mpr rfl

theorem not_done_symbol (op : ω) (rest : List τ) : ¬ ops.Done (ops.symbol op :: rest) := by
  intro h
  have := h (ops.symbol op) rfl
  rw [ofToken_symbol] at this
  cases this

theorem loop_of_done {operand : List τ → Except ε (β × List τ)} {rounds : Nat} {result : β}
    {tokens : List τ} (h : ops.Done tokens) :
    loop ops spinning operand rounds result tokens = .ok (result, tokens) := by
  cases tokens with
  | nil => cases rounds <;> rfl
  | cons t rest =>
    have ht : ops.ofToken t = none := h t rfl
    cases rounds <;> simp only [loop, ht]

/-! ## The loop is exact -/

section

variable {operand : List τ → Except ε (β × List τ)} {writeOperand : α → List τ}
  {valueOperand : α → Option β} {ends : List τ → Prop} {regular : ε → Prop}

theorem loop_sound (h : ExactReader operand writeOperand valueOperand ends regular) {rounds : Nat}
    {result v : β} {tokens rest : List τ} {c : Chain ω α}
    (hc : ops.value valueOperand c = some result) (hends : ends tokens)
    (hloop : loop ops spinning operand rounds result tokens = .ok (v, rest)) :
    ∃ d, ops.write writeOperand d ++ rest = ops.write writeOperand c ++ tokens ∧
      ops.value valueOperand d = some v ∧ ends rest ∧ ops.Done rest := by
  induction rounds generalizing result tokens c with
  | zero =>
    cases tokens with
    | nil =>
      cases hloop
      exact ⟨c, rfl, hc, hends, by simp [Done]⟩
    | cons t tokens =>
      simp only [loop] at hloop
      split at hloop
      · rename_i hnone
        cases hloop
        exact ⟨c, rfl, hc, hends, by simpa [Done] using hnone⟩
      · cases hloop
  | succ rounds ih =>
    cases tokens with
    | nil =>
      cases hloop
      exact ⟨c, rfl, hc, hends, by simp [Done]⟩
    | cons t tokens =>
      simp only [loop] at hloop
      split at hloop
      · rename_i hnone
        cases hloop
        exact ⟨c, rfl, hc, hends, by simpa [Done] using hnone⟩
      · rename_i op hop
        obtain rfl := ops.ofToken_eq_some.mp hop
        split at hloop
        · cases hloop
        · rename_i b left hread
          obtain ⟨x, rfl, hx, hleft⟩ := h.sound hread
          split at hloop
          · cases hloop
          · rename_i next happly
            have hstep : ops.value valueOperand (.step c op x) = some next := by
              simp [value, hc, hx, happly, Except.toOption]
            obtain ⟨d, hd, hvalue, hrest⟩ := ih hstep hleft hloop
            exact ⟨d, by simpa [write] using hd, hvalue, hrest⟩

theorem loop_regular (h : ExactReader operand writeOperand valueOperand ends regular)
    (happly : ∀ {op a b e}, ops.apply op a b = .error e → regular e) {rounds : Nat} {result : β}
    {tokens : List τ} {e : ε} (hrounds : tokens.length ≤ rounds)
    (hloop : loop ops spinning operand rounds result tokens = .error e) : regular e := by
  induction rounds generalizing result tokens with
  | zero =>
    obtain rfl := List.length_eq_zero_iff.mp (Nat.le_zero.mp hrounds)
    cases hloop
  | succ rounds ih =>
    cases tokens with
    | nil => cases hloop
    | cons t tokens =>
      simp only [loop] at hloop
      split at hloop
      · cases hloop
      · split at hloop
        · rename_i hread
          cases hloop
          exact h.regular hread
        · rename_i b left hread
          have hshort := h.length_le hread
          split at hloop
          · rename_i hfail
            cases hloop
            exact happly hfail
          · refine ih ?_ hloop
            simp only [length_cons] at hrounds
            omega

theorem readChain_write (h : ExactReader operand writeOperand valueOperand ends regular)
    (hends : ∀ op rest, ends (ops.symbol op :: rest)) {c : Chain ω α} {v : β} {rest : List τ}
    (hc : ops.value valueOperand c = some v) (hrest : ends rest) :
    ∃ rounds, rest.length ≤ rounds ∧
      readChain ops spinning operand (ops.write writeOperand c ++ rest) =
        loop ops spinning operand rounds v rest := by
  induction c generalizing v rest with
  | one x =>
    refine ⟨rest.length, Nat.le_refl _, ?_⟩
    simp only [readChain, write, h.complete hc hrest]
  | step c op x ih =>
    obtain ⟨a, ha, hc⟩ := Option.bind_eq_some_iff.mp hc
    obtain ⟨b, hb, hc⟩ := Option.bind_eq_some_iff.mp hc
    have hv : ops.apply op a b = .ok v := by
      cases happly : ops.apply op a b with
      | error e => simp [happly, Except.toOption] at hc
      | ok w => simpa [happly, Except.toOption] using hc
    obtain ⟨rounds, hrounds, heq⟩ := ih ha (hends op (writeOperand x ++ rest))
    obtain ⟨rounds, rfl⟩ : ∃ n, rounds = n + 1 := by
      simp only [length_cons] at hrounds
      exact ⟨rounds - 1, by omega⟩
    refine ⟨rounds, ?_, ?_⟩
    · simp only [length_cons, length_append] at hrounds
      omega
    · rw [write, append_assoc, cons_append, heq]
      simp only [loop, ofToken_symbol, h.complete hb hrest, hv]

/-- The loop reads chains exactly, when the operand's reader is exact and may stop before every
operator. -/
theorem exactReader_readChain (h : ExactReader operand writeOperand valueOperand ends regular)
    (hends : ∀ op rest, ends (ops.symbol op :: rest))
    (happly : ∀ {op a b e}, ops.apply op a b = .error e → regular e) :
    ExactReader (readChain ops spinning operand) (ops.write writeOperand)
      (ops.value valueOperand) (fun tokens => ends tokens ∧ ops.Done tokens) regular where
  sound := by
    intro tokens rest v hread
    simp only [readChain] at hread
    split at hread
    · cases hread
    · rename_i a left hfirst
      obtain ⟨x, rfl, hx, hleft⟩ := h.sound hfirst
      exact loop_sound (c := .one x) h hx hleft hread
  complete := by
    intro c rest v hc hrest
    have hread : ∃ rounds, rest.length ≤ rounds ∧
        readChain ops spinning operand (ops.write writeOperand c ++ rest) =
          loop ops spinning operand rounds v rest := readChain_write h hends hc hrest.1
    obtain ⟨rounds, -, heq⟩ := hread
    rw [heq, loop_of_done hrest.2]
  regular := by
    intro tokens e hread
    simp only [readChain] at hread
    split at hread
    · rename_i hfail
      cases hread
      exact h.regular hfail
    · exact loop_regular h happly (Nat.le_refl _) hread

end

/-! ## Chains are determined by their written form -/

section

variable {writeOperand : α → List τ} {ends : List τ → Prop}

def writeSteps (ops : Operators τ ε ω β) (writeOperand : α → List τ) (steps : List (ω × α)) :
    List τ :=
  steps.flatMap fun s => ops.symbol s.1 :: writeOperand s.2

theorem write_eq (c : Chain ω α) :
    ops.write writeOperand c = writeOperand c.first ++ ops.writeSteps writeOperand c.steps := by
  induction c with
  | one x => simp [write, Chain.first, Chain.steps, writeSteps]
  | step c op x ih => simp [write, Chain.first, Chain.steps, writeSteps, ih]

theorem ends_writeSteps (hends : ∀ op rest, ends (ops.symbol op :: rest)) {rest : List τ}
    (hrest : ends rest) (steps : List (ω × α)) :
    ends (ops.writeSteps writeOperand steps ++ rest) := by
  cases steps with
  | nil => exact hrest
  | cons s steps => exact hends s.1 _

theorem writeSteps_injective (h : SelfDelimiting writeOperand ends)
    (hends : ∀ op rest, ends (ops.symbol op :: rest)) {r s : List τ} (hr : ends r ∧ ops.Done r)
    (hs : ends s ∧ ops.Done s) {a b : List (ω × α)}
    (heq : ops.writeSteps writeOperand a ++ r = ops.writeSteps writeOperand b ++ s) :
    a = b ∧ r = s := by
  induction a generalizing b with
  | nil =>
    cases b with
    | nil => exact ⟨rfl, heq⟩
    | cons p b =>
      obtain rfl : r =
          ops.symbol p.1 :: (writeOperand p.2 ++ ops.writeSteps writeOperand b ++ s) := by
        simpa [writeSteps] using heq
      exact absurd hr.2 (not_done_symbol p.1 _)
  | cons p a ih =>
    cases b with
    | nil =>
      obtain rfl :
          ops.symbol p.1 :: (writeOperand p.2 ++ ops.writeSteps writeOperand a ++ r) = s := by
        simpa [writeSteps] using heq
      exact absurd hs.2 (not_done_symbol p.1 _)
    | cons q b =>
      simp only [writeSteps, flatMap_cons, cons_append, append_assoc,
        List.cons.injEq] at heq
      obtain ⟨hsymbol, heq⟩ := heq
      have hop : p.1 = q.1 := by
        have hread : ops.ofToken (ops.symbol p.1) = some p.1 := ofToken_symbol p.1
        rw [hsymbol, ofToken_symbol] at hread
        exact (Option.some.inj hread).symm
      obtain ⟨hoperand, heq⟩ :=
        h _ _ _ _ (ends_writeSteps hends hr.1 a) (ends_writeSteps hends hs.1 b) heq
      obtain ⟨rfl, hrest⟩ := ih heq
      exact ⟨by rw [Prod.ext hop hoperand], hrest⟩

theorem selfDelimiting_chain (h : SelfDelimiting writeOperand ends)
    (hends : ∀ op rest, ends (ops.symbol op :: rest)) :
    SelfDelimiting (ops.write writeOperand) (fun tokens => ends tokens ∧ ops.Done tokens) := by
  intro c d r s hr hs heq
  rw [write_eq, write_eq, append_assoc, append_assoc] at heq
  obtain ⟨hfirst, heq⟩ :=
    h _ _ _ _ (ends_writeSteps hends hr.1 _) (ends_writeSteps hends hs.1 _) heq
  obtain ⟨hsteps, hrest⟩ := writeSteps_injective h hends hr hs heq
  exact ⟨Chain.ext_steps hfirst hsteps, hrest⟩

end

/-- A property of neighbouring tokens holds throughout a chain when it does throughout the operands
and next to every operator. -/
theorem isChain_write {R : τ → τ → Prop} {writeOperand : α → List τ}
    (hleft : ∀ op t, R (ops.symbol op) t) (hright : ∀ op t, R t (ops.symbol op))
    (hoperand : ∀ x, (writeOperand x).IsChain R) (c : Chain ω α) :
    (ops.write writeOperand c).IsChain R := by
  induction c with
  | one x => exact hoperand x
  | step c op x ih =>
    refine List.isChain_append.mpr ⟨ih, ?_, ?_⟩
    · exact List.isChain_cons.mpr ⟨fun t _ => hleft op t, hoperand x⟩
    · rintro t - u hu
      obtain rfl : ops.symbol op = u := by simpa using hu
      exact hright op t

end Operators

end

end GenieClaw.Library
