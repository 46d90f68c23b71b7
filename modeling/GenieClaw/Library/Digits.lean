import GenieClaw.Library.Text
import Mathlib.Data.Nat.Digits.Lemmas

/-!
# Numbers written in digits

Parsing an unsigned number of a fixed width in some radix, as the source language does it.
-/

namespace GenieClaw.Library.Text

open List Option String
/-- `char::to_digit`. -/
def digitOf (radix : Nat) (c : Char) : Option Nat :=
  let d :=
    if '0' ≤ c ∧ c ≤ '9' then c.toNat - 48
    else if 'a' ≤ c ∧ c ≤ 'z' then c.toNat - 87
    else if 'A' ≤ c ∧ c ≤ 'Z' then c.toNat - 55
    else radix
  if d < radix then some d else none

def parseDigits (radix : Nat) (n : Nat) : List Char → Option Nat
  | [] => some n
  | c :: cs => (digitOf radix c).bind fun d => parseDigits radix (n * radix + d) cs

def withoutPlus : List Char → List Char
  | '+' :: rest => rest
  | cs => cs

/-- `from_str_radix` for an unsigned type of so many bits. -/
def parseUnsigned (radix bits : Nat) (s : String) : Option Nat :=
  if withoutPlus s.toList = [] then none
  else (parseDigits radix 0 (withoutPlus s.toList)).filter fun n => n < 2 ^ bits

theorem parseDigits_append {radix n : Nat} {cs ds : List Char} :
    parseDigits radix n (cs ++ ds) =
      (parseDigits radix n cs).bind fun m => parseDigits radix m ds := by
  induction cs generalizing n with
  | nil => rfl
  | cons c cs ih =>
    rw [cons_append, parseDigits, parseDigits, Option.bind_assoc]
    simp only [ih]

theorem withoutPlus_of_notMem {cs : List Char} (h : '+' ∉ cs) : withoutPlus cs = cs := by
  unfold withoutPlus
  split
  · exact absurd mem_cons_self h
  · rfl

/-! ## Decimal digits -/

theorem digitOf_digitChar : ∀ d < 10, digitOf 10 (Nat.digitChar d) = some d := by decide

theorem digitOf_eq_none {c : Char} (h : c.isDigit = false) : digitOf 10 c = none := by
  have hdigit : ¬ ('0' ≤ c ∧ c ≤ '9') := fun hc =>
    absurd (Char.isDigit_iff_toNat.mpr hc) (Bool.eq_false_iff.mp h)
  unfold digitOf
  rw [if_neg hdigit]
  refine if_neg (Nat.not_lt.mpr ?_)
  split
  · rename_i hc
    have hlower : 97 ≤ c.toNat := hc.1
    omega
  · split
    · rename_i hc
      have hupper : 65 ≤ c.toNat := hc.1
      omega
    · exact Nat.le_refl 10

theorem parseDigits_eq_none {n : Nat} {cs : List Char} (h : ∃ c ∈ cs, c.isDigit = false) :
    parseDigits 10 n cs = none := by
  induction cs generalizing n with
  | nil => simp at h
  | cons c cs ih =>
    rw [parseDigits]
    cases hc : digitOf 10 c with
    | none => rfl
    | some d =>
      rw [bind_some]
      obtain ⟨e, he, hletter⟩ := h
      rcases List.mem_cons.mp he with rfl | he
      · rw [digitOf_eq_none hletter] at hc
        cases hc
      · exact ih ⟨e, he, hletter⟩

theorem parseDigits_toDigits (n : Nat) : parseDigits 10 0 (Nat.toDigits 10 n) = some n := by
  induction n using Nat.strongRecOn with
  | ind n ih =>
    by_cases hn : n < 10
    · rw [Nat.toDigits_of_lt_base hn, parseDigits, digitOf_digitChar n hn, bind_some,
        Nat.zero_mul, Nat.zero_add, parseDigits]
    · have hdigit : n % 10 < 10 := Nat.mod_lt n (by decide)
      rw [Nat.toDigits_of_base_le (by decide) (Nat.not_lt.mp hn), parseDigits_append,
        ih (n / 10) (by omega), bind_some, parseDigits, digitOf_digitChar _ hdigit,
        bind_some, parseDigits]
      exact congrArg some (by omega)

theorem isDigit_toDigits {n : Nat} {c : Char} (h : c ∈ Nat.toDigits 10 n) : c.isDigit = true :=
  Nat.isDigit_of_mem_toDigits (by decide) (by decide) h

theorem parseUnsigned_toDigits {n bits : Nat} (h : n < 2 ^ bits) :
    parseUnsigned 10 bits (String.ofList (Nat.toDigits 10 n)) = some n := by
  have hplus : '+' ∉ Nat.toDigits 10 n := fun h => absurd (isDigit_toDigits h) (by decide)
  rw [parseUnsigned, toList_ofList, withoutPlus_of_notMem hplus,
    if_neg Nat.toDigits_ne_nil, parseDigits_toDigits]
  simp [h]

theorem parseUnsigned_eq_none {bits : Nat} {cs : List Char} (hplus : '+' ∉ cs)
    (h : ∃ c ∈ cs, c.isDigit = false) : parseUnsigned 10 bits (String.ofList cs) = none := by
  rw [parseUnsigned, toList_ofList, withoutPlus_of_notMem hplus, parseDigits_eq_none h]
  exact ite_self none

end GenieClaw.Library.Text
