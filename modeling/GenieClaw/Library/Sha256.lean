import GenieClaw.Library.Text
import Mathlib.Data.Nat.Find
import Mathlib.Data.Nat.Nth
import Mathlib.Data.Nat.Prime.Defs
import Mathlib.Tactic.Ring

/-!
# The secure hash standard

SHA-256 of FIPS 180-4 on strings of bits: the padding, the message schedule and the compression.
The constants are the first bits of the fractional parts of roots of the first primes.

* `nth_prime`: the primes of the constants.
* `Padding.unique`: a message has one padding.
-/

namespace GenieClaw.Library

open List Bool
/-! ## Strings of bits -/

/-- The lowest `width` bits of a number, the highest of them first. -/
def bitsOf : Nat → Nat → List Bool
  | 0, _ => []
  | width + 1, n => n.testBit width :: bitsOf width n

def valueOf (bits : List Bool) : Nat := bits.foldl (fun n bit => 2 * n + bit.toNat) 0

theorem length_bitsOf (width n : Nat) : (bitsOf width n).length = width := by
  induction width with
  | zero => rfl
  | succ width ih => rw [bitsOf, length_cons, ih]

theorem valueOf_append (xs ys : List Bool) :
    valueOf (xs ++ ys) = valueOf xs * 2 ^ ys.length + valueOf ys := by
  have hfrom : ∀ (ys : List Bool) (n : Nat), ys.foldl (fun n bit => 2 * n + bit.toNat) n =
      n * 2 ^ ys.length + ys.foldl (fun n bit => 2 * n + bit.toNat) 0 := by
    intro ys
    induction ys with
    | nil => simp
    | cons bit ys ih =>
      intro n
      rw [foldl_cons, foldl_cons, ih, ih (2 * 0 + bit.toNat), length_cons, pow_succ]
      ring
  unfold valueOf
  rw [foldl_append, hfrom]

theorem valueOf_cons (bit : Bool) (bits : List Bool) :
    valueOf (bit :: bits) = bit.toNat * 2 ^ bits.length + valueOf bits := by
  have h := valueOf_append [bit] bits
  rw [singleton_append] at h
  rw [h]
  unfold valueOf
  rw [foldl_cons, foldl_nil, Nat.mul_zero, Nat.zero_add]

theorem valueOf_bitsOf (width n : Nat) : valueOf (bitsOf width n) = n % 2 ^ width := by
  induction width with
  | zero => rw [pow_zero, Nat.mod_one]; rfl
  | succ width ih =>
    rw [bitsOf, valueOf_cons, length_bitsOf, ih, Nat.mod_pow_succ, Nat.toNat_testBit]
    ring

theorem valueOf_lt (bits : List Bool) : valueOf bits < 2 ^ bits.length := by
  induction bits with
  | nil => decide
  | cons bit bits ih =>
    have htop : bit.toNat * 2 ^ bits.length ≤ 1 * 2 ^ bits.length :=
      Nat.mul_le_mul_right _ (toNat_le bit)
    rw [valueOf_cons, length_cons, pow_succ]
    omega

theorem bitsOf_add (high low n : Nat) :
    bitsOf (high + low) n = bitsOf high (n / 2 ^ low) ++ bitsOf low n := by
  induction high with
  | zero => rw [Nat.zero_add]; rfl
  | succ high ih =>
    rw [Nat.succ_add, bitsOf, ih, bitsOf, Nat.testBit_div_two_pow, cons_append]

theorem bitsOf_mod (width n : Nat) : bitsOf width (n % 2 ^ width) = bitsOf width n := by
  have h : ∀ k ≤ width, bitsOf k (n % 2 ^ width) = bitsOf k n := by
    intro k hk
    induction k with
    | zero => rfl
    | succ k ih =>
      rw [bitsOf, bitsOf, ih (by omega), Nat.testBit_mod_two_pow, decide_eq_true (by omega),
        Bool.true_and]
  exact h width le_rfl

/-! ## Blocks -/

/-- The whole blocks of so many items, in their order. -/
def chunks {α : Type} (n : Nat) (xs : List α) : List (List α) :=
  (List.range (xs.length / n)).map fun i => (xs.drop (i * n)).take n

theorem length_of_mem_chunks {α : Type} {n : Nat} {xs block : List α} (h : block ∈ chunks n xs) :
    block.length = n := by
  obtain ⟨i, hi, rfl⟩ := List.mem_map.mp h
  have hfits : (i + 1) * n ≤ xs.length :=
    (Nat.mul_le_mul_right n (List.mem_range.mp hi)).trans (Nat.div_mul_le_self _ _)
  rw [Nat.succ_mul] at hfits
  rw [length_take, length_drop]
  omega

/-- The bits of bytes, the highest of each first. -/
def bitsOfBytes (bytes : List UInt8) : List Bool := bytes.flatMap fun byte => bitsOf 8 byte.toNat

theorem bitsOfBytes_append (xs ys : List UInt8) :
    bitsOfBytes (xs ++ ys) = bitsOfBytes xs ++ bitsOfBytes ys := flatMap_append

theorem length_bitsOfBytes (bytes : List UInt8) :
    (bitsOfBytes bytes).length = 8 * bytes.length := by
  induction bytes with
  | nil => rfl
  | cons byte bytes ih =>
    unfold bitsOfBytes at ih ⊢
    rw [flatMap_cons, length_append, length_bitsOf, ih, length_cons]
    ring

theorem splitAt_bitsOfBytes (n : Nat) (bytes : List UInt8) :
    (bitsOfBytes bytes).take (8 * n) = bitsOfBytes (bytes.take n) ∧
      (bitsOfBytes bytes).drop (8 * n) = bitsOfBytes (bytes.drop n) := by
  by_cases h : n ≤ bytes.length
  · have hsplit := bitsOfBytes_append (bytes.take n) (bytes.drop n)
    rw [take_append_drop] at hsplit
    have hlength : (bitsOfBytes (bytes.take n)).length = 8 * n := by
      rw [length_bitsOfBytes, length_take, min_eq_left h]
    rw [hsplit, ← hlength, take_left, drop_left]
    exact ⟨rfl, rfl⟩
  · have hbits := length_bitsOfBytes bytes
    rw [take_of_length_le (by omega), take_of_length_le (by omega),
      drop_eq_nil_of_le (by omega), drop_eq_nil_of_le (by omega)]
    exact ⟨rfl, rfl⟩

theorem chunks_bitsOfBytes (n : Nat) (bytes : List UInt8) :
    chunks (8 * n) (bitsOfBytes bytes) = (chunks n bytes).map bitsOfBytes := by
  unfold chunks
  rw [length_bitsOfBytes, Nat.mul_div_mul_left _ _ (by decide), map_map]
  refine map_congr_left fun i _ => ?_
  rw [Function.comp_apply, ← (splitAt_bitsOfBytes _ _).1, ← (splitAt_bitsOfBytes _ _).2,
    Nat.mul_left_comm]

/-- The bytes of a number of so many bytes, the highest first. -/
def bigEndian : Nat → Nat → List UInt8
  | 0, _ => []
  | width + 1, n => UInt8.ofNat (n / 2 ^ (8 * width)) :: bigEndian width n

theorem bitsOfBytes_bigEndian (width n : Nat) :
    bitsOfBytes (bigEndian width n) = bitsOf (8 * width) n := by
  induction width with
  | zero => rfl
  | succ width ih =>
    have hbyte : (UInt8.ofNat (n / 2 ^ (8 * width))).toNat = n / 2 ^ (8 * width) % 2 ^ 8 :=
      UInt8.toNat_ofNat'
    have hwidth : 8 * (width + 1) = 8 + 8 * width := by ring
    have hcons := bitsOfBytes_append [UInt8.ofNat (n / 2 ^ (8 * width))] (bigEndian width n)
    rw [singleton_append] at hcons
    rw [bigEndian, hcons, ih, hwidth, bitsOf_add]
    unfold bitsOfBytes
    rw [flatMap_singleton, hbyte, bitsOf_mod]

/-! ## Roots of primes -/

/-- The greatest number whose power is at most `m`. -/
def integerRoot (power m : Nat) : Nat := Nat.findGreatest (fun n => n ^ power ≤ m) m

theorem integerRoot_eq {power m n : Nat} (hpower : power ≠ 0) (hlow : n ^ power ≤ m)
    (hhigh : m < (n + 1) ^ power) : integerRoot power m = n := by
  unfold integerRoot
  rw [Nat.findGreatest_eq_iff]
  refine ⟨(Nat.le_self_pow hpower n).trans hlow, fun _ => hlow, fun k hk _ hle => ?_⟩
  have hmono : (n + 1) ^ power ≤ k ^ power := Nat.pow_le_pow_left hk power
  omega

theorem nth_eq_filter_range (p : Nat → Prop) [DecidablePred p] (bound : Nat) :
    ∀ t, (ht : t < ((List.range bound).filter p).length) →
      Nat.nth p t = ((List.range bound).filter p)[t] := by
  induction bound with
  | zero => exact fun t ht => absurd ht (Nat.not_lt_zero t)
  | succ bound ih =>
    intro t ht
    have hrange : (List.range (bound + 1)).filter p =
        (List.range bound).filter p ++ if p bound then [bound] else [] := by
      rw [range_succ, filter_append, filter_singleton]
      simp
    have hcount : Nat.count p bound = ((List.range bound).filter p).length := by
      unfold Nat.count
      exact countP_eq_length_filter
    by_cases hlater : t < ((List.range bound).filter p).length
    · simp only [hrange]
      rw [getElem_append_left hlater]
      exact ih t hlater
    · by_cases hbound : p bound
      · have heq : t = ((List.range bound).filter p).length := by
          rw [hrange, if_pos hbound, length_append, length_singleton] at ht
          omega
        subst heq
        simp only [hrange, if_pos hbound]
        rw [getElem_concat_length rfl, ← hcount]
        exact Nat.nth_count hbound
      · rw [hrange, if_neg hbound, append_nil] at ht
        exact absurd ht hlater

def passesTrialDivision (n : Nat) : Bool :=
  decide (2 ≤ n) && (List.range n).all fun d => decide (d < 2) || decide (n % d ≠ 0)

theorem passesTrialDivision_iff (n : Nat) : passesTrialDivision n = true ↔ n.Prime := by
  unfold passesTrialDivision
  rw [Nat.prime_def_lt, and_eq_true, decide_eq_true_iff, all_eq_true]
  refine and_congr_right fun hn => forall_congr' fun d => ?_
  rw [mem_range, or_eq_true, decide_eq_true_iff, decide_eq_true_iff]
  refine imp_congr_right fun hd => ?_
  rw [Nat.dvd_iff_mod_eq_zero]
  constructor
  · rintro (hsmall | hnot) hdvd
    · rcases Nat.lt_succ_iff_lt_or_eq.mp hsmall with hzero | hone
      · have hd0 : d = 0 := by omega
        rw [hd0, Nat.mod_zero] at hdvd
        omega
      · exact hone
    · exact absurd hdvd hnot
  · intro h
    by_cases hdvd : n % d = 0
    · exact Or.inl (by rw [h hdvd]; decide)
    · exact Or.inr hdvd

def primesBelow (bound : Nat) : List Nat := (List.range bound).filter passesTrialDivision

theorem nth_prime (bound : Nat) {t : Nat} (ht : t < (primesBelow bound).length) :
    Nat.nth Nat.Prime t = (primesBelow bound)[t] := by
  have hsame : Nat.Prime = fun n => passesTrialDivision n = true :=
    funext fun n => propext (passesTrialDivision_iff n).symm
  have hfilter : (List.range bound).filter (fun n => decide (passesTrialDivision n = true)) =
      primesBelow bound := by
    unfold primesBelow
    congr 1
    funext n
    exact Bool.decide_eq_true
  have h := nth_eq_filter_range (fun n => passesTrialDivision n = true) bound t (hfilter ▸ ht)
  rw [hsame, h]
  simp only [hfilter]

/-! ## The standard -/

namespace Sha256

abbrev Word := BitVec 32

def choose (x y z : Word) : Word := (x &&& y) ^^^ (~~~x &&& z)

def majority (x y z : Word) : Word := (x &&& y) ^^^ (x &&& z) ^^^ (y &&& z)

def bigSigma0 (x : Word) : Word := x.rotateRight 2 ^^^ x.rotateRight 13 ^^^ x.rotateRight 22

def bigSigma1 (x : Word) : Word := x.rotateRight 6 ^^^ x.rotateRight 11 ^^^ x.rotateRight 25

def smallSigma0 (x : Word) : Word := x.rotateRight 7 ^^^ x.rotateRight 18 ^^^ x >>> 3

def smallSigma1 (x : Word) : Word := x.rotateRight 17 ^^^ x.rotateRight 19 ^^^ x >>> 10

/-- The first 32 bits of the fractional part of a root of the prime with this index. -/
noncomputable def rootFraction (power t : Nat) : Word :=
  BitVec.ofNat 32 (integerRoot power (Nat.nth Nat.Prime t * 2 ^ (32 * power)))

/-- The eight words of a hash value, or the working variables. -/
structure Words where
  a : Word
  b : Word
  c : Word
  d : Word
  e : Word
  f : Word
  g : Word
  h : Word
deriving DecidableEq

namespace Words

def add (x y : Words) : Words :=
  ⟨x.a + y.a, x.b + y.b, x.c + y.c, x.d + y.d, x.e + y.e, x.f + y.f, x.g + y.g, x.h + y.h⟩

def toList (x : Words) : List Word := [x.a, x.b, x.c, x.d, x.e, x.f, x.g, x.h]

end Words

/-- The square roots of the first eight primes. -/
noncomputable def initialHash : Words :=
  ⟨rootFraction 2 0, rootFraction 2 1, rootFraction 2 2, rootFraction 2 3, rootFraction 2 4,
    rootFraction 2 5, rootFraction 2 6, rootFraction 2 7⟩

/-- The message schedule of a block. -/
def schedule (block : Nat → Word) (t : Nat) : Word :=
  if t < 16 then block t
  else smallSigma1 (schedule block (t - 2)) + schedule block (t - 7) +
    smallSigma0 (schedule block (t - 15)) + schedule block (t - 16)
termination_by t

/-- One step with a constant and a word of the schedule. -/
def step (x : Words) (constant word : Word) : Words :=
  let t1 := x.h + bigSigma1 x.e + choose x.e x.f x.g + constant + word
  let t2 := bigSigma0 x.a + majority x.a x.b x.c
  ⟨t1 + t2, x.a, x.b, x.c, x.d + t1, x.e, x.f, x.g⟩

/-- The constants are those of the cube roots of the first 64 primes. -/
noncomputable def compress (x : Words) (block : Nat → Word) : Words :=
  x.add ((List.range 64).foldl
    (fun vars t => step vars (rootFraction 3 t) (schedule block t)) x)

/-- The words of a block of 512 bits. -/
def blockWord (block : List Bool) (t : Nat) : Word :=
  BitVec.ofNat 32 (valueOf ((block.drop (32 * t)).take 32))

/-- A one, the least number of zeros after which 64 bits are missing, and the length. -/
def Padding (message padded : List Bool) : Prop :=
  ∃ zeros, padded = message ++ true :: (List.replicate zeros false ++ bitsOf 64 message.length) ∧
    (message.length + 1 + zeros) % 512 = 448 ∧
    ∀ fewer < zeros, (message.length + 1 + fewer) % 512 ≠ 448

theorem Padding.unique {message padded other : List Bool} (h : Padding message padded)
    (hother : Padding message other) : padded = other := by
  obtain ⟨zeros, rfl, hzeros, hleast⟩ := h
  obtain ⟨zeros', rfl, hzeros', hleast'⟩ := hother
  have heq : zeros = zeros' := by
    rcases Nat.lt_trichotomy zeros zeros' with hlt | heq | hlt
    · exact absurd hzeros (hleast' zeros hlt)
    · exact heq
    · exact absurd hzeros' (hleast zeros' hlt)
  rw [heq]

/-- The hash value of a padded message, as its 256 bits. -/
noncomputable def digest (padded : List Bool) : List Bool :=
  (((chunks 512 padded).foldl (fun x block => compress x (blockWord block)) initialHash).toList
    ).flatMap fun word => bitsOf 32 word.toNat

end Sha256

/-- Bits in small hexadecimal digits. -/
def hexOfBits (bits : List Bool) : String :=
  String.ofList ((chunks 4 bits).map fun nibble => Text.hexDigit (valueOf nibble))

end GenieClaw.Library
