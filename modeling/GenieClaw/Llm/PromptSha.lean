import GenieClaw.Library.Sha256

/-!
# The fingerprint of the prompt

`sha256_hex` of `prompt_sha.rs`, a SHA-256 written by hand: the padding loop, the message schedule
in its array, the 64 rounds and the text of the digest.

* `sha256Hex_eq` (fewer than 2⁶¹ bytes): the text is the SHA-256 digest of the standard.
-/

namespace GenieClaw.Llm

open Library Library.Text Sha256 List

/-! ## The source -/

def initialState : Words :=
  ⟨0x6a09e667, 0xbb67ae85, 0x3c6ef372, 0xa54ff53a, 0x510e527f, 0x9b05688c, 0x1f83d9ab, 0x5be0cd19⟩

def roundConstants : List Word :=
  [0x428a2f98, 0x71374491, 0xb5c0fbcf, 0xe9b5dba5, 0x3956c25b, 0x59f111f1, 0x923f82a4, 0xab1c5ed5,
    0xd807aa98, 0x12835b01, 0x243185be, 0x550c7dc3, 0x72be5d74, 0x80deb1fe, 0x9bdc06a7, 0xc19bf174,
    0xe49b69c1, 0xefbe4786, 0x0fc19dc6, 0x240ca1cc, 0x2de92c6f, 0x4a7484aa, 0x5cb0a9dc, 0x76f988da,
    0x983e5152, 0xa831c66d, 0xb00327c8, 0xbf597fc7, 0xc6e00bf3, 0xd5a79147, 0x06ca6351, 0x14292967,
    0x27b70a85, 0x2e1b2138, 0x4d2c6dfc, 0x53380d13, 0x650a7354, 0x766a0abb, 0x81c2c92e, 0x92722c85,
    0xa2bfe8a1, 0xa81a664b, 0xc24b8b70, 0xc76c51a3, 0xd192e819, 0xd6990624, 0xf40e3585, 0x106aa070,
    0x19a4c116, 0x1e376c08, 0x2748774c, 0x34b0bcb5, 0x391c0cb3, 0x4ed8aa4a, 0x5b9cca4f, 0x682e6ff3,
    0x748f82ee, 0x78a5636f, 0x84c87814, 0x8cc70208, 0x90befffa, 0xa4506ceb, 0xbef9a3f7, 0xc67178f2]

/-- The loop that appends zeros, for at most so many rounds. -/
def zeroFill : Nat → List UInt8 → List UInt8
  | 0, message => message
  | rounds + 1, message =>
    if message.length % 64 ≠ 56 then zeroFill rounds (message ++ [0]) else message

def paddedMessage (data : List UInt8) : List UInt8 :=
  let bitLen : BitVec 64 := BitVec.ofNat 64 data.length * 8
  zeroFill 64 (data ++ [0x80]) ++ bigEndian 8 bitLen.toNat

/-- `u32::from_be_bytes`. -/
def fromBeBytes (bytes : List UInt8) : Word :=
  BitVec.ofNat 32 (bytes.foldl (fun n byte => 256 * n + byte.toNat) 0)

def extendSchedule (schedule : List Word) (i : Nat) : List Word :=
  let early := schedule.getD (i - 15) 0
  let late := schedule.getD (i - 2) 0
  let s0 := early.rotateRight 7 ^^^ early.rotateRight 18 ^^^ early >>> 3
  let s1 := late.rotateRight 17 ^^^ late.rotateRight 19 ^^^ late >>> 10
  schedule.set i (schedule.getD (i - 16) 0 + s0 + schedule.getD (i - 7) 0 + s1)

/-- The array of 64 words after both loops. -/
def messageSchedule (block : List UInt8) : List Word :=
  let words := (chunks 4 block).map fromBeBytes
  let schedule := words.zipIdx.foldl (fun schedule word => schedule.set word.2 word.1)
    (List.replicate 64 0)
  (List.range' 16 48).foldl extendSchedule schedule

def compressionRound (schedule : List Word) (vars : Words) (i : Nat) : Words :=
  let s1 := vars.e.rotateRight 6 ^^^ vars.e.rotateRight 11 ^^^ vars.e.rotateRight 25
  let ch := (vars.e &&& vars.f) ^^^ (~~~vars.e &&& vars.g)
  let t1 := vars.h + s1 + ch + roundConstants.getD i 0 + schedule.getD i 0
  let s0 := vars.a.rotateRight 2 ^^^ vars.a.rotateRight 13 ^^^ vars.a.rotateRight 22
  let maj := (vars.a &&& vars.b) ^^^ (vars.a &&& vars.c) ^^^ (vars.b &&& vars.c)
  let t2 := s0 + maj
  ⟨t1 + t2, vars.a, vars.b, vars.c, vars.d + t1, vars.e, vars.f, vars.g⟩

def processBlock (state : Words) (block : List UInt8) : Words :=
  let vars := (List.range 64).foldl (compressionRound (messageSchedule block)) state
  ⟨state.a + vars.a, state.b + vars.b, state.c + vars.c, state.d + vars.d, state.e + vars.e,
    state.f + vars.f, state.g + vars.g, state.h + vars.h⟩

/-- A word in small hexadecimal digits, with zeros in front up to eight. -/
def hexWord (word : Word) : List Char :=
  let digits := Nat.toDigits 16 word.toNat
  List.replicate (8 - digits.length) '0' ++ digits

def sha256Hex (data : String) : String :=
  let state := (chunks 64 (paddedMessage (asBytes data))).foldl processBlock initialState
  String.ofList (state.toList.flatMap hexWord)

/-! ## Padding -/

theorem zeroFill_eq (rounds : Nat) (message : List UInt8)
    (h : (120 - message.length % 64) % 64 ≤ rounds) :
    zeroFill rounds message = message ++ List.replicate ((120 - message.length % 64) % 64) 0 := by
  induction rounds generalizing message with
  | zero =>
    rw [Nat.le_zero.mp h]
    exact (append_nil message).symm
  | succ rounds ih =>
    rw [zeroFill]
    split
    · rename_i hnot
      have hlength : (message ++ [(0 : UInt8)]).length = message.length + 1 := by
        rw [length_append, length_singleton]
      have hone : (120 - message.length % 64) % 64 =
          (120 - (message ++ [(0 : UInt8)]).length % 64) % 64 + 1 := by
        rw [hlength]
        omega
      rw [ih _ (by omega), hone, append_assoc, singleton_append, replicate_succ]
    · rename_i hdone
      have hzero : (120 - message.length % 64) % 64 = 0 := by omega
      rw [hzero]
      exact (append_nil message).symm

theorem bitsOfBytes_zeros (n : Nat) :
    bitsOfBytes (List.replicate n 0) = List.replicate (8 * n) false := by
  induction n with
  | zero => rfl
  | succ n ih =>
    have hbyte : bitsOf 8 (0 : UInt8).toNat = List.replicate 8 false := by decide
    have hcount : 8 * (n + 1) = 8 + 8 * n := by omega
    rw [replicate_succ, ← singleton_append, bitsOfBytes_append, ih, hcount,
      ← replicate_append_replicate]
    unfold bitsOfBytes
    rw [flatMap_singleton, hbyte]

theorem paddedMessage_padding {data : List UInt8} (h : data.length < 2 ^ 61) :
    Padding (bitsOfBytes data) (bitsOfBytes (paddedMessage data)) := by
  have hlength : (data ++ [(0x80 : UInt8)]).length = data.length + 1 := by
    rw [length_append, length_singleton]
  have hbits : (BitVec.ofNat 64 data.length * 8).toNat = 8 * data.length := by
    rw [BitVec.toNat_mul, BitVec.toNat_ofNat]
    have height : (8 : BitVec 64).toNat = 8 := rfl
    rw [height]
    omega
  have hone : bitsOf 8 (0x80 : UInt8).toNat = true :: List.replicate 7 false := by decide
  have htop : bitsOfBytes [(0x80 : UInt8)] = true :: List.replicate 7 false := by
    unfold bitsOfBytes
    rw [flatMap_singleton, hone]
  refine ⟨7 + 8 * ((120 - (data.length + 1) % 64) % 64), ?_, ?_, ?_⟩
  · unfold paddedMessage
    dsimp only
    rw [zeroFill_eq 64 _ (Nat.mod_lt _ (by decide)).le, hlength, hbits, bitsOfBytes_append,
      bitsOfBytes_append, bitsOfBytes_append, bitsOfBytes_zeros, bitsOfBytes_bigEndian, htop,
      length_bitsOfBytes, ← replicate_append_replicate, append_assoc, append_assoc,
      append_assoc, cons_append]
  · rw [length_bitsOfBytes]
    omega
  · intro fewer hfewer
    rw [length_bitsOfBytes]
    omega

/-! ## The schedule -/

theorem valueOf_bitsOfBytes (bytes : List UInt8) :
    valueOf (bitsOfBytes bytes) = bytes.foldl (fun n byte => 256 * n + byte.toNat) 0 := by
  induction bytes using List.reverseRecOn with
  | nil => rfl
  | append_singleton bytes byte ih =>
    have hbyte : valueOf (bitsOfBytes [byte]) = byte.toNat := by
      unfold bitsOfBytes
      rw [flatMap_singleton, valueOf_bitsOf, Nat.mod_eq_of_lt byte.toNat_lt]
    have hlength : (bitsOfBytes [byte]).length = 8 := length_bitsOfBytes [byte]
    have hpow : 2 ^ 8 = 256 := rfl
    rw [bitsOfBytes_append, valueOf_append, ih, hbyte, hlength, foldl_append, foldl_cons,
      foldl_nil, Nat.mul_comm, hpow]

theorem fromBeBytes_chunk (block : List UInt8) (t : Nat) :
    fromBeBytes ((block.drop (t * 4)).take 4) = blockWord (bitsOfBytes block) t := by
  have hdrop : 32 * t = 8 * (t * 4) := by omega
  unfold fromBeBytes blockWord
  rw [hdrop, (splitAt_bitsOfBytes _ _).2, (splitAt_bitsOfBytes 4 _).1, valueOf_bitsOfBytes]

theorem getD_foldl_set {α : Type} (x : α) (xs : List α) (start : Nat) (ys : List α) (j : Nat)
    (hj : j < ys.length) :
    ((xs.zipIdx start).foldl (fun ys x => ys.set x.2 x.1) ys).getD j x =
      if start ≤ j ∧ j < start + xs.length then xs.getD (j - start) x else ys.getD j x := by
  induction xs generalizing start ys with
  | nil =>
    rw [zipIdx_nil, foldl_nil, if_neg (by rw [length_nil]; omega)]
  | cons first rest ih =>
    rw [zipIdx_cons, foldl_cons, ih (start + 1) (ys.set start first)
      (by rwa [length_set]), length_cons]
    by_cases hhere : j = start
    · subst hhere
      rw [if_neg (by omega), if_pos (by omega), Nat.sub_self, getD_cons_zero,
        getD_eq_getElem _ _ (by rwa [length_set]), getElem_set_self]
    · have hother : (ys.set start first).getD j x = ys.getD j x := by
        rw [getD_eq_getElem?_getD, getD_eq_getElem?_getD,
          getElem?_set_ne (Ne.symm hhere)]
      rw [hother]
      by_cases hlater : start + 1 ≤ j ∧ j < start + 1 + rest.length
      · have hshift : j - start = j - (start + 1) + 1 := by omega
        rw [if_pos hlater, if_pos (by omega), hshift, getD_cons_succ]
      · rw [if_neg hlater, if_neg (by omega)]

theorem length_foldl_set {α : Type} (xs : List (α × Nat)) (ys : List α) :
    (xs.foldl (fun ys x => ys.set x.2 x.1) ys).length = ys.length := by
  induction xs generalizing ys with
  | nil => rfl
  | cons first rest ih => rw [foldl_cons, ih, length_set]

variable {block : Nat → Word} {t : Nat}

theorem schedule_early (h : t < 16) : schedule block t = block t := by
  rw [schedule, if_pos h]

theorem schedule_later (h : 16 ≤ t) :
    schedule block t = smallSigma1 (schedule block (t - 2)) + schedule block (t - 7) +
      smallSigma0 (schedule block (t - 15)) + schedule block (t - 16) := by
  rw [schedule, if_neg (by omega)]

theorem extendSchedule_run {start : List Word} (hlength : start.length = 64)
    (hstart : ∀ t < 16, start.getD t 0 = schedule block t) :
    ∀ n ≤ 48, ((List.range' 16 n).foldl extendSchedule start).length = 64 ∧
      ∀ t < 16 + n, ((List.range' 16 n).foldl extendSchedule start).getD t 0 =
        schedule block t := by
  intro n hn
  induction n with
  | zero => exact ⟨hlength, fun t ht => hstart t (by omega)⟩
  | succ n ih =>
    obtain ⟨hsize, hdone⟩ := ih (by omega)
    rw [range'_concat, Nat.one_mul, foldl_append, foldl_cons, foldl_nil]
    generalize (List.range' 16 n).foldl extendSchedule start = array at hsize hdone
    refine ⟨by rw [extendSchedule, length_set, hsize], fun t ht => ?_⟩
    by_cases hnew : t = 16 + n
    · subst hnew
      rw [schedule_later (by omega), ← hdone (16 + n - 2) (by omega),
        ← hdone (16 + n - 7) (by omega), ← hdone (16 + n - 15) (by omega),
        ← hdone (16 + n - 16) (by omega), extendSchedule,
        getD_eq_getElem _ _ (by rw [length_set]; omega), getElem_set_self]
      unfold smallSigma0 smallSigma1
      ac_rfl
    · rw [← hdone t (by omega), extendSchedule, getD_eq_getElem?_getD,
        getElem?_set_ne (by omega), ← getD_eq_getElem?_getD]

theorem messageSchedule_eq {block : List UInt8} (h : block.length = 64) (ht : t < 64) :
    (messageSchedule block).getD t 0 = schedule (blockWord (bitsOfBytes block)) t := by
  have hwords : ((chunks 4 block).map fromBeBytes).length = 16 := by
    unfold chunks
    rw [length_map, length_map, length_range, h]
  have hstart : ∀ t < 16,
      (((chunks 4 block).map fromBeBytes).zipIdx.foldl (fun schedule word =>
        schedule.set word.2 word.1) (List.replicate 64 0)).getD t 0 =
          schedule (blockWord (bitsOfBytes block)) t := by
    intro t ht
    rw [getD_foldl_set _ _ _ _ _ (by rw [length_replicate]; omega),
      if_pos ⟨Nat.zero_le t, by omega⟩, schedule_early ht, ← fromBeBytes_chunk, Nat.sub_zero,
      getD_eq_getElem _ _ (by omega), getElem_map]
    unfold chunks
    rw [getElem_map, getElem_range]
  have hlength := length_foldl_set (((chunks 4 block).map fromBeBytes).zipIdx)
    (List.replicate 64 (0 : Word))
  rw [length_replicate] at hlength
  exact (extendSchedule_run hlength hstart 48 le_rfl).2 t (by omega)

/-! ## The constants -/

/-- The number whose last 32 bits are the constant, below a root of this size. -/
def IsRoot (power prime : Nat) (word : Word) : Prop :=
  ∃ whole < 20, (whole * 2 ^ 32 + word.toNat) ^ power ≤ prime * 2 ^ (32 * power) ∧
    prime * 2 ^ (32 * power) < (whole * 2 ^ 32 + word.toNat + 1) ^ power

instance (power prime : Nat) (word : Word) : Decidable (IsRoot power prime word) :=
  inferInstanceAs (Decidable (∃ whole < 20, _))

theorem rootFraction_eq {power t : Nat} {word : Word} (hpower : power ≠ 0)
    (ht : t < (primesBelow 312).length) (h : IsRoot power (primesBelow 312)[t] word) :
    rootFraction power t = word := by
  obtain ⟨whole, -, hlow, hhigh⟩ := h
  unfold rootFraction
  rw [nth_prime 312 ht, integerRoot_eq hpower hlow hhigh]
  apply BitVec.eq_of_toNat_eq
  have hword := word.isLt
  rw [BitVec.toNat_ofNat]
  omega

def primes : List Nat :=
  [2, 3, 5, 7, 11, 13, 17, 19, 23, 29, 31, 37, 41, 43, 47, 53, 59, 61, 67, 71, 73, 79, 83, 89, 97,
    101, 103, 107, 109, 113, 127, 131, 137, 139, 149, 151, 157, 163, 167, 173, 179, 181, 191, 193,
    197, 199, 211, 223, 227, 229, 233, 239, 241, 251, 257, 263, 269, 271, 277, 281, 283, 293, 307,
    311]

theorem primesBelow_eq : primesBelow 312 = primes := by decide +kernel

theorem roundConstants_eq (ht : t < 64) : roundConstants.getD t 0 = rootFraction 3 t := by
  have hall : ∀ t, (ht : t < 64) → IsRoot 3 (primes.getD t 0) (roundConstants.getD t 0) := by
    decide +kernel
  have hbelow : t < (primesBelow 312).length := by
    rw [primesBelow_eq]
    exact ht
  refine (rootFraction_eq (by decide) hbelow ?_).symm
  simp only [primesBelow_eq]
  have hroot := hall t ht
  rwa [getD_eq_getElem _ _ (ht : t < primes.length)] at hroot

theorem initialState_eq : initialState = initialHash := by
  have hword : ∀ t word, (ht : t < 8) → IsRoot 2 (primes.getD t 0) word →
      word = rootFraction 2 t := by
    intro t word ht hroot
    have hbelow : t < (primesBelow 312).length := by
      rw [primesBelow_eq]
      exact ht.trans (by decide)
    refine (rootFraction_eq (by decide) hbelow ?_).symm
    simp only [primesBelow_eq]
    rwa [getD_eq_getElem _ _ (ht.trans (by decide) : t < primes.length)] at hroot
  unfold initialState initialHash
  rw [← hword 0 0x6a09e667 (by decide) (by decide +kernel),
    ← hword 1 0xbb67ae85 (by decide) (by decide +kernel),
    ← hword 2 0x3c6ef372 (by decide) (by decide +kernel),
    ← hword 3 0xa54ff53a (by decide) (by decide +kernel),
    ← hword 4 0x510e527f (by decide) (by decide +kernel),
    ← hword 5 0x9b05688c (by decide) (by decide +kernel),
    ← hword 6 0x1f83d9ab (by decide) (by decide +kernel),
    ← hword 7 0x5be0cd19 (by decide) (by decide +kernel)]

/-! ## The compression -/

theorem compressionRound_eq {block : List UInt8} (h : block.length = 64) (ht : t < 64)
    (vars : Words) :
    compressionRound (messageSchedule block) vars t =
      step vars (rootFraction 3 t) (schedule (blockWord (bitsOfBytes block)) t) := by
  unfold compressionRound
  rw [messageSchedule_eq h ht, roundConstants_eq ht]
  rfl

theorem processBlock_eq {block : List UInt8} (h : block.length = 64) (state : Words) :
    processBlock state block = compress state (blockWord (bitsOfBytes block)) := by
  have hrounds : (List.range 64).foldl (compressionRound (messageSchedule block)) state =
      (List.range 64).foldl (fun vars t =>
        step vars (rootFraction 3 t) (schedule (blockWord (bitsOfBytes block)) t)) state :=
    foldl_ext _ _ _ fun vars t ht => compressionRound_eq h (List.mem_range.mp ht) vars
  unfold processBlock compress
  rw [hrounds]
  rfl

/-! ## The text -/

theorem hexDigit_eq : ∀ n < 16, n.digitChar = hexDigit n := by decide

/-- The last so many hexadecimal digits of a number. -/
def hexDigits : Nat → Nat → List Char
  | 0, _ => []
  | width + 1, n => hexDigit (n / 16 ^ width % 16) :: hexDigits width n

theorem hexDigits_succ (width n : Nat) :
    hexDigits (width + 1) n = hexDigits width (n / 16) ++ [hexDigit (n % 16)] := by
  induction width with
  | zero =>
    rw [hexDigits, hexDigits, hexDigits, pow_zero, Nat.div_one]
    rfl
  | succ width ih =>
    rw [hexDigits, ih, hexDigits, cons_append, Nat.div_div_eq_div_mul, pow_succ, Nat.mul_comm]

theorem hexDigits_eq (width n : Nat) (h : n < 16 ^ width) (hwidth : 0 < width) :
    hexDigits width n =
      List.replicate (width - (Nat.toDigits 16 n).length) '0' ++ Nat.toDigits 16 n := by
  induction width generalizing n with
  | zero => exact absurd hwidth (Nat.lt_irrefl 0)
  | succ width ih =>
    rw [hexDigits_succ]
    by_cases hsmall : n < 16
    · have hzeros : hexDigits width 0 = List.replicate width '0' := by
        have hzero : hexDigit 0 = '0' := by decide
        clear ih h
        induction width with
        | zero => rfl
        | succ width ih =>
          rw [hexDigits, Nat.zero_div, Nat.zero_mod, hzero, ih (Nat.succ_pos _),
            replicate_succ]
      rw [Nat.div_eq_of_lt hsmall, Nat.mod_eq_of_lt hsmall, hzeros,
        Nat.toDigits_of_lt_base hsmall, hexDigit_eq n hsmall]
      rfl
    · have hdiv : n / 16 < 16 ^ width := by
        rw [pow_succ] at h
        omega
      have hpos : 0 < width := by
        rcases Nat.eq_zero_or_pos width with rfl | hpos
        · rw [pow_zero] at hdiv
          omega
        · exact hpos
      have hdigits : Nat.toDigits 16 n = Nat.toDigits 16 (n / 16) ++ [hexDigit (n % 16)] := by
        have hlarge : 16 ≤ n := Nat.le_of_not_lt hsmall
        rw [Nat.toDigits_of_base_le (by decide) hlarge, hexDigit_eq _ (Nat.mod_lt n (by decide))]
      rw [ih _ hdiv hpos, hdigits, length_append, length_singleton,
        Nat.add_sub_add_right, append_assoc]

theorem chunks_append {α : Type} {n k : Nat} {xs : List α} (hn : 0 < n) (hxs : xs.length = k * n)
    (ys : List α) : chunks n (xs ++ ys) = chunks n xs ++ chunks n ys := by
  have hcount : (xs ++ ys).length / n = k + ys.length / n := by
    rw [length_append, hxs, Nat.add_comm, Nat.add_mul_div_right _ _ hn, Nat.add_comm]
  have hcount' : xs.length / n = k := by
    rw [hxs, Nat.mul_div_cancel _ hn]
  unfold chunks
  rw [hcount, hcount', range_add, map_append, map_map]
  congr 1
  · refine map_congr_left fun i hi => ?_
    have hfits : (i + 1) * n ≤ k * n := Nat.mul_le_mul_right n (List.mem_range.mp hi)
    rw [Nat.succ_mul] at hfits
    rw [drop_append_of_le_length (by omega), take_append_of_le_length]
    rw [length_drop]
    omega
  · refine map_congr_left fun i _ => ?_
    have hlong : (k + i) * n = xs.length + i * n := by
      rw [hxs, Nat.add_mul]
    rw [Function.comp_apply, hlong, drop_length_add_append]

theorem hexDigits_bitsOf (width n : Nat) :
    (chunks 4 (bitsOf (4 * width) n)).map (fun nibble => hexDigit (valueOf nibble)) =
      hexDigits width n := by
  induction width with
  | zero => simp [bitsOf, chunks, hexDigits]
  | succ width ih =>
    have hwidth : 4 * (width + 1) = 4 + 4 * width := by omega
    have hpow : 2 ^ (4 * width) = 16 ^ width := pow_mul 2 4 width
    have hone : chunks 4 (bitsOf 4 (n / 16 ^ width)) = [bitsOf 4 (n / 16 ^ width)] := by
      unfold chunks
      rw [length_bitsOf, Nat.div_self (by decide), range_one, map_singleton,
        Nat.zero_mul, drop_zero, take_of_length_le (length_bitsOf 4 _).le]
    rw [hwidth, bitsOf_add, hpow, chunks_append (k := 1) (by decide) (length_bitsOf 4 _), hone,
      map_append, ih, map_singleton, valueOf_bitsOf, hexDigits]
    rfl

theorem hexWord_eq (word : Word) :
    (chunks 4 (bitsOf 32 word.toNat)).map (fun nibble => hexDigit (valueOf nibble)) =
      hexWord word := by
  have h := hexDigits_bitsOf 8 word.toNat
  rw [h, hexDigits_eq 8 _ word.isLt (by decide)]
  rfl

theorem hexOfBits_words (words : List Word) :
    hexOfBits (words.flatMap fun word => bitsOf 32 word.toNat) =
      String.ofList (words.flatMap hexWord) := by
  unfold hexOfBits
  congr 1
  induction words with
  | nil => rfl
  | cons word words ih =>
    rw [flatMap_cons, flatMap_cons,
      chunks_append (k := 8) (by decide) (length_bitsOf 32 _), map_append, hexWord_eq, ih]

/-! ## The digest -/

theorem length_hexWord (word : Word) : (hexWord word).length = 8 := by
  rw [← hexWord_eq, length_map]
  unfold chunks
  rw [length_map, length_range, length_bitsOf]

def hexAlphabet : List Char :=
  ['0', '1', '2', '3', '4', '5', '6', '7', '8', '9', 'a', 'b', 'c', 'd', 'e', 'f']

theorem mem_hexWord {word : Word} {c : Char} (h : c ∈ hexWord word) : c ∈ hexAlphabet := by
  have hall : ∀ n < 16, hexDigit n ∈ hexAlphabet := by decide
  rw [← hexWord_eq] at h
  obtain ⟨nibble, hnibble, rfl⟩ := List.mem_map.mp h
  refine hall _ ?_
  have hbound := valueOf_lt nibble
  rwa [length_of_mem_chunks hnibble] at hbound

theorem sha256Hex_digest (data : String) :
    sha256Hex data = hexOfBits (digest (bitsOfBytes (paddedMessage (asBytes data)))) := by
  have hblocks : chunks 512 (bitsOfBytes (paddedMessage (asBytes data))) =
      (chunks 64 (paddedMessage (asBytes data))).map bitsOfBytes := chunks_bitsOfBytes 64 _
  have hfold : (chunks 64 (paddedMessage (asBytes data))).foldl processBlock initialState =
      ((chunks 64 (paddedMessage (asBytes data))).map bitsOfBytes).foldl
        (fun x block => compress x (blockWord block)) initialHash := by
    rw [foldl_map, initialState_eq]
    exact foldl_ext _ _ _ fun state block hblock =>
      processBlock_eq (length_of_mem_chunks hblock) state
  unfold sha256Hex digest
  rw [hblocks, ← hfold, hexOfBits_words]

/-- The text is the SHA-256 digest of the bytes, whose padding is the only one, in 64 digits. -/
theorem sha256Hex_eq (data : String) (h : data.utf8ByteSize < 2 ^ 61) :
    (∃ padded, Padding (bitsOfBytes (asBytes data)) padded ∧
      (∀ other, Padding (bitsOfBytes (asBytes data)) other → other = padded) ∧
      padded = bitsOfBytes (paddedMessage (asBytes data)) ∧
      sha256Hex data = hexOfBits (digest padded)) ∧
    (sha256Hex data).toList.length = 64 ∧ ∀ c ∈ (sha256Hex data).toList, c ∈ hexAlphabet := by
  have hlength : (asBytes data).length < 2 ^ 61 := h
  have hpadding := paddedMessage_padding hlength
  refine ⟨⟨_, hpadding, fun other hother => hother.unique hpadding, rfl,
    sha256Hex_digest data⟩, ?_, ?_⟩
  · unfold sha256Hex
    dsimp only
    rw [String.toList_ofList, length_flatMap]
    unfold Words.toList
    simp only [map_cons, map_nil, length_hexWord]
    rfl
  · intro c hc
    unfold sha256Hex at hc
    dsimp only at hc
    rw [String.toList_ofList] at hc
    obtain ⟨word, -, hword⟩ := List.mem_flatMap.mp hc
    exact mem_hexWord hword

example : sha256Hex "abc" = "ba7816bf8f01cfea414140de5dae2223b00361a396177a9cb410ff61f20015ad" := by
  decide +kernel

theorem sha256Hex_eq_abc :
    (∃ padded, Padding (bitsOfBytes (asBytes "abc")) padded ∧
      (∀ other, Padding (bitsOfBytes (asBytes "abc")) other → other = padded) ∧
      padded = bitsOfBytes (paddedMessage (asBytes "abc")) ∧
      sha256Hex "abc" = hexOfBits (digest padded)) ∧
    (sha256Hex "abc").toList.length = 64 ∧ ∀ c ∈ (sha256Hex "abc").toList, c ∈ hexAlphabet :=
  sha256Hex_eq "abc" (by decide)

end GenieClaw.Llm
