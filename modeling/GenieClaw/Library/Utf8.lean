import GenieClaw.Library.AsciiSearch

/-!
# Bytes as text

The two ways to read bytes as UTF-8: the strict one refuses bytes that are not the encoding of a
text, and the lossy one puts a replacement character for each stretch that cannot be the start of
a character.
-/

namespace GenieClaw.Library.Text

open List Option Bool
/-- The character whose encoding the bytes begin with. -/
def decodeChar? (bytes : List UInt8) : Option Char := bytes.toByteArray.utf8DecodeChar? 0

def isContinuation (b : UInt8) : Bool := 0x80 ≤ b && b ≤ 0xBF

/-- The byte may come after this first byte of a character of three or four bytes. -/
def followsLead (lead b : UInt8) : Bool :=
  if lead = 0xE0 then 0xA0 ≤ b && b ≤ 0xBF
  else if lead = 0xED then 0x80 ≤ b && b ≤ 0x9F
  else if lead = 0xF0 then 0x90 ≤ b && b ≤ 0xBF
  else if lead = 0xF4 then 0x80 ≤ b && b ≤ 0x8F
  else 0xE0 ≤ lead && lead ≤ 0xF4 && isContinuation b

/-- The length of the stretch that one replacement character stands for, where no character
begins: the longest start of a character, and one byte at least. -/
def invalidLength : List UInt8 → Nat
  | lead :: b :: rest =>
    if followsLead lead b then
      if 0xF0 ≤ lead && rest.head?.any isContinuation then 3 else 2
    else 1
  | _ => 1

/-- At most `fuel` characters; every turn uses up a byte. -/
def lossyChars : Nat → List UInt8 → List Char
  | _, [] => []
  | 0, _ => []
  | fuel + 1, bytes =>
    match decodeChar? bytes with
    | some c => c :: lossyChars fuel (bytes.drop c.utf8Size)
    | none => Char.ofNat 0xFFFD :: lossyChars fuel (bytes.drop (invalidLength bytes))

/-- `String::from_utf8_lossy`. -/
def fromUtf8Lossy (bytes : List UInt8) : String := String.ofList (lossyChars bytes.length bytes)

/-- `String::from_utf8`. -/
def fromUtf8 (bytes : List UInt8) : Option String := String.fromUTF8? bytes.toByteArray

theorem decodeChar?_append (c : Char) (rest : List UInt8) :
    decodeChar? (String.utf8EncodeChar c ++ rest) = some c := by
  rw [decodeChar?, toByteArray_append]
  exact ByteArray.utf8DecodeChar?_utf8EncodeChar_append

theorem utf8EncodeChar_ne_nil (c : Char) : String.utf8EncodeChar c ≠ [] := by
  intro h
  have hlength := String.length_utf8EncodeChar c
  rw [h] at hlength
  exact absurd hlength (Nat.ne_of_lt c.utf8Size_pos)

theorem lossyChars_encode (cs : List Char) {fuel : Nat}
    (hfuel : (cs.flatMap String.utf8EncodeChar).length ≤ fuel) :
    lossyChars fuel (cs.flatMap String.utf8EncodeChar) = cs := by
  induction cs generalizing fuel with
  | nil => cases fuel <;> rfl
  | cons c cs ih =>
    rw [flatMap_cons] at hfuel ⊢
    have hpos := c.utf8Size_pos
    have hlength := String.length_utf8EncodeChar c
    rw [length_append, hlength] at hfuel
    obtain ⟨fuel, rfl⟩ : ∃ n, fuel = n + 1 := ⟨fuel - 1, by omega⟩
    obtain ⟨b, bs, hbytes⟩ := exists_cons_of_ne_nil (utf8EncodeChar_ne_nil c)
    have hdecode := decodeChar?_append c (cs.flatMap String.utf8EncodeChar)
    have hdrop : (String.utf8EncodeChar c ++ cs.flatMap String.utf8EncodeChar).drop c.utf8Size =
        cs.flatMap String.utf8EncodeChar := by
      rw [← hlength, drop_left]
    rw [hbytes, cons_append] at hdecode hdrop ⊢
    rw [lossyChars, hdecode]
    · dsimp only
      rw [hdrop, ih (by omega)]
    · simp

@[simp] theorem fromUtf8Lossy_asBytes (s : String) : fromUtf8Lossy (asBytes s) = s := by
  rw [fromUtf8Lossy, asBytes_eq, lossyChars_encode _ le_rfl, String.ofList_toList]

theorem toByteArray_asBytes (s : String) : (asBytes s).toByteArray = s.toByteArray := by
  rw [asBytes_eq, ← String.utf8Encode_toList]
  rfl

variable {bytes : List UInt8}

theorem fromUtf8_eq_some {s : String} : fromUtf8 bytes = some s ↔ bytes = asBytes s := by
  unfold fromUtf8 String.fromUTF8?
  constructor
  · intro h
    split at h
    · obtain rfl := Option.some.inj h
      rw [asBytes]
      exact List.toList_data_toByteArray.symm
    · cases h
  · rintro rfl
    have hvalid : (asBytes s).toByteArray.IsValidUTF8 := toByteArray_asBytes s ▸ s.isValidUTF8
    rw [dif_pos hvalid]
    exact congrArg some (String.toByteArray_inj.mp (toByteArray_asBytes s))

theorem fromUtf8_eq_none (hne : bytes ≠ []) (h : decodeChar? bytes = none) :
    fromUtf8 bytes = none := by
  rw [eq_none_iff_forall_ne_some]
  intro s hs
  rw [fromUtf8_eq_some, asBytes_eq] at hs
  cases hchars : s.toList with
  | nil =>
    rw [hchars] at hs
    exact hne hs
  | cons c cs =>
    rw [hchars, flatMap_cons] at hs
    rw [hs, decodeChar?_append] at h
    cases h

/-! ## Encodings -/

@[simp] theorem asBytes_append (a b : String) : asBytes (a ++ b) = asBytes a ++ asBytes b := by
  rw [asBytes_eq, asBytes_eq, asBytes_eq, String.toList_append, flatMap_append]

variable {c : Char}

theorem mem_asBytes_ascii (hc : c.toNat < 128) {s : String} :
    UInt8.ofNat c.toNat ∈ asBytes s ↔ c ∈ s.toList := by
  have hbyte : ∀ d : Char, d.toNat < 128 → (UInt8.ofNat d.toNat).toNat = d.toNat := by
    intro d hd
    simp only [UInt8.toNat_ofNat']
    omega
  rw [asBytes_eq, mem_flatMap]
  constructor
  · rintro ⟨d, hd, hmem⟩
    by_cases hascii : d.toNat < 128
    · rw [utf8EncodeChar_ascii hascii, mem_singleton] at hmem
      have hsame := congrArg UInt8.toNat hmem
      rw [hbyte c hc, hbyte d hascii] at hsame
      rwa [Char.toNat_inj.mp hsame]
    · have hhigh := utf8EncodeChar_high (Nat.le_of_not_lt hascii) _ hmem
      rw [hbyte c hc] at hhigh
      omega
  · intro h
    exact ⟨c, h, by rw [utf8EncodeChar_ascii hc]; exact mem_singleton_self _⟩

/-! ## Lossy reading in pieces -/

theorem exists_of_decodeChar? (h : decodeChar? bytes = some c) :
    ∃ rest, bytes = String.utf8EncodeChar c ++ rest := by
  obtain ⟨rest, hrest⟩ := ByteArray.exists_of_utf8DecodeChar?_eq_some h
  refine ⟨rest.data.toList, ?_⟩
  have hlist := congrArg (fun b : ByteArray => b.data.toList) hrest
  simpa using hlist

theorem invalidLength_pos (bytes : List UInt8) : 0 < invalidLength bytes := by
  unfold invalidLength
  split
  · split_ifs <;> decide
  · decide

variable {b : UInt8}

theorem isContinuation_ascii (h : b.toNat < 128) : isContinuation b = false := by
  rw [isContinuation, and_eq_false_iff]
  left
  rw [decide_eq_false_iff_not, UInt8.le_iff_toNat_le]
  exact Nat.not_le.mpr h

theorem followsLead_ascii (lead : UInt8) (h : b.toNat < 128) : followsLead lead b = false := by
  have hlow : ∀ bound : UInt8, 128 ≤ bound.toNat → decide (bound ≤ b) = false :=
      fun bound hbound => by
    rw [decide_eq_false_iff_not, UInt8.le_iff_toNat_le]
    omega
  unfold followsLead
  rw [hlow 0xA0 (by decide), hlow 0x80 (by decide), hlow 0x90 (by decide), isContinuation_ascii h]
  simp

theorem invalidLength_append (x : UInt8) (xs : List UInt8) (h : b.toNat < 128) (ys : List UInt8) :
    invalidLength (x :: xs ++ b :: ys) = invalidLength (x :: xs) ∧
      invalidLength (x :: xs) ≤ (x :: xs).length := by
  rcases xs with _ | ⟨y, _ | ⟨z, zs⟩⟩
  · simp [invalidLength, followsLead_ascii x h]
  · simp only [cons_append, nil_append, invalidLength, head?_cons, head?_nil,
      any_some, any_none, isContinuation_ascii h, Bool.and_false,
      false_eq_true, if_false]
    split_ifs <;> simp
  · simp only [cons_append, invalidLength, head?_cons, length_cons]
    have hthree : ∀ (p q : Prop) [Decidable p] [Decidable q],
        (if p then if q then 3 else 2 else 1) ≤ 3 := fun p q _ _ => by
      split_ifs <;> decide
    exact ⟨rfl, le_trans (hthree _ _) (by omega)⟩

theorem lossyChars_fuel {m n : Nat} (hm : bytes.length ≤ m) (hn : bytes.length ≤ n) :
    lossyChars m bytes = lossyChars n bytes := by
  induction m generalizing n bytes with
  | zero =>
    obtain rfl := eq_nil_of_length_eq_zero (Nat.le_zero.mp hm)
    cases n <;> rfl
  | succ m ih =>
    cases bytes with
    | nil => cases n <;> rfl
    | cons b bs =>
      obtain ⟨n, rfl⟩ : ∃ k, n = k + 1 := ⟨n - 1, by rw [length_cons] at hn; omega⟩
      have hdrop : ∀ k, 0 < k → lossyChars m ((b :: bs).drop k) =
          lossyChars n ((b :: bs).drop k) := fun k hk => by
        apply ih
        · rw [length_drop, length_cons] at *
          omega
        · rw [length_drop, length_cons] at *
          omega
      rw [lossyChars, lossyChars]
      · cases decodeChar? (b :: bs) with
        | some c => exact congrArg (c :: ·) (hdrop _ c.utf8Size_pos)
        | none => exact congrArg (Char.ofNat 0xFFFD :: ·) (hdrop _ (invalidLength_pos _))
      · simp
      · simp

/-- The lossy reading of a list of bytes. -/
def lossy (bytes : List UInt8) : List Char := lossyChars bytes.length bytes

theorem lossy_encode (c : Char) (rest : List UInt8) :
    lossy (String.utf8EncodeChar c ++ rest) = c :: lossy rest := by
  have hlength := String.length_utf8EncodeChar c
  have hpos := c.utf8Size_pos
  obtain ⟨b, bs, hbytes⟩ := exists_cons_of_ne_nil (utf8EncodeChar_ne_nil c)
  have hdecode := decodeChar?_append c rest
  have hdrop : (String.utf8EncodeChar c ++ rest).drop c.utf8Size = rest := by
    rw [← hlength, drop_left]
  have hfuel : (String.utf8EncodeChar c ++ rest).length = (bs ++ rest).length + 1 := by
    rw [hbytes]
    rfl
  rw [lossy, hfuel]
  rw [hbytes, cons_append] at hdecode hdrop ⊢
  rw [lossyChars, hdecode]
  · dsimp only
    rw [hdrop, lossy, lossyChars_fuel _ le_rfl]
    rw [length_append]
    exact Nat.le_add_left _ _
  · simp

theorem lossy_invalid {bs : List UInt8} (h : decodeChar? (b :: bs) = none) :
    lossy (b :: bs) = Char.ofNat 0xFFFD :: lossy ((b :: bs).drop (invalidLength (b :: bs))) := by
  have hpos := invalidLength_pos (b :: bs)
  rw [lossy, length_cons, lossyChars, h]
  · dsimp only
    rw [lossy, lossyChars_fuel _ le_rfl]
    rw [length_drop, length_cons]
    omega
  · simp

theorem encode_of_append {x b : UInt8} {xs ys rest : List UInt8} (h : b.toNat < 128)
    (hbytes : x :: xs ++ b :: ys = String.utf8EncodeChar c ++ rest) :
    ∃ left, x :: xs = String.utf8EncodeChar c ++ left ∧ rest = left ++ b :: ys := by
  rcases List.append_eq_append_iff.mp hbytes with ⟨bs, henc, hrest⟩ | ⟨left, hleft, hrest⟩
  · cases bs with
    | nil =>
      rw [append_nil] at henc
      exact ⟨[], by rw [henc, append_nil], hrest.symm⟩
    | cons b' bs =>
      rw [cons_append, List.cons.injEq] at hrest
      rw [← hrest.1] at henc
      by_cases hascii : c.toNat < 128
      · have hlength := congrArg List.length henc
        rw [utf8EncodeChar_ascii hascii, length_append] at hlength
        simp only [length_cons, length_nil] at hlength
        omega
      · have hhigh := utf8EncodeChar_high (Nat.le_of_not_lt hascii) b
          (henc ▸ mem_append_right _ mem_cons_self)
        omega
  · exact ⟨left, hleft, hrest⟩

theorem lossy_append_ascii (xs : List UInt8) (h : b.toNat < 128) (ys : List UInt8) :
    lossy (xs ++ b :: ys) = lossy xs ++ Char.ofNat b.toNat :: lossy ys := by
  have hchar : (Char.ofNat b.toNat).toNat = b.toNat :=
    (by decide : ∀ n < 128, (Char.ofNat n).toNat = n) _ h
  have hbyte : [b] = String.utf8EncodeChar (Char.ofNat b.toNat) := by
    rw [utf8EncodeChar_ascii (by rw [hchar]; exact h), hchar, UInt8.ofNat_toNat]
  induction hn : xs.length using Nat.strong_induction_on generalizing xs with
  | _ n ih =>
    cases xs with
    | nil =>
      rw [nil_append, ← singleton_append, hbyte, lossy_encode]
      rfl
    | cons x xs =>
      cases hdecode : decodeChar? (x :: xs ++ b :: ys) with
      | some c =>
        obtain ⟨rest, hbytes⟩ := exists_of_decodeChar? hdecode
        obtain ⟨left, hleft, rfl⟩ := encode_of_append h hbytes
        have hshort : left.length < n := by
          have := congrArg List.length hleft
          have hpos := c.utf8Size_pos
          rw [length_append, String.length_utf8EncodeChar] at this
          omega
        rw [hbytes, lossy_encode, ih left.length hshort left rfl, hleft, lossy_encode,
          cons_append]
      | none =>
        have hnone : decodeChar? (x :: xs) = none := by
          rw [eq_none_iff_forall_ne_some]
          intro c hc
          obtain ⟨rest, hbytes⟩ := exists_of_decodeChar? hc
          rw [hbytes, append_assoc, decodeChar?_append] at hdecode
          cases hdecode
        obtain ⟨hlen, hle⟩ := invalidLength_append x xs h ys
        have hpos := invalidLength_pos (x :: xs)
        rw [cons_append] at hdecode hlen ⊢
        rw [lossy_invalid hdecode, hlen, lossy_invalid hnone, ← cons_append,
          drop_append_of_le_length hle, ih _ _ _ rfl, cons_append]
        rw [length_drop]
        rw [length_cons] at hn hle ⊢
        omega

theorem lossy_nil : lossy [] = [] := rfl

theorem fromUtf8Lossy_eq (bytes : List UInt8) : fromUtf8Lossy bytes = String.ofList (lossy bytes) :=
  rfl

theorem lossy_asBytes_append (s : String) (rest : List UInt8) :
    lossy (asBytes s ++ rest) = s.toList ++ lossy rest := by
  rw [asBytes_eq]
  induction s.toList with
  | nil => rfl
  | cons c cs ih =>
    rw [flatMap_cons, append_assoc, lossy_encode, ih, cons_append]

theorem mem_of_mem_lossy (hc : c.toNat < 128) (h : c ∈ lossy bytes) :
    UInt8.ofNat c.toNat ∈ bytes := by
  induction hn : bytes.length using Nat.strong_induction_on generalizing bytes with
  | _ n ih =>
    cases bytes with
    | nil => cases h
    | cons b bs =>
      cases hdecode : decodeChar? (b :: bs) with
      | some d =>
        obtain ⟨rest, hbytes⟩ := exists_of_decodeChar? hdecode
        rw [hbytes, lossy_encode] at h
        rw [hbytes, mem_append]
        rcases List.mem_cons.mp h with rfl | h
        · left
          rw [utf8EncodeChar_ascii hc]
          exact mem_singleton_self _
        · right
          refine ih rest.length ?_ h rfl
          rw [← hn, hbytes, length_append, String.length_utf8EncodeChar]
          have := d.utf8Size_pos
          omega
      | none =>
        have hpos := invalidLength_pos (b :: bs)
        rw [lossy_invalid hdecode] at h
        rcases List.mem_cons.mp h with rfl | h
        · exact absurd hc (by decide)
        · refine mem_of_mem_drop (ih _ ?_ h rfl)
          rw [length_drop, hn]
          rw [length_cons] at hn
          omega

theorem count_lossy (hc : c.toNat < 128) (bytes : List UInt8) :
    (lossy bytes).count c = bytes.count (UInt8.ofNat c.toNat) := by
  have hbyte : (UInt8.ofNat c.toNat).toNat = c.toNat := by
    simp only [UInt8.toNat_ofNat']
    omega
  induction hn : bytes.length using Nat.strong_induction_on generalizing bytes with
  | _ n ih =>
    by_cases hmem : UInt8.ofNat c.toNat ∈ bytes
    · obtain ⟨front, back, rfl⟩ := append_of_mem hmem
      rw [length_append, length_cons] at hn
      rw [lossy_append_ascii front (by rw [hbyte]; exact hc), hbyte, Char.ofNat_toNat,
        count_append, count_append, count_cons_self, count_cons_self,
        ih front.length (by omega) front rfl, ih back.length (by omega) back rfl]
    · rw [List.count_eq_zero.mpr hmem, count_eq_zero]
      exact fun h => hmem (mem_of_mem_lossy hc h)

end GenieClaw.Library.Text
