import GenieClaw.Library.Digits

/-!
# Internet addresses in text

`IpAddr` of the source language's standard library: the text form of an IPv4 and of an
IPv6 address, with a `::` for one run of zero groups and an IPv4 address in the last two
groups, and the loopback addresses.
-/

namespace GenieClaw.Library

open Text List Option

inductive IpAddr where
  /-- The four octets. -/
  | v4 (a b c d : Nat)
  /-- The eight groups of 16 bits. -/
  | v6 (groups : List Nat)
deriving DecidableEq, Repr

/-- `127.0.0.0/8` and `::1`. -/
def IpAddr.isLoopback : IpAddr → Bool
  | .v4 a _ _ _ => a == 127
  | .v6 groups => groups == [0, 0, 0, 0, 0, 0, 0, 1]

namespace IpAddr

/-- A parser over the remaining characters. -/
abbrev Reader (α : Type) := List Char → Option (α × List Char)

/-- `Parser::read_number` with a limit on the digits. -/
def readNumber (radix bits maxDigits : Nat) (allowZeroPrefix : Bool) : Reader Nat := fun cs =>
  let digits := cs.takeWhile fun c => (digitOf radix c).isSome
  if digits = [] ∨ maxDigits < digits.length then none
  else if !allowZeroPrefix && cs.head? == some '0' && decide (1 < digits.length) then none
  else
    ((parseDigits radix 0 digits).filter fun n => n < 2 ^ bits).map
      fun n => (n, cs.drop digits.length)

/-- `Parser::read_separator`: every element but the first has the separator before it. -/
def readSeparated {α : Type} (sep : Char) (first : Bool) (read : Reader α) : Reader α := fun cs =>
  if first then read cs
  else
    match cs with
    | [] => none
    | c :: rest => if c = sep then read rest else none

def readOctet (first : Bool) : Reader Nat := readSeparated '.' first (readNumber 10 8 3 false)

/-- `Parser::read_ipv4_addr`. -/
def readIpv4 : Reader (Nat × Nat × Nat × Nat) := fun cs => do
  let (a, cs) ← readOctet true cs
  let (b, cs) ← readOctet false cs
  let (c, cs) ← readOctet false cs
  let (d, cs) ← readOctet false cs
  return ((a, b, c, d), cs)

/-- `read_groups`, for the slots that are left: the groups read, whether an IPv4 address
was the last of it, and the characters after them. -/
def readGroups : Nat → Bool → List Char → List Nat × Bool × List Char
  | 0, _, cs => ([], false, cs)
  | slots + 1, first, cs =>
    match if 0 < slots then readSeparated ':' first readIpv4 cs else none with
    | some ((a, b, c, d), rest) => ([a * 256 + b, c * 256 + d], true, rest)
    | none =>
      match readSeparated ':' first (readNumber 16 16 4 true) cs with
      | some (group, rest) =>
        let (groups, embedded, rest) := readGroups slots false rest
        (group :: groups, embedded, rest)
      | none => ([], false, cs)

def afterColons : List Char → Option (List Char)
  | ':' :: ':' :: rest => some rest
  | _ => none

/-- `Parser::read_ipv6_addr`. -/
def readIpv6 : Reader (List Nat) := fun cs =>
  let (head, headV4, rest) := readGroups 8 true cs
  if head.length = 8 then some (head, rest)
  else if headV4 then none
  else
    (afterColons rest).map fun rest =>
      let (tail, _, rest) := readGroups (8 - (head.length + 1)) true rest
      (head ++ List.replicate (8 - head.length - tail.length) 0 ++ tail, rest)

def readIp : Reader IpAddr := fun cs =>
  match readIpv4 cs with
  | some ((a, b, c, d), rest) => some (.v4 a b c d, rest)
  | none => (readIpv6 cs).map fun read => (.v6 read.1, read.2)

/-- `str::parse::<IpAddr>`: the whole text is the address. -/
def parseIp (cs : List Char) : Option IpAddr :=
  match readIp cs with
  | some (ip, []) => some ip
  | _ => none

/-! ## The characters of an address -/

/-- Digits of a number in base 16 at most, and the two separators. -/
def IpChar (c : Char) : Prop := (digitOf 16 c).isSome ∨ c = '.' ∨ c = ':'

instance (c : Char) : Decidable (IpChar c) := inferInstanceAs (Decidable (_ ∨ _ ∨ _))

/-- What a reader takes off the front are characters of an address. -/
def ReadsIpChars {α : Type} (read : Reader α) : Prop :=
  ∀ ⦃cs : List Char⦄ ⦃out : α × List Char⦄, read cs = some out →
    ∃ used, cs = used ++ out.2 ∧ ∀ c ∈ used, IpChar c

theorem char_le_iff (a c : Char) : a ≤ c ↔ a.toNat ≤ c.toNat := UInt32.le_iff_toNat_le

theorem ipChar_bounds {c : Char} (h : IpChar c) : 46 ≤ c.toNat ∧ c.toNat ≤ 102 := by
  rcases h with h | rfl | rfl
  · simp only [digitOf, char_le_iff, Char.reduceToNat] at h
    split_ifs at h <;> first | omega | simp at h
  · decide
  · decide

theorem isSome_digitOf_mono {c : Char} (h : (digitOf 10 c).isSome) : (digitOf 16 c).isSome := by
  unfold digitOf at h ⊢
  dsimp only at h ⊢
  split_ifs at h ⊢ <;> first | rfl | (exfalso; simp at h; done) | (exfalso; omega)

theorem readNumber_chars {radix bits maxDigits : Nat} {allowZeroPrefix : Bool}
    (hradix : radix = 10 ∨ radix = 16) :
    ReadsIpChars (readNumber radix bits maxDigits allowZeroPrefix) := by
  intro cs out h
  simp only [readNumber] at h
  split_ifs at h
  obtain ⟨n, -, rfl⟩ := Option.map_eq_some_iff.mp h
  refine ⟨cs.takeWhile fun c => (digitOf radix c).isSome, ?_, ?_⟩
  · exact (List.prefix_iff_eq_append.mp (List.takeWhile_prefix _)).symm
  · intro c hc
    have hdigit := mem_takeWhile_imp hc
    rcases hradix with rfl | rfl
    · exact .inl (isSome_digitOf_mono hdigit)
    · exact .inl hdigit

theorem readSeparated_chars {α : Type} {sep : Char} {first : Bool} {read : Reader α}
    (hsep : IpChar sep) (hread : ReadsIpChars read) :
    ReadsIpChars (readSeparated sep first read) := by
  intro cs out h
  unfold readSeparated at h
  split_ifs at h
  · exact hread h
  · cases cs with
    | nil => cases h
    | cons c rest =>
      dsimp only at h
      split_ifs at h with hc
      obtain ⟨used, rfl, hused⟩ := hread h
      refine ⟨c :: used, rfl, ?_⟩
      intro x hx
      rcases List.mem_cons.mp hx with rfl | hx
      · exact hc ▸ hsep
      · exact hused x hx

theorem ipChar_dot : IpChar '.' := .inr (.inl rfl)

theorem ipChar_colon : IpChar ':' := .inr (.inr rfl)

theorem readOctet_chars (first : Bool) : ReadsIpChars (readOctet first) :=
  readSeparated_chars ipChar_dot (readNumber_chars (.inl rfl))

theorem readIpv4_chars : ReadsIpChars readIpv4 := by
  intro cs out h
  simp only [readIpv4, bind_eq_bind, bind_eq_some_iff, Option.pure_def,
    Option.some.injEq] at h
  obtain ⟨⟨a, r₁⟩, h₁, ⟨b, r₂⟩, h₂, ⟨c, r₃⟩, h₃, ⟨d, r₄⟩, h₄, rfl⟩ := h
  obtain ⟨u₁, rfl, hu₁⟩ := readOctet_chars _ h₁
  obtain ⟨u₂, hr₁, hu₂⟩ := readOctet_chars _ h₂
  obtain ⟨u₃, hr₂, hu₃⟩ := readOctet_chars _ h₃
  obtain ⟨u₄, hr₃, hu₄⟩ := readOctet_chars _ h₄
  dsimp only at hr₁ hr₂ hr₃
  refine ⟨u₁ ++ u₂ ++ u₃ ++ u₄, by simp [hr₁, hr₂, hr₃], ?_⟩
  simp only [mem_append]
  rintro x (((hx | hx) | hx) | hx)
  · exact hu₁ x hx
  · exact hu₂ x hx
  · exact hu₃ x hx
  · exact hu₄ x hx

theorem readGroups_chars (slots : Nat) (first : Bool) (cs : List Char) :
    ∃ used, cs = used ++ (readGroups slots first cs).2.2 ∧ ∀ c ∈ used, IpChar c := by
  induction slots generalizing first cs with
  | zero => exact ⟨[], rfl, by simp⟩
  | succ slots ih =>
    rw [readGroups]
    split
    · rename_i a b c d rest hv4
      split_ifs at hv4
      exact readSeparated_chars ipChar_colon readIpv4_chars hv4
    · split
      · rename_i group rest hgroup
        obtain ⟨u, rfl, hu⟩ := readSeparated_chars ipChar_colon (readNumber_chars (.inr rfl)) hgroup
        obtain ⟨v, hv, hused⟩ := ih false rest
        refine ⟨u ++ v, by rw [append_assoc, ← hv], ?_⟩
        intro x hx
        rcases List.mem_append.mp hx with hx | hx
        · exact hu x hx
        · exact hused x hx
      · exact ⟨[], rfl, by simp⟩

theorem afterColons_eq_some {cs rest : List Char} (h : afterColons cs = some rest) :
    cs = ':' :: ':' :: rest := by
  unfold afterColons at h
  split at h
  · cases h
    rfl
  · cases h

theorem readIpv6_chars : ReadsIpChars readIpv6 := by
  intro cs out h
  obtain ⟨u, hu, hchars⟩ := readGroups_chars 8 true cs
  simp only [readIpv6] at h
  split_ifs at h
  · cases h
    exact ⟨u, hu, hchars⟩
  · obtain ⟨rest, hcolons, rfl⟩ := Option.map_eq_some_iff.mp h
    obtain ⟨v, hv, hused⟩ := readGroups_chars (8 - ((readGroups 8 true cs).1.length + 1)) true rest
    refine ⟨u ++ [':', ':'] ++ v, ?_, ?_⟩
    · calc cs = u ++ (':' :: ':' :: rest) := by rw [← afterColons_eq_some hcolons]; exact hu
        _ = u ++ [':', ':'] ++ rest := by simp
        _ = _ := by rw [append_assoc _ v, ← hv]
    · simp only [mem_append]
      rintro x ((hx | hx) | hx)
      · exact hchars x hx
      · have : x = ':' := by simpa using hx
        exact this ▸ ipChar_colon
      · exact hused x hx

theorem parseIp_chars {cs : List Char} {ip : IpAddr} (h : parseIp cs = some ip) :
    cs ≠ [] ∧ ∀ c ∈ cs, IpChar c := by
  have hread : ∃ used, cs = used ++ [] ∧ ∀ c ∈ used, IpChar c := by
    unfold parseIp readIp at h
    cases hv4 : readIpv4 cs with
    | some out =>
      obtain ⟨⟨a, b, c, d⟩, rest⟩ := out
      rw [hv4] at h
      cases rest with
      | nil => exact readIpv4_chars hv4
      | cons x rest => cases h
    | none =>
      rw [hv4] at h
      cases hv6 : readIpv6 cs with
      | some out =>
        obtain ⟨groups, rest⟩ := out
        rw [hv6] at h
        cases rest with
        | nil => exact readIpv6_chars hv6
        | cons x rest => cases h
      | none =>
        rw [hv6] at h
        cases h
  obtain ⟨used, rfl, hused⟩ := hread
  rw [append_nil] at h ⊢
  refine ⟨?_, hused⟩
  rintro rfl
  revert h
  have : parseIp [] = none := by decide
  rw [this]
  simp

/-! ## Colons -/

theorem readSeparated_eq_none {α : Type} {sep : Char} {read : Reader α} {cs : List Char}
    (h : sep ∉ cs) : readSeparated sep false read cs = none := by
  unfold readSeparated
  rw [if_neg Bool.false_ne_true]
  cases cs with
  | nil => rfl
  | cons c rest =>
    rw [mem_cons, not_or] at h
    exact if_neg (Ne.symm h.1)

theorem readGroups_of_no_colon {slots : Nat} {cs : List Char} (h : ':' ∉ cs) :
    readGroups slots false cs = ([], false, cs) := by
  cases slots with
  | zero => rfl
  | succ slots =>
    rw [readGroups, readSeparated_eq_none h, readSeparated_eq_none h]
    simp

theorem afterColons_of_no_colon {cs : List Char} (h : ':' ∉ cs) : afterColons cs = none := by
  cases hcs : afterColons cs with
  | none => rfl
  | some rest =>
    rw [afterColons_eq_some hcs] at h
    exact absurd mem_cons_self h

theorem colon_mem_of_v6 {cs : List Char} {groups : List Nat}
    (h : parseIp cs = some (.v6 groups)) : ':' ∈ cs := by
  by_contra hcolon
  have hsub : ∀ {used rest : List Char}, cs = used ++ rest → ':' ∉ rest := by
    intro used rest hcs hmem
    rw [hcs] at hcolon
    exact hcolon (mem_append_right _ hmem)
  have hnone : readIpv6 cs = none := by
    simp only [readIpv6]
    rw [readGroups]
    split
    · simp
    · split
      · rename_i group rest hgroup
        obtain ⟨used, hcs, -⟩ :=
          readSeparated_chars ipChar_colon (readNumber_chars (.inr rfl)) hgroup
        have hrest := hsub hcs
        simp [readGroups_of_no_colon hrest, afterColons_of_no_colon hrest]
      · simp [afterColons_of_no_colon hcolon]
  unfold parseIp readIp at h
  rw [hnone] at h
  cases hv4 : readIpv4 cs with
  | none =>
    rw [hv4] at h
    cases h
  | some out =>
    obtain ⟨⟨a, b, c, d⟩, rest⟩ := out
    rw [hv4] at h
    cases rest <;> cases h

/-! ## The case of the digits -/

/-- The reader takes no notice of case. -/
def IgnoresCase {α : Type} (read : Reader α) : Prop :=
  ∀ cs, read (cs.map Char.toLower) = (read cs).map fun out => (out.1, out.2.map Char.toLower)

theorem digitOf_toLower (radix : Nat) (c : Char) : digitOf radix c.toLower = digitOf radix c := by
  by_cases hupper : 65 ≤ c.toNat ∧ c.toNat ≤ 90
  · have hlower := toNat_toLower c
    rw [if_pos hupper] at hlower
    simp only [digitOf, char_le_iff, Char.reduceToNat, hlower]
    have hsmall : (if 48 ≤ c.toNat + 32 ∧ c.toNat + 32 ≤ 57 then c.toNat + 32 - 48
        else if 97 ≤ c.toNat + 32 ∧ c.toNat + 32 ≤ 122 then c.toNat + 32 - 87
        else if 65 ≤ c.toNat + 32 ∧ c.toNat + 32 ≤ 90 then c.toNat + 32 - 55 else radix) =
        c.toNat + 32 - 87 := by
      rw [if_neg (by omega), if_pos (by omega)]
    have hcapital : (if 48 ≤ c.toNat ∧ c.toNat ≤ 57 then c.toNat - 48
        else if 97 ≤ c.toNat ∧ c.toNat ≤ 122 then c.toNat - 87
        else if 65 ≤ c.toNat ∧ c.toNat ≤ 90 then c.toNat - 55 else radix) =
        c.toNat + 32 - 87 := by
      rw [if_neg (by omega), if_neg (by omega), if_pos (by omega)]
      omega
    rw [hsmall, hcapital]
  · rw [toLower_eq_self hupper]

theorem toLower_eq_iff {sep c : Char} (hsep : ¬ (97 ≤ sep.toNat ∧ sep.toNat ≤ 122))
    (hfixed : ¬ (65 ≤ sep.toNat ∧ sep.toNat ≤ 90)) : c.toLower = sep ↔ c = sep := by
  rw [← Char.toNat_inj, ← Char.toNat_inj, toNat_toLower]
  split <;> omega

theorem eq_of_map_toLower {xs ys : List Char} (h : xs.map Char.toLower = ys)
    (hys : ∀ c ∈ ys, ¬ (97 ≤ c.toNat ∧ c.toNat ≤ 122) ∧ ¬ (65 ≤ c.toNat ∧ c.toNat ≤ 90)) :
    xs = ys := by
  induction xs generalizing ys with
  | nil => exact h
  | cons x xs ih =>
    subst h
    have hx := hys x.toLower mem_cons_self
    have hself : x = x.toLower := (toLower_eq_iff hx.1 hx.2).mp rfl
    rw [map_cons, ← hself, ← ih rfl fun c hc => hys c (mem_cons_of_mem _ hc)]

theorem parseDigits_toLower (radix n : Nat) (cs : List Char) :
    parseDigits radix n (cs.map Char.toLower) = parseDigits radix n cs := by
  induction cs generalizing n with
  | nil => rfl
  | cons c cs ih =>
    rw [map_cons, parseDigits, parseDigits, digitOf_toLower radix]
    simp only [ih]

theorem readNumber_toLower (radix bits maxDigits : Nat) (allowZeroPrefix : Bool) :
    IgnoresCase (readNumber radix bits maxDigits allowZeroPrefix) := by
  intro cs
  have hdigits : (cs.map Char.toLower).takeWhile (fun c => (digitOf radix c).isSome) =
      (cs.takeWhile fun c => (digitOf radix c).isSome).map Char.toLower := by
    rw [takeWhile_map]
    simp only [Function.comp_def, digitOf_toLower radix]
  have hhead : ((cs.map Char.toLower).head? == some '0') = (cs.head? == some '0') := by
    rw [head?_map, Bool.eq_iff_iff, beq_iff_eq, beq_iff_eq, map_eq_some_iff]
    have hzero : ∀ c : Char, c.toLower = '0' ↔ c = '0' :=
      fun c => toLower_eq_iff (by decide) (by decide)
    simp [hzero]
  simp only [readNumber, hdigits, hhead, length_map, map_eq_nil_iff,
    parseDigits_toLower radix]
  split_ifs
  · rfl
  · rfl
  · rw [Option.map_map, ← map_drop]
    rfl

theorem readSeparated_toLower {α : Type} {sep : Char} {first : Bool} {read : Reader α}
    (hsep : sep = '.' ∨ sep = ':') (hread : IgnoresCase read) :
    IgnoresCase (readSeparated sep first read) := by
  intro cs
  unfold readSeparated
  split_ifs
  · exact hread cs
  · cases cs with
    | nil => rfl
    | cons c rest =>
      have hc : c.toLower = sep ↔ c = sep := by
        rcases hsep with rfl | rfl <;> exact toLower_eq_iff (by decide) (by decide)
      simp only [map_cons, hc]
      split_ifs
      · exact hread rest
      · rfl

theorem readOctet_toLower (first : Bool) : IgnoresCase (readOctet first) :=
  readSeparated_toLower (.inl rfl) (readNumber_toLower 10 8 3 false)

theorem readIpv4_toLower : IgnoresCase readIpv4 := by
  intro cs
  simp only [readIpv4, readOctet_toLower _ _, bind_eq_bind, bind_map,
    Option.map_bind, Function.comp_def, Option.pure_def, map_some]

theorem readGroups_toLower (slots : Nat) (first : Bool) (cs : List Char) :
    readGroups slots first (cs.map Char.toLower) =
      ((readGroups slots first cs).1, (readGroups slots first cs).2.1,
        (readGroups slots first cs).2.2.map Char.toLower) := by
  induction slots generalizing first cs with
  | zero => rfl
  | succ slots ih =>
    have hv4 : (if 0 < slots then readSeparated ':' first readIpv4 (cs.map Char.toLower) else none)
        = (if 0 < slots then readSeparated ':' first readIpv4 cs else none).map
            fun out => (out.1, out.2.map Char.toLower) := by
      rw [readSeparated_toLower (.inr rfl) readIpv4_toLower cs]
      split_ifs <;> rfl
    have hgroup := @readSeparated_toLower _ ':' first _ (.inr rfl)
      (readNumber_toLower 16 16 4 true) cs
    rw [readGroups, readGroups, hv4, hgroup]
    cases if 0 < slots then readSeparated ':' first readIpv4 cs else none with
    | some out => rfl
    | none =>
      cases readSeparated ':' first (readNumber 16 16 4 true) cs with
      | some out =>
        obtain ⟨group, rest⟩ := out
        simp only [map_some, map_none, ih]
      | none => rfl

theorem afterColons_toLower (cs : List Char) :
    afterColons (cs.map Char.toLower) = (afterColons cs).map fun rest => rest.map Char.toLower := by
  have hcolon : ∀ c : Char, c.toLower = ':' ↔ c = ':' :=
    fun c => toLower_eq_iff (by decide) (by decide)
  cases hcs : afterColons cs with
  | some rest =>
    rw [afterColons_eq_some hcs]
    rfl
  | none =>
    cases hlower : afterColons (cs.map Char.toLower) with
    | none => rfl
    | some rest =>
      have heq := afterColons_eq_some hlower
      match cs, heq with
      | [c], heq => simp at heq
      | c :: d :: cs, heq =>
        simp only [map_cons, List.cons.injEq, hcolon] at heq
        obtain ⟨rfl, rfl, -⟩ := heq
        cases hcs

theorem readIpv6_toLower : IgnoresCase readIpv6 := by
  intro cs
  simp only [readIpv6, readGroups_toLower, afterColons_toLower]
  split_ifs
  · rfl
  · rfl
  · rw [Option.map_map, Option.map_map]
    simp only [Function.comp_def, readGroups_toLower]

theorem parseIp_toLower (cs : List Char) : parseIp (cs.map Char.toLower) = parseIp cs := by
  have hread : IgnoresCase readIp := by
    intro cs
    unfold readIp
    rw [readIpv4_toLower, readIpv6_toLower]
    cases readIpv4 cs with
    | some out => rfl
    | none =>
      cases readIpv6 cs with
      | some out => rfl
      | none => rfl
  unfold parseIp
  rw [hread]
  cases readIp cs with
  | none => rfl
  | some out =>
    obtain ⟨ip, rest⟩ := out
    cases rest <;> rfl

example : parseIp "127.0.0.1".toList = some (.v4 127 0 0 1) := by decide

example : parseIp "::ffff:1.2.3.4".toList = some (.v6 [0, 0, 0, 0, 0, 65535, 258, 772]) := by
  decide +kernel

end IpAddr

end GenieClaw.Library
