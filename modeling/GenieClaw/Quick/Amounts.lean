import GenieClaw.Quick.Calculation
import GenieClaw.Quick.Cardinals

/-!
# How the calculator reads a number

A number is written in digits or as a cardinal. In digits it is one token, which no other number
reaches into; a cardinal has to stand apart from the numbers and articles around it.
-/

namespace GenieClaw.Quick

open Library Library.Text List Option Bool

/-! ## Digits -/

theorem digitOf_isDigit {c : Char} (h : c.isDigit = true) :
    digitOf 10 c = some (c.toNat - '0'.toNat) := by
  have hrange : '0' ≤ c ∧ c ≤ '9' := Char.isDigit_iff_toNat.mp h
  have hhigh : c.toNat ≤ 57 := hrange.2
  unfold digitOf
  dsimp only
  rw [if_pos hrange]
  exact if_pos (show c.toNat - 48 < 10 by omega)

theorem parseDigits_isDigit {digits : List Char} (h : ∀ c ∈ digits, c.isDigit = true) (n : Nat) :
    parseDigits 10 n digits =
      some (digits.foldl (fun n c => 10 * n + (c.toNat - '0'.toNat)) n) := by
  induction digits generalizing n with
  | nil => rfl
  | cons c digits ih =>
    rw [parseDigits, digitOf_isDigit (h c mem_cons_self), bind_some,
      ih fun d hd => h d (mem_cons_of_mem c hd), foldl_cons, Nat.mul_comm 10]

theorem digitsValue_toDigits (n : Nat) : Tools.digitsValue (Nat.toDigits 10 n) = n := by
  have hdigits : ∀ c ∈ Nat.toDigits 10 n, c.isDigit = true := fun _ => isDigit_toDigits
  have h := parseDigits_isDigit hdigits 0
  rw [parseDigits_toDigits] at h
  exact (Option.some.inj h).symm

variable {n : Nat} {word : String} {cs : List Char}

section

variable {token : String} {v : ℚ}

theorem ne_of_numeral (h : Tools.Numeral token.toList v)
    (hword : word.toList.head?.any Tools.isNumeric = false) : token ≠ word := by
  rintro rfl
  cases hcs : token.toList with
  | nil => exact h.ne_nil hcs
  | cons c cs =>
    rw [hcs] at hword h
    rw [head?_cons, any_some, h.isNumeric c mem_cons_self] at hword
    cases hword

theorem notMem_of_numeral (h : Tools.Numeral token.toList v) {words : List String}
    (hwords : words.all (fun word => !word.toList.head?.any Tools.isNumeric) = true) :
    token ∉ words := by
  intro hmem
  have hword := List.all_eq_true.mp hwords token hmem
  rw [not_eq_true'] at hword
  exact ne_of_numeral h hword rfl

theorem not_cardinal_of_numeral (h : Tools.Numeral token.toList v) : cardinalWord token = none := by
  unfold cardinalWord
  rw [lookup_eq_none_iff]
  intro entry hentry
  rw [bne_iff_ne]
  rintro rfl
  have hmem := List.mem_map_of_mem (f := Prod.fst) hentry
  exact notMem_of_numeral h (by decide) hmem

theorem parseUnsigned_numeral (h : Tools.Numeral token.toList v)
    (hparse : parseUnsigned 10 64 token = some n) : (n : ℚ) = v := by
  have hplus : '+' ∉ token.toList := fun hc => absurd (h.isNumeric _ hc) (by decide)
  unfold parseUnsigned at hparse
  rw [withoutPlus_of_notMem hplus, if_neg h.ne_nil, filter_eq_some_iff] at hparse
  obtain ⟨hparse, -⟩ := hparse
  generalize token.toList = cs at h hparse
  cases h with
  | whole hne hdigits =>
    rw [parseDigits_isDigit hdigits] at hparse
    exact congrArg Nat.cast (Option.some.inj hparse).symm
  | decimal hne hdigits hfraction =>
    rw [parseDigits_eq_none ⟨'.', mem_append_right _ mem_cons_self, by decide⟩] at hparse
    cases hparse

theorem unsignedDecimal_numeral (h : Tools.Numeral cs v) : unsignedDecimal cs = some v := by
  cases h with
  | whole hne hdigits =>
    obtain ⟨htake, hdrop⟩ := @Tools.span_append _ _ [] hdigits (by simp)
    rw [append_nil] at htake hdrop
    unfold unsignedDecimal
    simp [htake, hdrop, hne, decimalExponent]
  | @decimal digits fraction hne hdigits hfraction =>
    obtain ⟨htake, hdrop⟩ :=
      @Tools.span_append _ _ ('.' :: fraction) hdigits (by rintro c ⟨⟩; decide)
    obtain ⟨htake', hdrop'⟩ := @Tools.span_append _ _ [] hfraction (by simp)
    rw [append_nil] at htake' hdrop'
    unfold unsignedDecimal
    simp only [htake, hdrop, head?_cons, if_true, tail_cons, htake', hdrop',
      decimalExponent, map_some]
    rw [if_neg hne, zero_sub, zpow_neg, zpow_natCast, div_eq_mul_inv]

theorem decimalValue_numeral (h : Tools.Numeral cs v) : decimalValue cs = some v := by
  unfold decimalValue
  split
  · exact absurd (h.isNumeric '-' mem_cons_self) (by decide)
  · exact absurd (h.isNumeric '+' mem_cons_self) (by decide)
  · exact unsignedDecimal_numeral h

theorem rdropWhile_numeral (h : Tools.Numeral cs v) {c : Char} (hc : Tools.isNumeric c = false) :
    cs.rdropWhile (fun d => d == c) = cs := by
  rw [rdropWhile_eq_self_iff]
  intro hne hlast
  have hnumeric := h.isNumeric _ (getLast_mem hne)
  rw [eq_of_beq hlast, hc] at hnumeric
  cases hnumeric

variable {doubles : Doubles} {m : ℚ}

theorem parseDecimalToken_numeral (h : Tools.Numeral token.toList v)
    (hm : doubles.nearest v = some m) : parseDecimalToken doubles token = some m := by
  unfold parseDecimalToken
  rw [rdropWhile_numeral h (by decide), rdropWhile_numeral h (by decide)]
  dsimp only
  rw [decimalValue_numeral h, bind_some, hm, some_or]

theorem parseSpokenNumber_numeral (h : Tools.Numeral token.toList v)
    (hm : doubles.nearest v = some m) {tokens rest : List String} {start : Nat}
    (htokens : tokens.drop start = token :: rest) :
    parseSpokenNumber tokens start = none ∨
      ∃ n, parseSpokenNumber tokens start = some (n, start + 1) ∧ doubles.ofCount n = m := by
  cases hparse : parseUnsigned 10 64 token with
  | none => exact Or.inl (parseSpokenNumber_eq_none (not_cardinal_of_numeral h) hparse htokens)
  | some n =>
    refine Or.inr ⟨n, ?_, ?_⟩
    · unfold parseSpokenNumber
      rw [← head?_drop, htokens, head?_cons, bind_some, hparse]
    · unfold Doubles.ofCount
      rw [parseUnsigned_numeral h hparse, hm, getD_some]

end

/-! ## Amounts -/

/-- A number in digits or in words. -/
inductive Amount : List String → ℚ → Prop
  | digits {token : String} {v : ℚ} (h : Tools.Numeral token.toList v) : Amount [token] v
  | words {words : List String} {n : Nat} (h : Cardinal words n) : Amount words n

theorem findSome?_range {α : Type} {f : Nat → Option α} {k n : Nat} {found : α}
    (hbefore : ∀ i < k, f i = none) (hk : k < n) (hfound : f k = some found) :
    (List.range n).findSome? f = some found := by
  obtain ⟨more, rfl⟩ := Nat.exists_eq_add_of_lt hk
  have hnone : (List.range k).findSome? f = none :=
    List.findSome?_eq_none_iff.mpr fun i hi => hbefore i (List.mem_range.mp hi)
  rw [Nat.add_assoc, range_add, findSome?_append, hnone, none_or,
    range_succ_eq_map, map_cons, findSome?_cons, Nat.add_zero, hfound]

section

variable {doubles : Doubles} {front rest words : List String} {v m : ℚ}

theorem calcNumberEndingAt_numeral {token : String} (h : Tools.Numeral token.toList v)
    (hm : doubles.nearest v = some m) :
    calcNumberEndingAt doubles (front ++ token :: rest) (front.length + 1) = some m := by
  have hword := not_cardinal_of_numeral h
  have hand : token ≠ "and" := ne_of_numeral h (by decide)
  have hbefore : ∀ start < front.length,
      ((parseSpokenNumber (front ++ token :: rest) start).bind fun spoken =>
        if spoken.2 = front.length + 1 then some (doubles.ofCount spoken.1) else none) = none := by
    intro start hstart
    refine Option.bind_eq_none_iff.mpr fun spoken hparse => if_neg ?_
    have hdrop : (front ++ token :: rest).drop start = front.drop start ++ token :: rest :=
      drop_append_of_le_length (Nat.le_of_lt hstart)
    have hstop := parseSpokenNumber_stops hword (fun hlink => absurd hlink hand) hdrop hparse
    rw [length_drop] at hstop
    omega
  have hhere : (front ++ token :: rest).drop front.length = token :: rest := drop_left
  unfold calcNumberEndingAt
  rw [if_neg (Nat.succ_ne_zero _), Nat.add_sub_cancel, ← head?_drop, hhere, head?_cons,
    bind_some, parseDecimalToken_numeral h hm]
  rcases parseSpokenNumber_numeral h hm hhere with hnone | ⟨n, hparse, hcount⟩
  · rw [List.findSome?_eq_none_iff.mpr, none_or]
    intro start hstart
    rcases Nat.lt_or_ge start front.length with hlt | hge
    · exact hbefore start hlt
    · have heq : start = front.length := by
        have := List.mem_range.mp hstart
        omega
      rw [heq, hnone, bind_none]
  · have hfound := findSome?_range hbefore (Nat.lt_succ_self _)
      (by rw [hparse, bind_some, if_pos rfl, hcount])
    rw [hfound, some_or]

theorem calcNumberEndingAt_cardinal (h : Cardinal words n) (hfront : Detached front)
    (hrest : goesOn rest = false) :
    calcNumberEndingAt doubles (front ++ (words ++ rest)) (front.length + words.length) =
      some (doubles.ofCount n) := by
  have hpos : 0 < words.length := List.length_pos_iff.mpr h.ne_nil
  have hhere : (front ++ (words ++ rest)).drop front.length = words ++ rest := drop_left
  unfold calcNumberEndingAt
  rw [if_neg (by omega), @findSome?_range _ _ front.length _ (doubles.ofCount n),
    some_or]
  · intro start hstart
    refine Option.bind_eq_none_iff.mpr fun spoken hparse => if_neg ?_
    have hstop := hfront.stops hstart rfl hparse
    omega
  · omega
  · rw [h.parse hhere hrest, bind_some, if_pos rfl]

/-! ## Behind an article -/

/-- The article begins a cardinal with one of the multipliers behind it. -/
def MultiplierNext (words : List String) : Prop :=
  ∃ word ∈ ["hundred", "thousand"], ∃ more, words = "a" :: word :: more

theorem UnderThousand.multiplierNext (h : UnderThousand words n) (ha : words.head? = some "a") :
    MultiplierNext words := by
  have hname : ∀ entry ∈ digitNames ++ teenNames ++ tenNames, entry.1 ≠ "a" := by decide
  cases h with
  | under h =>
    cases h with
    | single hmem => exact absurd (Option.some.inj ha) (hname _ hmem)
    | compound hten hdigit =>
      exact absurd (Option.some.inj ha) (hname _ (mem_append_right _ hten))
  | hundreds h =>
    cases ha
    exact ⟨"hundred", by decide, [], rfl⟩
  | more h hlink hrest =>
    cases ha
    exact ⟨"hundred", by decide, _, rfl⟩

theorem Thousands.multiplierNext (h : Thousands words n) (more : List String)
    (ha : words.head? = some "a") : MultiplierNext (words ++ "thousand" :: more) := by
  cases h with
  | article => exact ⟨"thousand", by decide, more, rfl⟩
  | number h =>
    obtain ⟨word, hword, rest, rfl⟩ := h.multiplierNext ha
    exact ⟨word, hword, rest ++ "thousand" :: more, rfl⟩

theorem Thousands.ne_nil (h : Thousands words n) : words ≠ [] := by
  rintro rfl
  obtain ⟨word, -, hhead⟩ := h.leads
  cases hhead

theorem Cardinal.multiplierNext (h : Cardinal words n) (ha : words.head? = some "a") :
    MultiplierNext words := by
  cases h with
  | zero => exact absurd (Option.some.inj ha) (by decide)
  | under h => exact h.multiplierNext ha
  | thousands h =>
    rw [head?_append_of_ne_nil _ h.ne_nil] at ha
    exact h.multiplierNext [] ha
  | more h hlink hrest =>
    rw [head?_append_of_ne_nil _ h.ne_nil] at ha
    exact h.multiplierNext _ ha

theorem spokenLoop_multiplier (hword : word ∈ ["hundred", "thousand"]) (index : Nat) :
    spokenLoop { index } (word :: rest) =
      spokenLoop { group := 1, index, matched := true } (word :: rest) := by
  have hhundred : cardinalWord "hundred" = some .hundred := by decide
  have hthousand : cardinalWord "thousand" = some .thousand := by decide
  rcases List.mem_pair.mp hword with rfl | rfl
  · rw [spokenLoop_word hhundred, spokenLoop_word hhundred]
    rfl
  · rw [spokenLoop_word hthousand, spokenLoop_word hthousand]
    rfl

theorem Cardinal.parse_behind_article (h : Cardinal ("a" :: words) n) {tokens : List String}
    {start : Nat} (htokens : tokens.drop (start + 1) = words ++ rest)
    (hrest : goesOn rest = false) :
    parseSpokenNumber tokens (start + 1) = some (n, start + 1 + words.length) := by
  obtain ⟨word, hword, more, heq⟩ := h.multiplierNext rfl
  obtain rfl := (List.cons.inj heq).2
  have hdigits : ∀ word ∈ ["hundred", "thousand"], parseUnsigned 10 64 word = none := by decide
  have ha : cardinalWord "a" = some (.value 1) := by decide
  obtain ⟨total, group, hsum, hlt, hread⟩ := h.read start
  have hloop := hread rest
  rw [cons_append, spokenLoop_word ha, cons_append] at hloop
  rw [cons_append] at htokens
  unfold parseSpokenNumber
  rw [← head?_drop, htokens, head?_cons, bind_some, hdigits word hword]
  dsimp only
  have hone : ({ index := start } : SpokenState).read (.value 1) =
      { group := 1, index := start + 1, matched := true } := rfl
  rw [hone] at hloop
  rw [spokenLoop_multiplier hword, hloop, spokenLoop_end hrest, if_pos rfl]
  dsimp only
  rw [hsum, saturated_eq hlt, length_cons, length_cons]
  refine congrArg (fun stop => some (n, stop)) ?_
  omega

theorem calcNumberStartingAt_numeral {token : String} (h : Tools.Numeral token.toList v)
    (hm : doubles.nearest v = some m) :
    calcNumberStartingAt doubles (front ++ token :: rest) front.length = some m := by
  have hhere : (front ++ token :: rest).drop front.length = token :: rest := drop_left
  have hget : (front ++ token :: rest)[front.length]? = some token := by
    rw [← head?_drop, hhere, head?_cons]
  have harticle : ["a", "an", "the"].contains token = false := by
    rw [eq_false_iff]
    exact fun hmem => notMem_of_numeral h (by decide) (List.contains_iff_mem.mp hmem)
  unfold calcNumberStartingAt calcNumberAt
  rw [if_neg (by simp), hget, any_some, harticle, if_neg (by simp), bind_some,
    parseDecimalToken_numeral h hm]
  rcases parseSpokenNumber_numeral h hm hhere with hnone | ⟨n, hparse, hcount⟩
  · rw [hnone, map_none, none_or]
  · rw [hparse, map_some, some_or, hcount]

theorem calcNumberStartingAt_cardinal (h : Cardinal words n) (hrest : goesOn rest = false) :
    calcNumberStartingAt doubles (front ++ (words ++ rest)) front.length =
      some (doubles.ofCount n) := by
  have hhere : (front ++ (words ++ rest)).drop front.length = words ++ rest := drop_left
  have hread : calcNumberAt doubles (front ++ (words ++ rest)) front.length =
      some (doubles.ofCount n) := by
    unfold calcNumberAt
    rw [h.parse hhere hrest, map_some, some_or]
  cases words with
  | nil => exact absurd rfl h.ne_nil
  | cons word words =>
    have hget : (front ++ (word :: words ++ rest))[front.length]? = some word := by
      rw [← head?_drop, hhere, cons_append, head?_cons]
    unfold calcNumberStartingAt
    rw [if_neg (by simp), hget, any_some]
    split
    · rename_i harticle
      have ha : word = "a" := by
        have hlead : ∀ lead ∈ leadWords, lead ∈ ["a", "an", "the"] → lead = "a" := by decide
        obtain ⟨lead, hmem, hhead⟩ := h.leads
        rw [← Option.some.inj hhead] at hmem
        exact hlead word hmem (List.contains_iff_mem.mp harticle.1)
      subst ha
      have hnext : (front ++ ("a" :: words ++ rest)).drop (front.length + 1) = words ++ rest := by
        rw [← drop_drop, hhere]
        rfl
      have hbehind : calcNumberAt doubles (front ++ ("a" :: words ++ rest)) (front.length + 1) =
          some (doubles.ofCount n) := by
        unfold calcNumberAt
        rw [h.parse_behind_article hnext hrest, map_some, some_or]
      rw [hbehind, some_or]
    · exact hread

/-! ## Amounts at their places -/

/-- The number is written in words. -/
def Spoken (words : List String) : Prop := ∃ n, Cardinal words n

theorem ofCount_eq (hm : doubles.nearest n = some m) : doubles.ofCount n = m := by
  unfold Doubles.ofCount
  rw [hm, getD_some]

theorem Amount.ending (h : Amount words v) (hm : doubles.nearest v = some m)
    (hfront : Spoken words → Detached front) (hrest : goesOn rest = false) :
    calcNumberEndingAt doubles (front ++ (words ++ rest)) (front.length + words.length) =
      some m := by
  cases h with
  | digits h => exact calcNumberEndingAt_numeral h hm
  | words h => rw [calcNumberEndingAt_cardinal h (hfront ⟨_, h⟩) hrest, ofCount_eq hm]

theorem Amount.starting (h : Amount words v) (hm : doubles.nearest v = some m)
    (hrest : Spoken words → goesOn rest = false) :
    calcNumberStartingAt doubles (front ++ (words ++ rest)) front.length = some m := by
  cases h with
  | digits h => exact calcNumberStartingAt_numeral h hm
  | words h => rw [calcNumberStartingAt_cardinal h (hrest ⟨_, h⟩), ofCount_eq hm]

theorem numeral_nonneg (h : Tools.Numeral cs v) : 0 ≤ v := by
  cases h with
  | whole hne hdigits => exact Nat.cast_nonneg _
  | decimal hne hdigits hfraction =>
    exact div_nonneg (Nat.cast_nonneg _) (pow_nonneg (by decide) _)

theorem Amount.nonneg (h : Amount words v) : 0 ≤ v := by
  cases h with
  | digits h => exact numeral_nonneg h
  | words h => exact Nat.cast_nonneg _

/-! ## The words of an amount -/

theorem isSome_of_mem_names (h : (word, n) ∈ ("a", 1) :: (digitNames ++ teenNames ++ tenNames)) :
    (cardinalWord word).isSome = true := by
  rw [cardinalWord_of_mem h]
  rfl

/-- The words that a number may hold. -/
def InNumbers (word : String) : Prop := word = "and" ∨ (cardinalWord word).isSome = true

theorem inNumbers_link {link : List String} (h : link = [] ∨ link = ["and"]) :
    ∀ word ∈ link, InNumbers word := by
  rcases h with rfl | rfl
  · exact fun word hword => absurd hword not_mem_nil
  · exact fun word hword => Or.inl (List.mem_singleton.mp hword)

theorem UnderHundred.inNumbers (h : UnderHundred words n) : ∀ word ∈ words, InNumbers word := by
  cases h with
  | single h =>
    rintro word hword
    rw [List.mem_singleton.mp hword]
    exact Or.inr (isSome_of_mem_names (mem_cons_of_mem _ h))
  | compound hten hdigit =>
    intro word hword
    rcases List.mem_pair.mp hword with rfl | rfl
    · exact Or.inr (isSome_of_mem_names
        (mem_cons_of_mem _ (mem_append_right _ hten)))
    · exact Or.inr (isSome_of_mem_names (mem_names_of_mem_lead (mem_cons_of_mem _ hdigit)))

theorem inNumbers_hundred (h : (word, n) ∈ ("a", 1) :: digitNames) :
    ∀ part ∈ [word, "hundred"], InNumbers part := by
  intro part hpart
  rcases List.mem_pair.mp hpart with rfl | rfl
  · exact Or.inr (isSome_of_mem_names (mem_names_of_mem_lead h))
  · exact Or.inr (by decide)

theorem UnderThousand.inNumbers (h : UnderThousand words n) : ∀ word ∈ words, InNumbers word := by
  cases h with
  | under h => exact h.inNumbers
  | hundreds h => exact inNumbers_hundred h
  | more h hlink hrest =>
    intro word hword
    rcases List.mem_append.mp hword with hword | hword
    · exact inNumbers_hundred h word hword
    · rcases List.mem_append.mp hword with hword | hword
      · exact inNumbers_link hlink word hword
      · exact hrest.inNumbers word hword

theorem Thousands.inNumbers (h : Thousands words n) : ∀ word ∈ words, InNumbers word := by
  cases h with
  | article => exact fun word hword => Or.inr (by rw [List.mem_singleton.mp hword]; decide)
  | number h => exact h.inNumbers

theorem Cardinal.inNumbers (h : Cardinal words n) : ∀ word ∈ words, InNumbers word := by
  have hthousand : InNumbers "thousand" := Or.inr (by decide)
  cases h with
  | zero => exact fun word hword => Or.inr (by rw [List.mem_singleton.mp hword]; decide)
  | under h => exact h.inNumbers
  | thousands h =>
    intro word hword
    rcases List.mem_append.mp hword with hword | hword
    · exact h.inNumbers word hword
    · exact List.mem_singleton.mp hword ▸ hthousand
  | more h hlink hrest =>
    intro word hword
    rcases List.mem_append.mp hword with hword | hword
    · exact h.inNumbers word hword
    · rcases List.mem_cons.mp hword with rfl | hword
      · exact hthousand
      · rcases List.mem_append.mp hword with hword | hword
        · exact inNumbers_link hlink word hword
        · exact hrest.inNumbers word hword

theorem Amount.notMem (h : Amount words v) (hand : word ≠ "and")
    (hcardinal : cardinalWord word = none)
    (hnumeric : word.toList.head?.any Tools.isNumeric = false) : word ∉ words := by
  intro hword
  cases h with
  | digits h => exact ne_of_numeral h hnumeric (List.mem_singleton.mp hword).symm
  | words h =>
    rcases h.inNumbers word hword with hlink | hcount
    · exact hand hlink
    · rw [hcardinal] at hcount
      cases hcount

end

end GenieClaw.Quick
