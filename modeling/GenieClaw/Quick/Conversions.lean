import GenieClaw.Library.AsciiSearch
import GenieClaw.Quick.Percentages

/-!
# Temperature conversions

What `prepare` makes of a conversion and what the calculator is given. The sign of the number goes
with the other symbols, so that a conversion is exact for the numbers that are not negative.

* `calculationRequest_right` (`AsciiRules`): conversions are right exactly for the numbers that are
  not negative, and plain percentages are.
-/

namespace GenieClaw.Quick

open Library Library.Text Home List Option String Bool

/-! ## The utterance -/

/-- The tables agree with ASCII on ASCII. -/
structure AsciiRules (tables : CharTables) : Prop where
  lower : ∀ s : String, IsAscii s.toList → tables.toLowercase s = toAsciiLowercase s
  alphanumeric : ∀ c : Char, c.toNat < 128 → tables.isAlphanumeric c = isAsciiAlphanumeric c

theorem asciiRules_ascii : AsciiRules .ascii := ⟨fun _ _ => rfl, fun _ _ => rfl⟩

/-- A signed decimal number as it is written. -/
structure SignedDecimal where
  negative : Bool
  whole : List Char
  fraction : List Char
  whole_ne_nil : whole ≠ []
  digits : ∀ c ∈ whole ++ fraction, c.isDigit = true

namespace SignedDecimal

variable (number : SignedDecimal)

def magnitudeText : List Char :=
  if number.fraction = [] then number.whole else number.whole ++ '.' :: number.fraction

def text : String :=
  String.ofList (if number.negative then '-' :: number.magnitudeText else number.magnitudeText)

def magnitude : ℚ :=
  Tools.digitsValue (number.whole ++ number.fraction) / 10 ^ number.fraction.length

def value : ℚ := if number.negative then -number.magnitude else number.magnitude

theorem numeral : Tools.Numeral number.magnitudeText number.magnitude := by
  have hdigits := number.digits
  unfold magnitudeText magnitude
  split
  · rename_i hnone
    rw [hnone, append_nil, length_nil, pow_zero, div_one]
    exact .whole number.whole_ne_nil fun c hc => hdigits c (mem_append_left _ hc)
  · exact .decimal (by simp [number.whole_ne_nil])
      (fun c hc => hdigits c (mem_append_left _ hc))
      fun c hc => hdigits c (mem_append_right _ hc)

end SignedDecimal

inductive Scale where
  | celsius
  | fahrenheit
deriving DecidableEq

namespace Scale

def name : Scale → String
  | celsius => "celsius"
  | fahrenheit => "fahrenheit"

def other : Scale → Scale
  | celsius => fahrenheit
  | fahrenheit => celsius

/-- A temperature of the other scale on this one. -/
def convert : Scale → ℚ → ℚ
  | celsius, v => (v - 32) * 5 / 9
  | fahrenheit, v => v * 9 / 5 + 32

theorem convert_injective (target : Scale) : Function.Injective target.convert := by
  intro v w h
  cases target with
  | celsius =>
    simp only [convert] at h
    linarith
  | fahrenheit =>
    simp only [convert] at h
    linarith

end Scale

/-- What follows the number. -/
def conversionTail (target : Scale) (link : String) : String :=
  " degrees " ++ target.other.name ++ " " ++ link ++ " " ++ target.name

def conversionWords (target : Scale) (link : String) : List String :=
  ["degrees", target.other.name, link, target.name]

/-! ## Preparation -/

section

variable {tables : CharTables}

theorem cleanChars_letters {xs : List Char} (h : ∀ c ∈ xs, tables.isAlphanumeric c = true ∨
    isWhitespace c = true) (before : Option Char) (ys : List Char) :
    cleanChars tables before (xs ++ ys) = xs ++ cleanChars tables (xs.getLast?.or before) ys := by
  induction xs generalizing before with
  | nil => rfl
  | cons c xs ih =>
    have hc : cleanChar tables before c (xs ++ ys) = [c] := by
      unfold cleanChar
      dsimp only
      rw [if_pos]
      rcases h c mem_cons_self with hc | hc <;> simp [hc]
    rw [cons_append, cleanChars, hc, ih fun d hd => h d (mem_cons_of_mem c hd),
      getLast?_cons]
    cases xs.getLast? <;> rfl

theorem isNumeric_range {c : Char} (h : Tools.isNumeric c = true) :
    46 ≤ c.toNat ∧ c.toNat ≤ 57 := by
  rcases or_eq_true .. ▸ h with h | h
  · obtain ⟨hlow, hhigh⟩ := Char.isDigit_iff_toNat.mp h
    have hzero : '0'.toNat = 48 := rfl
    have hnine : '9'.toNat = 57 := rfl
    omega
  · rw [eq_of_beq h]
    decide

theorem isNumeric_not_white {c : Char} (h : Tools.isNumeric c = true) : isWhitespace c = false := by
  have hrange := isNumeric_range h
  have hall : ∀ n ≤ 57, 46 ≤ n → isWhitespace (Char.ofNat n) = false := by decide
  have hc := hall c.toNat hrange.2 hrange.1
  rwa [Char.ofNat_toNat] at hc

theorem alphanumeric_digit (rules : AsciiRules tables) {c : Char} (h : c.isDigit = true) :
    tables.isAlphanumeric c = true := by
  have hrange : '0' ≤ c ∧ c ≤ '9' := Char.isDigit_iff_toNat.mp h
  have hlow : c.toNat ≤ 57 := hrange.2
  rw [rules.alphanumeric c (by omega)]
  unfold isAsciiAlphanumeric
  simp [hrange]

theorem cleanChars_magnitude (rules : AsciiRules tables) (number : SignedDecimal) {tail : List Char}
    (htail : ∀ c ∈ tail, tables.isAlphanumeric c = true ∨ isWhitespace c = true)
    (before : Option Char) :
    cleanChars tables before (number.magnitudeText ++ tail) = number.magnitudeText ++ tail := by
  have hletters : ∀ digits : List Char, (∀ c ∈ digits, c.isDigit = true) →
      ∀ before, cleanChars tables before (digits ++ tail) = digits ++ tail := by
    intro digits hdigits before
    have hall : ∀ c ∈ digits ++ tail,
        tables.isAlphanumeric c = true ∨ isWhitespace c = true := by
      intro c hc
      rcases List.mem_append.mp hc with hc | hc
      · exact Or.inl (alphanumeric_digit rules (hdigits c hc))
      · exact htail c hc
    have hclean := cleanChars_letters hall before []
    rwa [append_nil, cleanChars, append_nil] at hclean
  have hwhole : ∀ c ∈ number.whole, c.isDigit = true :=
    fun c hc => number.digits c (mem_append_left _ hc)
  have hfraction : ∀ c ∈ number.fraction, c.isDigit = true :=
    fun c hc => number.digits c (mem_append_right _ hc)
  unfold SignedDecimal.magnitudeText
  split
  · exact hletters number.whole hwhole before
  · rename_i hne
    obtain ⟨first, more, hfirst⟩ := exists_cons_of_ne_nil hne
    obtain ⟨last, hlast⟩ : ∃ last, number.whole.getLast? = some last :=
      ⟨_, getLast?_eq_some_getLast number.whole_ne_nil⟩
    have hdot : cleanChar tables (some last) '.' (number.fraction ++ tail) = ['.'] := by
      have hbefore := hwhole last (mem_of_getLast? hlast)
      have hafter := hfraction first (hfirst ▸ mem_cons_self)
      have halpha : tables.isAlphanumeric '.' = false := rules.alphanumeric '.' (by decide)
      have hwhite : isWhitespace '.' = false := by decide
      unfold cleanChar
      simp [hfirst, hbefore, hafter, halpha, hwhite]
    rw [List.append_assoc, cons_append,
      cleanChars_letters fun c hc => Or.inl (alphanumeric_digit rules (hwhole c hc)), hlast,
      some_or, cleanChars, hdot, hletters number.fraction hfraction]
    rfl

theorem tail_letters (rules : AsciiRules tables) (target : Scale) {link : String}
    (hlink : link ∈ ["to", "in"]) :
    ∀ c ∈ (conversionTail target link).toList, tables.isAlphanumeric c = true ∨
      isWhitespace c = true := by
  have hascii : (conversionTail target link).toList.all (fun c => decide (c.toNat < 128) &&
      (isAsciiAlphanumeric c || isWhitespace c)) = true := by
    rcases List.mem_pair.mp hlink with rfl | rfl <;> cases target <;> decide
  intro c hc
  obtain ⟨hlt, hletter⟩ := Bool.and_eq_true_iff.mp (List.all_eq_true.mp hascii c hc)
  rw [rules.alphanumeric c (of_decide_eq_true hlt)]
  exact Bool.or_eq_true_iff.mp hletter

theorem toLowercase_utterance (rules : AsciiRules tables) (number : SignedDecimal)
    (target : Scale) {link : String} (hlink : link ∈ ["to", "in"]) :
    tables.toLowercase (number.text ++ conversionTail target link) =
      number.text ++ conversionTail target link := by
  have htail : (conversionTail target link).toList.all (fun c => decide (c.toNat < 128) &&
      decide (¬ (65 ≤ c.toNat ∧ c.toNat ≤ 90))) = true := by
    rcases List.mem_pair.mp hlink with rfl | rfl <;> cases target <;> decide
  have hchars : ∀ c ∈ (number.text ++ conversionTail target link).toList,
      c.toNat < 128 ∧ ¬ (65 ≤ c.toNat ∧ c.toNat ≤ 90) := by
    intro c hc
    rw [toList_append] at hc
    rcases List.mem_append.mp hc with hc | hc
    · have hnumber : c = '-' ∨ Tools.isNumeric c = true := by
        unfold SignedDecimal.text at hc
        rw [toList_ofList] at hc
        split at hc
        · rcases List.mem_cons.mp hc with rfl | hc
          · exact Or.inl rfl
          · exact Or.inr (number.numeral.isNumeric c hc)
        · exact Or.inr (number.numeral.isNumeric c hc)
      rcases hnumber with rfl | hnumeric
      · decide
      · have := isNumeric_range hnumeric
        omega
    · obtain ⟨hlt, hlower⟩ := Bool.and_eq_true_iff.mp (List.all_eq_true.mp htail c hc)
      exact ⟨of_decide_eq_true hlt, of_decide_eq_true hlower⟩
  rw [rules.lower _ fun c hc => (hchars c hc).1]
  unfold toAsciiLowercase
  have hmap := map_congr_left fun c hc => toLower_eq_self (hchars c hc).2
  rw [hmap, List.map_id', ofList_toList]

theorem foldDecimals_eq_self {tokens : List String} (h : "point" ∉ tokens) (rounds : Nat) :
    foldDecimals rounds tokens = tokens := by
  induction rounds generalizing tokens with
  | zero => rfl
  | succ rounds ih =>
    cases tokens with
    | nil => rfl
    | cons token rest =>
      have hnone : matchDecimalFold (token :: rest) = none := by
        unfold matchDecimalFold
        rw [List.findIdx?_eq_none_iff.mpr, bind_none]
        intro word hword
        rw [decide_eq_false_iff_not]
        rintro rfl
        exact h hword
      rw [foldDecimals, hnone]
      exact congrArg (token :: ·) (ih fun hmem => h (mem_cons_of_mem token hmem))

theorem splitWhitespace_number (number : SignedDecimal) (target : Scale) {link : String}
    (hlink : link ∈ ["to", "in"]) (sign : List Char) (hsign : sign = [] ∨ sign = [' ']) :
    splitWhitespace (String.ofList
        (sign ++ (number.magnitudeText ++ (conversionTail target link).toList))) =
      String.ofList number.magnitudeText :: conversionWords target link := by
  have htail : ∃ rest, (conversionTail target link).toList = ' ' :: rest ∧
      (wordsBy isWhitespace rest).map String.ofList = conversionWords target link := by
    rcases List.mem_pair.mp hlink with rfl | rfl <;> cases target <;> exact ⟨_, rfl, by decide⟩
  obtain ⟨rest, hrest, hwords⟩ := htail
  have hone : wordsBy isWhitespace number.magnitudeText = [number.magnitudeText] :=
    wordsBy_of_forall number.numeral.ne_nil fun c hc =>
      isNumeric_not_white (number.numeral.isNumeric c hc)
  have hwhite : isWhitespace ' ' = true := by decide
  have hmain : (wordsBy isWhitespace
      (number.magnitudeText ++ (conversionTail target link).toList)).map String.ofList =
      String.ofList number.magnitudeText :: conversionWords target link := by
    rw [hrest, wordsBy_append_break hwhite, hone, map_append, hwords, map_singleton,
      singleton_append]
  unfold splitWhitespace
  rw [toList_ofList]
  rcases hsign with rfl | rfl
  · exact hmain
  · rw [singleton_append]
    have hbreak := wordsBy_cons_break hwhite
      (number.magnitudeText ++ (conversionTail target link).toList)
    unfold wordsBy at hbreak hmain
    rw [hbreak, hmain]

theorem joinWith_number (number : SignedDecimal) (target : Scale) {link : String}
    (hlink : link ∈ ["to", "in"]) :
    joinWith " " (String.ofList number.magnitudeText :: conversionWords target link) =
      String.ofList number.magnitudeText ++ conversionTail target link := by
  have htail : ' ' :: [' '].intercalate ((conversionWords target link).map String.toList) =
      (conversionTail target link).toList := by
    rcases List.mem_pair.mp hlink with rfl | rfl <;> cases target <;> decide
  have hspace : " ".toList = [' '] := rfl
  unfold joinWith
  rw [map_cons, hspace, toList_ofList]
  unfold conversionWords at htail ⊢
  rw [map_cons] at htail ⊢
  rw [List.intercalate_cons_cons, List.append_assoc, singleton_append, htail,
    ofList_append, ofList_toList]

theorem prepare_conversion (rules : AsciiRules tables) (number : SignedDecimal) (target : Scale)
    {link : String} (hlink : link ∈ ["to", "in"]) :
    prepare tables (number.text ++ conversionTail target link) =
      String.ofList number.magnitudeText ++ conversionTail target link := by
  have hletters := tail_letters rules target hlink
  have hclean : ∃ sign, (sign = [] ∨ sign = [' ']) ∧
      cleanChars tables none (number.text ++ conversionTail target link).toList =
        sign ++ (number.magnitudeText ++ (conversionTail target link).toList) := by
    rw [toList_append]
    unfold SignedDecimal.text
    rw [toList_ofList]
    split
    · refine ⟨[' '], Or.inr rfl, ?_⟩
      have hminus : tables.isAlphanumeric '-' = false := rules.alphanumeric '-' (by decide)
      have hwhite : isWhitespace '-' = false := by decide
      rw [cons_append, cleanChars, cleanChars_magnitude rules number hletters]
      unfold cleanChar
      simp [hminus, hwhite]
    · exact ⟨[], Or.inl rfl, cleanChars_magnitude rules number hletters none⟩
  obtain ⟨sign, hsign, hclean⟩ := hclean
  have hpoint : "point" ∉ String.ofList number.magnitudeText :: conversionWords target link := by
    intro hmem
    rcases List.mem_cons.mp hmem with hnumber | hword
    · have hnumeral := number.numeral
      rw [← toList_ofList (l := number.magnitudeText)] at hnumeral
      exact ne_of_numeral hnumeral (by decide) hnumber.symm
    · revert hword
      rcases List.mem_pair.mp hlink with rfl | rfl <;> cases target <;> decide
  unfold prepare foldSpokenDecimals
  rw [toLowercase_utterance rules number target hlink, hclean]
  dsimp only
  rw [splitWhitespace_number number target hlink sign hsign, foldDecimals_eq_self hpoint,
    joinWith_number number target hlink]

end

/-! ## The expression -/

section

variable {doubles : Doubles} {display : Display} {number : SignedDecimal} {target : Scale}
  {link : String}

theorem containsAny_tail {needles : List String} {tail : String}
    (h : needles.all (fun needle => !needle.toList.isEmpty &&
      needle.toList.all fun c => !Tools.isNumeric c) = true) :
    containsAny (String.ofList number.magnitudeText ++ tail) needles =
      containsAny tail needles := by
  unfold containsAny
  rw [Bool.eq_iff_iff, List.any_eq_true, List.any_eq_true]
  refine exists_congr fun needle => and_congr_right fun hneedle => ?_
  obtain ⟨hne, hchars⟩ := Bool.and_eq_true_iff.mp (List.all_eq_true.mp h needle hneedle)
  unfold containsText
  rw [decide_eq_true_iff, decide_eq_true_iff, toList_append, toList_ofList]
  constructor
  · refine infix_of_infix_append (by simpa using hne) fun c hc hmem => ?_
    have hnot := List.all_eq_true.mp hchars c hmem
    rw [number.numeral.isNumeric c hc] at hnot
    cases hnot
  · exact fun hinfix => hinfix.trans (suffix_append _ _).isInfix

/-- The expression over the text of the number. -/
def Scale.write : Scale → String → String
  | celsius, value => "(" ++ value ++ " - 32) * 5 / 9"
  | fahrenheit, value => value ++ " * 9 / 5 + 32"

theorem temperatureConversionExpression_eq (hlink : link ∈ ["to", "in"]) :
    temperatureConversionExpression doubles display
        (String.ofList number.magnitudeText ++ conversionTail target link) =
      (calcNumberEndingAt doubles
        (String.ofList number.magnitudeText :: conversionWords target link) 1).map fun value =>
          target.write (display.text value) := by
  have hwords := splitWhitespace_number number target hlink [] (Or.inl rfl)
  rw [nil_append, ofList_append, ofList_toList] at hwords
  have hunits : withoutUnits
      (String.ofList number.magnitudeText :: conversionWords target link) 3 = 1 := by
    have hnumeral := number.numeral
    rw [← toList_ofList (l := number.magnitudeText)] at hnumeral
    have hnot : unitsBeforeTo.contains (String.ofList number.magnitudeText) = false := by
      rw [eq_false_iff]
      exact fun hmem => notMem_of_numeral hnumeral (by decide) (List.contains_iff_mem.mp hmem)
    have hunit : ∀ word ∈ ["degrees", "celsius", "fahrenheit"],
        unitsBeforeTo.contains word = true := by decide
    have hother : unitsBeforeTo.contains target.other.name = true := by
      cases target <;> exact hunit _ (by decide)
    have htake : (String.ofList number.magnitudeText :: conversionWords target link).take 3 =
        [String.ofList number.magnitudeText] ++ ["degrees"] ++ [target.other.name] := rfl
    unfold withoutUnits
    rw [htake, rdropWhile_concat_pos _ _ _ hother,
      rdropWhile_concat_pos _ _ _ (hunit "degrees" (by decide)),
      rdropWhile_singleton, hnot]
    rfl
  have hmarker : (conversionMarker (if target = .celsius then ["celsius", "celcius"]
      else ["fahrenheit", "farenheit"])
      (String.ofList number.magnitudeText :: conversionWords target link)) = some 3 := by
    rcases List.mem_pair.mp hlink with rfl | rfl <;> cases target <;> rfl
  have hunit : ¬ (String.ofList number.magnitudeText :: conversionWords target link)[3 - 1]? =
      some "f" := by
    cases target <;> exact fun h => absurd (Option.some.inj h) (by decide)
  have hphrases : containsAny (conversionTail target link)
        ["to celsius", "to celcius", "in celsius", "in celcius"] = decide (target = .celsius) ∧
      containsAny (conversionTail target link)
        ["to fahrenheit", "to farenheit", "in fahrenheit", "in farenheit"] =
          decide (target = .fahrenheit) := by
    rcases List.mem_pair.mp hlink with rfl | rfl <;> cases target <;> decide
  have hread : calcNumberBeforeTo doubles
      (String.ofList number.magnitudeText :: conversionWords target link) 3 =
      calcNumberEndingAt doubles
        (String.ofList number.magnitudeText :: conversionWords target link) 1 := by
    unfold calcNumberBeforeTo
    dsimp only
    rw [if_neg (by decide), if_neg hunit, hunits]
  unfold temperatureConversionExpression
  rw [containsAny_tail (by decide), containsAny_tail (by decide), hphrases.1, hphrases.2, hwords]
  cases target with
  | celsius =>
    rw [if_pos rfl] at hmarker
    simp [hmarker, hread, Scale.write]
  | fahrenheit =>
    rw [if_neg (by decide)] at hmarker
    simp [hmarker, hread, Scale.write]

theorem calcNumberEndingAt_overflow {token : String} {rest : List String} {v : ℚ}
    (h : Tools.Numeral token.toList v) (hnone : doubles.nearest v = none) :
    calcNumberEndingAt doubles (token :: rest) 1 = none := by
  have hunsigned : parseUnsigned 10 64 token = none := by
    rw [eq_none_iff_forall_ne_some]
    intro n hparse
    have hlt : n < 2 ^ 64 := by
      unfold parseUnsigned at hparse
      split at hparse
      · cases hparse
      · exact of_decide_eq_true (Option.filter_eq_some_iff.mp hparse).2
    have hfinite := doubles.isSome_nearest n hlt
    rw [parseUnsigned_numeral h hparse, hnone] at hfinite
    cases hfinite
  have hspoken : ∀ more, parseSpokenNumber (token :: more) 0 = none := fun more =>
    @parseSpokenNumber_eq_none token more (not_cardinal_of_numeral h) hunsigned _ 0 rfl
  have hwords : splitWhitespace token = [token] := by
    have hone := wordsBy_of_forall h.ne_nil fun c hc => isNumeric_not_white (h.isNumeric c hc)
    unfold wordsBy at hone
    unfold splitWhitespace
    rw [hone, map_singleton, ofList_toList]
  have hamount : parseAmount doubles token = none := by
    have hfilter : token.toList.filter (fun c => c.isDigit || c == '.') = token.toList :=
      List.filter_eq_self.mpr h.isNumeric
    have hdigits : digitAmount doubles [token] = none := by
      unfold digitAmount
      rw [find?_singleton]
      split
      · rw [bind_some, hfilter]
        unfold parseFinite
        rw [Tools.parseNumber_eq_some.mpr h, bind_some, hnone]
      · rfl
    unfold parseAmount
    dsimp only
    rw [hwords, hdigits, none_or, List.length_singleton, range_one,
      findSome?_singleton, hspoken, map_none]
  have hdecimal : parseDecimalToken doubles token = none := by
    unfold parseDecimalToken
    rw [rdropWhile_numeral h (by decide), rdropWhile_numeral h (by decide)]
    dsimp only
    rw [decimalValue_numeral h, bind_some, hnone, none_or, ofList_toList,
      hamount]
  have hfirst : (token :: rest)[1 - 1]? = some token := rfl
  unfold calcNumberEndingAt
  rw [if_neg (by decide), range_one, findSome?_singleton, hspoken, bind_none,
    none_or, hfirst, bind_some, hdecimal]

theorem calcNumberEndingAt_magnitude (words : List String) :
    calcNumberEndingAt doubles (String.ofList number.magnitudeText :: words) 1 =
      doubles.nearest number.magnitude := by
  have hnumeral := number.numeral
  rw [← toList_ofList (l := number.magnitudeText)] at hnumeral
  cases hm : doubles.nearest number.magnitude with
  | none => exact calcNumberEndingAt_overflow hnumeral hm
  | some m => exact @calcNumberEndingAt_numeral _ [] _ _ _ _ hnumeral hm

def conversionTree : Scale → ℚ → Tools.ParseTree
  | .celsius, v =>
    Chain.one (.step (.step (.one (.bare (.group (Chain.step (.one (.one (operand v))) .minus
      (.one (operand 32)))))) .times (operand 5)) .divide (operand 9))
  | .fahrenheit, v =>
    Chain.step (.one (.step (.step (.one (operand v)) .times (operand 9)) .divide (operand 5)))
      .plus (.one (operand 32))

theorem evaluate_conversion {value : String} {v : ℚ} (h : Tools.Numeral value.toList v) :
    Tools.evaluate (target.write value) = .ok (target.convert v) := by
  have hdigit : ∀ {cs : List Char} (n : Nat), cs ≠ [] → cs.all Char.isDigit = true →
      Tools.digitsValue cs = n → Tools.Spells cs [.number n] :=
    fun n hne hall hvalue => spells_numeral (numeral_digits hne hall hvalue)
  have h32 := @hdigit "32".toList 32 (by decide) (by decide) (by decide)
  have h9 := @hdigit "9".toList 9 (by decide) (by decide) (by decide)
  have h5 := @hdigit "5".toList 5 (by decide) (by decide) (by decide)
  have hvalue := spells_numeral h
  have hspaced : ∀ {c : Char} {token : Tools.Token}, Tools.symbolOf c = some token →
      Tools.Spells [' ', c, ' '] [token] := fun hc => .blank rfl (.symbol hc (.blank rfl .nil))
  have htimes := @hspaced '*' .star rfl
  have hdivide := @hspaced '/' .slash rfl
  refine Tools.evaluate_eq_ok.mpr ⟨conversionTree target v, ?_, by cases target <;> rfl⟩
  unfold Tools.Expr.SpelledBy
  cases target with
  | celsius =>
    have hopen : Tools.Spells "(".toList [.lParen] := .symbol rfl .nil
    have hclose : Tools.Spells ")".toList [.rParen] := .symbol rfl .nil
    have hminus := @hspaced '-' .minus rfl
    have hspells := spells_append hopen (spells_append hvalue (spells_append hminus
      (spells_append h32 (spells_append hclose (spells_append htimes (spells_append h5
        (spells_append hdivide h9)))))))
    have htext : (Scale.celsius.write value).toList = "(".toList ++ (value.toList ++
        ([' ', '-', ' '] ++ ("32".toList ++ (")".toList ++ ([' ', '*', ' '] ++ ("5".toList ++
          ([' ', '/', ' '] ++ "9".toList))))))) := by
      unfold Scale.write
      rw [toList_append, toList_append, List.append_assoc]
      rfl
    rw [htext]
    exact hspells
  | fahrenheit =>
    have hplus := @hspaced '+' .plus rfl
    have hspells := spells_append hvalue (spells_append htimes (spells_append h9
      (spells_append hdivide (spells_append h5 (spells_append hplus h32)))))
    have htext : (Scale.fahrenheit.write value).toList = value.toList ++ ([' ', '*', ' '] ++
        ("9".toList ++ ([' ', '/', ' '] ++ ("5".toList ++ ([' ', '+', ' '] ++ "32".toList))))) := by
      unfold Scale.write
      rw [toList_append]
      rfl
    rw [htext]
    exact hspells

/-! ## What the calculator gets -/

/-- The conversion is the request, and it is the one that was asked for. -/
def ConvertsRight (doubles : Doubles) (display : Display) (tables : CharTables)
    (number : SignedDecimal) (target : Scale) (link : String) : Prop :=
  ∃ expression,
    temperatureConversionExpression doubles display
      (prepare tables (number.text ++ conversionTail target link)) = some expression ∧
    calculationRequest doubles display
      (prepare tables (number.text ++ conversionTail target link)) = some expression ∧
    Tools.evaluate expression = .ok (target.convert number.value)

theorem magnitude_nonneg (number : SignedDecimal) : 0 ≤ number.magnitude :=
  numeral_nonneg number.numeral

theorem value_eq_magnitude (h : 0 ≤ number.value) : number.value = number.magnitude := by
  have hmagnitude := magnitude_nonneg number
  unfold SignedDecimal.value at h ⊢
  split at h
  · rename_i hnegative
    rw [if_pos hnegative]
    linarith
  · rename_i hpositive
    rw [if_neg hpositive]

theorem convertsRight_iff {tables : CharTables} (rules : AsciiRules tables)
    (hlink : link ∈ ["to", "in"]) :
    ConvertsRight doubles display tables number target link ↔
      0 ≤ number.value ∧ Kept doubles display number.magnitude := by
  unfold ConvertsRight
  rw [prepare_conversion rules number target hlink, temperatureConversionExpression_eq hlink,
    calcNumberEndingAt_magnitude]
  constructor
  · rintro ⟨expression, hexpression, -, hvalue⟩
    obtain ⟨m, hm, rfl⟩ := Option.map_eq_some_iff.mp hexpression
    have hnumeral := display.numeral m
      (doubles.nearest_nonneg _ (magnitude_nonneg number) m hm)
    rw [evaluate_conversion hnumeral] at hvalue
    have hprinted := target.convert_injective (Except.ok.inj hvalue)
    have hnonneg : 0 ≤ number.value := hprinted ▸ numeral_nonneg hnumeral
    exact ⟨hnonneg, m, hm, hprinted.trans (value_eq_magnitude hnonneg)⟩
  · rintro ⟨hnonneg, hkept⟩
    obtain ⟨m, hm, hnumeral⟩ := hkept.numeral (magnitude_nonneg number)
    refine ⟨target.write (display.text m), ?_, ?_, ?_⟩
    · rw [hm, map_some]
    · unfold calculationRequest
      rw [temperatureConversionExpression_eq hlink, calcNumberEndingAt_magnitude, hm,
        map_some, some_or, some_or]
    · rw [evaluate_conversion hnumeral, value_eq_magnitude hnonneg]

end

/-- A plain percentage is computed as it is meant, and a conversion is exact for the numbers that
are not negative, as far as the doubles keep the numbers. -/
theorem calculationRequest_right (doubles : Doubles) (display : Display) {tables : CharTables}
    (rules : AsciiRules tables) :
    (∀ (text : String) (phrase : PercentPhrase), splitWhitespace text = phrase.words →
      temperatureConversionExpression doubles display text = none → phrase.Plain →
      Kept doubles display phrase.percentValue → Kept doubles display phrase.baseValue →
      ∃ expression, calculationRequest doubles display text = some expression ∧
        Tools.evaluate expression = .ok (phrase.baseValue * phrase.percentValue / 100)) ∧
    ∀ (number : SignedDecimal) (target : Scale), ∀ link ∈ ["to", "in"],
      ConvertsRight doubles display tables number target link ↔
        0 ≤ number.value ∧ Kept doubles display number.magnitude := by
  refine ⟨?_, fun number target link hlink => convertsRight_iff rules hlink⟩
  intro text phrase hwords hconversion hplain hpercent hbase
  obtain ⟨expression, hexpression, hvalue⟩ :=
    percentageExpression_plain hwords hplain hpercent hbase
  refine ⟨expression, ?_, hvalue⟩
  unfold calculationRequest
  rw [hconversion, none_or, hexpression, some_or]

/-! ## Utterances -/

/-- The whole part of a number, in digits. -/
def wholeDisplay : Display where
  text x := String.ofList (Nat.toDigits 10 x.floor.toNat)
  printed x := x.floor.toNat
  numeral x _ := by
    have hdigits : ∀ c ∈ Nat.toDigits 10 x.floor.toNat, c.isDigit = true :=
      fun _ => isDigit_toDigits
    have hnumeral := Tools.Numeral.whole Nat.toDigits_ne_nil hdigits
    rwa [digitsValue_toDigits, ← toList_ofList (l := Nat.toDigits 10 _)] at hnumeral

theorem amount_digits {token : String} {n : Nat} (hne : token.toList ≠ [])
    (hdigits : token.toList.all Char.isDigit = true)
    (hvalue : Tools.digitsValue token.toList = n) : Amount [token] n :=
  .digits (numeral_digits hne hdigits hvalue)

theorem amount_ten {word : String} {n : Nat} (h : (word, n) ∈ tenNames) : Amount [word] n :=
  .words (.under (.under (.single (mem_append_right _ h))))

/-- `what is 20 percent of fifty`. -/
def plainPhrase : PercentPhrase where
  front := ["what", "is"]
  percent := ["20"]
  marker := "percent"
  between := []
  base := ["fifty"]
  back := []
  percentValue := (20 : Nat)
  baseValue := (50 : Nat)
  percent_amount := amount_digits (by decide) (by decide) (by decide)
  base_amount := amount_ten (by decide)
  marker_percent := by decide

/-- `a twenty percent tip of 50`. -/
def tipPhrase : PercentPhrase where
  front := ["a"]
  percent := ["twenty"]
  marker := "percent"
  between := ["tip"]
  base := ["50"]
  back := []
  percentValue := (20 : Nat)
  baseValue := (50 : Nat)
  percent_amount := amount_ten (by decide)
  base_amount := amount_digits (by decide) (by decide) (by decide)
  marker_percent := by decide

theorem forty_ne_nil : ['4', '0'] ≠ [] := cons_ne_nil _ _

theorem forty_digits : ∀ c ∈ ['4', '0'] ++ [], c.isDigit = true :=
  List.all_eq_true.mp (by decide)

def minusForty : SignedDecimal := ⟨true, ['4', '0'], [], forty_ne_nil, forty_digits⟩

theorem calculationRequest_right_fifty :
    (∃ expression,
      calculationRequest exactDoubles wholeDisplay "what is 20 percent of fifty" = some expression ∧
        Tools.evaluate expression = .ok (plainPhrase.baseValue * plainPhrase.percentValue / 100)) ∧
    (ConvertsRight exactDoubles wholeDisplay .ascii minusForty .fahrenheit "to" ↔
      0 ≤ minusForty.value ∧ Kept exactDoubles wholeDisplay minusForty.magnitude) := by
  obtain ⟨hpercentage, hconversion⟩ :=
    calculationRequest_right exactDoubles wholeDisplay asciiRules_ascii
  refine ⟨?_, hconversion minusForty .fahrenheit "to" (by decide)⟩
  refine hpercentage "what is 20 percent of fifty" plainPhrase (by decide) (by decide)
    ⟨by decide, by decide, ?_, fun _ => rfl⟩ ⟨_, rfl, by decide⟩ ⟨_, rfl, by decide⟩
  rintro -
  exact ⟨by decide, by decide⟩

/-- The article counts one percent, and the sign of a temperature is lost. -/
theorem twenty_percent_tip_wrong :
    prepare .ascii "A twenty percent tip of 50" = "a twenty percent tip of 50" ∧
    splitWhitespace "a twenty percent tip of 50" = tipPhrase.words ∧
    calculationRequest exactDoubles wholeDisplay "a twenty percent tip of 50" =
      some "50 * 21 / 100" ∧
    Tools.evaluate "50 * 21 / 100" ≠
      .ok (tipPhrase.baseValue * tipPhrase.percentValue / 100) ∧
    ¬ ConvertsRight exactDoubles wholeDisplay .ascii minusForty .fahrenheit "to" := by
  refine ⟨by decide, by decide, by decide +kernel, ?_, ?_⟩
  · have hfifty : Tools.Numeral "50".toList ((50 : Nat) : ℚ) :=
      numeral_digits (by decide) (by decide) (by decide)
    have hwrong : Tools.Numeral "21".toList ((21 : Nat) : ℚ) :=
      numeral_digits (by decide) (by decide) (by decide)
    have hvalue : Tools.evaluate "50 * 21 / 100" = .ok (((50 : Nat) : ℚ) * (21 : Nat) / 100) :=
      evaluate_percentage hfifty hwrong
    rw [hvalue]
    intro heq
    exact absurd (Except.ok.inj heq) (by decide +kernel)
  · rw [convertsRight_iff asciiRules_ascii (by decide)]
    exact fun h => absurd h.1 (by decide +kernel)

end GenieClaw.Quick
