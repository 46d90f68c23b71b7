import GenieClaw.Quick.Conversions
import GenieClaw.Quick.Normalization
import GenieClaw.Quick.Route

/-!
# Setpoints

`set the <device> to <number>` and `preheat the <device> to <number>`. `normalize` turns the sign,
the dot and the commas into gaps, so that the number is read up to the first of them.

* `route_setpoint_right` (`TextRules`): when the value of a setpoint is the number that was said.
-/

namespace GenieClaw.Quick

open Library Library.Text Home

/-! ## Normalized words -/

/-- Besides ASCII: lower-casing goes word by word and leaves the degree sign, and white space is
not alphanumeric. -/
structure TextRules (tables : CharTables) : Prop extends AsciiRules tables where
  lower_degree : ∀ s : String, (∀ c ∈ s.toList, c.toNat < 128 ∨ c = '°') →
    tables.toLowercase s = toAsciiLowercase s
  lower_blank : ∀ a b : String,
    tables.toLowercase (a ++ " " ++ b) = tables.toLowercase a ++ " " ++ tables.toLowercase b
  not_white : ∀ c : Char, isWhitespace c = true → tables.isAlphanumeric c = false

theorem textRules_ascii : TextRules .ascii where
  toAsciiRules := asciiRules_ascii
  lower_degree _ _ := rfl
  lower_blank a b := by
    change toAsciiLowercase _ = toAsciiLowercase _ ++ _ ++ toAsciiLowercase _
    apply String.toList_inj.mp
    simp [toAsciiLowercase]
  not_white _ hc := isAsciiAlphanumeric_white hc

variable {tables : CharTables}

theorem isWords_normalWords (rules : TextRules tables) (text : String) :
    IsWords (normalWords tables text) := by
  intro word hword
  refine ⟨ne_nil_of_mem_wordsBy hword, fun c hc => ?_⟩
  rw [Bool.eq_false_iff]
  intro hwhite
  have halpha := alphanumeric_of_mem_normalWords hword c hc
  rw [rules.not_white c hwhite] at halpha
  cases halpha

theorem normalWords_blank (rules : TextRules tables) (a b : String) :
    normalWords tables (a ++ " " ++ b) = normalWords tables a ++ normalWords tables b := by
  have hblank : (!tables.isAlphanumeric ' ') = true := by
    rw [rules.not_white ' ' (by decide)]
    rfl
  have hspace : " ".toList = [' '] := rfl
  unfold normalWords
  rw [rules.lower_blank, String.toList_append, String.toList_append, List.append_assoc, hspace,
    List.singleton_append]
  exact @wordsBy_append_break _ (fun c => !tables.isAlphanumeric c) ' ' hblank _ _

theorem normalWords_word (rules : TextRules tables) {word : String}
    (h : word.toList ≠ [] ∧ word.toList.all isAsciiLowercase = true) :
    normalWords tables word = [word.toList] := by
  have hlower : ∀ c ∈ word.toList, 97 ≤ c.toNat ∧ c.toNat ≤ 122 := by
    intro c hc
    have hletter := List.all_eq_true.mp h.2 c hc
    unfold isAsciiLowercase at hletter
    simp only [Bool.and_eq_true, decide_eq_true_eq, Char.le_def, UInt32.le_iff_toNat_le] at hletter
    exact hletter
  have hascii : IsAscii word.toList := fun c hc => by
    have := hlower c hc
    omega
  have hsame : toAsciiLowercase word = word := by
    unfold toAsciiLowercase
    have hmap := List.map_congr_left (f := Char.toLower) (g := id) (l := word.toList) fun c hc => by
      have := hlower c hc
      exact toLower_eq_self (by omega)
    rw [hmap, List.map_id, String.ofList_toList]
  unfold normalWords
  rw [rules.lower word hascii, hsame]
  refine wordsBy_of_forall h.1 fun c hc => ?_
  have hrange := hlower c hc
  rw [rules.alphanumeric c (by omega)]
  unfold isAsciiAlphanumeric
  rw [List.all_eq_true.mp h.2 c hc]
  rfl

/-! ## The number -/

/-- A signed decimal number with commas between its groups of digits, and what stands behind it. -/
structure SetpointNumber where
  negative : Bool
  head : List Char
  groups : List (List Char)
  fraction : List Char
  unit : List Char
  head_ne_nil : head ≠ []
  digits : ∀ c ∈ head ++ groups.flatten ++ fraction, c.isDigit = true
  unit_plain : ∀ c ∈ unit, c = '°' ∨ c.toNat < 128 ∧ c.isDigit = false

namespace SetpointNumber

variable (number : SetpointNumber)

/-- What follows the leading digits. -/
def tail : List Char :=
  number.groups.flatMap (fun group => ',' :: group) ++
    ((if number.fraction = [] then [] else '.' :: number.fraction) ++ number.unit)

def text : String :=
  String.ofList ((if number.negative then ['-'] else []) ++ (number.head ++ number.tail))

def magnitude : ℚ :=
  Tools.digitsValue (number.head ++ number.groups.flatten ++ number.fraction) /
    10 ^ number.fraction.length

def value : ℚ := if number.negative then -number.magnitude else number.magnitude

theorem isDigit_head {c : Char} (hc : c ∈ number.head) : c.isDigit = true :=
  number.digits c (List.mem_append_left _ (List.mem_append_left _ hc))

theorem isDigit_range {c : Char} (h : c.isDigit = true) : 48 ≤ c.toNat ∧ c.toNat ≤ 57 :=
  Char.isDigit_iff_toNat.mp h

theorem mem_tail {c : Char} (h : c ∈ number.tail) :
    c = ',' ∨ c = '.' ∨ c.isDigit = true ∨ c ∈ number.unit := by
  unfold tail at h
  rcases List.mem_append.mp h with hgroups | hrest
  · obtain ⟨group, hgroup, hc⟩ := List.mem_flatMap.mp hgroups
    rcases List.mem_cons.mp hc with rfl | hc
    · exact Or.inl rfl
    · exact Or.inr (Or.inr (Or.inl (number.digits c (List.mem_append_left _
        (List.mem_append_right _ (List.mem_flatten.mpr ⟨group, hgroup, hc⟩))))))
  · rcases List.mem_append.mp hrest with hfraction | hunit
    · split at hfraction
      · cases hfraction
      · rcases List.mem_cons.mp hfraction with rfl | hc
        · exact Or.inr (Or.inl rfl)
        · exact Or.inr (Or.inr (Or.inl (number.digits c (List.mem_append_right _ hc))))
    · exact Or.inr (Or.inr (Or.inr hunit))

theorem toLowercase_text (rules : TextRules tables) :
    tables.toLowercase number.text = String.ofList ((if number.negative then ['-'] else []) ++
      (number.head ++ number.tail.map Char.toLower)) := by
  have hplain : ∀ c ∈ number.text.toList, c.toNat < 128 ∨ c = '°' := by
    intro c hc
    unfold text at hc
    rw [String.toList_ofList] at hc
    rcases List.mem_append.mp hc with hsign | hc
    · split at hsign
      · exact Or.inl (List.mem_singleton.mp hsign ▸ by decide)
      · cases hsign
    · have hdigit : ∀ {c : Char}, c.isDigit = true → c.toNat < 128 ∨ c = '°' := by
        intro c h
        have := isDigit_range h
        omega
      rcases List.mem_append.mp hc with hhead | htail
      · exact hdigit (number.isDigit_head hhead)
      · rcases number.mem_tail htail with rfl | rfl | hc | hunit
        · exact Or.inl (by decide)
        · exact Or.inl (by decide)
        · exact hdigit hc
        · exact (number.unit_plain c hunit).symm.imp_left And.left
  have hhead : number.head.map Char.toLower = number.head := by
    have hmap := List.map_congr_left (f := Char.toLower) (g := id) (l := number.head)
      fun c hc => by
        have := isDigit_range (number.isDigit_head hc)
        exact toLower_eq_self (by omega)
    rw [hmap, List.map_id]
  have hsign : (if number.negative then ['-'] else []).map Char.toLower =
      if number.negative then ['-'] else [] := by
    split <;> rfl
  rw [rules.lower_degree _ hplain]
  unfold toAsciiLowercase text
  rw [String.toList_ofList, List.map_append, List.map_append, hhead, hsign]

theorem isDigit_unit {c : Char} (hc : c ∈ number.unit) : c.toLower.isDigit = false := by
  rcases number.unit_plain c hc with rfl | ⟨hascii, hdigit⟩
  · decide
  · rw [Bool.eq_false_iff] at hdigit ⊢
    intro hlower
    have hrange := isDigit_range hlower
    rw [toNat_toLower] at hrange
    split at hrange
    · omega
    · exact hdigit (Char.isDigit_iff_toNat.mpr hrange)

theorem takeWhile_tail (rules : TextRules tables) :
    ∀ c ∈ (number.tail.map Char.toLower).takeWhile tables.isAlphanumeric, c.isDigit = false := by
  have hcut : ∀ (gap : Char) (rest : List Char), tables.isAlphanumeric gap.toLower = false →
      ((gap :: rest).map Char.toLower).takeWhile tables.isAlphanumeric = [] := by
    intro gap rest hgap
    rw [List.map_cons, List.takeWhile_cons_of_neg (by rw [hgap]; decide)]
  have hcomma : tables.isAlphanumeric (','.toLower) = false := rules.alphanumeric ',' (by decide)
  have hdot : tables.isAlphanumeric ('.'.toLower) = false := rules.alphanumeric '.' (by decide)
  unfold tail
  cases number.groups with
  | cons group groups =>
    rw [List.flatMap_cons, List.append_assoc, List.cons_append, hcut ',' _ hcomma]
    exact fun c hc => absurd hc List.not_mem_nil
  | nil =>
    rw [List.flatMap_nil, List.nil_append]
    split
    · intro c hc
      obtain ⟨d, hd, rfl⟩ := List.mem_map.mp ((List.takeWhile_subset _) hc)
      exact number.isDigit_unit hd
    · rw [List.cons_append, hcut '.' _ hdot]
      exact fun c hc => absurd hc List.not_mem_nil

theorem normalWords_text (rules : TextRules tables) :
    ∃ letters more, normalWords tables number.text = (number.head ++ letters) :: more ∧
      ∀ c ∈ letters, c.isDigit = false := by
  have hminus : tables.isAlphanumeric '-' = false := rules.alphanumeric '-' (by decide)
  have hword := wordsBy_of_forall (p := fun c => !tables.isAlphanumeric c)
    (List.append_ne_nil_of_left_ne_nil number.head_ne_nil
      ((number.tail.map Char.toLower).takeWhile tables.isAlphanumeric)) fun c hc => by
    rcases List.mem_append.mp hc with hc | hc
    · simp [alphanumeric_digit rules.toAsciiRules (number.isDigit_head hc)]
    · simp [List.mem_takeWhile_imp hc]
  have hgap : ∀ c ∈ ((number.tail.map Char.toLower).dropWhile tables.isAlphanumeric).head?,
      (!tables.isAlphanumeric c) = true := by
    intro c hc
    have hhead := List.head?_dropWhile_not tables.isAlphanumeric (number.tail.map Char.toLower)
    rw [Option.mem_def.mp hc] at hhead
    simpa using hhead
  have hrest := wordsBy_append_of_head hgap
    (number.head ++ (number.tail.map Char.toLower).takeWhile tables.isAlphanumeric)
  rw [hword, List.append_assoc, List.takeWhile_append_dropWhile] at hrest
  refine ⟨_, wordsBy (fun c => !tables.isAlphanumeric c)
    ((number.tail.map Char.toLower).dropWhile tables.isAlphanumeric), ?_,
    number.takeWhile_tail rules⟩
  unfold normalWords
  rw [number.toLowercase_text rules, String.toList_ofList]
  split
  · have hbreak := @wordsBy_cons_break _ (fun c => !tables.isAlphanumeric c) '-'
      (by rw [hminus]; rfl) (number.head ++ number.tail.map Char.toLower)
    rw [List.singleton_append, hbreak]
    exact hrest
  · exact hrest

end SetpointNumber

/-! ## The first number -/

variable (doubles : Doubles)

/-- The digits of the first word that has any, or else the first number in words. -/
def firstNumber (words : List String) : Option ℚ :=
  ((words.find? hasAsciiDigit).bind fun word =>
    doubles.nearest (Tools.digitsValue (word.toList.filter Char.isDigit))).or
    ((List.range words.length).findSome? fun start =>
      (parseSpokenNumber words start).map fun spoken => doubles.ofCount spoken.1)

variable {doubles}

theorem splitWhitespace_spaced {words : List (List Char)} (h : IsWords words) :
    splitWhitespace (String.ofList (spaced words)) = words.map String.ofList := by
  have hwords := wordsBy_spaced h
  unfold wordsBy at hwords
  unfold splitWhitespace
  rw [String.toList_ofList, hwords]

theorem parseFinite_digits {word : String} (hdigit : hasAsciiDigit word = true)
    (hdot : '.' ∉ word.toList) :
    parseFinite doubles (word.toList.filter fun c => c.isDigit || c == '.') =
      doubles.nearest (Tools.digitsValue (word.toList.filter Char.isDigit)) := by
  have hfilter : word.toList.filter (fun c => c.isDigit || c == '.') =
      word.toList.filter Char.isDigit := by
    refine List.filter_congr fun c hc => ?_
    have hne : c ≠ '.' := fun heq => hdot (heq ▸ hc)
    simp [hne]
  obtain ⟨c, hc, hcdigit⟩ := List.any_eq_true.mp hdigit
  have hne : word.toList.filter Char.isDigit ≠ [] :=
    List.ne_nil_of_mem (List.mem_filter.mpr ⟨hc, hcdigit⟩)
  have hnumeral := Tools.Numeral.whole hne fun c hc => (List.mem_filter.mp hc).2
  unfold parseFinite
  rw [hfilter, Tools.parseNumber_eq_some.mpr hnumeral, Option.bind_some]

theorem parseAmount_spaced {words : List (List Char)} (h : IsWords words)
    (hdots : ∀ word ∈ words, '.' ∉ word) :
    parseAmount doubles (String.ofList (spaced words)) =
      firstNumber doubles (words.map String.ofList) := by
  have hdigits : digitAmount doubles (words.map String.ofList) =
      ((words.map String.ofList).find? hasAsciiDigit).bind fun word =>
        doubles.nearest (Tools.digitsValue (word.toList.filter Char.isDigit)) := by
    unfold digitAmount
    cases hfind : (words.map String.ofList).find? hasAsciiDigit with
    | none => rfl
    | some word =>
      obtain ⟨cs, hcs, rfl⟩ := List.mem_map.mp (List.mem_of_find?_eq_some hfind)
      rw [Option.bind_some, Option.bind_some]
      exact parseFinite_digits (List.find?_some hfind)
        (by rw [String.toList_ofList]; exact hdots cs hcs)
  unfold parseAmount firstNumber
  dsimp only
  rw [splitWhitespace_spaced h, hdigits]

/-! ## The utterance -/

structure Setpoint where
  preheats : Bool
  device : String
  number : SetpointNumber

namespace Setpoint

variable (setpoint : Setpoint)

def verb : String := if setpoint.preheats then "preheat" else "set"

def text : String :=
  setpoint.verb ++ " the " ++ setpoint.device ++ " to " ++ setpoint.number.text

/-- The normalized words behind the article. -/
def words (tables : CharTables) : List (List Char) :=
  normalWords tables setpoint.device ++ "to".toList :: normalWords tables setpoint.number.text

/-- What stands in front of the first `to`. -/
def named (tables : CharTables) : List (List Char) :=
  "the".toList :: (setpoint.words tables).takeWhile fun word => word != "to".toList

/-- What stands behind the first `to`. -/
def behind (tables : CharTables) : List (List Char) :=
  ((setpoint.words tables).dropWhile fun word => word != "to".toList).tail

def rest (tables : CharTables) : String :=
  String.ofList (spaced ("the".toList :: setpoint.words tables))

theorem normalize_text (rules : TextRules tables) :
    normalize tables setpoint.text = setpoint.verb ++ " " ++ setpoint.rest tables := by
  have htext : setpoint.text = setpoint.verb ++ " " ++ "the" ++ " " ++ setpoint.device ++ " " ++
      "to" ++ " " ++ setpoint.number.text := by
    have hthe : " the " = " " ++ "the" ++ " " := by decide
    have hto : " to " = " " ++ "to" ++ " " := by decide
    unfold text
    rw [hthe, hto]
    simp only [String.append_assoc]
  have hverb : normalWords tables setpoint.verb = [setpoint.verb.toList] := by
    refine normalWords_word rules ?_
    unfold verb
    split <;> decide
  have hspace : " ".toList = [' '] := rfl
  have hrest : (setpoint.rest tables).toList =
      spaced ("the".toList :: setpoint.words tables) := String.toList_ofList
  have hwords : normalWords tables setpoint.text =
      setpoint.verb.toList :: "the".toList :: setpoint.words tables := by
    rw [htext, normalWords_blank rules, normalWords_blank rules, normalWords_blank rules,
      normalWords_blank rules, hverb, normalWords_word rules (by decide : "the".toList ≠ [] ∧ _),
      normalWords_word rules (by decide : "to".toList ≠ [] ∧ _), List.append_assoc,
      List.append_assoc, List.append_assoc]
    rfl
  apply String.toList_inj.mp
  rw [normalize_eq, hwords, String.toList_append, String.toList_append, hspace, hrest,
    spaced_cons_cons, List.append_assoc, List.singleton_append]
  exact String.toList_ofList

theorem isWords_words (rules : TextRules tables) :
    IsWords ("the".toList :: setpoint.words tables) := by
  have hword : ∀ word ∈ ["the".toList, "to".toList],
      word ≠ [] ∧ ∀ c ∈ word, isWhitespace c = false := by
    intro word hmem
    rcases List.mem_pair.mp hmem with rfl | rfl
    · exact ⟨by decide, forall_mem_of_all (by decide)⟩
    · exact ⟨by decide, forall_mem_of_all (by decide)⟩
  intro word hmem
  rcases List.mem_cons.mp hmem with rfl | hmem
  · exact hword _ (by decide)
  · rcases List.mem_append.mp hmem with hmem | hmem
    · exact isWords_normalWords rules _ word hmem
    · rcases List.mem_cons.mp hmem with rfl | hmem
      · exact hword _ (by decide)
      · exact isWords_normalWords rules _ word hmem

theorem words_eq (tables : CharTables) :
    "the".toList :: setpoint.words tables =
      setpoint.named tables ++ "to".toList :: setpoint.behind tables := by
  have hmem : "to".toList ∈ setpoint.words tables := List.mem_append_right _ List.mem_cons_self
  have hne : (setpoint.words tables).dropWhile (fun word => word != "to".toList) ≠ [] := by
    intro hnil
    have hall := List.dropWhile_eq_nil_iff.mp hnil _ hmem
    rw [bne_self_eq_false] at hall
    cases hall
  obtain ⟨first, more, hcons⟩ := List.exists_cons_of_ne_nil hne
  have hfirst : first = "to".toList := by
    have hnot := List.head?_dropWhile_not (fun word => word != "to".toList)
      (setpoint.words tables)
    rw [hcons] at hnot
    simpa using hnot
  have hsplit := List.takeWhile_append_dropWhile (p := fun word => word != "to".toList)
    (l := setpoint.words tables)
  unfold named behind
  rw [hcons, List.tail_cons, List.cons_append]
  rw [hcons, hfirst] at hsplit
  rw [hsplit]

theorem behind_eq (tables : CharTables) :
    ∃ front, setpoint.behind tables = front ++ normalWords tables setpoint.number.text ∧
      ("to".toList ∉ normalWords tables setpoint.device → front = []) := by
  unfold behind words
  rw [List.dropWhile_append]
  split
  · refine ⟨[], ?_, fun _ => rfl⟩
    rw [List.dropWhile_cons_of_neg (by simp)]
    rfl
  · rename_i hne
    refine ⟨((normalWords tables setpoint.device).dropWhile fun word => word != "to".toList).tail ++
      ["to".toList], ?_, fun hnot => absurd ?_ hne⟩
    · have hne : (normalWords tables setpoint.device).dropWhile
          (fun word => word != "to".toList) ≠ [] := by simpa using hne
      rw [List.tail_append_of_ne_nil hne, List.append_assoc, List.singleton_append]
    · rw [List.isEmpty_iff, List.dropWhile_eq_nil_iff]
      intro word hword
      rw [bne_iff_ne]
      rintro rfl
      exact hnot hword

/-! ## The target -/

/-- What is set. -/
def entity (tables : CharTables) : String :=
  withoutDirection (trimStartMatches "an " (trimStartMatches "a " (trimStartMatches "the "
    (String.ofList (spaced (setpoint.named tables))))))

/-- How it is set, if it is a device with a setpoint. -/
def action (tables : CharTables) : Option String :=
  if setpoint.entity tables = "" then none
  else if isLightEntity (setpoint.entity tables) then some "set_brightness"
  else if setpoint.preheats || isTemperatureEntity (setpoint.entity tables) then
    some "set_temperature"
  else none

/-- The number that is read. -/
def amount (tables : CharTables) (doubles : Doubles) : Option ℚ :=
  firstNumber doubles ((setpoint.behind tables).map String.ofList)

theorem mem_behind {word : List Char} (h : word ∈ setpoint.behind tables) :
    word ∈ setpoint.words tables := by
  unfold behind at h
  exact (List.dropWhile_suffix _).subset (List.mem_of_mem_tail h)

theorem dot_notMem (rules : TextRules tables) {word : List Char}
    (h : word ∈ setpoint.words tables) : '.' ∉ word := by
  have hdot : tables.isAlphanumeric '.' = false := rules.alphanumeric '.' (by decide)
  have hplain : ∀ text, word ∈ normalWords tables text → '.' ∉ word := by
    intro text hword hmem
    rw [alphanumeric_of_mem_normalWords hword '.' hmem] at hdot
    cases hdot
  rcases List.mem_append.mp h with h | h
  · exact hplain _ h
  · rcases List.mem_cons.mp h with rfl | h
    · decide
    · exact hplain _ h

theorem parseTemperatureTarget_rest (rules : TextRules tables) :
    parseTemperatureTarget doubles (setpoint.rest tables) =
      if setpoint.entity tables = "" then none
      else (setpoint.amount tables doubles).map fun value => (setpoint.entity tables, value) := by
  have hall := setpoint.isWords_words rules
  have hbehind : setpoint.behind tables ≠ [] := by
    obtain ⟨front, hfront, -⟩ := setpoint.behind_eq tables
    obtain ⟨letters, more, hnumber, -⟩ := setpoint.number.normalWords_text rules
    rw [hfront, hnumber]
    exact List.append_ne_nil_of_right_ne_nil front (List.cons_ne_nil _ _)
  have hnamed : "to".toList ∉ setpoint.named tables := by
    intro hmem
    rcases List.mem_cons.mp hmem with heq | hmem
    · exact absurd heq (by decide)
    · have hnot := List.mem_takeWhile_imp hmem
      rw [bne_self_eq_false] at hnot
      cases hnot
  have hto : " to ".toList = ' ' :: ("to".toList ++ [' ']) := by decide
  have hsplit : splitOnceAt " to " (setpoint.rest tables) =
      some (String.ofList (spaced (setpoint.named tables)),
        String.ofList (spaced (setpoint.behind tables))) := by
    have hrest : (setpoint.rest tables).toList =
        spaced (setpoint.named tables ++ "to".toList :: setpoint.behind tables) := by
      rw [← setpoint.words_eq tables]
      exact String.toList_ofList
    rw [setpoint.words_eq tables] at hall
    unfold splitOnceAt
    rw [hto, hrest, splitOnce_spaced hall (List.cons_ne_nil _ _) hbehind hnamed, Option.map_some]
  have hwords : IsWords (setpoint.named tables) ∧ IsWords (setpoint.behind tables) := by
    rw [setpoint.words_eq tables] at hall
    exact ⟨fun word hword => hall word (List.mem_append_left _ hword),
      fun word hword => hall word (List.mem_append_right _ (List.mem_cons_of_mem _ hword))⟩
  have htrim : trim (String.ofList (spaced (setpoint.named tables))) =
      String.ofList (spaced (setpoint.named tables)) := by
    unfold trim
    rw [String.toList_ofList, trimChars_spaced hwords.1]
  have hamount : parseAmount doubles (String.ofList (spaced (setpoint.behind tables))) =
      setpoint.amount tables doubles :=
    parseAmount_spaced hwords.2 fun word hword =>
      setpoint.dot_notMem rules (setpoint.mem_behind hword)
  unfold parseTemperatureTarget
  rw [hsplit, Option.some_or, Option.bind_some]
  dsimp only
  rw [htrim, hamount]
  rfl

/-- `set` and `preheat` with a number ask for the setpoint. -/
theorem setRequest_text (rules : TextRules tables) :
    setRequest doubles (normalize tables setpoint.text) =
      if endsInTime (setpoint.rest tables) then none
      else (setpoint.action tables).bind fun action =>
        (setpoint.amount tables doubles).map fun value =>
          ⟨setpoint.entity tables, action, some value⟩ := by
  have hverb : setVerb (normalize tables setpoint.text) = some (setpoint.rest tables) ∧
      startsWith "preheat " (normalize tables setpoint.text) = setpoint.preheats := by
    rw [setpoint.normalize_text rules]
    unfold setVerb
    cases hpreheats : setpoint.preheats with
    | false =>
      have hverb : setpoint.verb ++ " " = "set " := by
        unfold verb
        rw [hpreheats]
        rfl
      have hset : startsWith "set " ("set " ++ setpoint.rest tables) = true := startsWith_append _ _
      rw [hverb, stripPrefix_append, Option.some_or]
      exact ⟨rfl, startsWith_eq_false hset (by decide)⟩
    | true =>
      have hverb : setpoint.verb ++ " " = "preheat " := by
        unfold verb
        rw [hpreheats]
        rfl
      have hpreheat : startsWith "preheat " ("preheat " ++ setpoint.rest tables) = true :=
        startsWith_append _ _
      have hset : stripPrefix "set " ("preheat " ++ setpoint.rest tables) = none := by
        unfold stripPrefix
        rw [startsWith_eq_false hpreheat (by decide), if_neg Bool.false_ne_true]
      rw [hverb, hset, Option.none_or, stripPrefix_append]
      exact ⟨rfl, hpreheat⟩
  unfold setRequest
  rw [hverb.1, Option.bind_some, hverb.2]
  split
  · rfl
  · rw [setpoint.parseTemperatureTarget_rest rules]
    unfold action
    by_cases hnone : setpoint.entity tables = ""
    · rw [if_pos hnone, if_pos hnone]
      rfl
    · rw [if_neg hnone, if_neg hnone]
      cases setpoint.amount tables doubles with
      | none =>
        rw [Option.map_none, Option.bind_none]
        exact (Option.bind_fun_none _).symm
      | some value =>
        rw [Option.map_some, Option.bind_some]
        cases hlight : isLightEntity (setpoint.entity tables) with
        | true => simp only [↓reduceIte, Option.bind_some, Option.map_some]
        | false =>
          cases hwarm : setpoint.preheats || isTemperatureEntity (setpoint.entity tables) with
          | true => simp only [Bool.false_eq_true, ↓reduceIte, Option.bind_some, Option.map_some]
          | false => simp only [Bool.false_eq_true, ↓reduceIte, Option.bind_none]

/-! ## The other detectors -/

/-- Neither text begins like the other. -/
def Apart (pre other : String) : Prop := startsWith pre other = false ∧ startsWith other pre = false

instance (pre other : String) : Decidable (Apart pre other) :=
  inferInstanceAs (Decidable (_ ∧ _))

theorem startsWith_other (rules : TextRules tables) {other : String}
    (hset : Apart "set the " other) (hpreheat : Apart "preheat the " other) :
    startsWith other (normalize tables setpoint.text) = false := by
  have hthe : startsWith "the " (setpoint.rest tables) = true := by
    have hne : setpoint.words tables ≠ [] :=
      List.append_ne_nil_of_right_ne_nil _ (List.cons_ne_nil _ _)
    have hrest : (setpoint.rest tables).toList =
        "the".toList ++ ' ' :: spaced (setpoint.words tables) := by
      have hcut := spaced_append (List.cons_ne_nil "the".toList []) hne
      rw [spaced_singleton] at hcut
      exact String.toList_ofList.trans hcut
    have hblank : "the ".toList = "the".toList ++ [' '] := by decide
    rw [startsWith_iff, hrest, hblank]
    exact ⟨spaced (setpoint.words tables), by simp⟩
  obtain ⟨more, hmore⟩ := startsWith_iff.mp hthe
  have hstarts : startsWith (setpoint.verb ++ " the ") (normalize tables setpoint.text) = true := by
    have hlist : (setpoint.verb ++ " the ").toList =
        setpoint.verb.toList ++ ([' '] ++ "the ".toList) := by
      rw [String.toList_append]
      rfl
    have hspace : " ".toList = [' '] := rfl
    rw [startsWith_iff, setpoint.normalize_text rules, hlist, String.toList_append,
      String.toList_append, hspace, ← hmore, List.append_assoc]
    exact ⟨more, by simp⟩
  refine startsWith_eq_false hstarts ?_
  unfold verb
  cases setpoint.preheats with
  | false => exact hset
  | true => exact hpreheat

theorem stripPrefix_other (rules : TextRules tables) {other : String}
    (hset : Apart "set the " other) (hpreheat : Apart "preheat the " other) :
    stripPrefix other (normalize tables setpoint.text) = none := by
  unfold stripPrefix
  rw [setpoint.startsWith_other rules hset hpreheat, if_neg Bool.false_ne_true]

theorem hasAsciiDigit_normalize (rules : TextRules tables) :
    hasAsciiDigit (normalize tables setpoint.text) = true := by
  obtain ⟨letters, more, hnumber, -⟩ := setpoint.number.normalWords_text rules
  obtain ⟨digit, others, hhead⟩ := List.exists_cons_of_ne_nil setpoint.number.head_ne_nil
  have hword : setpoint.number.head ++ letters ∈ "the".toList :: setpoint.words tables := by
    refine List.mem_cons_of_mem _ (List.mem_append_right _ (List.mem_cons_of_mem _ ?_))
    rw [hnumber]
    exact List.mem_cons_self
  rw [← wordsBy_spaced (setpoint.isWords_words rules)] at hword
  have hdigit : digit ∈ (setpoint.rest tables).toList := by
    unfold rest
    rw [String.toList_ofList]
    refine (infix_of_mem_wordsBy hword).subset (List.mem_append_left _ ?_)
    rw [hhead]
    exact List.mem_cons_self
  unfold hasAsciiDigit
  rw [List.any_eq_true]
  refine ⟨digit, ?_, setpoint.number.isDigit_head (hhead ▸ List.mem_cons_self)⟩
  rw [setpoint.normalize_text rules, String.toList_append]
  exact List.mem_append_right _ hdigit

theorem find?_texts {β : Type} (rules : TextRules tables) {table : List (List String × β)}
    (h : table.all (fun entry => entry.1.all fun text => !hasAsciiDigit text) = true) :
    table.find? (fun entry => entry.1.contains (normalize tables setpoint.text)) = none := by
  rw [List.find?_eq_none]
  intro entry hentry hcontains
  have hnone := List.all_eq_true.mp (List.all_eq_true.mp h entry hentry) _
    (List.contains_iff_mem.mp hcontains)
  rw [setpoint.hasAsciiDigit_normalize rules] at hnone
  cases hnone

theorem stripHouseholdSpeakerPrefix_normalize (rules : TextRules tables) :
    stripHouseholdSpeakerPrefix (normalize tables setpoint.text) =
      normalize tables setpoint.text := by
  have hnone : (householdSpeakers.findSome? fun speaker =>
      behindSpeaker speaker.1 (normalize tables setpoint.text)) = none := by
    rw [List.findSome?_eq_none_iff]
    intro speaker hspeaker
    have hapart : ∀ speaker ∈ householdSpeakers, Apart "set the " (speaker.1 ++ " ") ∧
        Apart "preheat the " (speaker.1 ++ " ") := by decide
    obtain ⟨hset, hpreheat⟩ := hapart speaker hspeaker
    unfold behindSpeaker
    rw [setpoint.stripPrefix_other rules hset hpreheat, Option.bind_none]
  unfold stripHouseholdSpeakerPrefix
  rw [hnone, Option.getD_none]

theorem sceneOrRoutineActivationRequest_normalize (rules : TextRules tables) :
    sceneOrRoutineActivationRequest (normalize tables setpoint.text) = none := by
  unfold sceneOrRoutineActivationRequest
  rw [setpoint.stripPrefix_other rules (by decide) (by decide), Option.getD_none]
  dsimp only
  rw [setpoint.find?_texts rules (by decide), Option.map_none]
  dsimp only
  rw [List.findSome?_eq_none_iff]
  intro verb hverb
  have hapart : ∀ verb ∈ ["activate ", "start ", "run "], Apart "set the " verb ∧
      Apart "preheat the " verb := by decide
  obtain ⟨hset, hpreheat⟩ := hapart verb hverb
  rw [setpoint.stripPrefix_other rules hset hpreheat, Option.bind_none]

theorem homeControlRequest_normalize (rules : TextRules tables) :
    homeControlRequest doubles (normalize tables setpoint.text) =
      setRequest doubles (normalize tables setpoint.text) := by
  have hslow : isSlowCooker (normalize tables setpoint.text) = false := by
    unfold isSlowCooker
    rw [setpoint.startsWith_other rules (by decide) (by decide),
      setpoint.startsWith_other rules (by decide) (by decide), Bool.or_false]
  have hturn : simpleTurnRequest (normalize tables setpoint.text) = none := by
    unfold simpleTurnRequest turnVerb
    rw [setpoint.stripPrefix_other rules (by decide) (by decide),
      setpoint.stripPrefix_other rules (by decide) (by decide)]
    rfl
  have hfixed : fixedRequest fixedRequests (normalize tables setpoint.text) = none := by
    unfold fixedRequest
    rw [setpoint.find?_texts rules (by decide), Option.map_none]
  have hlater : fixedRequest laterFixedRequests (normalize tables setpoint.text) = none := by
    unfold fixedRequest
    rw [setpoint.find?_texts rules (by decide), Option.map_none]
  unfold homeControlRequest
  rw [hfixed, hslow, hlater, hturn, setpoint.startsWith_other rules (by decide) (by decide),
    setpoint.startsWith_other rules (by decide) (by decide)]
  rfl

end Setpoint

/-! ## The value of the call -/

def ValueArgument.number : ValueArgument → ℚ
  | integer n => n
  | double x => x

namespace Setpoint

variable (setpoint : Setpoint) {display : Display}

/-- The value of a call is the number that was said, as a double. -/
def IsNumber (doubles : Doubles) (value : Option ValueArgument) : Prop :=
  ∃ argument, value = some argument ∧ doubles.nearest setpoint.number.value = some argument.number

/-- A call that controls the home has the number as its value. -/
def ValueRight (tables : CharTables) (doubles : Doubles) (display : Display) : Prop :=
  ∀ entity action value, route tables doubles display setpoint.text =
    some (.homeControl entity action value) → setpoint.IsNumber doubles value

/-- No other detector takes the utterance, and it does not end in a time. -/
structure Reaches (tables : CharTables) : Prop where
  household : (priorityHomeControlRequest (normalize tables setpoint.text)).bind controlCall = none
  questions : Declined (questionDetectors setpoint.text (normalize tables setpoint.text))
  timer : timerRequest (normalize tables setpoint.text) = none
  media : playMediaRequest (normalize tables setpoint.text) = none
  time : endsInTime (setpoint.rest tables) = false

theorem route_setpoint (rules : TextRules tables) {entity action : String}
    {value : Option ValueArgument} :
    route tables doubles display setpoint.text = some (.homeControl entity action value) ↔
      Declined (firstDetectors (normalize tables setpoint.text)) ∧
        ((priorityHomeControlRequest (normalize tables setpoint.text)).bind controlCall =
            some (.homeControl entity action value) ∨
          setpoint.Reaches tables ∧ ∃ x, setpoint.amount tables doubles = some x ∧
            setpoint.action tables = some action ∧ setpoint.entity tables = entity ∧
            value = some (homeControlValueArgument action x)) := by
  have hne : normalize tables setpoint.text ≠ "" := by
    intro hempty
    have hdigit := setpoint.hasAsciiDigit_normalize rules
    rw [hempty] at hdigit
    cases hdigit
  have hcanonical : ∀ action ∈ setpoint.action tables,
      canonicalizeHouseholdAction action = some action := by
    intro action haction
    have hnames : action = "set_brightness" ∨ action = "set_temperature" := by
      rw [Option.mem_def] at haction
      unfold Setpoint.action at haction
      split_ifs at haction
      · exact Or.inl (Option.some.inj haction).symm
      · exact Or.inr (Option.some.inj haction).symm
    rcases hnames with rfl | rfl <;> decide
  unfold route
  dsimp only
  rw [setpoint.stripHouseholdSpeakerPrefix_normalize rules, if_neg hne,
    routeNormalized_homeControl, setpoint.sceneOrRoutineActivationRequest_normalize rules,
    setpoint.homeControlRequest_normalize rules, setpoint.setRequest_text rules]
  refine and_congr_right fun _ => or_congr_right ?_
  constructor
  · rintro ⟨hhousehold, hquestions, htimer, hscene | ⟨-, hmedia, hcontrol⟩⟩
    · cases hscene.1
    · obtain ⟨request, hrequest, hcall⟩ := Option.bind_eq_some_iff.mp hcontrol
      split at hrequest
      · cases hrequest
      · rename_i htime
        obtain ⟨verb, hverb, hfound⟩ := Option.bind_eq_some_iff.mp hrequest
        obtain ⟨x, hx, rfl⟩ := Option.map_eq_some_iff.mp hfound
        obtain ⟨hentity, haction, hvalue⟩ := controlCall_eq_some.mp hcall
        dsimp only at hentity haction hvalue
        have hsame : verb = action := Option.some.inj ((hcanonical verb hverb).symm.trans haction)
        exact ⟨⟨hhousehold, hquestions, htimer, hmedia, eq_false_of_ne_true htime⟩, x, hx,
          hsame ▸ hverb, hentity, hvalue.symm⟩
  · rintro ⟨hreaches, x, hx, haction, rfl, rfl⟩
    refine ⟨hreaches.household, hreaches.questions, hreaches.timer,
      Or.inr ⟨rfl, hreaches.media, ?_⟩⟩
    rw [hreaches.time, haction, hx, if_neg Bool.false_ne_true, Option.bind_some,
      Option.map_some, Option.bind_some, controlCall_of_canonical (hcanonical action haction),
      Option.map_some]

/-- A phrase of the household stands for this number, or the first number behind the first `to` is
it, and it is one that stays itself as an `i64`. -/
def Readable (tables : CharTables) (doubles : Doubles) : Prop :=
  (∀ request ∈ priorityHomeControlRequest (normalize tables setpoint.text),
    ∀ action ∈ canonicalizeHouseholdAction request.action,
      setpoint.IsNumber doubles (request.value.map (homeControlValueArgument action))) ∧
  (setpoint.Reaches tables → ∀ action ∈ setpoint.action tables,
    ∀ x ∈ setpoint.amount tables doubles,
      setpoint.IsNumber doubles (some (homeControlValueArgument action x)))

theorem valueRight_iff (rules : TextRules tables) :
    setpoint.ValueRight tables doubles display ↔
      (Declined (firstDetectors (normalize tables setpoint.text)) →
        setpoint.Readable tables doubles) := by
  unfold ValueRight
  simp only [setpoint.route_setpoint rules]
  constructor
  · intro h hfirst
    refine ⟨fun request hrequest action haction => ?_, fun hreaches action haction x hx => ?_⟩
    · refine h request.entity action _ ⟨hfirst, Or.inl ?_⟩
      rw [Option.mem_def.mp hrequest, Option.bind_some]
      exact controlCall_eq_some.mpr ⟨rfl, haction, rfl⟩
    · exact h _ action _ ⟨hfirst, Or.inr ⟨hreaches, x, hx, haction, rfl, rfl⟩⟩
  · rintro h entity action value ⟨hfirst, hhousehold | ⟨hreaches, x, hx, haction, -, rfl⟩⟩
    · obtain ⟨request, hrequest, hcall⟩ := Option.bind_eq_some_iff.mp hhousehold
      obtain ⟨-, hverb, rfl⟩ := controlCall_eq_some.mp hcall
      exact (h hfirst).1 request hrequest _ hverb
    · exact (h hfirst).2 hreaches action haction x hx

theorem amount_eq (rules : TextRules tables) {x : ℚ}
    (hdevice : "to".toList ∉ normalWords tables setpoint.device)
    (hx : doubles.nearest (Tools.digitsValue setpoint.number.head) = some x) :
    setpoint.amount tables doubles = some x := by
  obtain ⟨front, hbehind, hnone⟩ := setpoint.behind_eq tables
  obtain ⟨letters, more, hnumber, hletters⟩ := setpoint.number.normalWords_text rules
  obtain ⟨digit, others, hhead⟩ := List.exists_cons_of_ne_nil setpoint.number.head_ne_nil
  have hdigit : hasAsciiDigit (String.ofList (setpoint.number.head ++ letters)) = true := by
    unfold hasAsciiDigit
    rw [String.toList_ofList, List.any_eq_true]
    refine ⟨digit, List.mem_append_left _ ?_, setpoint.number.isDigit_head ?_⟩ <;>
      exact hhead ▸ List.mem_cons_self
  have hfilter : (String.ofList (setpoint.number.head ++ letters)).toList.filter Char.isDigit =
      setpoint.number.head := by
    rw [String.toList_ofList, List.filter_append,
      List.filter_eq_self.mpr fun c hc => setpoint.number.isDigit_head hc,
      List.filter_eq_nil_iff.mpr fun c hc => by rw [hletters c hc]; decide, List.append_nil]
  unfold amount firstNumber
  rw [hbehind, hnone hdevice, List.nil_append, hnumber, List.map_cons,
    List.find?_cons_of_pos hdigit, Option.bind_some, hfilter, hx, Option.some_or]

/-- The device is named without the word `to`, and nothing stands in or before the number but its
leading digits. -/
structure Plain (tables : CharTables) : Prop where
  device : "to".toList ∉ normalWords tables setpoint.device
  positive : setpoint.number.negative = false
  groups : setpoint.number.groups = []
  fraction : setpoint.number.fraction = []

theorem number_homeControlValueArgument (action : String) {x : ℚ} (hx : x < 2 ^ 63) :
    (homeControlValueArgument action x).number = x := by
  unfold homeControlValueArgument
  split
  · rename_i hwhole
    have hnum : (x.num : ℚ) = x := Rat.coe_int_num_of_den_eq_one hwhole.2.1
    have hlt : x.num < 2 ^ 63 := by
      have hcast : (x.num : ℚ) < ((2 ^ 63 : ℤ) : ℚ) := by
        rw [hnum]
        exact_mod_cast hx
      exact_mod_cast hcast
    have hmin : min x.num (2 ^ 63 - 1) = x.num := min_eq_left (by omega)
    unfold ValueArgument.number
    dsimp only
    rw [hmin, hnum]
  · rfl

theorem Plain.isNumber {setpoint : Setpoint} (h : setpoint.Plain tables)
    (rules : TextRules tables) {x : ℚ} (hx : doubles.nearest setpoint.number.value = some x)
    (hlt : x < 2 ^ 63) (action : String) :
    ∀ y ∈ setpoint.amount tables doubles,
      setpoint.IsNumber doubles (some (homeControlValueArgument action y)) := by
  have hvalue : setpoint.number.value = Tools.digitsValue setpoint.number.head := by
    unfold SetpointNumber.value SetpointNumber.magnitude
    rw [h.positive, h.groups, h.fraction]
    simp
  rw [hvalue] at hx
  intro y hy
  rw [setpoint.amount_eq rules h.device hx] at hy
  cases hy
  refine ⟨_, rfl, ?_⟩
  rw [hvalue, hx, number_homeControlValueArgument action hlt]

end Setpoint

/-- The value of a setpoint is right if the phrases of the household and the first number behind
the first `to` say so; for a device without the word `to` that number is the leading digits, so
that a whole number without sign and commas is right. -/
theorem route_setpoint_right (doubles : Doubles) (display : Display) {tables : CharTables}
    (rules : TextRules tables) (setpoint : Setpoint) :
    (setpoint.ValueRight tables doubles display ↔
      (Declined (firstDetectors (normalize tables setpoint.text)) →
        setpoint.Readable tables doubles)) ∧
    (∀ x, "to".toList ∉ normalWords tables setpoint.device →
      doubles.nearest (Tools.digitsValue setpoint.number.head) = some x →
        setpoint.amount tables doubles = some x) ∧
    ∀ x, setpoint.Plain tables → doubles.nearest setpoint.number.value = some x → x < 2 ^ 63 →
      ∀ action, ∀ y ∈ setpoint.amount tables doubles,
        setpoint.IsNumber doubles (some (homeControlValueArgument action y)) :=
  ⟨setpoint.valueRight_iff rules, fun _ hdevice hx => setpoint.amount_eq rules hdevice hx,
    fun _ hplain hx hlt action => hplain.isNumber rules hx hlt action⟩

/-! ## Two utterances -/

theorem five_ne_nil : ['5'] ≠ [] := List.cons_ne_nil _ _

theorem five_digits : ∀ c ∈ ['5'] ++ ([] : List (List Char)).flatten ++ [], c.isDigit = true :=
  List.all_eq_true.mp (by decide)

theorem unit_nil : ∀ c ∈ ([] : List Char), c = '°' ∨ c.toNat < 128 ∧ c.isDigit = false :=
  fun _ hc => absurd hc List.not_mem_nil

/-- `set the ac to 5`, or `-5`. -/
def acToFive (negative : Bool) : Setpoint :=
  ⟨false, "ac", ⟨negative, ['5'], [], [], [], five_ne_nil, five_digits, unit_nil⟩⟩

theorem route_setpoint_right_five :
    (acToFive false).ValueRight .ascii exactDoubles wholeDisplay ∧
      (acToFive false).amount .ascii exactDoubles = some 5 := by
  obtain ⟨hiff, hamount, hplain⟩ :=
    route_setpoint_right exactDoubles wholeDisplay textRules_ascii (acToFive false)
  have hvalue : (acToFive false).number.value = 5 := by decide +kernel
  have hnumber := hplain 5 ⟨by decide, rfl, rfl, rfl⟩ (by rw [hvalue]; rfl) (by norm_num)
  have hnone : priorityHomeControlRequest (normalize .ascii (acToFive false).text) = none := by
    decide +kernel
  refine ⟨hiff.mpr fun _ =>
      ⟨fun request hrequest => ?_, fun _ action _ x hx => hnumber action x hx⟩,
    hamount 5 (by decide) (by decide +kernel)⟩
  rw [hnone] at hrequest
  cases hrequest

theorem memoryRecallQuery_acToFive : memoryRecallQuery "set the ac to 5" = none := by
  have hhousehold : isStructuredHouseholdQuestion "set the ac to 5" = false := by decide +kernel
  have hnote : isHouseholdNoteQuestion "set the ac to 5" = false := by decide +kernel
  have hsemantic : isSemanticHouseholdMemoryQuestion "set the ac to 5" = false := by decide +kernel
  unfold memoryRecallQuery
  rw [hhousehold, hnote, hsemantic]
  decide +kernel

/-- The sign is lost. -/
theorem minus_five_wrong :
    (acToFive true).text = "set the ac to -5" ∧
    route .ascii exactDoubles wholeDisplay "set the ac to -5" =
      some (.homeControl "ac" "set_temperature" (some (.integer 5))) ∧
    ¬ (acToFive true).ValueRight .ascii exactDoubles wholeDisplay := by
  have htext : (acToFive true).text = "set the ac to -5" := by decide +kernel
  have hroute : route .ascii exactDoubles wholeDisplay "set the ac to -5" =
      some (.homeControl "ac" "set_temperature" (some (.integer 5))) := by
    have hnormal : normalize .ascii "set the ac to -5" = "set the ac to 5" := by decide +kernel
    unfold route
    rw [hnormal]
    unfold routeNormalized questionDetectors
    have hspeaker : stripHouseholdSpeakerPrefix "set the ac to 5" = "set the ac to 5" := by decide
    dsimp only
    rw [hspeaker, memoryRecallQuery_acToFive]
    decide +kernel
  refine ⟨htext, hroute, fun hright => ?_⟩
  rw [← htext] at hroute
  obtain ⟨argument, hargument, hnumber⟩ := hright _ _ _ hroute
  cases hargument
  exact absurd (Option.some.inj hnumber) (by decide +kernel)

end GenieClaw.Quick
