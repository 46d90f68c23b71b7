import GenieClaw.Quick.Amounts
import GenieClaw.Quick.Delays

/-!
# Percentages

`percentage_expression` takes the number in front of the first percent word and the number behind
the first `of`. Where these are the ones of the phrase, and no article or number stands next to a
number in words, the calculator gets the percentage that was asked for.

* `percentageExpression_plain`: a plain percentage is read as it is said.
-/

namespace GenieClaw.Quick

open Library Library.Text List Option

/-! ## Written expressions -/

theorem spells_append {xs ys : List Char} {ts us : List Tools.Token} (hx : Tools.Spells xs ts)
    (hy : Tools.Spells ys us) : Tools.Spells (xs ++ ys) (ts ++ us) := by
  induction hx with
  | nil => exact hy
  | blank hc _ ih => exact .blank hc ih
  | symbol hc _ ih => exact .symbol hc ih
  | number hn _ ih =>
    rw [append_assoc, cons_append]
    exact .number hn ih

theorem spells_numeral {cs : List Char} {v : ℚ} (h : Tools.Numeral cs v) :
    Tools.Spells cs [.number v] := by
  have hspells := Tools.Spells.number h .nil
  rwa [append_nil] at hspells

theorem numeral_digits {cs : List Char} {n : Nat} (hne : cs ≠ [])
    (hdigits : cs.all Char.isDigit = true) (hvalue : Tools.digitsValue cs = n) :
    Tools.Numeral cs n :=
  hvalue ▸ .whole hne (List.all_eq_true.mp hdigits)

/-- A number as an operand. -/
def operand {levels : Nat} (v : ℚ) : Tools.Signed (Tools.Factor (Tools.Expr levels)) :=
  .bare (.number v)

def percentageTree (base percent : ℚ) : Tools.ParseTree :=
  Chain.one (.step (.step (.one (operand base)) .times (operand percent)) .divide (operand 100))

theorem evaluate_percentage {base percent : String} {b p : ℚ}
    (hbase : Tools.Numeral base.toList b) (hpercent : Tools.Numeral percent.toList p) :
    Tools.evaluate (base ++ " * " ++ percent ++ " / 100") = .ok (b * p / 100) := by
  have htimes : Tools.Spells " * ".toList [.star] := .blank rfl (.symbol rfl (.blank rfl .nil))
  have hundred : Tools.Numeral "100".toList ((100 : Nat) : ℚ) :=
    numeral_digits (by decide) (by decide) (by decide)
  have hdivide : Tools.Spells " / 100".toList [.slash, .number 100] :=
    .blank rfl (.symbol rfl (.blank rfl (spells_numeral hundred)))
  refine Tools.evaluate_eq_ok.mpr ⟨percentageTree b p, ?_, rfl⟩
  unfold Tools.Expr.SpelledBy
  rw [String.toList_append, String.toList_append, String.toList_append]
  have hspells := spells_append (spells_append (spells_append (spells_numeral hbase) htimes)
    (spells_numeral hpercent)) hdivide
  exact hspells

variable (doubles : Doubles) (display : Display)

/-- The number comes through a double and its shortest text unchanged. -/
def Kept (v : ℚ) : Prop := ∃ m, doubles.nearest v = some m ∧ display.printed m = v

variable {doubles display}

theorem Kept.numeral {v : ℚ} (h : Kept doubles display v) (hv : 0 ≤ v) :
    ∃ m, doubles.nearest v = some m ∧ Tools.Numeral (display.text m).toList v := by
  obtain ⟨m, hm, hprinted⟩ := h
  have hnumeral := display.numeral m (doubles.nearest_nonneg v hv m hm)
  rw [hprinted] at hnumeral
  exact ⟨m, hm, hnumeral⟩

/-! ## Percentages -/

/-- A percentage with words around it. -/
structure PercentPhrase where
  front : List String
  percent : List String
  marker : String
  between : List String
  base : List String
  back : List String
  percentValue : ℚ
  baseValue : ℚ
  percent_amount : Amount percent percentValue
  base_amount : Amount base baseValue
  marker_percent : isPercentWord marker = true

namespace PercentPhrase

variable (phrase : PercentPhrase)

/-- The words up to the `of`. -/
def head : List String :=
  phrase.front ++ (phrase.percent ++ phrase.marker :: phrase.between)

def words : List String := phrase.head ++ "of" :: (phrase.base ++ phrase.back)

/-- The first percent word and the first `of` are those of the phrase, and a number in words has
no other number and no article next to it. -/
structure Plain : Prop where
  first_percent : ∀ word ∈ phrase.front, isPercentWord word = false
  first_of : "of" ∉ phrase.front ++ phrase.between
  detached : Spoken phrase.percent → Detached phrase.front
  ends : Spoken phrase.base → goesOn phrase.back = false

end PercentPhrase

theorem findIdx?_first {p : String → Bool} {front : List String} {word : String}
    {rest : List String} (hfront : ∀ other ∈ front, p other = false) (hword : p word = true) :
    (front ++ word :: rest).findIdx? p = some front.length := by
  have hnone : front.findIdx? p = none := List.findIdx?_eq_none_iff.mpr hfront
  rw [findIdx?_append, hnone, none_or, findIdx?_cons, hword]
  simp

theorem isPercentWord_mem {word : String} (h : isPercentWord word = true) :
    word ∈ ["percent", "percentage", "%"] := List.contains_iff_mem.mp h

theorem Amount.not_percent {words : List String} {v : ℚ} (h : Amount words v) :
    ∀ word ∈ words, isPercentWord word = false := by
  intro word hword
  rw [Bool.eq_false_iff]
  intro hpercent
  have hmem := isPercentWord_mem hpercent
  simp only [mem_cons, not_mem_nil, or_false] at hmem
  rcases hmem with rfl | rfl | rfl <;>
    exact h.notMem (by decide) (by decide) (by decide) hword

theorem goesOn_percent {word : String} {rest : List String} (h : isPercentWord word = true) :
    goesOn (word :: rest) = false := by
  have hmem := isPercentWord_mem h
  simp only [mem_cons, not_mem_nil, or_false] at hmem
  rcases hmem with rfl | rfl | rfl <;> rfl

section

variable {phrase : PercentPhrase}

theorem PercentPhrase.words_percent (phrase : PercentPhrase) :
    phrase.words = phrase.front ++ (phrase.percent ++
      phrase.marker :: (phrase.between ++ "of" :: (phrase.base ++ phrase.back))) := by
  unfold words head
  rw [append_assoc, append_assoc, cons_append]

theorem PercentPhrase.Plain.percentIdx (h : phrase.Plain) :
    phrase.words.findIdx? isPercentWord = some (phrase.front.length + phrase.percent.length) := by
  rw [phrase.words_percent, ← append_assoc, ← length_append]
  refine findIdx?_first (fun word hword => ?_) phrase.marker_percent
  rcases List.mem_append.mp hword with hword | hword
  · exact h.first_percent word hword
  · exact phrase.percent_amount.not_percent word hword

theorem PercentPhrase.Plain.ofIdx (h : phrase.Plain) :
    (phrase.words.findIdx? fun token => token = "of") = some phrase.head.length := by
  have hfront : "of" ∉ phrase.head := by
    have hof := h.first_of
    unfold PercentPhrase.head
    rw [mem_append, not_or] at hof
    rw [mem_append, mem_append, mem_cons]
    rintro (hword | hword | hword | hword)
    · exact hof.1 hword
    · exact phrase.percent_amount.notMem (by decide) (by decide) (by decide) hword
    · exact absurd (hword ▸ phrase.marker_percent) (by decide)
    · exact hof.2 hword
  unfold PercentPhrase.words
  refine findIdx?_first (fun word hword => ?_) (by decide)
  rw [decide_eq_false_iff_not]
  rintro rfl
  exact hfront hword

theorem percentageExpression_plain {text : String} (hwords : splitWhitespace text = phrase.words)
    (h : phrase.Plain) (hpercent : Kept doubles display phrase.percentValue)
    (hbase : Kept doubles display phrase.baseValue) :
    ∃ expression, percentageExpression doubles display text = some expression ∧
      Tools.evaluate expression = .ok (phrase.baseValue * phrase.percentValue / 100) := by
  obtain ⟨p, hp, hpnumeral⟩ := hpercent.numeral phrase.percent_amount.nonneg
  obtain ⟨b, hb, hbnumeral⟩ := hbase.numeral phrase.base_amount.nonneg
  refine ⟨display.text b ++ " * " ++ display.text p ++ " / 100", ?_,
    evaluate_percentage hbnumeral hpnumeral⟩
  have hending : calcNumberEndingAt doubles phrase.words
      (phrase.front.length + phrase.percent.length) = some p := by
    rw [phrase.words_percent]
    exact phrase.percent_amount.ending hp h.detached (goesOn_percent phrase.marker_percent)
  have hstarting : calcNumberStartingAt doubles phrase.words (phrase.head.length + 1) = some b := by
    have hread := @Amount.starting _ (phrase.head ++ ["of"]) _ _ _ _ phrase.base_amount hb h.ends
    rwa [length_append, length_singleton, append_assoc, singleton_append]
      at hread
  unfold percentageExpression
  dsimp only
  rw [hwords, h.percentIdx, bind_some, hending, bind_some, h.ofIdx,
    bind_some, hstarting, map_some]

end

end GenieClaw.Quick
