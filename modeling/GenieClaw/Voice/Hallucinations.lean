import GenieClaw.Library.AsciiSearch
import GenieClaw.Library.Gaps

/-!
# Hallucinations of the transcriber

`clean_hallucinations` of `voice/stt.rs`: bracketed markers are cut out one after another, a
ghost phrase is dropped, and the white space is collapsed at the end. The phrase is compared
before the collapse, so that what a marker leaves inside it hides it.

Main results:

* `stripMarkers_done`: the loop ends with a text that has no marker left.
* `isGhost_joinWords`: when the collapsed text is a ghost phrase, in terms of its words.
* `cleanHallucinations_cleaned_iff`: the result is clean unless a ghost phrase was in pieces.
-/

namespace GenieClaw.Voice

open Library Library.Text List

/-! ## Markers -/

/-- The first `opening` and what follows it up to the next `closing`, cut out. -/
def cutMarker (opening closing : Char) (cs : List Char) : Option (List Char) :=
  match splitOnce [opening] cs with
  | none => none
  | some (before, inside) =>
    match splitOnce [closing] inside with
    | none => none
    | some (_, after) => some (before ++ after)

/-- One round of the loop; `none` is its `break`. -/
def cutNextMarker (cs : List Char) : Option (List Char) :=
  (cutMarker '[' ']' cs).or (cutMarker '(' ')' cs)

def stripMarkersWithin : Nat → List Char → List Char
  | 0, cs => cs
  | n + 1, cs =>
    match cutNextMarker cs with
    | some shorter => stripMarkersWithin n shorter
    | none => cs

/-- The loop; no text has more markers than characters. -/
def stripMarkers (text : String) : String :=
  String.ofList (stripMarkersWithin text.toList.length text.toList)

/-! ## The whole pass -/

def ghosts : List String :=
  ["thank you", "thanks for watching", "good night", "goodbye", "i'm sorry", "you're welcome",
    "subscribe", "like and subscribe", "see you next time", "bye bye", "the end",
    "thank you for watching", "please subscribe", "thanks for listening"]

def isGhost (text : String) : Bool := ghosts.contains (toLowercase text)

def joinWords (text : String) : String := trim (joinWith " " (splitWhitespace text))

def cleanHallucinations (text : String) : String :=
  let result := stripMarkers text
  if isGhost (trim result) then "" else joinWords result

/-! ## What the result should be -/

/-- No `opening` has a `closing` after it. -/
def Unpaired (opening closing : Char) (text : String) : Prop :=
  ¬ [opening, closing].Sublist text.toList

/-- Single blanks between the words and no other white space. -/
structure SingleSpaced (text : String) : Prop where
  trimmed : trim text = text
  gaps : Spaced isWhitespace ' ' text.toList

structure Cleaned (text : String) : Prop where
  brackets : Unpaired '[' ']' text
  parentheses : Unpaired '(' ')' text
  spaced : SingleSpaced text
  notGhost : isGhost text = false
  fixed : cleanHallucinations text = text

/-- Without its markers the text has the words of a ghost phrase, in small or capital letters,
and between two of them something other than one blank. -/
def GhostInPieces (text : String) : Prop :=
  (∃ phrase ∈ ghosts,
    (splitWhitespace (stripMarkers text)).map toLowercase = splitWhitespace phrase) ∧
  ¬ SingleSpaced (trim (stripMarkers text))

/-! ## The loop -/

variable {opening closing : Char}

theorem cutMarker_eq_none {cs : List Char} :
    cutMarker opening closing cs = none ↔ ¬ [opening, closing].Sublist cs := by
  unfold cutMarker
  cases hopen : splitOnce [opening] cs with
  | none =>
    have habsent : opening ∉ cs := fun hmem =>
      splitOnce_eq_none.mp hopen (singleton_infix_iff _ _ |>.mpr hmem)
    simp only [true_iff]
    exact fun hpair => habsent (hpair.subset mem_cons_self)
  | some parts =>
    obtain ⟨before, inside⟩ := parts
    obtain ⟨rfl, hfirst⟩ := splitOnce_eq_some hopen
    have habsent : opening ∉ before := by
      have h := hfirst (by simp)
      rw [dropLast_singleton, append_nil, singleton_infix_iff] at h
      exact h
    have hpair : [opening, closing].Sublist (before ++ [opening] ++ inside) ↔ closing ∈ inside := by
      rw [← singleton_sublist, append_assoc]
      constructor
      · intro h
        obtain ⟨l₁, l₂, heq, h₁, h₂⟩ := List.sublist_append_iff.mp h
        cases l₁ with
        | nil =>
          rw [nil_append] at heq
          rw [← heq] at h₂
          exact List.Sublist.of_cons_cons h₂
        | cons a l₁ =>
          rw [cons_append] at heq
          obtain ⟨rfl, -⟩ := List.cons.inj heq
          exact absurd (h₁.subset mem_cons_self) habsent
      · intro h
        exact (List.Sublist.cons_cons opening h).trans (sublist_append_right before _)
    rw [hpair]
    dsimp only
    cases hclose : splitOnce [closing] inside with
    | none =>
      rw [splitOnce_eq_none, singleton_infix_iff] at hclose
      simpa using hclose
    | some parts =>
      obtain ⟨inner, after⟩ := parts
      obtain ⟨rfl, -⟩ := splitOnce_eq_some hclose
      simp

theorem cutMarker_length {cs shorter : List Char}
    (h : cutMarker opening closing cs = some shorter) : shorter.length < cs.length := by
  unfold cutMarker at h
  split at h
  · cases h
  · next before inside hopen =>
    split at h
    · cases h
    · next inner after hclose =>
      obtain ⟨rfl, -⟩ := splitOnce_eq_some hopen
      obtain ⟨rfl, -⟩ := splitOnce_eq_some hclose
      cases h
      simp only [length_append, length_singleton]
      omega

theorem cutNextMarker_length {cs shorter : List Char} (h : cutNextMarker cs = some shorter) :
    shorter.length < cs.length := by
  rcases Option.or_eq_some_iff.mp h with h | ⟨-, h⟩
  · exact cutMarker_length h
  · exact cutMarker_length h

variable {text : String}

theorem cutNextMarker_eq_none :
    cutNextMarker text.toList = none ↔ Unpaired '[' ']' text ∧ Unpaired '(' ')' text := by
  unfold cutNextMarker Unpaired
  rw [Option.or_eq_none_iff, cutMarker_eq_none, cutMarker_eq_none]

theorem stripMarkersWithin_done {n : Nat} {cs : List Char} (h : cs.length ≤ n) :
    cutNextMarker (stripMarkersWithin n cs) = none := by
  induction n generalizing cs with
  | zero =>
    have hnil : cs = [] := List.length_eq_zero_iff.mp (by omega)
    rw [hnil]
    rfl
  | succ n ih =>
    unfold stripMarkersWithin
    cases hcut : cutNextMarker cs with
    | none => exact hcut
    | some shorter =>
      have hshort := cutNextMarker_length hcut
      exact ih (by omega)

theorem stripMarkers_done (text : String) : cutNextMarker (stripMarkers text).toList = none := by
  unfold stripMarkers
  rw [String.toList_ofList]
  exact stripMarkersWithin_done le_rfl

theorem stripMarkers_eq_self (h : cutNextMarker text.toList = none) : stripMarkers text = text := by
  unfold stripMarkers
  cases hlen : text.toList.length with
  | zero => rw [stripMarkersWithin, String.ofList_toList]
  | succ n => rw [stripMarkersWithin, h, String.ofList_toList]

/-! ## The collapse -/

theorem toList_joinWith_splitWhitespace (text : String) :
    (joinWith " " (splitWhitespace text)).toList =
      Text.spaced (wordsBy isWhitespace text.toList) := by
  have hid : String.toList ∘ String.ofList = id := funext fun cs => String.toList_ofList
  unfold joinWith splitWhitespace
  rw [String.toList_ofList, map_map, hid, map_id]
  rfl

theorem toList_joinWords (text : String) :
    (joinWords text).toList = Text.spaced (wordsBy isWhitespace text.toList) := by
  unfold joinWords trim
  rw [String.toList_ofList, toList_joinWith_splitWhitespace,
    trimChars_spaced (isWords_wordsBy _)]

theorem singleSpaced_joinWords (text : String) :
    SingleSpaced (joinWords text) where
  trimmed := trim_trim _
  gaps := by
    rw [toList_joinWords]
    exact gaps_spaced (isWords_wordsBy _)

theorem joinWords_idem (text : String) : joinWords (joinWords text) = joinWords text := by
  apply String.toList_inj.mp
  rw [toList_joinWords, toList_joinWords, wordsBy_spaced (isWords_wordsBy _)]

theorem unpaired_joinWords (hopen : isWhitespace opening = false)
    (hclose : isWhitespace closing = false) (h : Unpaired opening closing text) :
    Unpaired opening closing (joinWords text) := by
  have hkept : ∀ cs : List Char, [opening, closing].Sublist cs →
      [opening, closing].Sublist (cs.filter fun c => !isWhitespace c) := by
    intro cs hpair
    have hfilter := hpair.filter fun c => !isWhitespace c
    simpa [hopen, hclose] using hfilter
  intro hpair
  rw [toList_joinWords] at hpair
  have hfilter := hkept _ hpair
  unfold Text.spaced at hfilter
  rw [filter_intercalate_wordsBy (by decide)] at hfilter
  exact h (hfilter.trans filter_sublist)

/-! ## The comparison -/

theorem toList_toLowercase_joinWords (text : String) :
    (toLowercase (joinWords text)).toList =
      Text.spaced ((wordsBy isWhitespace text.toList).map (List.flatMap lowercaseChar)) := by
  rw [toLowercase, String.toList_ofList, toList_joinWords,
    spaced_flatMap (lowercaseChar_of_whitespace (by decide))]

theorem isWords_lowered (cs : List Char) :
    IsWords ((wordsBy isWhitespace cs).map (List.flatMap lowercaseChar)) :=
  (isWords_wordsBy cs).flatMap fun c hc =>
    ⟨lowercaseChar_ne_nil c, fun _ hd => isWhitespace_of_mem_lowercaseChar hc hd⟩

theorem map_toLowercase_splitWhitespace (text : String) :
    (splitWhitespace text).map toLowercase =
      ((wordsBy isWhitespace text.toList).map (List.flatMap lowercaseChar)).map String.ofList := by
  have hlower : toLowercase ∘ String.ofList = String.ofList ∘ List.flatMap lowercaseChar := by
    funext cs
    simp [toLowercase]
  unfold splitWhitespace
  rw [map_map, hlower, map_map]
  rfl

theorem isGhost_iff : isGhost text = true ↔ toLowercase text ∈ ghosts := by
  unfold isGhost
  exact contains_iff_mem

theorem ghost_spaced {phrase : String} (hphrase : phrase ∈ ghosts) :
    Text.spaced (wordsBy isWhitespace phrase.toList) = phrase.toList := by
  revert phrase
  decide +kernel

/-- The collapsed text is a ghost phrase when its words are those of one. -/
theorem isGhost_joinWords (text : String) :
    isGhost (joinWords text) = true ↔
      ∃ phrase ∈ ghosts, (splitWhitespace text).map toLowercase = splitWhitespace phrase := by
  have hwords : ∀ phrase ∈ ghosts, (toLowercase (joinWords text) = phrase ↔
      (splitWhitespace text).map toLowercase = splitWhitespace phrase) := by
    intro phrase hphrase
    have hof : Function.Injective String.ofList := fun _ _ h => String.ofList_inj.mp h
    rw [← String.toList_inj, toList_toLowercase_joinWords, ← ghost_spaced hphrase,
      map_toLowercase_splitWhitespace]
    constructor
    · intro h
      rw [spaced_injective (isWords_lowered _) (isWords_wordsBy _) h]
      rfl
    · intro h
      exact congrArg Text.spaced (hof.list_map h)
  rw [isGhost_iff]
  constructor
  · intro hmem
    exact ⟨_, hmem, (hwords _ hmem).mp rfl⟩
  · rintro ⟨phrase, hmem, heq⟩
    rw [(hwords phrase hmem).mpr heq]
    exact hmem

/-- The collapse changes nothing where the blanks are single. -/
theorem SingleSpaced.joinWords_eq (h : SingleSpaced (trim text)) : joinWords text = trim text := by
  apply String.toList_inj.mp
  have htrimmed := h.gaps.trimmed_eq
  rw [wordsBy_trim fun _ hc => hc] at htrimmed
  rw [toList_joinWords, ← congrArg String.toList h.trimmed]
  exact (htrimmed.symm.trans String.toList_ofList.symm)

/-- A ghost phrase has single blanks, and so has a text that is taken for one. -/
theorem SingleSpaced.of_isGhost (h : isGhost (trim text) = true) : SingleSpaced (trim text) where
  trimmed := trim_trim text
  gaps := by
    have hphrase : toLowercase (trim text) ∈ ghosts := isGhost_iff.mp h
    have hspaced := gaps_spaced (isWords_wordsBy (toLowercase (trim text)).toList)
    have hlowered : (toLowercase (trim text)).toList = (trim text).toList.flatMap lowercaseChar :=
      String.toList_ofList
    rw [ghost_spaced hphrase, hlowered] at hspaced
    exact hspaced.of_flatMap (fun _ hc => lowercaseChar_of_whitespace hc) (by decide)

/-- The phrase is missed when it is there after the collapse only. -/
theorem ghostInPieces_iff (text : String) :
    GhostInPieces text ↔
      isGhost (trim (stripMarkers text)) = false ∧
        isGhost (joinWords (stripMarkers text)) = true := by
  unfold GhostInPieces
  rw [← isGhost_joinWords]
  constructor
  · rintro ⟨hghost, hgaps⟩
    exact ⟨eq_false_of_ne_true fun h => hgaps (.of_isGhost h), hghost⟩
  · rintro ⟨hnot, hghost⟩
    refine ⟨hghost, fun hspaced => ?_⟩
    rw [← hspaced.joinWords_eq, hghost] at hnot
    cases hnot

/-! ## The result -/

theorem cleanHallucinations_of_unmarked (h : cutNextMarker text.toList = none) :
    cleanHallucinations text = if isGhost (trim text) then "" else joinWords text := by
  unfold cleanHallucinations
  rw [stripMarkers_eq_self h]

theorem cleaned_empty : Cleaned "" where
  brackets := by
    unfold Unpaired
    decide
  parentheses := by
    unfold Unpaired
    decide
  spaced := singleSpaced_joinWords ""
  notGhost := by decide
  fixed := by decide +kernel

/-- Cleaning ends with a clean text unless a ghost phrase was in pieces. -/
theorem cleanHallucinations_cleaned_iff (text : String) :
    cutNextMarker (stripMarkers text).toList = none ∧
      (Cleaned (cleanHallucinations text) ↔ ¬ GhostInPieces text) := by
  have hdone := stripMarkers_done text
  refine ⟨hdone, ?_⟩
  rw [ghostInPieces_iff]
  by_cases hghost : isGhost (trim (stripMarkers text)) = true
  · have hempty : cleanHallucinations text = "" := by
      unfold cleanHallucinations
      dsimp only
      rw [if_pos hghost]
    rw [hempty, hghost]
    exact iff_of_true cleaned_empty fun h => Bool.noConfusion h.1
  · have hresult : cleanHallucinations text = joinWords (stripMarkers text) := by
      unfold cleanHallucinations
      dsimp only
      rw [if_neg hghost]
    rw [hresult]
    constructor
    · rintro hclean ⟨-, hpieces⟩
      rw [hclean.notGhost] at hpieces
      cases hpieces
    · intro hwhole
      have hnot : isGhost (joinWords (stripMarkers text)) = false :=
        eq_false_of_ne_true fun h => hwhole ⟨eq_false_of_ne_true hghost, h⟩
      obtain ⟨hbrackets, hparens⟩ := cutNextMarker_eq_none.mp hdone
      have hbrackets' := unpaired_joinWords (by decide) (by decide) hbrackets
      have hparens' := unpaired_joinWords (by decide) (by decide) hparens
      have hspaced := singleSpaced_joinWords (stripMarkers text)
      refine ⟨hbrackets', hparens', hspaced, hnot, ?_⟩
      rw [cleanHallucinations_of_unmarked (cutNextMarker_eq_none.mpr ⟨hbrackets', hparens'⟩),
        hspaced.trimmed, hnot, if_neg (by decide), joinWords_idem]

/-- A marker inside a ghost phrase lets it through, and a second pass would drop it. -/
theorem thank_noise_you_stays :
    ¬ ∀ text, cutNextMarker (stripMarkers text).toList = none ∧
      Cleaned (cleanHallucinations text) := by
  intro h
  have hclean := (h "thank [noise] you").2.notGhost
  exact absurd hclean (by decide +kernel)

example : cleanHallucinations "hi [coughing] there" = "hi there" := by decide +kernel

end GenieClaw.Voice
