import GenieClaw.Library.Words

/-!
# Phrases in a text

Cutting a text at its last separator and cutting phrases off its ends, and what stays of its last
word.
-/

namespace GenieClaw.Library.Text

open List String
/-- The text before and after the last occurrence of `sep`. -/
def rsplitOnce (sep cs : List Char) : Option (List Char × List Char) :=
  (splitOnce sep.reverse cs.reverse).map fun parts => (parts.2.reverse, parts.1.reverse)

/-- `str::split_once`. -/
def splitOnceAt (sep s : String) : Option (String × String) :=
  (splitOnce sep.toList s.toList).map fun parts => (String.ofList parts.1, String.ofList parts.2)

/-- `str::rsplit_once`. -/
def rsplitOnceAt (sep s : String) : Option (String × String) :=
  (rsplitOnce sep.toList s.toList).map fun parts => (String.ofList parts.1, String.ofList parts.2)

/-- `str::strip_suffix`. -/
def stripSuffix (suf s : String) : Option String :=
  if endsWith suf s then some (String.ofList (s.toList.take (s.toList.length - suf.toList.length)))
  else none

/-- `str::trim_end`. -/
def trimEnd (s : String) : String := String.ofList (s.toList.rdropWhile isWhitespace)

/-- `str::trim_end_matches` with a text that is not empty. -/
def trimEndMatches (suf s : String) : String :=
  String.ofList (dropRepeated suf.toList.reverse s.toList.length s.toList.reverse).reverse

/-- The last of the words. -/
def lastWord (cs : List Char) : Option (List Char) := (wordsBy isWhitespace cs).getLast?

/-! ## Beginnings -/

theorem startsWith_iff {pre s : String} : startsWith pre s = true ↔ pre.toList <+: s.toList := by
  unfold startsWith
  exact isPrefixOf_iff_prefix

theorem startsWith_append (pre s : String) : startsWith pre (pre ++ s) = true := by
  rw [startsWith_iff, toList_append]
  exact prefix_append _ _

theorem startsWith_eq_false {pre other : String} (h : startsWith pre text = true)
    (hapart : startsWith pre other = false ∧ startsWith other pre = false) :
    startsWith other text = false := by
  by_contra hother
  rw [Bool.not_eq_false] at hother
  have hpre := startsWith_iff.mp h
  have hsame := startsWith_iff.mp hother
  rcases prefix_or_prefix_of_prefix hpre hsame with hle | hle
  · rw [startsWith_iff.mpr hle] at hapart
    exact absurd hapart.1 (by decide)
  · rw [startsWith_iff.mpr hle] at hapart
    exact absurd hapart.2 (by decide)

theorem stripPrefix_append (pre s : String) : stripPrefix pre (pre ++ s) = some s := by
  unfold stripPrefix
  rw [if_pos (startsWith_append pre s), toList_append, drop_left, ofList_toList]

theorem stripPrefix_eq_some {pre s rest : String} (h : stripPrefix pre s = some rest) :
    s.toList = pre.toList ++ rest.toList := by
  unfold stripPrefix at h
  split at h
  · rename_i hstarts
    obtain ⟨more, hmore⟩ := startsWith_iff.mp hstarts
    cases h
    rw [toList_ofList, ← hmore, drop_left]
  · cases h

/-! ## The last separator -/

theorem rsplitOnce_eq_none {sep cs : List Char} : rsplitOnce sep cs = none ↔ ¬ sep <:+: cs := by
  unfold rsplitOnce
  rw [Option.map_eq_none_iff, splitOnce_eq_none, reverse_infix]

theorem rsplitOnce_eq_some {sep cs before after : List Char}
    (h : rsplitOnce sep cs = some (before, after)) (hne : sep ≠ []) :
    cs = before ++ sep ++ after ∧ ¬ sep <:+: sep.tail ++ after := by
  obtain ⟨⟨front, back⟩, hsplit, heq⟩ := Option.map_eq_some_iff.mp h
  cases heq
  obtain ⟨hcs, hfirst⟩ := splitOnce_eq_some hsplit
  constructor
  · have hback := congrArg List.reverse hcs
    rwa [reverse_reverse, reverse_append, reverse_append, reverse_reverse,
      ← List.append_assoc] at hback
  · have hnot := hfirst (by rwa [ne_eq, reverse_eq_nil_iff])
    have hrear : front ++ sep.reverse.dropLast = (sep.tail ++ front.reverse).reverse := by
      rw [dropLast_reverse, reverse_append, reverse_reverse]
    rwa [hrear, reverse_infix] at hnot

/-! ## The last word -/

theorem lastWord_append {front rest : List Char} {d : Char} (hd : isWhitespace d = true)
    (hrest : wordsBy isWhitespace rest ≠ []) : lastWord (front ++ d :: rest) = lastWord rest := by
  unfold lastWord
  rw [wordsBy_append_break hd, getLast?_append_of_ne_nil _ hrest]

theorem lastWord_trimChars (cs : List Char) : lastWord (trimChars cs) = lastWord cs := by
  have h := @wordsBy_trim isWhitespace (fun _ h => h) (String.ofList cs)
  unfold trim at h
  rw [toList_ofList, toList_ofList] at h
  unfold lastWord
  rw [h]

theorem getLast?_trimChars {cs : List Char} {c : Char} (h : c ∈ (trimChars cs).getLast?) :
    isWhitespace c = false := by
  unfold trimChars at h
  have hlast := @getLast?_rdropWhile _ (fun c => !isWhitespace c) (cs.dropWhile isWhitespace) c
  simp only [Bool.not_not, Bool.not_eq_true'] at hlast
  exact hlast h

end GenieClaw.Library.Text
