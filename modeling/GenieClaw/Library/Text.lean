import Mathlib.Algebra.Group.Nat.Defs
import Mathlib.Data.List.DropRight
import Mathlib.Data.List.Infix

/-!
# Text operations of the source language's standard library

Strings are handled through their characters. The white space of `trim` and
`splitWhitespace` is the Unicode `White_Space` property. `toLowercase` is exact on
every character whose lower case contains an ASCII letter; the other capital letters
outside ASCII are left as they are, which no comparison with an ASCII word can see.
-/

namespace GenieClaw.Library.Text

open List
def isWhitespace (c : Char) : Bool :=
  let n := c.toNat
  (9 ≤ n && n ≤ 13) || n == 0x20 || n == 0x85 || n == 0xA0 || n == 0x1680 ||
    (0x2000 ≤ n && n ≤ 0x200A) || n == 0x2028 || n == 0x2029 || n == 0x202F ||
    n == 0x205F || n == 0x3000

def isAsciiWhitespace (c : Char) : Bool :=
  c == ' ' || c == '\t' || c == '\n' || c.toNat == 12 || c == '\r'

def isAsciiLowercase (c : Char) : Bool := 'a' ≤ c && c ≤ 'z'

def isAsciiAlphanumeric (c : Char) : Bool :=
  isAsciiLowercase c || ('A' ≤ c && c ≤ 'Z') || ('0' ≤ c && c ≤ '9')

def trimChars (cs : List Char) : List Char :=
  (cs.dropWhile isWhitespace).rdropWhile isWhitespace

def trim (s : String) : String := String.ofList (trimChars s.toList)

/-- `Char.toLower` of Lean folds the ASCII capitals and nothing else. -/
def toAsciiLowercase (s : String) : String := String.ofList (s.toList.map Char.toLower)

def toAsciiUppercase (s : String) : String := String.ofList (s.toList.map Char.toUpper)

def eqIgnoreAsciiCase (a b : String) : Bool := toAsciiLowercase a == toAsciiLowercase b

/-- The two capitals outside ASCII whose lower case has an ASCII letter are the Kelvin
sign and the dotted capital I. -/
def lowercaseChar (c : Char) : List Char :=
  if c.toNat = 0x212A then ['k']
  else if c.toNat = 0x130 then ['i', Char.ofNat 0x307]
  else [c.toLower]

def toLowercase (s : String) : String := String.ofList (s.toList.flatMap lowercaseChar)

def containsText (hay needle : String) : Bool := decide (needle.toList <:+: hay.toList)

def containsAny (hay : String) (needles : List String) : Bool := needles.any (containsText hay)

/-- The length in bytes. -/
def byteSize (cs : List Char) : Nat := (String.ofList cs).utf8ByteSize

theorem byteSize_append (xs ys : List Char) : byteSize (xs ++ ys) = byteSize xs + byteSize ys := by
  unfold byteSize
  rw [String.ofList_append, String.utf8ByteSize_append]

/-- What is not white space. -/
def visibleChars (cs : List Char) : List Char := cs.filter fun c => !isWhitespace c

theorem visibleChars_append (xs ys : List Char) :
    visibleChars (xs ++ ys) = visibleChars xs ++ visibleChars ys :=
  filter_append _ _

theorem isWhitespace_printable {c : Char} (h : 33 ≤ c.toNat ∧ c.toNat ≤ 126) :
    isWhitespace c = false := by
  unfold isWhitespace
  simp only [Bool.or_eq_false_iff, Bool.and_eq_false_iff, decide_eq_false_iff_not,
    beq_eq_false_iff_ne]
  omega

def startsWith (pre s : String) : Bool := pre.toList.isPrefixOf s.toList

def endsWith (suf s : String) : Bool := suf.toList.isSuffixOf s.toList

def trimStart (s : String) : String := String.ofList (s.toList.dropWhile isWhitespace)

/-- `str::strip_prefix`. -/
def stripPrefix (pre s : String) : Option String :=
  if startsWith pre s then some (String.ofList (s.toList.drop pre.toList.length)) else none

/-- The text before and after the first occurrence of `sep`. -/
def splitOnce (sep : List Char) : List Char → Option (List Char × List Char)
  | [] => if sep = [] then some ([], []) else none
  | c :: cs =>
    if sep.isPrefixOf (c :: cs) then some ([], (c :: cs).drop sep.length)
    else (splitOnce sep cs).map (fun parts => (c :: parts.1, parts.2))

/-- `str::trim_matches` with a predicate. -/
def trimMatches (p : Char → Bool) (s : String) : String :=
  String.ofList ((s.toList.dropWhile p).rdropWhile p)

/-- `pre` cut off the front again and again, at most `n` times. -/
def dropRepeated (pre : List Char) : Nat → List Char → List Char
  | 0, cs => cs
  | n + 1, cs => if pre.isPrefixOf cs then dropRepeated pre n (cs.drop pre.length) else cs

/-- `str::trim_start_matches` with a text that is not empty. -/
def trimStartMatches (pre s : String) : String :=
  String.ofList (dropRepeated pre.toList s.toList.length s.toList)

/-- The first `n` occurrences of `old` from the left, replaced. -/
def replaceFirst (old new : List Char) : Nat → List Char → List Char
  | 0, cs => cs
  | n + 1, cs =>
    match splitOnce old cs with
    | none => cs
    | some (before, after) => before ++ new ++ replaceFirst old new n after

/-- `str::replace` of a text that is not empty. -/
def replaceText (old new s : String) : String :=
  String.ofList (replaceFirst old.toList new.toList s.toList.length s.toList)

/-- `str::find` in the lower-cased text, with the text before and after it as it was. -/
def splitOnceIgnoreCase (marker s : String) : Option (String × String) :=
  (splitOnce marker.toList (s.toList.map Char.toLower)).map fun parts =>
    (String.ofList (s.toList.take parts.1.length),
      String.ofList (s.toList.drop (parts.1.length + marker.toList.length)))

def splitWhitespace (s : String) : List String :=
  ((s.toList.splitOnP isWhitespace).filter (fun w => !w.isEmpty)).map String.ofList

def joinWith (sep : String) (words : List String) : String :=
  String.ofList (sep.toList.intercalate (words.map String.toList))

/-- A digit of lower-case hexadecimal, for `n < 16`. -/
def hexDigit (n : Nat) : Char := if n < 10 then Char.ofNat (48 + n) else Char.ofNat (87 + n)

/-- The two digits of a byte, high one first. -/
def hexByte (b : UInt8) : List Char := [hexDigit (b.toNat / 16), hexDigit (b.toNat % 16)]

/-- `str::as_bytes`. -/
def asBytes (s : String) : List UInt8 := s.toByteArray.data.toList

theorem forall_mem_of_all {α : Type} {p : α → Prop} [DecidablePred p] {l : List α}
    (h : (l.all fun a => p a) = true) : ∀ a ∈ l, p a := by
  intro a ha
  exact of_decide_eq_true (List.all_eq_true.mp h a ha)

theorem asBytes_injective : Function.Injective asBytes := by
  intro a b h
  apply String.toByteArray_inj.mp
  apply ByteArray.ext
  exact Array.toList_inj.mp h

theorem hexDigit_injective : ∀ m < 16, ∀ n < 16, hexDigit m = hexDigit n → m = n := by
  decide

theorem hexByte_injective : Function.Injective hexByte := by
  intro a b h
  simp only [hexByte, List.cons.injEq, and_true] at h
  have ha := a.toNat_lt
  have hb := b.toNat_lt
  have hhigh := hexDigit_injective _ (by omega) _ (by omega) h.1
  have hlow := hexDigit_injective _ (by omega) _ (by omega) h.2
  apply UInt8.toNat_inj.mp
  omega

theorem flatMap_hexByte_injective :
    Function.Injective (fun bytes : List UInt8 => bytes.flatMap hexByte) := by
  intro as
  induction as with
  | nil =>
    intro bs h
    cases bs with
    | nil => rfl
    | cons b bs => simp [hexByte] at h
  | cons a as ih =>
    intro bs h
    cases bs with
    | nil => simp [hexByte] at h
    | cons b bs =>
      simp only [flatMap_cons] at h
      obtain ⟨hbyte, hrest⟩ := append_inj h rfl
      rw [hexByte_injective hbyte, ih hrest]

theorem dropWhile_eq_self_of_head {p : Char → Bool} {cs : List Char}
    (h : ∀ c, cs.head? = some c → p c = false) : cs.dropWhile p = cs := by
  cases cs with
  | nil => rfl
  | cons c rest => simp [List.dropWhile, h c rfl]

theorem trimChars_idem (cs : List Char) : trimChars (trimChars cs) = trimChars cs := by
  have hhead : (trimChars cs).dropWhile isWhitespace = trimChars cs := by
    apply dropWhile_eq_self_of_head
    intro c hc
    have hpre := rdropWhile_prefix isWhitespace (cs.dropWhile isWhitespace)
    have hc' : (cs.dropWhile isWhitespace).head? = some c := by
      obtain ⟨t, ht⟩ := hpre
      rw [← ht, head?_append]
      unfold trimChars at hc
      rw [hc]
      rfl
    have := head?_dropWhile_not isWhitespace cs
    rw [hc'] at this
    simpa using this
  unfold trimChars at *
  rw [hhead, rdropWhile_idempotent]

@[simp] theorem trim_trim (s : String) : trim (trim s) = trim s := by
  simp [trim, trimChars_idem]

/-! ## ASCII case -/

theorem toNat_toLower (c : Char) :
    c.toLower.toNat = if 65 ≤ c.toNat ∧ c.toNat ≤ 90 then c.toNat + 32 else c.toNat := by
  have hbounds : (c.val ≥ 'A'.val ∧ c.val ≤ 'Z'.val) ↔ 65 ≤ c.toNat ∧ c.toNat ≤ 90 :=
    and_congr UInt32.le_iff_toNat_le UInt32.le_iff_toNat_le
  unfold Char.toLower
  by_cases h : 65 ≤ c.toNat ∧ c.toNat ≤ 90
  · rw [dif_pos (hbounds.mpr h), if_pos h]
    show (c.val + ('a'.val - 'A'.val)).toNat = c.toNat + 32
    rw [UInt32.toNat_add]
    show (c.toNat + 32) % 2 ^ 32 = c.toNat + 32
    omega
  · rw [dif_neg (fun h' => h (hbounds.mp h')), if_neg h]

theorem toLower_eq_self {c : Char} (h : ¬ (65 ≤ c.toNat ∧ c.toNat ≤ 90)) : c.toLower = c := by
  apply Char.toNat_inj.mp
  rw [toNat_toLower, if_neg h]

theorem toLower_toLower (c : Char) : c.toLower.toLower = c.toLower := by
  apply toLower_eq_self
  rw [toNat_toLower]
  split <;> omega

theorem isWhitespace_toLower (c : Char) : isWhitespace c.toLower = isWhitespace c := by
  unfold isWhitespace
  rw [toNat_toLower]
  split
  · rename_i h
    rw [Bool.eq_iff_iff]
    simp
    omega
  · rfl

theorem toAsciiLowercase_idem (s : String) :
    toAsciiLowercase (toAsciiLowercase s) = toAsciiLowercase s := by
  have htwice : Char.toLower ∘ Char.toLower = Char.toLower := funext toLower_toLower
  rw [toAsciiLowercase, toAsciiLowercase, String.toList_ofList, map_map, htwice]

theorem dropWhile_map_of {p : Char → Bool} {f : Char → Char} (h : ∀ c, p (f c) = p c)
    (cs : List Char) : (cs.map f).dropWhile p = (cs.dropWhile p).map f := by
  rw [dropWhile_map]
  congr 2
  exact funext h

theorem trimChars_map {f : Char → Char} (h : ∀ c, isWhitespace (f c) = isWhitespace c)
    (cs : List Char) : trimChars (cs.map f) = (trimChars cs).map f := by
  unfold trimChars List.rdropWhile
  rw [dropWhile_map_of h, ← map_reverse, dropWhile_map_of h, map_reverse]

theorem trim_toAsciiLowercase (s : String) :
    trim (toAsciiLowercase s) = toAsciiLowercase (trim s) := by
  simp [trim, toAsciiLowercase, trimChars_map isWhitespace_toLower]

/-! ## Words -/

theorem splitOnce_append {sep before : List Char} (after : List Char)
    (h : ¬ sep <:+: before ++ sep.dropLast) (hne : sep ≠ []) :
    splitOnce sep (before ++ sep ++ after) = some (before, after) := by
  induction before with
  | nil =>
    obtain ⟨c, rest, rfl⟩ := exists_cons_of_ne_nil hne
    rw [nil_append, cons_append, splitOnce, if_pos (by simp)]
    simp
  | cons c before ih =>
    have hfirst : ¬ sep.isPrefixOf (c :: (before ++ sep ++ after)) = true := by
      intro hprefix
      have hlong :
          sep <+: (c :: before ++ sep.dropLast) ++ (sep.drop (sep.length - 1) ++ after) := by
        rw [append_assoc, ← append_assoc sep.dropLast, dropLast_eq_take,
          take_append_drop, ← append_assoc]
        exact List.isPrefixOf_iff_prefix.mp hprefix
      have hshort : sep <+: c :: before ++ sep.dropLast := by
        refine prefix_of_prefix_length_le hlong (prefix_append _ _) ?_
        rw [length_append, length_cons, length_dropLast]
        omega
      exact h hshort.isInfix
    have hrest : ¬ sep <:+: before ++ sep.dropLast := fun hwithin =>
      h (hwithin.trans (suffix_cons c _).isInfix)
    rw [cons_append, cons_append, splitOnce, if_neg hfirst, ih hrest]
    rfl

theorem splitOnce_eq_none {sep cs : List Char} : splitOnce sep cs = none ↔ ¬ sep <:+: cs := by
  induction cs with
  | nil =>
    rw [splitOnce, infix_nil]
    split <;> simp_all
  | cons c cs ih =>
    rw [splitOnce, infix_cons_iff, ← isPrefixOf_iff_prefix]
    split
    · simp_all
    · simp_all

theorem splitOnce_eq_some {sep cs before after : List Char}
    (h : splitOnce sep cs = some (before, after)) :
    cs = before ++ sep ++ after ∧ (sep ≠ [] → ¬ sep <:+: before ++ sep.dropLast) := by
  induction cs generalizing before with
  | nil =>
    rw [splitOnce] at h
    split at h
    · rename_i hnil
      cases h
      exact ⟨by rw [hnil]; rfl, fun hne => absurd hnil hne⟩
    · cases h
  | cons c cs ih =>
    rw [splitOnce] at h
    split at h
    · rename_i hprefix
      obtain ⟨t, ht⟩ := List.isPrefixOf_iff_prefix.mp hprefix
      cases h
      refine ⟨?_, fun hne hwithin => ?_⟩
      · rw [← ht]
        simp
      · have hlength := hwithin.length_le
        rw [nil_append, length_dropLast] at hlength
        have hpos := List.length_pos_iff.mpr hne
        omega
    · rename_i hprefix
      obtain ⟨⟨b, a⟩, hsplit, heq⟩ := Option.map_eq_some_iff.mp h
      cases heq
      obtain ⟨hcs, hfirst⟩ := ih hsplit
      refine ⟨by rw [hcs]; rfl, fun hne hwithin => ?_⟩
      rw [cons_append, infix_cons_iff] at hwithin
      rcases hwithin with hpre | hin
      · refine hprefix (List.isPrefixOf_iff_prefix.mpr ?_)
        rw [hcs]
        rw [append_assoc]
        refine hpre.trans (prefix_cons_inj c |>.mpr ((prefix_append_right_inj b).mpr ?_))
        exact (List.dropLast_prefix sep).trans (prefix_append sep a)
      · exact hfirst hne hin

theorem splitOnce_longer {pre sep cs before after : List Char} (hne : sep ≠ [])
    (h : splitOnce sep cs = some (before ++ pre, after)) :
    splitOnce (pre ++ sep) cs = some (before, after) := by
  obtain ⟨hcs, hfirst⟩ := splitOnce_eq_some h
  have hlong : ¬ pre ++ sep <:+: before ++ (pre ++ sep).dropLast := by
    intro hwithin
    rw [dropLast_append_of_ne_nil hne, ← append_assoc] at hwithin
    exact hfirst hne ((suffix_append pre sep).isInfix.trans hwithin)
  rw [hcs, append_assoc before pre sep]
  exact splitOnce_append after hlong (by simp [hne])

theorem splitOnceIgnoreCase_eq_none {marker s : String} :
    splitOnceIgnoreCase marker s = none ↔ containsText (toAsciiLowercase s) marker = false := by
  rw [splitOnceIgnoreCase, Option.map_eq_none_iff, splitOnce_eq_none, containsText,
    toAsciiLowercase, String.toList_ofList, decide_eq_false_iff_not]

theorem splitOnceIgnoreCase_longer {pre marker s : String} {parts : String × String}
    (hne : marker ≠ "") (h : splitOnceIgnoreCase marker s = some parts)
    (hends : endsWith pre (toAsciiLowercase parts.1) = true) :
    ∃ before, splitOnceIgnoreCase (pre ++ marker) s = some (before, parts.2) := by
  unfold splitOnceIgnoreCase at h
  obtain ⟨⟨front, rear⟩, hsplit, rfl⟩ := Option.map_eq_some_iff.mp h
  have hlower : (s.toList.take front.length).map Char.toLower = front := by
    rw [map_take, (splitOnce_eq_some hsplit).1, append_assoc, take_left]
  dsimp only at hends
  rw [endsWith, toAsciiLowercase, String.toList_ofList, String.toList_ofList, hlower,
    isSuffixOf_iff_suffix] at hends
  obtain ⟨before, rfl⟩ := hends
  have hmarker : marker.toList ≠ [] := fun hnil => hne (String.toList_inj.mp hnil)
  unfold splitOnceIgnoreCase
  rw [String.toList_append, splitOnce_longer hmarker hsplit]
  refine ⟨String.ofList (s.toList.take before.length), ?_⟩
  rw [Option.map_some, length_append, length_append, Nat.add_assoc]

theorem forall_mem_splitOnP {α : Type} {p : α → Bool} (xs : List α) :
    ∀ w ∈ xs.splitOnP p, ∀ x ∈ w, p x = false := by
  induction xs with
  | nil =>
    intro w hw x hx
    rw [splitOnP_nil, mem_singleton] at hw
    rw [hw] at hx
    cases hx
  | cons a rest ih =>
    intro w hw x hx
    rw [splitOnP_cons_eq_if_modifyHead] at hw
    split at hw
    · rcases List.mem_cons.mp hw with rfl | hw
      · cases hx
      · exact ih w hw x hx
    · rename_i ha
      rcases hsplit : rest.splitOnP p with _ | ⟨first, others⟩
      · exact absurd hsplit (splitOnP_ne_nil p rest)
      · rw [hsplit] at hw ih
        rcases List.mem_cons.mp hw with rfl | hw
        · rcases List.mem_cons.mp hx with rfl | hx
          · exact Bool.eq_false_iff.mpr ha
          · exact ih first mem_cons_self x hx
        · exact ih w (mem_cons_of_mem first hw) x hx

/-- Words are not empty and have no white space. -/
def IsWords (words : List (List Char)) : Prop :=
  ∀ w ∈ words, w ≠ [] ∧ ∀ c ∈ w, isWhitespace c = false

theorem words_of_splitOnP (cs : List Char) :
    IsWords ((cs.splitOnP isWhitespace).filter fun w => !w.isEmpty) := by
  intro w hw
  obtain ⟨hmem, hne⟩ := List.mem_filter.mp hw
  exact ⟨by simpa using hne, forall_mem_splitOnP cs w hmem⟩

theorem splitOnP_intercalate_space {words : List (List Char)} (hwords : IsWords words) :
    (([' '].intercalate words).splitOnP isWhitespace).filter (fun w => !w.isEmpty) = words := by
  induction words with
  | nil => rfl
  | cons first rest ih =>
    obtain ⟨hne, hplain⟩ := hwords first mem_cons_self
    have hrest := ih fun w hw => hwords w (mem_cons_of_mem first hw)
    have hfirst : (!first.isEmpty) = true := by simpa using hne
    cases rest with
    | nil =>
      rw [intercalate_singleton, splitOnP_eq_singleton hplain,
        filter_cons, if_pos hfirst, filter_nil]
    | cons second rest =>
      rw [intercalate_cons_cons, append_assoc, singleton_append,
        splitOnP_append_cons_of_forall_mem hplain ' ' (by decide),
        filter_cons, if_pos hfirst, hrest]

theorem eq_space_of_mem_intercalate {words : List (List Char)} (hwords : IsWords words) {c : Char}
    (hc : c ∈ [' '].intercalate words) (hwhite : isWhitespace c = true) : c = ' ' := by
  induction words with
  | nil => cases hc
  | cons first rest ih =>
    have hfirst : c ∉ first := fun hmem => by
      rw [(hwords first mem_cons_self).2 c hmem] at hwhite
      cases hwhite
    cases rest with
    | nil =>
      rw [intercalate_singleton] at hc
      exact absurd hc hfirst
    | cons second rest =>
      rw [intercalate_cons_cons, append_assoc, List.mem_append, List.mem_append,
        mem_singleton] at hc
      rcases hc with hc | hc | hc
      · exact absurd hc hfirst
      · exact hc
      · exact ih (fun w hw => hwords w (mem_cons_of_mem first hw)) hc

theorem splitWhitespace_joinWith_space (s : String) :
    splitWhitespace (joinWith " " (splitWhitespace s)) = splitWhitespace s := by
  have hspace : " ".toList = [' '] := rfl
  have hwords := splitOnP_intercalate_space (words_of_splitOnP s.toList)
  unfold splitWhitespace joinWith
  rw [map_map, hspace]
  have hid : String.toList ∘ String.ofList = id := by
    funext cs
    exact String.toList_ofList
  rw [hid, map_id, String.toList_ofList, hwords]

/-!
## Lines of a text

* `splitLines_unlines`: a text made of lines has these lines.
-/

/-- Every line with a line break behind it. -/
def unlines (lines : List String) : String := String.join (lines.map fun line => line ++ "\n")

/-- The pieces between the line breaks. -/
def splitLines (text : String) : List String := (text.toList.splitOn '\n').map String.ofList

/-- A text without a line break. -/
def OneLine (text : String) : Prop := '\n' ∉ text.toList

instance (text : String) : Decidable (OneLine text) := inferInstanceAs (Decidable (¬ _))

@[simp] theorem oneLine_append {a b : String} : OneLine (a ++ b) ↔ OneLine a ∧ OneLine b := by
  unfold OneLine
  rw [String.toList_append, List.mem_append, not_or]

theorem oneLine_toString (n : Nat) : OneLine (toString n) := by
  intro h
  have hdigit := Nat.isDigit_of_mem_toDigits (by decide) (by decide) (Nat.toList_repr ▸ h)
  revert hdigit
  decide

theorem splitLines_unlines {lines : List String} (h : ∀ line ∈ lines, OneLine line) :
    splitLines (unlines lines) = lines ++ [""] := by
  induction lines with
  | nil => rfl
  | cons line rest ih =>
    have htext :
        (unlines (line :: rest)).toList = line.toList ++ '\n' :: (unlines rest).toList := by
      rw [unlines, map_cons, String.join_cons, String.toList_append, String.toList_append,
        append_assoc]
      rfl
    have hrest := ih fun l hl => h l (mem_cons_of_mem line hl)
    rw [splitLines, htext,
      splitOn_append_cons_self_of_not_mem (h line mem_cons_self), map_cons,
      String.ofList_toList]
    exact congrArg (line :: ·) hrest

end GenieClaw.Library.Text
