import GenieClaw.Library.Comparator
import GenieClaw.Library.Digits
import GenieClaw.Library.SemanticVersion
import Mathlib.Data.List.Infix

/-!
# Comparing the versions of an update

`genie-core/src/ota/mod.rs`: a version is parsed by successive splits, and two versions are
compared by their numbers, then by whether they are releases, then by their identifiers.

* `versionIsNewer_precedence` (no assumption but that numbers fit): a strict weak order of all texts
  and the precedence of the versions.
-/

namespace GenieClaw.Ota

open Std Library Library.Text Library.Comparator Library.SemanticVersion List Option

/-! ## The model -/

/-- The core, and the pre-release identifiers: none for a release. -/
structure SemVer where
  core : Nat × Nat × Nat
  pre : List String

/-- A number of 32 bits, or 0. -/
def parseComponent (piece : List Char) : Nat :=
  (parseUnsigned 10 32 (trim (String.ofList piece))).getD 0

/-- The core and the pre-release, without the build metadata. -/
def splitVersion (s : List Char) : List Char × Option (List Char) :=
  match splitOnce ['-'] s with
  | some (core, pre) => (core, some pre)
  | none => (s, none)

def preIdentifiers (pre : Option (List Char)) : List String :=
  match pre.filter fun p => !p.isEmpty with
  | some p => (p.splitOn '.').map String.ofList
  | none => []

def parseSemver (s : String) : SemVer :=
  let s := trim s
  let s := (stripPrefix "v" s).getD s
  let parts := splitVersion (s.toList.takeWhile (· ≠ '+'))
  let nums := (parts.1.splitOn '.').map parseComponent
  { core := (nums[0]?.getD 0, nums[1]?.getD 0, nums[2]?.getD 0), pre := preIdentifiers parts.2 }

/-- Numbers of 64 bits are below all other identifiers. -/
def comparePreIdentifier (a b : String) : Ordering :=
  match parseUnsigned 10 64 a, parseUnsigned 10 64 b with
  | some an, some bn => compare an bn
  | some _, none => .lt
  | none, some _ => .gt
  | none, none => compare a b

/-- The order of tuples. -/
def compareCore (a b : Nat × Nat × Nat) : Ordering :=
  (compare a.1 b.1).then ((compare a.2.1 b.2.1).then (compare a.2.2 b.2.2))

def compareSemver (a b : SemVer) : Ordering :=
  match compareCore a.core b.core with
  | .eq =>
    match a.pre.isEmpty, b.pre.isEmpty with
    | true, true => .eq
    | true, false => .gt
    | false, true => .lt
    | false, false =>
      match compareShared comparePreIdentifier a.pre b.pre with
      | .eq => compare a.pre.length b.pre.length
      | nonEq => nonEq
  | nonEq => nonEq

def versionIsNewer (latest current : String) : Bool :=
  compareSemver (parseSemver latest) (parseSemver current) == .gt

/-! ## One comparison -/

instance : OrientedCmp comparePreIdentifier where
  eq_swap {a b} := by
    unfold comparePreIdentifier
    cases parseUnsigned 10 64 a with
    | none =>
      cases parseUnsigned 10 64 b with
      | none => exact OrientedOrd.eq_swap
      | some n => rfl
    | some m =>
      cases parseUnsigned 10 64 b with
      | none => rfl
      | some n => exact OrientedOrd.eq_swap

instance : TransCmp comparePreIdentifier where
  isLE_trans {a b c} hab hbc := by
    unfold comparePreIdentifier at *
    cases ha : parseUnsigned 10 64 a <;> cases hb : parseUnsigned 10 64 b <;>
      cases hc : parseUnsigned 10 64 c <;> simp only [ha, hb, hc] at *
    all_goals first | exact TransOrd.isLE_trans hab hbc | contradiction | rfl

instance : TransCmp compareCore :=
  inferInstanceAs (TransCmp (compareLex (fun a b : Nat × Nat × Nat => compare a.1 b.1)
    (compareLex (fun a b => compare a.2.1 b.2.1) fun a b => compare a.2.2 b.2.2)))

theorem compareSemver_eq : compareSemver =
    compareLex (fun a b => compareCore a.core b.core)
      (compareLex (fun a b => compare a.pre.isEmpty b.pre.isEmpty)
        fun a b => List.compareLex comparePreIdentifier a.pre b.pre) := by
  funext a b
  unfold compareSemver compareLex
  dsimp only
  cases compareCore a.core b.core with
  | lt => rfl
  | gt => rfl
  | eq =>
    cases a.pre with
    | nil =>
      cases b.pre with
      | nil => rfl
      | cons y ys => rfl
    | cons x xs =>
      cases b.pre with
      | nil => rfl
      | cons y ys =>
        rw [← shared_then_length]
        simp only [isEmpty_cons]
        cases compareShared comparePreIdentifier (x :: xs) (y :: ys) with
        | eq => rfl
        | lt => rfl
        | gt => rfl

instance : TransCmp compareSemver := by
  rw [compareSemver_eq]
  infer_instance

/-! ## What is written is read back -/

/-- The text of a version, with or without the `v` in front. -/
def versionText (leading : Bool) (v : Version) : String :=
  String.ofList (if leading then 'v' :: v.chars else v.chars)

theorem trimChars_visible {cs : List Char} (h : ∀ c ∈ cs, 33 ≤ c.toNat ∧ c.toNat ≤ 126) :
    trimChars cs = cs := by
  have hhead : cs.dropWhile isWhitespace = cs :=
    dropWhile_eq_self_of_head fun c hc => isWhitespace_printable (h c (mem_of_mem_head? hc))
  unfold trimChars
  rw [hhead, rdropWhile_eq_self_iff]
  intro hne
  rw [Bool.not_eq_true]
  exact isWhitespace_printable (h _ (getLast_mem hne))

theorem stripped_versionText (leading : Bool) (v : Version) :
    (stripPrefix "v" (trim (versionText leading v))).getD (trim (versionText leading v)) =
      String.ofList v.chars := by
  have htrim : ∀ cs : List Char, (∀ c ∈ cs, 33 ≤ c.toNat ∧ c.toNat ≤ 126) →
      trim (String.ofList cs) = String.ofList cs := by
    intro cs h
    rw [trim, String.toList_ofList, trimChars_visible h]
  cases leading with
  | true =>
    have hvisible : ∀ c ∈ 'v' :: v.chars, 33 ≤ c.toNat ∧ c.toNat ≤ 126 := by
      rintro c (_ | ⟨_, hc⟩)
      · decide
      · exact Version.mem_chars hc
    show (stripPrefix "v" (trim (String.ofList ('v' :: v.chars)))).getD
      (trim (String.ofList ('v' :: v.chars))) = _
    rw [htrim _ hvisible]
    simp [stripPrefix, startsWith]
  | false =>
    show (stripPrefix "v" (trim (String.ofList v.chars))).getD
      (trim (String.ofList v.chars)) = _
    rw [htrim _ fun c hc => Version.mem_chars hc]
    obtain ⟨c, cs, hcore, hdigit⟩ := v.head_coreChars
    have hv : c ≠ 'v' := fun h => absurd (h ▸ hdigit) (by decide)
    simp [stripPrefix, startsWith, Version.chars, hcore, hv.symm]

theorem takeWhile_noBuild (v : Version) :
    v.chars.takeWhile (· ≠ '+') = v.coreChars ++ v.preChars := by
  have hplus : ∀ c ∈ v.coreChars ++ v.preChars, decide (c ≠ '+') = true := by
    rintro c hc
    refine decide_eq_true ?_
    rintro rfl
    rcases List.mem_append.mp hc with hc | hc
    · rcases Version.mem_coreChars hc with h | h
      · exact absurd h (by decide)
      · exact absurd h (by decide)
    · rcases Version.mem_preChars hc with h | h
      · exact absurd h (by decide)
      · exact absurd h (by decide)
  have hbuild : v.buildChars.takeWhile (· ≠ '+') = [] := by
    unfold Version.buildChars
    split
    · rfl
    · rfl
  rw [Version.chars, takeWhile_append_of_pos hplus, hbuild, append_nil]

theorem hyphen_notMem_coreChars (v : Version) : '-' ∉ v.coreChars := by
  intro h
  rcases Version.mem_coreChars h with h | h
  · exact absurd h (by decide)
  · exact absurd h (by decide)

/-- The pre-release as it is written behind the first hyphen. -/
def preText (v : Version) : Option (List Char) :=
  if v.pre = [] then none else some (['.'].intercalate (v.pre.map Identifier.chars))

theorem splitVersion_chars (v : Version) :
    splitVersion (v.coreChars ++ v.preChars) = (v.coreChars, preText v) := by
  have hcore := hyphen_notMem_coreChars v
  unfold splitVersion preText Version.preChars
  by_cases hpre : v.pre = []
  · rw [if_pos hpre, if_pos hpre, append_nil,
      splitOnce_eq_none.mpr fun h => hcore ((singleton_infix_iff _ _).mp h)]
  · have hsplit := @splitOnce_append ['-'] v.coreChars
      (['.'].intercalate (v.pre.map Identifier.chars))
      (fun h => hcore (by simpa [singleton_infix_iff] using h)) (by decide)
    rw [append_assoc, singleton_append] at hsplit
    rw [if_neg hpre, if_neg hpre, hsplit]

theorem dot_notMem_chars (i : Identifier) : '.' ∉ i.chars :=
  fun h => absurd (Identifier.isIdentifierChar_of_mem h) (by decide)

theorem preIdentifiers_preText (v : Version) :
    preIdentifiers (preText v) = v.pre.map fun i => String.ofList i.chars := by
  unfold preText preIdentifiers
  by_cases hpre : v.pre = []
  · rw [if_pos hpre, hpre]
    rfl
  · have hmap : v.pre.map Identifier.chars ≠ [] := fun h => hpre (List.map_eq_nil_iff.mp h)
    have hne : ['.'].intercalate (v.pre.map Identifier.chars) ≠ [] := by
      obtain ⟨i, rest, hi⟩ := exists_cons_of_ne_nil hpre
      obtain ⟨c, cs, hc⟩ := exists_cons_of_ne_nil i.chars_ne_nil
      rw [hi, List.map_cons, hc, intercalate_cons_cons_left]
      exact cons_ne_nil _ _
    have hkeep : (some (['.'].intercalate (v.pre.map Identifier.chars))).filter
        (fun p => !p.isEmpty) = some (['.'].intercalate (v.pre.map Identifier.chars)) := by
      rw [filter_some, if_pos (by simpa using hne)]
    have hdots : ∀ text ∈ v.pre.map Identifier.chars, '.' ∉ text := by
      intro text htext
      obtain ⟨i, -, rfl⟩ := List.mem_map.mp htext
      exact dot_notMem_chars i
    rw [if_neg hpre, hkeep]
    dsimp only
    rw [splitOn_intercalate '.' hdots hmap, List.map_map]
    rfl

/-- The numbers of the core fit in 32 bits. -/
structure CoreFits (v : Version) : Prop where
  major : v.major < 2 ^ 32
  minor : v.minor < 2 ^ 32
  patch : v.patch < 2 ^ 32

theorem parseComponent_toDigits {n : Nat} (h : n < 2 ^ 32) :
    parseComponent (Nat.toDigits 10 n) = n := by
  have hvisible : ∀ c ∈ Nat.toDigits 10 n, 33 ≤ c.toNat ∧ c.toNat ≤ 126 := by
    intro c hc
    have := Char.isDigit_iff_toNat.mp (isDigit_toDigits hc)
    have h48 : '0'.toNat = 48 := rfl
    have h57 : '9'.toNat = 57 := rfl
    omega
  rw [parseComponent, trim, String.toList_ofList, trimChars_visible hvisible,
    parseUnsigned_toDigits h, getD_some]

theorem splitOn_coreChars (v : Version) : v.coreChars.splitOn '.' =
    [Nat.toDigits 10 v.major, Nat.toDigits 10 v.minor, Nat.toDigits 10 v.patch] := by
  refine splitOn_intercalate '.' (fun text htext => ?_) (cons_ne_nil _ _)
  have hdigits : ∀ n, '.' ∉ Nat.toDigits 10 n := fun n h => absurd (isDigit_toDigits h) (by decide)
  simp only [mem_cons, not_mem_nil, or_false] at htext
  rcases htext with rfl | rfl | rfl
  · exact hdigits v.major
  · exact hdigits v.minor
  · exact hdigits v.patch

theorem parseSemver_chars {v : Version} (hcore : CoreFits v) (leading : Bool) :
    parseSemver (versionText leading v) =
      { core := (v.major, v.minor, v.patch), pre := v.pre.map fun i => String.ofList i.chars } := by
  unfold parseSemver
  dsimp only
  rw [stripped_versionText, String.toList_ofList, takeWhile_noBuild, splitVersion_chars]
  dsimp only
  rw [preIdentifiers_preText, splitOn_coreChars]
  simp only [List.map_cons, List.map_nil, parseComponent_toDigits hcore.major,
    parseComponent_toDigits hcore.minor, parseComponent_toDigits hcore.patch]
  rfl

/-! ## The precedence -/

/-- The numeric identifiers fit in 64 bits. -/
def PreFits (v : Version) : Prop := ∀ n, .numeric n ∈ v.pre → n < 2 ^ 64

theorem parse_textual {text : List Char} (chars : ∀ c ∈ text, isIdentifierChar c)
    (letter : ∃ c ∈ text, c.isDigit = false) : parseUnsigned 10 64 (String.ofList text) = none :=
  parseUnsigned_eq_none (fun h => absurd (chars '+' h) (by decide)) letter

theorem compare_texts_eq_lt (s t : List Char) :
    compare (String.ofList s) (String.ofList t) = .lt ↔ s < t := by
  show compareOfLessAndEq (String.ofList s) (String.ofList t) = .lt ↔ s < t
  rw [compareOfLessAndEq_eq_lt, String.lt_iff, String.toList_ofList, String.toList_ofList]

def compareIdentifiers : Identifier → Identifier → Ordering
  | .numeric m, .numeric n => compare m n
  | .numeric _, .textual _ _ _ => .lt
  | .textual _ _ _, .numeric _ => .gt
  | .textual s _ _, .textual t _ _ => compare (String.ofList s) (String.ofList t)

section

variable {i j : Identifier} (hi : ∀ n, i = .numeric n → n < 2 ^ 64)
  (hj : ∀ n, j = .numeric n → n < 2 ^ 64)

include hi hj

theorem comparePreIdentifier_chars :
    comparePreIdentifier (String.ofList i.chars) (String.ofList j.chars) =
      compareIdentifiers i j := by
  unfold comparePreIdentifier
  cases i with
  | numeric m =>
    rw [Identifier.chars, parseUnsigned_toDigits (hi m rfl)]
    cases j with
    | numeric n => rw [Identifier.chars, parseUnsigned_toDigits (hj n rfl)]; rfl
    | textual t chars letter => rw [Identifier.chars, parse_textual chars letter]; rfl
  | textual s chars letter =>
    rw [Identifier.chars, parse_textual chars letter]
    cases j with
    | numeric n => rw [Identifier.chars, parseUnsigned_toDigits (hj n rfl)]; rfl
    | textual t chars' letter' => rw [Identifier.chars, parse_textual chars' letter']; rfl

theorem comparePreIdentifier_eq_lt :
    comparePreIdentifier (String.ofList i.chars) (String.ofList j.chars) = .lt ↔ i.Below j := by
  rw [comparePreIdentifier_chars hi hj]
  cases i <;> cases j
  · exact Nat.compare_eq_lt
  · exact iff_of_true rfl trivial
  · exact iff_of_false (show ¬ Ordering.gt = .lt by decide) not_false
  · exact compare_texts_eq_lt _ _

theorem comparePreIdentifier_eq_eq :
    comparePreIdentifier (String.ofList i.chars) (String.ofList j.chars) = .eq ↔ i = j := by
  rw [comparePreIdentifier_chars hi hj]
  cases i <;> cases j <;> unfold compareIdentifiers
  · rw [Identifier.numeric.injEq, Nat.compare_eq_eq]
  · simp
  · simp
  · rw [Identifier.textual.injEq, LawfulEqOrd.compare_eq_iff_eq, String.ofList_inj]

end

theorem comparePre_eq_lt {v w : Version} (hv : PreFits v) (hw : PreFits w) :
    (compare (v.pre.map fun i => String.ofList i.chars).isEmpty
      (w.pre.map fun i => String.ofList i.chars).isEmpty).then
        (List.compareLex comparePreIdentifier (v.pre.map fun i => String.ofList i.chars)
          (w.pre.map fun i => String.ofList i.chars)) = .lt ↔ PreBelow v.pre w.pre := by
  have hlist := @compareLex_map_eq_lt _ _ comparePreIdentifier
    (fun i : Identifier => String.ofList i.chars) Identifier.Below v.pre w.pre
    (fun i hi j hj => comparePreIdentifier_eq_lt (fun n hn => hv n (hn ▸ hi))
      fun n hn => hw n (hn ▸ hj))
    (fun i hi j hj => comparePreIdentifier_eq_eq (fun n hn => hv n (hn ▸ hi))
      fun n hn => hw n (hn ▸ hj))
  unfold PreBelow
  rw [Ordering.then_eq_lt, hlist, isEmpty_map, isEmpty_map]
  cases v.pre with
  | nil =>
    cases w.pre with
    | nil => simp
    | cons j js => simp
  | cons i is =>
    cases w.pre with
    | nil => exact iff_of_true (.inl rfl) ⟨cons_ne_nil _ _, .inl rfl⟩
    | cons j js => simp

theorem compareSemver_eq_lt {v w : Version} (hv : PreFits v) (hw : PreFits w) :
    compareSemver ⟨(v.major, v.minor, v.patch), v.pre.map fun i => String.ofList i.chars⟩
      ⟨(w.major, w.minor, w.patch), w.pre.map fun i => String.ofList i.chars⟩ = .lt ↔
        v.Below w := by
  rw [compareSemver_eq]
  unfold compareLex compareCore Version.Below
  dsimp only
  rw [Ordering.then_eq_lt, comparePre_eq_lt hv hw]
  simp only [Ordering.then_eq_lt, Ordering.then_eq_eq, Nat.compare_eq_lt, Nat.compare_eq_eq]
  tauto

theorem versionIsNewer_iff (latest current : String) : versionIsNewer latest current = true ↔
    compareSemver (parseSemver latest) (parseSemver current) = .gt :=
  beq_iff_eq

/-- `version_is_newer` orders all texts strictly and weakly, and the versions by precedence. -/
theorem versionIsNewer_precedence :
    IsStrictWeakOrder String (fun latest current => versionIsNewer latest current = true) ∧
      ∀ v w : Version, CoreFits v → CoreFits w → PreFits v → PreFits w → ∀ leading leading',
        versionIsNewer (versionText leading v) (versionText leading' w) = true ↔ w.Below v := by
  constructor
  · simp only [versionIsNewer_iff]
    exact @strictWeakOrder String
      (fun latest current => compareSemver (parseSemver latest) (parseSemver current)) _
  · intro v w hcore hcore' hpre hpre' leading leading'
    rw [versionIsNewer_iff, parseSemver_chars hcore, parseSemver_chars hcore',
      OrientedCmp.gt_iff_lt]
    exact compareSemver_eq_lt hpre' hpre

/-- `1.0.0-alpha.n`. -/
def alphaVersion (n : Nat) : Version :=
  { major := 1, minor := 0, patch := 0,
    pre := [.textual ['a', 'l', 'p', 'h', 'a'] (forall_mem_of_all (by decide))
      ⟨'a', mem_cons_self, by decide⟩, .numeric n] }

theorem alphaVersion_fits {n : Nat} (h : n < 2 ^ 64) : PreFits (alphaVersion n) := by
  intro m hm
  unfold alphaVersion at hm
  simp only [mem_cons, not_mem_nil, or_false, Identifier.numeric.injEq] at hm
  rcases hm with hm | rfl
  · cases hm
  · exact h

/-- The eleventh alpha is newer than the ninth. -/
theorem versionIsNewer_alpha : versionIsNewer (versionText true (alphaVersion 11))
    (versionText false (alphaVersion 9)) = true := by
  have hcore : ∀ n, CoreFits (alphaVersion n) := fun _ =>
    ⟨Nat.one_lt_two_pow (by decide), Nat.two_pow_pos 32, Nat.two_pow_pos 32⟩
  refine (versionIsNewer_precedence.2 (alphaVersion 11) (alphaVersion 9) (hcore 11) (hcore 9)
    (alphaVersion_fits (by decide)) (alphaVersion_fits (by decide)) true false).mpr ?_
  refine .inr ⟨rfl, .inr ⟨rfl, .inr ⟨rfl, cons_ne_nil _ _, .inr (.cons (.rel ?_))⟩⟩⟩
  exact (by decide : 9 < 11)

example : versionIsNewer "1.0.0-rc.1" "v1.0.0" = false := by decide

end GenieClaw.Ota
