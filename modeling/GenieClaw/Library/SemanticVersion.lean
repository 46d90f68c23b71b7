import GenieClaw.Library.Text

/-!
# Semantic versions

The versions of the SemVer grammar, how they are written, and their precedence. A version has
three numbers, pre-release identifiers that may be numbers or texts, and build metadata that
the precedence does not look at.
-/

namespace GenieClaw.Library.SemanticVersion

open Text List

/-- A letter, a digit or a hyphen. -/
def isIdentifierChar (c : Char) : Bool := isAsciiAlphanumeric c || c == '-'

/-- A pre-release identifier: a number, written without leading zeros, or a text that is not
all digits. -/
inductive Identifier where
  | numeric (n : Nat)
  | textual (text : List Char) (chars : ∀ c ∈ text, isIdentifierChar c)
      (letter : ∃ c ∈ text, c.isDigit = false)

/-- A piece of the build metadata, where leading zeros are allowed. -/
structure BuildIdentifier where
  text : List Char
  nonempty : text ≠ []
  chars : ∀ c ∈ text, isIdentifierChar c

structure Version where
  major : Nat
  minor : Nat
  patch : Nat
  pre : List Identifier := []
  build : List BuildIdentifier := []

/-! ## Writing -/

def Identifier.chars : Identifier → List Char
  | numeric n => Nat.toDigits 10 n
  | textual text _ _ => text

namespace Version

variable (v : Version)

def coreChars : List Char :=
  ['.'].intercalate [Nat.toDigits 10 v.major, Nat.toDigits 10 v.minor, Nat.toDigits 10 v.patch]

def preChars : List Char :=
  if v.pre = [] then [] else '-' :: ['.'].intercalate (v.pre.map Identifier.chars)

def buildChars : List Char :=
  if v.build = [] then [] else '+' :: ['.'].intercalate (v.build.map BuildIdentifier.text)

def chars : List Char := v.coreChars ++ v.preChars ++ v.buildChars

end Version

/-! ## Precedence -/

/-- A number is below every text, and texts have the order of ASCII. -/
def Identifier.Below : Identifier → Identifier → Prop
  | numeric m, numeric n => m < n
  | numeric _, textual _ _ _ => True
  | textual _ _ _, numeric _ => False
  | textual s _ _, textual t _ _ => s < t

/-- Of two pre-releases the first difference decides, or the length; a release is above every
pre-release. -/
def PreBelow (pre pre' : List Identifier) : Prop :=
  pre ≠ [] ∧ (pre' = [] ∨ List.Lex Identifier.Below pre pre')

/-- `v` has a lower precedence than `w`. -/
def Version.Below (v w : Version) : Prop :=
  v.major < w.major ∨ v.major = w.major ∧ (v.minor < w.minor ∨ v.minor = w.minor ∧
    (v.patch < w.patch ∨ v.patch = w.patch ∧ PreBelow v.pre w.pre))

/-! ## Which characters occur -/

variable {c : Char}

theorem isIdentifierChar_bounds (h : isIdentifierChar c = true) :
    c.toNat = 45 ∨ 48 ≤ c.toNat ∧ c.toNat ≤ 122 := by
  unfold isIdentifierChar isAsciiAlphanumeric isAsciiLowercase at h
  simp only [Bool.or_eq_true, Bool.and_eq_true, decide_eq_true_eq, beq_iff_eq] at h
  rcases h with ((⟨hlow, hhigh⟩ | ⟨hlow, hhigh⟩) | ⟨hlow, hhigh⟩) | rfl
  · have : 97 ≤ c.toNat := hlow
    have : c.toNat ≤ 122 := hhigh
    omega
  · have : 65 ≤ c.toNat := hlow
    have : c.toNat ≤ 90 := hhigh
    omega
  · have : 48 ≤ c.toNat := hlow
    have : c.toNat ≤ 57 := hhigh
    omega
  · exact .inl rfl

theorem isIdentifierChar_of_isDigit (h : c.isDigit = true) : isIdentifierChar c := by
  have hdigit : (decide ('0' ≤ c) && decide (c ≤ '9')) = true := by
    have := Char.isDigit_iff_toNat.mp h
    exact Bool.and_eq_true_iff.mpr ⟨decide_eq_true this.1, decide_eq_true this.2⟩
  rw [isIdentifierChar, isAsciiAlphanumeric, hdigit, Bool.or_true, Bool.true_or]

theorem Identifier.isIdentifierChar_of_mem {i : Identifier} (h : c ∈ i.chars) :
    isIdentifierChar c := by
  cases i with
  | numeric n =>
    exact isIdentifierChar_of_isDigit (Nat.isDigit_of_mem_toDigits (by decide) (by decide) h)
  | textual text chars letter => exact chars c h

theorem Identifier.chars_ne_nil (i : Identifier) : i.chars ≠ [] := by
  cases i with
  | numeric n => exact Nat.toDigits_ne_nil
  | textual text chars letter =>
    obtain ⟨c, hc, -⟩ := letter
    exact ne_nil_of_mem hc

theorem mem_intercalate {α : Type} {x sep : α} {texts : List (List α)}
    (h : x ∈ [sep].intercalate texts) : x = sep ∨ ∃ text ∈ texts, x ∈ text := by
  induction texts with
  | nil => cases h
  | cons first rest ih =>
    cases rest with
    | nil =>
      rw [intercalate_singleton] at h
      exact .inr ⟨first, mem_cons_self, h⟩
    | cons second rest =>
      rw [intercalate_cons_cons, append_assoc, mem_append, mem_append,
        mem_singleton] at h
      rcases h with h | h | h
      · exact .inr ⟨first, mem_cons_self, h⟩
      · exact .inl h
      · rcases ih h with h | ⟨text, htext, h⟩
        · exact .inl h
        · exact .inr ⟨text, mem_cons_of_mem first htext, h⟩

theorem Version.mem_coreChars {v : Version} (h : c ∈ v.coreChars) : c.isDigit = true ∨ c = '.' := by
  rcases mem_intercalate h with rfl | ⟨text, htext, h⟩
  · exact .inr rfl
  · have hdigits : ∃ n, text = Nat.toDigits 10 n := by
      simp only [List.mem_cons, List.not_mem_nil, or_false] at htext
      rcases htext with rfl | rfl | rfl
      · exact ⟨v.major, rfl⟩
      · exact ⟨v.minor, rfl⟩
      · exact ⟨v.patch, rfl⟩
    obtain ⟨n, rfl⟩ := hdigits
    exact .inl (Nat.isDigit_of_mem_toDigits (by decide) (by decide) h)

theorem Version.mem_preChars {v : Version} (h : c ∈ v.preChars) :
    isIdentifierChar c = true ∨ c = '.' := by
  unfold preChars at h
  split at h
  · cases h
  · rcases List.mem_cons.mp h with rfl | h
    · exact .inl (by decide)
    · rcases mem_intercalate h with rfl | ⟨text, htext, h⟩
      · exact .inr rfl
      · obtain ⟨i, -, rfl⟩ := List.mem_map.mp htext
        exact .inl (Identifier.isIdentifierChar_of_mem h)

theorem Version.mem_buildChars {v : Version} (h : c ∈ v.buildChars) :
    isIdentifierChar c = true ∨ c = '.' ∨ c = '+' := by
  unfold buildChars at h
  split at h
  · cases h
  · rcases List.mem_cons.mp h with rfl | h
    · exact .inr (.inr rfl)
    · rcases mem_intercalate h with rfl | ⟨text, htext, h⟩
      · exact .inr (.inl rfl)
      · obtain ⟨i, -, rfl⟩ := List.mem_map.mp htext
        exact .inl (i.chars c h)

theorem Version.mem_chars {v : Version} (h : c ∈ v.chars) : 33 ≤ c.toNat ∧ c.toNat ≤ 126 := by
  have hident : isIdentifierChar c = true → 33 ≤ c.toNat ∧ c.toNat ≤ 126 := fun h => by
    have := isIdentifierChar_bounds h
    omega
  unfold chars at h
  rw [mem_append, mem_append] at h
  rcases h with (h | h) | h
  · rcases mem_coreChars h with h | rfl
    · exact hident (isIdentifierChar_of_isDigit h)
    · decide
  · rcases mem_preChars h with h | rfl
    · exact hident h
    · decide
  · rcases mem_buildChars h with h | rfl | rfl
    · exact hident h
    · decide
    · decide

theorem Version.head_coreChars (v : Version) :
    ∃ c cs, v.coreChars = c :: cs ∧ c.isDigit = true := by
  cases hmajor : Nat.toDigits 10 v.major with
  | nil => exact absurd hmajor Nat.toDigits_ne_nil
  | cons c cs =>
    have hdigit : c.isDigit = true := Nat.isDigit_of_mem_toDigits (by decide) (by decide)
      (hmajor ▸ mem_cons_self : c ∈ Nat.toDigits 10 v.major)
    rw [coreChars, hmajor, intercalate_cons_cons_left]
    exact ⟨c, _, rfl, hdigit⟩

end GenieClaw.Library.SemanticVersion
