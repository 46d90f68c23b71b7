import GenieClaw.Library.Text

/-!
# JSON texts

The grammar of JSON as derivations over character lists, and texts with an extra comma
before some of their closing brackets.
-/

namespace GenieClaw.Library.JsonText

open List Bool
/-- The white space of the grammar. -/
def isBlank (c : Char) : Bool := c = ' ' || c = '\t' || c = '\n' || c = '\r'

def Blank (w : List Char) : Prop := ∀ c ∈ w, isBlank c = true

inductive Bracket where
  | square
  | curly
deriving DecidableEq

namespace Bracket

def opening : Bracket → Char
  | square => '['
  | curly => '{'

def closing : Bracket → Char
  | square => ']'
  | curly => '}'

end Bracket

/-! ## Tokens -/

def isHex (c : Char) : Bool :=
  c.isDigit || ('a' ≤ c && c ≤ 'f') || ('A' ≤ c && c ≤ 'F')

/-- What stands between the quotes of a string literal. -/
inductive Body : List Char → Prop where
  | nil : Body []
  | plain {c : Char} {rest : List Char} (hquote : c ≠ '"') (hslash : c ≠ '\\')
      (hprintable : 32 ≤ c.toNat) (h : Body rest) : Body (c :: rest)
  | escape {c : Char} {rest : List Char} (hc : c ∈ ['"', '\\', '/', 'b', 'f', 'n', 'r', 't'])
      (h : Body rest) : Body ('\\' :: c :: rest)
  | unicode {digits rest : List Char} (hlength : digits.length = 4)
      (hdigits : ∀ d ∈ digits, isHex d = true) (h : Body rest) :
      Body ('\\' :: 'u' :: (digits ++ rest))

/-- A string literal with its quotes. -/
def Literal (t : List Char) : Prop := ∃ body, Body body ∧ t = '"' :: (body ++ ['"'])

def Digits (t : List Char) : Prop := t ≠ [] ∧ ∀ d ∈ t, d.isDigit = true

/-- The whole part of a number has no leading zero. -/
def Whole (t : List Char) : Prop := Digits t ∧ (t.head? = some '0' → t = ['0'])

def Fraction (t : List Char) : Prop := t = [] ∨ ∃ digits, Digits digits ∧ t = '.' :: digits

def Exponent (t : List Char) : Prop :=
  t = [] ∨ ∃ mark sign digits, mark ∈ ['e', 'E'] ∧ sign ∈ [[], ['+'], ['-']] ∧
    Digits digits ∧ t = mark :: (sign ++ digits)

def Number (t : List Char) : Prop :=
  ∃ sign whole fraction exponent, sign ∈ [[], ['-']] ∧ Whole whole ∧ Fraction fraction ∧
    Exponent exponent ∧ t = sign ++ (whole ++ (fraction ++ exponent))

def names : List (List Char) := ["null".toList, "true".toList, "false".toList]

/-- A value without brackets and quotes. -/
def Scalar (t : List Char) : Prop := t ∈ names ∨ Number t

/-! ## The grammar -/

/-- An entry is an item of an array or a field of an object. -/
inductive Part where
  | value
  | entry (b : Bracket)
  | entries (b : Bracket)

/-- The text is JSON, as a value or as the part of one. -/
inductive Derives : Part → List Char → Prop where
  | scalar {t : List Char} (h : Scalar t) : Derives .value t
  | literal {t : List Char} (h : Literal t) : Derives .value t
  | empty {b : Bracket} {w : List Char} (hw : Blank w) :
      Derives .value (b.opening :: (w ++ [b.closing]))
  | full {b : Bracket} {t : List Char} (h : Derives (.entries b) t) :
      Derives .value (b.opening :: (t ++ [b.closing]))
  | item {v : List Char} (h : Derives .value v) : Derives (.entry .square) v
  | field {k v w w' : List Char} (hk : Literal k) (hw : Blank w) (hw' : Blank w')
      (h : Derives .value v) : Derives (.entry .curly) (k ++ (w ++ ':' :: (w' ++ v)))
  | last {b : Bracket} {e w w' : List Char} (hw : Blank w) (h : Derives (.entry b) e)
      (hw' : Blank w') : Derives (.entries b) (w ++ (e ++ w'))
  | more {b : Bracket} {e w w' rest : List Char} (hw : Blank w) (h : Derives (.entry b) e)
      (hw' : Blank w') (hrest : Derives (.entries b) rest) :
      Derives (.entries b) (w ++ (e ++ (w' ++ ',' :: rest)))

/-- A JSON text: a value between white space. -/
def IsJson (t : List Char) : Prop :=
  ∃ w v w', Blank w ∧ Derives .value v ∧ Blank w' ∧ t = w ++ (v ++ w')

/-- `Trailing part t u`: the text `u` is JSON, and `t` is the same text with an extra comma
before some of its closing brackets. -/
inductive Trailing : Part → List Char → List Char → Prop where
  | scalar {t : List Char} (h : Scalar t) : Trailing .value t t
  | literal {t : List Char} (h : Literal t) : Trailing .value t t
  | empty {b : Bracket} {w : List Char} (hw : Blank w) :
      Trailing .value (b.opening :: (w ++ [b.closing])) (b.opening :: (w ++ [b.closing]))
  | emptyComma {b : Bracket} {w w' : List Char} (hw : Blank w) (hw' : Blank w') :
      Trailing .value (b.opening :: (w ++ ',' :: (w' ++ [b.closing])))
        (b.opening :: (w ++ (w' ++ [b.closing])))
  | full {b : Bracket} {t u : List Char} (h : Trailing (.entries b) t u) :
      Trailing .value (b.opening :: (t ++ [b.closing])) (b.opening :: (u ++ [b.closing]))
  | item {t u : List Char} (h : Trailing .value t u) : Trailing (.entry .square) t u
  | field {k w w' t u : List Char} (hk : Literal k) (hw : Blank w) (hw' : Blank w')
      (h : Trailing .value t u) :
      Trailing (.entry .curly) (k ++ (w ++ ':' :: (w' ++ t))) (k ++ (w ++ ':' :: (w' ++ u)))
  | last {b : Bracket} {t u w w' : List Char} (hw : Blank w) (h : Trailing (.entry b) t u)
      (hw' : Blank w') : Trailing (.entries b) (w ++ (t ++ w')) (w ++ (u ++ w'))
  | lastComma {b : Bracket} {t u w w' w'' : List Char} (hw : Blank w)
      (h : Trailing (.entry b) t u) (hw' : Blank w') (hw'' : Blank w'') :
      Trailing (.entries b) (w ++ (t ++ (w' ++ ',' :: w''))) (w ++ (u ++ (w' ++ w'')))
  | more {b : Bracket} {t u w w' t' u' : List Char} (hw : Blank w)
      (h : Trailing (.entry b) t u) (hw' : Blank w') (hrest : Trailing (.entries b) t' u') :
      Trailing (.entries b) (w ++ (t ++ (w' ++ ',' :: t'))) (w ++ (u ++ (w' ++ ',' :: u')))

/-- The JSON text `u` with extra commas is `t`. -/
def HasTrailing (t u : List Char) : Prop :=
  ∃ w v v' w', Blank w ∧ Trailing .value v v' ∧ Blank w' ∧ t = w ++ (v ++ w') ∧ u = w ++ (v' ++ w')

theorem Blank.append {w w' : List Char} (hw : Blank w) (hw' : Blank w') : Blank (w ++ w') := by
  intro c hc
  rcases List.mem_append.mp hc with h | h
  · exact hw c h
  · exact hw' c h

variable {t : List Char}

theorem Derives.trailing {part : Part} (h : Derives part t) : Trailing part t t := by
  induction h with
  | scalar h => exact .scalar h
  | literal h => exact .literal h
  | empty hw => exact .empty hw
  | full _ ih => exact .full ih
  | item _ ih => exact .item ih
  | field hk hw hw' _ ih => exact .field hk hw hw' ih
  | last hw _ hw' ih => exact .last hw ih hw'
  | more hw _ hw' _ ih ihrest => exact .more hw ih hw' ihrest

theorem IsJson.hasTrailing (h : IsJson t) : HasTrailing t t := by
  obtain ⟨w, v, w', hw, hv, hw', rfl⟩ := h
  exact ⟨w, v, v, w', hw, hv.trailing, hw', rfl, rfl⟩

/-! ## Characters -/

/-- The characters with a meaning of their own to a scanner of brackets, quotes and commas. -/
def marks : List Char := ['"', '\\', '{', '}', '[', ']', ',']

/-- No character is a mark. -/
def Quiet (t : List Char) : Prop := ∀ c ∈ t, c ∉ marks

def isScalarChar (c : Char) : Bool :=
  c.isDigit || c ∈ "-+.eE".toList || c ∈ "nultrefas".toList

theorem quiet_colon : Quiet [':'] := by
  intro c hc
  rw [List.mem_singleton.mp hc]
  decide

theorem Bracket.opening_mem (b : Bracket) : b.opening ∈ marks := by cases b <;> decide

theorem Bracket.closing_mem (b : Bracket) : b.closing ∈ marks := by cases b <;> decide

variable {w : List Char}

theorem Blank.quiet (h : Blank w) : Quiet w := by
  have hmarks : ∀ m ∈ marks, isBlank m = false := Text.forall_mem_of_all (by decide)
  intro c hc hmark
  have hblank := h c hc
  rw [hmarks c hmark] at hblank
  cases hblank

theorem Digits.scalarChars (h : Digits t) : ∀ c ∈ t, isScalarChar c = true := by
  intro c hc
  unfold isScalarChar
  rw [h.2 c hc]
  rfl

theorem Number.scalarChars (h : Number t) : ∀ c ∈ t, isScalarChar c = true := by
  obtain ⟨sign, whole, fraction, exponent, hsign, hwhole, hfraction, hexponent, rfl⟩ := h
  have hsigns : ∀ s ∈ [[], ['-']], (s.all isScalarChar) = true := by decide
  have hfractions : ∀ c ∈ fraction, isScalarChar c = true := by
    rcases hfraction with rfl | ⟨digits, hdigits, rfl⟩
    · simp
    · exact List.forall_mem_cons.mpr ⟨by decide, hdigits.scalarChars⟩
  have hexponents : ∀ c ∈ exponent, isScalarChar c = true := by
    rcases hexponent with rfl | ⟨mark, esign, digits, hmark, hesign, hdigits, rfl⟩
    · simp
    · have hmarks : ∀ m ∈ ['e', 'E'], isScalarChar m = true :=
        Text.forall_mem_of_all (by decide)
      have hesigns : ∀ s ∈ [[], ['+'], ['-']], (s.all isScalarChar) = true := by decide
      exact List.forall_mem_cons.mpr ⟨hmarks mark hmark, List.forall_mem_append.mpr
        ⟨List.all_eq_true.mp (hesigns esign hesign), hdigits.scalarChars⟩⟩
  exact List.forall_mem_append.mpr ⟨List.all_eq_true.mp (hsigns sign hsign),
    List.forall_mem_append.mpr ⟨hwhole.1.scalarChars,
      List.forall_mem_append.mpr ⟨hfractions, hexponents⟩⟩⟩

theorem Scalar.scalarChars (h : Scalar t) : ∀ c ∈ t, isScalarChar c = true := by
  rcases h with h | h
  · have hnames : ∀ name ∈ names, (name.all isScalarChar) = true := by decide
    exact List.all_eq_true.mp (hnames t h)
  · exact h.scalarChars

theorem Scalar.quiet (h : Scalar t) : Quiet t := by
  have hmarks : ∀ m ∈ marks, isScalarChar m = false := Text.forall_mem_of_all (by decide)
  intro c hc hmark
  have hscalar := h.scalarChars c hc
  rw [hmarks c hmark] at hscalar
  cases hscalar

theorem Scalar.ne_nil (h : Scalar t) : t ≠ [] := by
  rcases h with h | ⟨sign, whole, fraction, exponent, -, hwhole, -, -, rfl⟩
  · have hnames : ∀ name ∈ names, name ≠ [] := by decide
    exact hnames t h
  · simp [hwhole.1.1]

/-! ## Beginnings -/

/-- The text begins with a character that is no Unicode white space and closes nothing. -/
def Starts (t : List Char) : Prop :=
  ∃ c rest, t = c :: rest ∧ Text.isWhitespace c = false ∧ ∀ b : Bracket, c ≠ b.closing

theorem Starts.append (h : Starts t) (s : List Char) : Starts (t ++ s) := by
  obtain ⟨c, rest, rfl, hc⟩ := h
  exact ⟨c, rest ++ s, rfl, hc⟩

theorem Bracket.opening_starts (b : Bracket) (t : List Char) : Starts (b.opening :: t) := by
  refine ⟨b.opening, t, rfl, ?_, fun b' => ?_⟩
  · cases b <;> rfl
  · cases b <;> cases b' <;> decide

theorem Literal.starts (h : Literal t) : Starts t := by
  obtain ⟨body, -, rfl⟩ := h
  refine ⟨'"', _, rfl, rfl, fun b => ?_⟩
  cases b <;> decide

theorem isWhitespace_of_blank {c : Char} (h : isBlank c = true) : Text.isWhitespace c = true := by
  unfold isBlank at h
  simp only [or_eq_true, decide_eq_true_eq] at h
  rcases h with ((rfl | rfl) | rfl) | rfl <;> rfl

theorem not_isWhitespace_of_scalar {c : Char} (h : isScalarChar c = true) :
    Text.isWhitespace c = false := by
  have hletters : ∀ c ∈ "-+.eE".toList ++ "nultrefas".toList, Text.isWhitespace c = false :=
    Text.forall_mem_of_all (by decide)
  unfold isScalarChar at h
  simp only [or_eq_true, decide_eq_true_eq] at h
  rcases h with (h | h) | h
  · unfold Char.isDigit at h
    simp only [and_eq_true, decide_eq_true_eq] at h
    have hlow : 48 ≤ c.toNat := h.1
    have hhigh : c.toNat ≤ 57 := h.2
    simp [Text.isWhitespace]
    omega
  · exact hletters c (mem_append_left _ h)
  · exact hletters c (mem_append_right _ h)

theorem Scalar.starts (h : Scalar t) : Starts t := by
  cases t with
  | nil => exact absurd rfl h.ne_nil
  | cons c rest =>
    have hc := h.scalarChars c mem_cons_self
    refine ⟨c, rest, rfl, not_isWhitespace_of_scalar hc, ?_⟩
    rintro b rfl
    have hclosing : isScalarChar b.closing = false := by cases b <;> decide
    rw [hclosing] at hc
    cases hc

theorem Trailing.starts {part : Part} {t u : List Char} (h : Trailing part t u) :
    ∃ w t', Blank w ∧ Starts t' ∧ t = w ++ t' := by
  have hnil : Blank [] := fun _ hc => absurd hc not_mem_nil
  have hbefore : ∀ {w t : List Char} (s : List Char), Blank w →
      (∃ w' t', Blank w' ∧ Starts t' ∧ t = w' ++ t') →
      ∃ w' t', Blank w' ∧ Starts t' ∧ w ++ (t ++ s) = w' ++ t' := by
    rintro w _ s hw ⟨w', t', hw', ht', rfl⟩
    exact ⟨w ++ w', t' ++ s, hw.append hw', ht'.append s, by simp only [append_assoc]⟩
  induction h with
  | scalar h => exact ⟨[], _, hnil, h.starts, rfl⟩
  | literal h => exact ⟨[], _, hnil, h.starts, rfl⟩
  | empty _ => exact ⟨[], _, hnil, Bracket.opening_starts _ _, rfl⟩
  | emptyComma _ _ => exact ⟨[], _, hnil, Bracket.opening_starts _ _, rfl⟩
  | full _ _ => exact ⟨[], _, hnil, Bracket.opening_starts _ _, rfl⟩
  | item _ ih => exact ih
  | field hk _ _ _ _ => exact ⟨[], _, hnil, hk.starts.append _, rfl⟩
  | last hw _ _ ih => exact hbefore _ hw ih
  | lastComma hw _ _ _ ih => exact hbefore _ hw ih
  | more hw _ _ _ ih _ => exact hbefore _ hw ih

/-! ## Scanners -/

/-- A scanner with a flag for the inside of a literal and one for an escape. It treats all
characters alike, by `g`, but for the marks outside of literals. -/
structure Skims {β : Type} (f : Bool → Bool → List Char → β) (g : Char → β → β) : Prop where
  escaped : ∀ inside c s, f inside true (c :: s) = g c (f inside false s)
  slash : ∀ s, f true false ('\\' :: s) = g '\\' (f true true s)
  quote : ∀ inside s, f inside false ('"' :: s) = g '"' (f (!inside) false s)
  inside : ∀ c s, c ≠ '"' → c ≠ '\\' → f true false (c :: s) = g c (f true false s)
  outside : ∀ c s, c ∉ marks → f false false (c :: s) = g c (f false false s)

section

variable {β : Type} {f : Bool → Bool → List Char → β} {g : Char → β → β}

theorem Skims.quiet (h : Skims f g) (hw : Quiet w) (s : List Char) :
    f false false (w ++ s) = w.foldr g (f false false s) := by
  induction w with
  | nil => rfl
  | cons c w ih =>
    rw [List.cons_append, h.outside c _ (hw c List.mem_cons_self),
      ih fun d hd => hw d (List.mem_cons_of_mem _ hd), List.foldr_cons]

theorem Skims.plain (h : Skims f g) (hw : ∀ c ∈ w, c ≠ '"' ∧ c ≠ '\\') (s : List Char) :
    f true false (w ++ s) = w.foldr g (f true false s) := by
  induction w with
  | nil => rfl
  | cons c w ih =>
    obtain ⟨hquote, hslash⟩ := hw c mem_cons_self
    rw [cons_append, h.inside c _ hquote hslash,
      ih fun d hd => hw d (mem_cons_of_mem _ hd), foldr_cons]

theorem not_mark_of_hex {c : Char} (h : isHex c = true) : c ≠ '"' ∧ c ≠ '\\' := by
  constructor
  · rintro rfl
    exact absurd h (by decide)
  · rintro rfl
    exact absurd h (by decide)

theorem Skims.body (h : Skims f g) {body : List Char} (hbody : Body body) (s : List Char) :
    f true false (body ++ s) = body.foldr g (f true false s) := by
  induction hbody with
  | nil => rfl
  | @plain c rest hquote hslash _ _ ih =>
    rw [cons_append, h.inside c _ hquote hslash, ih, foldr_cons]
  | @escape c rest _ _ ih =>
    rw [cons_append, cons_append, h.slash, h.escaped, ih]
    rfl
  | @unicode digits rest _ hdigits _ ih =>
    rw [cons_append, cons_append, h.slash, h.escaped, append_assoc,
      h.plain (fun c hc => not_mark_of_hex (hdigits c hc)), ih, foldr_cons, foldr_cons,
      foldr_append]

theorem Skims.literal (h : Skims f g) (ht : Literal t) (s : List Char) :
    f false false (t ++ s) = t.foldr g (f false false s) := by
  obtain ⟨body, hbody, rfl⟩ := ht
  rw [cons_append, h.quote, append_assoc, Bool.not_false, h.body hbody,
    cons_append, nil_append, h.quote, Bool.not_true, foldr_cons,
    foldr_append]
  rfl

end

end GenieClaw.Library.JsonText
