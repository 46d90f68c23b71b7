import GenieClaw.Tools.Calc

/-!
# What the calculator accepts

The grammar by itself: parse trees with their written form and their value, and the spelling of
tokens by characters. The parser reads a tree exactly when the tree has a value and its parentheses
are nested no deeper than the parser allows.

* `exactReader_parseFactor`: the parser and the tree, by induction on the nesting.
* `evaluate_spec` (no assumption): what is evaluated, to which value, and what is refused.
-/

namespace GenieClaw.Tools

open Library List Bool

/-! ## Parse trees -/

/-- A signed operand. -/
inductive Signed (φ : Type) where
  | bare (x : φ)
  | minus (u : Signed φ)
  | plus (u : Signed φ)

/-- A number or something in parentheses. -/
inductive Factor (ε : Type) where
  | number (value : ℚ)
  | group (inner : ε)

/-- Sums of products of signed factors; both chains associate to the left. -/
abbrev Sum (φ : Type) := Chain AddOp (Chain MulOp (Signed φ))

/-- The expressions of so many levels: what stands in parentheses is one level further in. -/
def Expr : Nat → Type
  | 0 => Empty
  | levels + 1 => Sum (Factor (Expr levels))

/-- The expressions whose parentheses are nested at most `MAX_PAREN_DEPTH` deep. -/
abbrev ParseTree := Expr (maxParenDepth + 1)

def Signed.write {φ : Type} (inner : φ → List Token) : Signed φ → List Token
  | .bare x => inner x
  | .minus u => .minus :: u.write inner
  | .plus u => .plus :: u.write inner

def Signed.value {φ : Type} (inner : φ → Option ℚ) : Signed φ → Option ℚ
  | .bare x => inner x
  | .minus u => (u.value inner).map fun v => -v
  | .plus u => u.value inner

def Factor.write {ε : Type} (inner : ε → List Token) : Factor ε → List Token
  | .number value => [.number value]
  | .group e => .lParen :: (inner e ++ [.rParen])

def Factor.value {ε : Type} (inner : ε → Option ℚ) : Factor ε → Option ℚ
  | .number value => some value
  | .group e => inner e

def Sum.write {φ : Type} (inner : φ → List Token) : Sum φ → List Token :=
  exprOperators.write (termOperators.write (Signed.write inner))

/-- The value of a sum; a quotient has none when its divisor is zero. -/
def Sum.value {φ : Type} (inner : φ → Option ℚ) : Sum φ → Option ℚ :=
  exprOperators.value (termOperators.value (Signed.value inner))

/-- The tokens of an expression. -/
def Expr.write : (levels : Nat) → Expr levels → List Token
  | 0, e => Empty.elim e
  | levels + 1, e => Sum.write (Factor.write (Expr.write levels)) e

/-- The value of an expression, if no divisor is zero. -/
def Expr.value : (levels : Nat) → Expr levels → Option ℚ
  | 0, e => Empty.elim e
  | levels + 1, e => Sum.value (Factor.value (Expr.value levels)) e

/-! ## The spelling of tokens -/

/-- Digits with at most one dot among them. -/
inductive Numeral : List Char → ℚ → Prop
  | whole {digits : List Char} (hne : digits ≠ []) (hdigits : ∀ c ∈ digits, c.isDigit = true) :
      Numeral digits (digitsValue digits)
  | decimal {digits fraction : List Char} (hne : digits ++ fraction ≠ [])
      (hdigits : ∀ c ∈ digits, c.isDigit = true) (hfraction : ∀ c ∈ fraction, c.isDigit = true) :
      Numeral (digits ++ '.' :: fraction)
        (digitsValue (digits ++ fraction) / 10 ^ fraction.length)

/-- The characters spell the tokens, with blanks anywhere between them. -/
inductive Spells : List Char → List Token → Prop
  | nil : Spells [] []
  | blank {c : Char} {cs : List Char} {tokens : List Token} (hc : isBlank c = true)
      (h : Spells cs tokens) : Spells (c :: cs) tokens
  | symbol {c : Char} {token : Token} {cs : List Char} {tokens : List Token}
      (hc : symbolOf c = some token) (h : Spells cs tokens) : Spells (c :: cs) (token :: tokens)
  | number {numeral : List Char} {value : ℚ} {cs : List Char} {tokens : List Token}
      (hn : Numeral numeral value) (h : Spells cs tokens) :
      Spells (numeral ++ cs) (.number value :: tokens)

/-- The string is a spelling of the expression. -/
def Expr.SpelledBy {levels : Nat} (e : Expr levels) (expr : String) : Prop :=
  Spells expr.toList (Expr.write levels e)

/-! ## The parser is exact -/

variable {tokens : List Token} {e : Failure}

section

variable {φ : Type} {writeFactor : φ → List Token} {valueFactor : φ → Option ℚ}
  {factor : List Token → Except Failure (ℚ × List Token)}

/-- The failures of the source. -/
def Failure.Refused (e : Failure) : Prop := ∃ reason, e = .refused reason

/-- Every list of tokens is a place to stop. -/
def Anywhere (_ : List Token) : Prop := True

/-- A factor starts with a number or an opening parenthesis, not with a sign. -/
def Unsigned (writeFactor : φ → List Token) : Prop :=
  ∀ x rest s, writeFactor x ++ rest ≠ .minus :: s ∧ writeFactor x ++ rest ≠ .plus :: s

theorem Unsigned.readSigns_eq (h : Unsigned writeFactor) (x : φ) (rest : List Token)
    (negate : Bool) :
    readSigns negate (writeFactor x ++ rest) = (negate, writeFactor x ++ rest) := by
  rw [readSigns]
  · exact fun s hs => (h x rest s).1 hs
  · exact fun s hs => (h x rest s).2 hs

theorem readUnary_minus (negate : Bool) (tokens : List Token) :
    readUnary factor negate (.minus :: tokens) = readUnary factor (!negate) tokens := rfl

theorem readUnary_plus (negate : Bool) (tokens : List Token) :
    readUnary factor negate (.plus :: tokens) = readUnary factor negate tokens := rfl

variable {negate : Bool}

theorem readUnary_sound (h : ExactReader factor writeFactor valueFactor Anywhere Failure.Refused)
    {tokens rest : List Token} {v : ℚ} (hread : readUnary factor negate tokens = .ok (v, rest)) :
    ∃ u : Signed φ, u.write writeFactor ++ rest = tokens ∧
      u.value valueFactor = some (if negate then -v else v) := by
  induction negate, tokens using readSigns.induct with
  | case1 negate tokens ih =>
    obtain ⟨u, rfl, hu⟩ := ih hread
    refine ⟨.minus u, rfl, ?_⟩
    rw [Signed.value, hu]
    cases negate <;> simp
  | case2 negate tokens ih =>
    obtain ⟨u, rfl, hu⟩ := ih hread
    exact ⟨.plus u, rfl, hu⟩
  | case3 negate tokens hminus hplus =>
    simp only [readUnary, readSigns] at hread
    split at hread
    · cases hread
    · rename_i value left hfactor
      cases hread
      obtain ⟨x, hx, hvalue, -⟩ := h.sound hfactor
      refine ⟨.bare x, hx, ?_⟩
      rw [Signed.value, hvalue]
      cases negate <;> simp

theorem readUnary_complete
    (h : ExactReader factor writeFactor valueFactor Anywhere Failure.Refused)
    (hunsigned : Unsigned writeFactor) {u : Signed φ} {rest : List Token} {v : ℚ}
    (hu : u.value valueFactor = some v) :
    readUnary factor negate (u.write writeFactor ++ rest) =
      .ok (if negate then -v else v, rest) := by
  induction u generalizing negate v with
  | bare x => simp only [readUnary, Signed.write, hunsigned.readSigns_eq, h.complete hu trivial]
  | minus u ih =>
    obtain ⟨w, hw, rfl⟩ := Option.map_eq_some_iff.mp hu
    rw [Signed.write, cons_append, readUnary_minus, ih hw]
    cases negate <;> simp
  | plus u ih =>
    rw [Signed.write, cons_append, readUnary_plus, ih hu]

theorem readUnary_regular
    (h : ExactReader factor writeFactor valueFactor Anywhere Failure.Refused)
    (hread : readUnary factor negate tokens = .error e) : e.Refused := by
  simp only [readUnary] at hread
  split at hread
  · rename_i hfactor
    cases hread
    exact h.regular hfactor
  · cases hread

theorem exactReader_readUnary
    (h : ExactReader factor writeFactor valueFactor Anywhere Failure.Refused)
    (hunsigned : Unsigned writeFactor) :
    ExactReader (readUnary factor false) (Signed.write writeFactor) (Signed.value valueFactor)
      Anywhere Failure.Refused where
  sound := by
    intro tokens rest v hread
    obtain ⟨u, hu, hvalue⟩ := readUnary_sound h hread
    exact ⟨u, hu, hvalue, trivial⟩
  complete := fun hu _ => readUnary_complete h hunsigned hu
  regular := readUnary_regular h

/-- What may follow a product and a sum. -/
def TermEnds (tokens : List Token) : Prop := Anywhere tokens ∧ termOperators.Done tokens

def ExprEnds (tokens : List Token) : Prop := TermEnds tokens ∧ exprOperators.Done tokens

theorem exprEnds_rParen (rest : List Token) : ExprEnds (.rParen :: rest) := by
  refine ⟨⟨trivial, ?_⟩, ?_⟩ <;> rintro t ⟨⟩ <;> rfl

theorem exprEnds_nil : ExprEnds [] := by
  refine ⟨⟨trivial, ?_⟩, ?_⟩ <;> rintro t ⟨⟩

theorem termEnds_symbol (op : AddOp) (rest : List Token) :
    TermEnds (exprOperators.symbol op :: rest) := by
  refine ⟨trivial, ?_⟩
  rintro t ⟨⟩
  cases op <;> rfl

theorem termOperators_refused {op : MulOp} {a b : ℚ} (h : termOperators.apply op a b = .error e) :
    e.Refused := by
  cases op with
  | times => cases h
  | divide =>
    simp only [termOperators] at h
    split at h
    · cases h
      exact ⟨.divisionByZero, rfl⟩
    · cases h

theorem exprOperators_refused {op : AddOp} {a b : ℚ} (h : exprOperators.apply op a b = .error e) :
    e.Refused := by
  cases op <;> cases h

end

theorem unsigned_factor {ε : Type} (inner : ε → List Token) : Unsigned (Factor.write inner) := by
  intro x rest s
  cases x <;> simp [Factor.write]

section

variable {ε : Type} {inner : ε → List Token} {valueInner : ε → Option ℚ} {frames depth : Nat}

/-- A factor is read exactly when what stands in parentheses is; at the deepest level nothing
may. -/
theorem exactReader_parseFactor
    (hinner : depth < maxParenDepth →
      ExactReader (parseExpr frames (depth + 1)) inner valueInner ExprEnds Failure.Refused)
    (hdeep : maxParenDepth ≤ depth → IsEmpty ε) :
    ExactReader (parseFactor (frames + 1) depth) (Factor.write inner) (Factor.value valueInner)
      Anywhere Failure.Refused where
  sound := by
    intro tokens rest v hread
    simp only [parseFactor] at hread
    split at hread
    · cases hread
    · cases hread
      exact ⟨.number v, rfl, rfl, trivial⟩
    · split at hread
      · cases hread
      · rename_i hdepth
        split at hread
        · cases hread
        · rename_i hexpr
          cases hread
          obtain ⟨e, he, hvalue, -⟩ := (hinner (Nat.lt_of_not_le hdepth)).sound hexpr
          refine ⟨.group e, ?_, hvalue, trivial⟩
          simp [Factor.write, ← he]
        · cases hread
    · cases hread
  complete := by
    intro x rest v hx _
    cases x with
    | number value =>
      cases hx
      rfl
    | group e =>
      have hdepth : ¬ maxParenDepth ≤ depth := fun h => (hdeep h).elim e
      have hread := (hinner (Nat.lt_of_not_le hdepth)).complete hx (exprEnds_rParen rest)
      simp only [Factor.write, cons_append, append_assoc, nil_append, parseFactor,
        if_neg hdepth, hread]
  regular := by
    intro tokens e hread
    simp only [parseFactor] at hread
    split at hread
    · cases hread
      exact ⟨_, rfl⟩
    · cases hread
    · split at hread
      · cases hread
        exact ⟨_, rfl⟩
      · rename_i hdepth
        split at hread
        · rename_i hexpr
          cases hread
          exact (hinner (Nat.lt_of_not_le hdepth)).regular hexpr
        · cases hread
        · cases hread
          exact ⟨_, rfl⟩
    · cases hread
      exact ⟨_, rfl⟩

theorem exactReader_sum
    (h : ExactReader (parseFactor frames depth) inner valueInner Anywhere Failure.Refused)
    (hunsigned : Unsigned inner) :
    ExactReader (parseExpr (frames + 3) depth) (Sum.write inner) (Sum.value valueInner) ExprEnds
      Failure.Refused := by
  have hunary : ExactReader (parseUnary (frames + 1) depth) (Signed.write inner)
      (Signed.value valueInner) Anywhere Failure.Refused := exactReader_readUnary h hunsigned
  have hterm : ExactReader (parseTerm (frames + 2) depth)
      (termOperators.write (Signed.write inner)) (termOperators.value (Signed.value valueInner))
      TermEnds Failure.Refused :=
    Operators.exactReader_readChain hunary (fun _ _ => trivial) termOperators_refused
  exact Operators.exactReader_readChain hterm termEnds_symbol exprOperators_refused

end

theorem exactReader_parseExpr {levels frames depth : Nat}
    (hdepth : depth + levels = maxParenDepth) (hframes : 4 * (levels + 1) ≤ frames) :
    ExactReader (parseExpr frames depth) (Expr.write (levels + 1)) (Expr.value (levels + 1))
      ExprEnds Failure.Refused := by
  induction levels generalizing frames depth with
  | zero =>
    obtain ⟨frames, rfl⟩ := Nat.exists_eq_add_of_le' hframes
    refine exactReader_sum (exactReader_parseFactor (fun hlt => ?_) fun _ => ?_)
      (unsigned_factor _)
    · omega
    · exact inferInstanceAs (IsEmpty Empty)
  | succ levels ih =>
    obtain ⟨frames, rfl⟩ : ∃ n, frames = n + 4 := ⟨frames - 4, by omega⟩
    refine exactReader_sum (exactReader_parseFactor (fun _ => ?_) fun hle => ?_)
      (unsigned_factor _)
    · exact ih (by omega) (by omega)
    · omega

/-! ## Expressions are determined by their tokens -/

section

variable {φ : Type} {inner : φ → List Token}

theorem selfDelimiting_signed (h : SelfDelimiting inner Anywhere) (hunsigned : Unsigned inner) :
    SelfDelimiting (Signed.write inner) Anywhere := by
  intro u u' r s _ _ heq
  induction u generalizing u' with
  | bare x =>
    cases u' with
    | bare y =>
      obtain ⟨rfl, hrest⟩ := h _ _ _ _ trivial trivial heq
      exact ⟨rfl, hrest⟩
    | minus u' => exact absurd heq (hunsigned x r _).1
    | plus u' => exact absurd heq (hunsigned x r _).2
  | minus u ih =>
    cases u' with
    | bare y => exact absurd heq.symm (hunsigned y s _).1
    | minus u' =>
      obtain ⟨rfl, hrest⟩ := ih _ (List.cons.inj heq).2
      exact ⟨rfl, hrest⟩
    | plus u' => cases (List.cons.inj heq).1
  | plus u ih =>
    cases u' with
    | bare y => exact absurd heq.symm (hunsigned y s _).2
    | minus u' => cases (List.cons.inj heq).1
    | plus u' =>
      obtain ⟨rfl, hrest⟩ := ih _ (List.cons.inj heq).2
      exact ⟨rfl, hrest⟩

theorem selfDelimiting_factor (h : SelfDelimiting inner ExprEnds) :
    SelfDelimiting (Factor.write inner) Anywhere := by
  intro x y r s _ _ heq
  cases x with
  | number v =>
    cases y with
    | number w =>
      obtain ⟨hvalue, hrest⟩ := List.cons.inj heq
      exact ⟨congrArg Factor.number (Token.number.inj hvalue), hrest⟩
    | group e => cases (List.cons.inj heq).1
  | group e =>
    cases y with
    | number w => cases (List.cons.inj heq).1
    | group e' =>
      simp only [Factor.write, cons_append, append_assoc, nil_append] at heq
      obtain ⟨rfl, hrest⟩ := h _ _ _ _ (exprEnds_rParen r) (exprEnds_rParen s) (List.cons.inj heq).2
      exact ⟨rfl, (List.cons.inj hrest).2⟩

end

theorem selfDelimiting_expr (levels : Nat) : SelfDelimiting (Expr.write levels) ExprEnds := by
  induction levels with
  | zero => exact fun x => Empty.elim x
  | succ levels ih =>
    have hsigned := selfDelimiting_signed (selfDelimiting_factor ih) (unsigned_factor _)
    exact Operators.selfDelimiting_chain
      (Operators.selfDelimiting_chain hsigned fun _ _ => trivial) termEnds_symbol

theorem Expr.write_injective {levels : Nat} {e e' : Expr levels}
    (h : Expr.write levels e = Expr.write levels e') : e = e' :=
  (selfDelimiting_expr levels e e' [] [] exprEnds_nil exprEnds_nil (by rw [h])).1

/-! ## No two numbers touch in an expression -/

def Token.isNumber : Token → Bool
  | .number _ => true
  | _ => false

/-- One of the two tokens is not a number, so that they can be spelled next to each other. -/
def Apart (t u : Token) : Prop := t.isNumber = false ∨ u.isNumber = false

theorem isChain_cons_symbol {t : Token} (ht : t.isNumber = false) (h : tokens.IsChain Apart) :
    (t :: tokens).IsChain Apart :=
  List.isChain_cons.mpr ⟨fun _ _ => .inl ht, h⟩

theorem isChain_signed {φ : Type} {inner : φ → List Token}
    (h : ∀ x, (inner x).IsChain Apart) (u : Signed φ) : (u.write inner).IsChain Apart := by
  induction u with
  | bare x => exact h x
  | minus u ih => exact isChain_cons_symbol rfl ih
  | plus u ih => exact isChain_cons_symbol rfl ih

theorem isChain_factor {ε : Type} {inner : ε → List Token}
    (h : ∀ e, (inner e).IsChain Apart) (x : Factor ε) : (x.write inner).IsChain Apart := by
  cases x with
  | number v => exact isChain_singleton _
  | group e =>
    refine isChain_cons_symbol rfl
      (List.isChain_append.mpr ⟨h e, isChain_singleton _, fun t _ u hu => ?_⟩)
    obtain rfl : Token.rParen = u := by simpa using hu
    exact .inr rfl

theorem isChain_expr (levels : Nat) (e : Expr levels) : (Expr.write levels e).IsChain Apart := by
  induction levels with
  | zero => exact Empty.elim e
  | succ levels ih =>
    have hadd (op : AddOp) : (exprOperators.symbol op).isNumber = false := by cases op <;> rfl
    have hmul (op : MulOp) : (termOperators.symbol op).isNumber = false := by cases op <;> rfl
    exact Operators.isChain_write (fun op _ => .inl (hadd op)) (fun op _ => .inr (hadd op))
      (Operators.isChain_write (fun op _ => .inl (hmul op)) (fun op _ => .inr (hmul op))
        (isChain_signed (isChain_factor ih))) e

/-! ## The tokenizer inverts the spelling -/

theorem span_append {p : Char → Bool} {front rest : List Char} (hfront : ∀ c ∈ front, p c = true)
    (hrest : ∀ c ∈ rest.head?, p c = false) :
    (front ++ rest).takeWhile p = front ∧ (front ++ rest).dropWhile p = rest := by
  rw [takeWhile_append_of_pos hfront, dropWhile_append_of_pos hfront]
  cases rest with
  | nil => simp
  | cons c rest => simp [hrest c rfl]

theorem exists_span (p : Char → Bool) (cs : List Char) :
    ∃ front rest, cs = front ++ rest ∧ (∀ c ∈ front, p c = true) ∧
      ∀ c ∈ rest.head?, p c = false := by
  refine ⟨cs.takeWhile p, cs.dropWhile p, (takeWhile_append_dropWhile).symm, ?_, ?_⟩
  · exact List.all_eq_true.mp all_takeWhile
  · intro c hc
    have := head?_dropWhile_not p cs
    rw [hc] at this
    simpa using this

theorem parseNumber_append {digits rest : List Char} (hdigits : ∀ c ∈ digits, c.isDigit = true)
    (hrest : ∀ c ∈ rest.head?, c.isDigit = false) :
    parseNumber (digits ++ rest) =
      match rest with
      | [] => if digits = [] then none else some (digitsValue digits : ℚ)
      | dot :: fraction =>
        if dot = '.' ∧ fraction.all Char.isDigit ∧ digits ++ fraction ≠ [] then
          some (digitsValue (digits ++ fraction) / 10 ^ fraction.length)
        else none := by
  obtain ⟨htake, hdrop⟩ := span_append hdigits hrest
  cases rest <;> simp only [parseNumber, htake, hdrop]

variable {value : ℚ}

theorem parseNumber_eq_some {run : List Char} :
    parseNumber run = some value ↔ Numeral run value := by
  constructor
  · intro h
    obtain ⟨digits, rest, rfl, hdigits, hrest⟩ := exists_span Char.isDigit run
    rw [parseNumber_append hdigits hrest] at h
    cases rest with
    | nil =>
      obtain ⟨hne, heq⟩ := Option.ite_none_left_eq_some.mp h
      cases heq
      rw [append_nil]
      exact .whole hne hdigits
    | cons dot fraction =>
      obtain ⟨⟨rfl, hfraction, hne⟩, heq⟩ := Option.ite_none_right_eq_some.mp h
      cases heq
      exact .decimal hne hdigits (List.all_eq_true.mp hfraction)
  · intro h
    cases h with
    | whole hne hdigits =>
      have hread := @parseNumber_append run [] hdigits (by simp)
      rw [append_nil] at hread
      rw [hread, if_neg hne]
    | @decimal digits fraction hne hdigits hfraction =>
      rw [parseNumber_append hdigits (by rintro c ⟨⟩; decide)]
      exact if_pos ⟨rfl, List.all_eq_true.mpr hfraction, hne⟩

variable {cs : List Char}

theorem Numeral.isNumeric (h : Numeral cs value) : ∀ c ∈ cs, isNumeric c = true := by
  cases h with
  | whole hne hdigits => exact fun c hc => by simp [Tools.isNumeric, hdigits c hc]
  | decimal hne hdigits hfraction =>
    intro c hc
    rcases List.mem_append.mp hc with hc | hc
    · simp [Tools.isNumeric, hdigits c hc]
    · rcases List.mem_cons.mp hc with rfl | hc
      · rfl
      · simp [Tools.isNumeric, hfraction c hc]

theorem Numeral.ne_nil (h : Numeral cs value) : cs ≠ [] := by
  cases h with
  | whole hne _ => exact hne
  | decimal _ _ _ => simp

theorem isNumeric_of_isBlank {c : Char} (h : isBlank c = true) : isNumeric c = false := by
  rcases or_eq_true .. ▸ h with h | h <;>
  · obtain rfl := eq_of_beq h
    rfl

theorem symbolOf_spec {c : Char} {token : Token} (h : symbolOf c = some token) :
    isBlank c = false ∧ isNumeric c = false ∧ token.isNumber = false := by
  unfold symbolOf at h
  split at h <;> cases h <;> exact ⟨rfl, rfl, rfl⟩

theorem Spells.head_not_numeric (h : Spells cs tokens)
    (htokens : ∀ t ∈ tokens.head?, t.isNumber = false) :
    ∀ c ∈ cs.head?, Tools.isNumeric c = false := by
  cases h with
  | nil => simp
  | blank hc _ => rintro c ⟨⟩; exact isNumeric_of_isBlank hc
  | symbol hc _ => rintro c ⟨⟩; exact (symbolOf_spec hc).2.1
  | number hn _ => exact absurd (htokens _ rfl) (by simp [Token.isNumber])

theorem tokenize_number {numeral cs : List Char} (hn : Numeral numeral value)
    (hcs : ∀ c ∈ cs.head?, isNumeric c = false) :
    tokenize (numeral ++ cs) = (tokenize cs).map (Token.number value :: ·) := by
  have hall := hn.isNumeric
  cases numeral with
  | nil => exact absurd rfl hn.ne_nil
  | cons c numeral =>
    have hc : isNumeric c = true := hall c mem_cons_self
    have hblank : isBlank c = false := by
      by_contra hblank
      rw [isNumeric_of_isBlank (eq_true_of_not_eq_false hblank)] at hc
      cases hc
    obtain ⟨htake, hdrop⟩ := span_append (fun d hd => hall d (mem_cons_of_mem c hd)) hcs
    rw [cons_append, tokenize]
    simp only [hblank, hc, htake, hdrop, parseNumber_eq_some.mpr hn, if_true, false_eq_true,
      if_false]

theorem map_eq_ok {ε α β : Type} {f : α → β} {x : Except ε α} {b : β}
    (h : x.map f = .ok b) : ∃ a, x = .ok a ∧ f a = b := by
  cases x with
  | error e => cases h
  | ok a => exact ⟨a, rfl, Except.ok.inj h⟩

theorem tokenize_sound (h : tokenize cs = .ok tokens) : Spells cs tokens := by
  induction cs using tokenize.induct generalizing tokens with
  | case1 =>
    rw [tokenize] at h
    cases h
    exact .nil
  | case2 ch rest hblank ih =>
    rw [tokenize, if_pos hblank] at h
    exact .blank hblank (ih h)
  | case3 ch rest hblank hnumeric run =>
    rename_i hnone
    rw [tokenize, if_neg hblank, if_pos hnumeric] at h
    simp only [run] at hnone
    simp only [hnone] at h
    cases h
  | case4 ch rest hblank hnumeric run value hsome =>
    rename_i ih
    rw [tokenize, if_neg hblank, if_pos hnumeric] at h
    simp only [run] at hsome
    simp only [hsome] at h
    obtain ⟨tokens, hrest, rfl⟩ := map_eq_ok h
    have hspells := Spells.number (parseNumber_eq_some.mp hsome) (ih hrest)
    rwa [cons_append, takeWhile_append_dropWhile] at hspells
  | case5 ch rest hblank hnumeric token hsymbol ih =>
    rw [tokenize, if_neg hblank, if_neg hnumeric, hsymbol] at h
    obtain ⟨tokens, hrest, rfl⟩ := map_eq_ok h
    exact .symbol hsymbol (ih hrest)
  | case6 ch rest hblank hnumeric hsymbol =>
    rw [tokenize, if_neg hblank, if_neg hnumeric, hsymbol] at h
    cases h

theorem tokenize_complete (h : Spells cs tokens) (hapart : tokens.IsChain Apart) :
    tokenize cs = .ok tokens := by
  induction h with
  | nil => rw [tokenize]
  | blank hc _ ih =>
    rw [tokenize, if_pos hc]
    exact ih hapart
  | symbol hc _ ih =>
    obtain ⟨hblank, hnumeric, -⟩ := symbolOf_spec hc
    rw [tokenize, hblank, hnumeric, hc, ih (List.isChain_cons.mp hapart).2]
    rfl
  | number hn hspells ih =>
    obtain ⟨hnext, hrest⟩ := List.isChain_cons.mp hapart
    have hhead := hspells.head_not_numeric fun t ht =>
      (hnext t ht).resolve_left (by simp [Token.isNumber])
    rw [tokenize_number hn hhead, ih hrest]
    rfl

/-! ## The calculator -/

theorem exactReader_parse :
    ExactReader (parseExpr stackFrames 0) (Expr.write (maxParenDepth + 1))
      (Expr.value (maxParenDepth + 1)) ExprEnds Failure.Refused :=
  exactReader_parseExpr (Nat.zero_add _) (Nat.le_refl _)

variable {expr : String}

theorem evaluate_eq_ok {v : ℚ} :
    evaluate expr = .ok v ↔ ∃ e : ParseTree, e.SpelledBy expr ∧ Expr.value _ e = some v := by
  constructor
  · intro h
    simp only [evaluate] at h
    split at h
    · cases h
    · rename_i tokens htokens
      split at h
      · cases h
      · rename_i result hparse
        cases h
        obtain ⟨e, he, hvalue, -⟩ := exactReader_parse.sound hparse
        rw [append_nil] at he
        refine ⟨e, ?_, hvalue⟩
        rw [Expr.SpelledBy, he]
        exact tokenize_sound htokens
      · cases h
  · rintro ⟨e, hspelled, hvalue⟩
    have htokens := tokenize_complete hspelled (isChain_expr _ e)
    have hparse := exactReader_parse.complete hvalue exprEnds_nil
    rw [append_nil] at hparse
    simp only [evaluate, htokens, hparse]

theorem evaluate_refused (h : evaluate expr = .error e) : e.Refused := by
  simp only [evaluate] at h
  split at h
  · cases h
    exact ⟨_, rfl⟩
  · split at h
    · rename_i hparse
      cases h
      exact exactReader_parse.regular hparse
    · cases h
    · cases h
      exact ⟨_, rfl⟩

theorem Expr.SpelledBy.unique {levels : Nat} {e e' : Expr levels} (h : e.SpelledBy expr)
    (h' : e'.SpelledBy expr) : e = e' := by
  have htokens := tokenize_complete h (isChain_expr _ e)
  rw [tokenize_complete h' (isChain_expr _ e')] at htokens
  exact Expr.write_injective (Except.ok.inj htokens).symm

/-- A string is evaluated exactly when it spells a parse tree in which no divisor is zero, to the
value of the tree; a string spells at most one tree; and a string that is not evaluated is refused
with an error, within four nested calls for each level of parentheses. -/
theorem evaluate_spec (expr : String) :
    (∀ v, evaluate expr = .ok v ↔ ∃ e : ParseTree, e.SpelledBy expr ∧ Expr.value _ e = some v) ∧
    (∀ levels (e e' : Expr levels), e.SpelledBy expr → e'.SpelledBy expr → e = e') ∧
    ∀ failure, evaluate expr = .error failure → failure.Refused :=
  ⟨fun _ => evaluate_eq_ok, fun _ _ _ => Expr.SpelledBy.unique, fun _ => evaluate_refused⟩

end GenieClaw.Tools
