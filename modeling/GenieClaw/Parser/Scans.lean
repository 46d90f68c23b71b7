import GenieClaw.Library.JsonText
import GenieClaw.Parser.Extract

/-!
# The scans over JSON

The balanced scan and the repair of trailing commas run over JSON texts. Both skip what
has no meaning to them, and meet brackets and commas as the grammar has them.

* `stripTrailingCommas_trailing`: which commas the repair drops.
* `scans_keep_json` (no assumption): what both scans leave of JSON.
-/

namespace GenieClaw.Parser

open Library Library.Text Library.JsonText List

/-! ## The balanced scan -/

theorem skims_balancedPrefix (b : Bracket) (depth : Nat) :
    Skims (balancedPrefix b.opening b.closing depth) fun c r => r.map (c :: ·) where
  escaped inside c s := by rw [balancedPrefix]
  slash s := by
    rw [balancedPrefix, if_pos ⟨rfl, rfl⟩]
  quote inside s := by
    rw [balancedPrefix, if_neg (by simp), if_pos rfl]
  inside c s hquote hslash := by
    rw [balancedPrefix, if_neg (by simp [hslash]), if_neg hquote, if_neg (by simp),
      if_neg (by simp)]
  outside c s hc := by
    have hquote : c ≠ '"' := fun h => hc (by rw [h]; decide)
    have hopening : c ≠ b.opening := fun h => hc (h ▸ b.opening_mem)
    have hclosing : c ≠ b.closing := fun h => hc (h ▸ b.closing_mem)
    rw [balancedPrefix, if_neg (by simp), if_neg hquote, if_neg fun h => hopening h.1,
      if_neg fun h => hclosing h.1]

theorem foldr_map_cons (t : List Char) (r : Option (List Char)) :
    t.foldr (fun c r => r.map (c :: ·)) r = r.map (t ++ ·) := by
  induction t with
  | nil => simp
  | cons c t ih =>
    rw [List.foldr_cons, ih, Option.map_map]
    rfl

variable {t : List Char} {w : List Char}

section

variable (b : Bracket) (depth : Nat) (s : List Char)

theorem balancedPrefix_quiet (hw : Quiet w) :
    balancedPrefix b.opening b.closing depth false false (w ++ s) =
      (balancedPrefix b.opening b.closing depth false false s).map (w ++ ·) := by
  rw [(skims_balancedPrefix b depth).quiet hw, foldr_map_cons]

theorem balancedPrefix_literal (ht : Literal t) :
    balancedPrefix b.opening b.closing depth false false (t ++ s) =
      (balancedPrefix b.opening b.closing depth false false s).map (t ++ ·) := by
  rw [(skims_balancedPrefix b depth).literal ht, foldr_map_cons]

theorem balancedPrefix_comma :
    balancedPrefix b.opening b.closing depth false false (',' :: s) =
      (balancedPrefix b.opening b.closing depth false false s).map (',' :: ·) := by
  cases b <;> simp [balancedPrefix, Bracket.opening, Bracket.closing]

theorem balancedPrefix_opening (a : Bracket) :
    balancedPrefix b.opening b.closing depth false false (a.opening :: s) =
      (balancedPrefix b.opening b.closing (if a = b then depth + 1 else depth) false false s).map
        (a.opening :: ·) := by
  cases a <;> cases b <;> simp [balancedPrefix, Bracket.opening, Bracket.closing]

theorem balancedPrefix_closing (a : Bracket) :
    balancedPrefix b.opening b.closing (if a = b then depth + 2 else depth + 1) false false
        (a.closing :: s) =
      (balancedPrefix b.opening b.closing (depth + 1) false false s).map (a.closing :: ·) := by
  cases a <;> cases b <;> simp [balancedPrefix, Bracket.opening, Bracket.closing]

end

theorem balancedPrefix_derives {part : Part} (h : Derives part t) (b : Bracket) (depth : Nat)
    (s : List Char) :
    balancedPrefix b.opening b.closing (depth + 1) false false (t ++ s) =
      (balancedPrefix b.opening b.closing (depth + 1) false false s).map (t ++ ·) := by
  have hcolons : ∀ r, ':' :: r = [':'] ++ r := fun _ => rfl
  induction h generalizing depth s with
  | scalar h => exact balancedPrefix_quiet b _ s h.quiet
  | literal h => exact balancedPrefix_literal b _ s h
  | @empty a w hw =>
    have hdepth : (if a = b then depth + 1 + 1 else depth + 1) =
        if a = b then depth + 2 else depth + 1 := rfl
    rw [List.cons_append, balancedPrefix_opening, List.append_assoc,
      balancedPrefix_quiet b _ _ hw.quiet, List.cons_append, List.nil_append, hdepth,
      balancedPrefix_closing, Option.map_map, Option.map_map]
    simp [Function.comp_def]
  | @full a t _ ih =>
    have hinner : ∀ r, balancedPrefix b.opening b.closing
        (if a = b then depth + 2 else depth + 1) false false (t ++ r) =
        (balancedPrefix b.opening b.closing
          (if a = b then depth + 2 else depth + 1) false false r).map (t ++ ·) := by
      intro r
      by_cases hab : a = b
      · rw [if_pos hab]
        exact ih (depth + 1) r
      · rw [if_neg hab]
        exact ih depth r
    rw [List.cons_append, balancedPrefix_opening, List.append_assoc, hinner, List.cons_append,
      List.nil_append, balancedPrefix_closing, Option.map_map, Option.map_map]
    simp [Function.comp_def]
  | item _ ih => exact ih depth s
  | @field k v w w' hk hw hw' _ ih =>
    rw [List.append_assoc, balancedPrefix_literal b _ _ hk, List.append_assoc,
      balancedPrefix_quiet b _ _ hw.quiet, List.cons_append, hcolons,
      balancedPrefix_quiet b _ _ quiet_colon, List.append_assoc,
      balancedPrefix_quiet b _ _ hw'.quiet, ih]
    simp [Function.comp_def]
  | last hw _ hw' ih =>
    rw [List.append_assoc, balancedPrefix_quiet b _ _ hw.quiet, List.append_assoc, ih,
      balancedPrefix_quiet b _ _ hw'.quiet]
    simp [Function.comp_def]
  | more hw _ hw' _ ih ihrest =>
    rw [List.append_assoc, balancedPrefix_quiet b _ _ hw.quiet, List.append_assoc, ih,
      List.append_assoc, balancedPrefix_quiet b _ _ hw'.quiet, List.cons_append,
      balancedPrefix_comma, ihrest]
    simp [Function.comp_def]

theorem exists_inner {b : Bracket} {v : List Char} (h : Derives .value v)
    (hv : v.head? = some b.opening) :
    ∃ t, v = b.opening :: (t ++ [b.closing]) ∧ (Quiet t ∨ Derives (.entries b) t) := by
  cases h with
  | scalar h =>
    obtain ⟨rest, rfl⟩ := List.head?_eq_some_iff.mp hv
    have hmark : b.opening ∈ marks := by cases b <;> decide
    exact absurd hmark (h.quiet _ List.mem_cons_self)
  | literal h =>
    obtain ⟨body, -, rfl⟩ := h
    cases b <;> simp [Bracket.opening] at hv
  | @empty a w hw =>
    have hab : a = b := by
      cases a <;> cases b <;> simp [Bracket.opening] at hv ⊢
    subst hab
    exact ⟨w, rfl, .inl hw.quiet⟩
  | @full a t ht =>
    have hab : a = b := by
      cases a <;> cases b <;> simp [Bracket.opening] at hv ⊢
    subst hab
    exact ⟨t, rfl, .inr ht⟩

theorem balancedPrefix_value {b : Bracket} {v : List Char} (h : Derives .value v)
    (hv : v.head? = some b.opening) (s : List Char) :
    balancedPrefix b.opening b.closing 0 false false (v ++ s) = some v := by
  obtain ⟨t, rfl, ht⟩ := exists_inner h hv
  have hinner : ∀ r, balancedPrefix b.opening b.closing 1 false false (t ++ r) =
      (balancedPrefix b.opening b.closing 1 false false r).map (t ++ ·) := by
    intro r
    rcases ht with ht | ht
    · exact balancedPrefix_quiet b 1 r ht
    · exact balancedPrefix_derives ht b 0 r
  have hclosing : balancedPrefix b.opening b.closing 1 false false (b.closing :: s) =
      some [b.closing] := by
    cases b <;> simp [balancedPrefix, Bracket.opening, Bracket.closing]
  rw [List.cons_append, balancedPrefix_opening, if_pos rfl, List.append_assoc, hinner,
    List.cons_append, List.nil_append, hclosing]
  rfl

/-! ## Trailing commas -/

theorem skims_stripTrailingCommas : Skims stripTrailingCommas List.cons where
  escaped inside c s := by rw [stripTrailingCommas]
  slash s := by
    rw [stripTrailingCommas, if_pos ⟨rfl, rfl⟩]
  quote inside s := by
    rw [stripTrailingCommas, if_neg (by simp), if_pos rfl]
  inside c s hquote hslash := by
    rw [stripTrailingCommas, if_neg (by simp [hslash]), if_neg hquote, if_neg (by simp)]
  outside c s hc := by
    have hquote : c ≠ '"' := fun h => hc (by rw [h]; decide)
    have hcomma : c ≠ ',' := fun h => hc (by rw [h]; decide)
    rw [stripTrailingCommas, if_neg (by simp), if_neg hquote, if_neg fun h => hcomma h.1]

section

variable (s : List Char)

theorem stripTrailingCommas_quiet (hw : Quiet w) :
    stripTrailingCommas false false (w ++ s) = w ++ stripTrailingCommas false false s := by
  rw [skims_stripTrailingCommas.quiet hw, foldr_cons_eq_append']

theorem stripTrailingCommas_literal (ht : Literal t) :
    stripTrailingCommas false false (t ++ s) = t ++ stripTrailingCommas false false s := by
  rw [skims_stripTrailingCommas.literal ht, foldr_cons_eq_append']

theorem stripTrailingCommas_opening (b : Bracket) :
    stripTrailingCommas false false (b.opening :: s) =
      b.opening :: stripTrailingCommas false false s := by
  cases b <;> simp [stripTrailingCommas, Bracket.opening]

theorem stripTrailingCommas_closing (b : Bracket) :
    stripTrailingCommas false false (b.closing :: s) =
      b.closing :: stripTrailingCommas false false s := by
  cases b <;> simp [stripTrailingCommas, Bracket.closing]

theorem stripTrailingCommas_comma :
    stripTrailingCommas false false (',' :: s) =
      if closesNext s then stripTrailingCommas false false s
      else ',' :: stripTrailingCommas false false s := by
  rw [stripTrailingCommas, if_neg (by simp), if_neg (by decide), if_pos ⟨rfl, rfl⟩]

theorem closesNext_blank (hw : Blank w) : closesNext (w ++ s) = closesNext s := by
  unfold closesNext
  rw [dropWhile_append_of_pos fun c hc => isWhitespace_of_blank (hw c hc)]

theorem closesNext_closing (b : Bracket) : closesNext (b.closing :: s) = true := by
  cases b <;> rfl

theorem closesNext_starts (h : Starts t) : closesNext (t ++ s) = false := by
  obtain ⟨c, rest, rfl, hc, hclosing⟩ := h
  have hcurly : c ≠ '}' := hclosing .curly
  have hsquare : c ≠ ']' := hclosing .square
  unfold closesNext
  rw [cons_append, dropWhile_cons_of_neg (by simp [hc])]
  simp [hcurly, hsquare]

end

/-- The entries of a container stand before its closing bracket. -/
def Followed : Part → List Char → Prop
  | .entries b, s => ∃ rest, s = b.closing :: rest
  | _, _ => True

/-- A comma is extra exactly when a bracket closes next, and only an extra one is dropped. -/
theorem stripTrailingCommas_trailing {part : Part} {t u : List Char} (h : Trailing part t u)
    (s : List Char) (hs : Followed part s) :
    stripTrailingCommas false false (t ++ s) = u ++ stripTrailingCommas false false s := by
  have hcolons : ∀ r, ':' :: r = [':'] ++ r := fun _ => rfl
  induction h generalizing s with
  | scalar h => exact stripTrailingCommas_quiet s h.quiet
  | literal h => exact stripTrailingCommas_literal s h
  | @empty b w hw =>
    rw [cons_append, stripTrailingCommas_opening, append_assoc,
      stripTrailingCommas_quiet _ hw.quiet, cons_append,
      stripTrailingCommas_closing]
    simp
  | @emptyComma b w w' hw hw' =>
    have hclose : closesNext (w' ++ [b.closing] ++ s) = true := by
      rw [append_assoc, closesNext_blank _ hw', cons_append, closesNext_closing]
    rw [cons_append, stripTrailingCommas_opening, append_assoc,
      stripTrailingCommas_quiet _ hw.quiet, cons_append, stripTrailingCommas_comma,
      if_pos hclose, append_assoc, stripTrailingCommas_quiet _ hw'.quiet, cons_append,
      stripTrailingCommas_closing]
    simp
  | @full b t u _ ih =>
    rw [cons_append, stripTrailingCommas_opening, append_assoc,
      cons_append, nil_append, ih _ ⟨s, rfl⟩, stripTrailingCommas_closing]
    simp
  | item _ ih => exact ih s trivial
  | field hk hw hw' _ ih =>
    rw [append_assoc, stripTrailingCommas_literal _ hk, append_assoc,
      stripTrailingCommas_quiet _ hw.quiet, cons_append, hcolons,
      stripTrailingCommas_quiet _ quiet_colon, append_assoc,
      stripTrailingCommas_quiet _ hw'.quiet, ih s trivial]
    simp
  | last hw _ hw' ih =>
    rw [append_assoc, stripTrailingCommas_quiet _ hw.quiet, append_assoc,
      ih _ trivial, stripTrailingCommas_quiet _ hw'.quiet]
    simp
  | @lastComma b t u w w' w'' hw _ hw' hw'' ih =>
    obtain ⟨rest, rfl⟩ := hs
    have hclose : closesNext (w'' ++ b.closing :: rest) = true :=
      (closesNext_blank _ hw'').trans (closesNext_closing rest b)
    rw [append_assoc, stripTrailingCommas_quiet _ hw.quiet, append_assoc,
      ih _ trivial, append_assoc, stripTrailingCommas_quiet _ hw'.quiet, cons_append,
      stripTrailingCommas_comma, if_pos hclose, stripTrailingCommas_quiet _ hw''.quiet]
    simp
  | @more b t u w w' t' u' hw _ hw' hrest ih ihrest =>
    have hopen : ¬ closesNext (t' ++ s) = true := by
      obtain ⟨blank, t'', hblank, hstarts, rfl⟩ := hrest.starts
      rw [append_assoc, closesNext_blank _ hblank, closesNext_starts _ hstarts]
      exact Bool.false_ne_true
    rw [append_assoc, stripTrailingCommas_quiet _ hw.quiet, append_assoc,
      ih _ trivial, append_assoc, stripTrailingCommas_quiet _ hw'.quiet, cons_append,
      stripTrailingCommas_comma, if_neg hopen, ihrest s hs]
    simp

theorem stripTrailingCommas_hasTrailing {t u : List Char} (h : HasTrailing t u) :
    stripTrailingCommas false false t = u := by
  obtain ⟨w, v, v', w', hw, hv, hw', rfl, rfl⟩ := h
  rw [stripTrailingCommas_quiet _ hw.quiet, stripTrailingCommas_trailing hv w' trivial]
  have hend := stripTrailingCommas_quiet [] hw'.quiet
  rw [append_nil, stripTrailingCommas, append_nil] at hend
  rw [hend]

theorem candidateHere_opening {fromStr : JsonReader} {b : Bracket} {v s : List Char}
    (hv : v.head? = some b.opening) :
    candidateHere fromStr (v ++ s) =
      extractBalancedJsonCandidate fromStr b.opening b.closing (v ++ s) := by
  obtain ⟨rest, rfl⟩ := List.head?_eq_some_iff.mp hv
  cases b <;> simp [candidateHere, Bracket.opening, Bracket.closing]

/-- Each character, with whether it belongs to a string literal. -/
def inLiterals : Bool → Bool → List Char → List (Char × Bool)
  | _, _, [] => []
  | inString, true, c :: rest => (c, inString) :: inLiterals inString false rest
  | inString, false, c :: rest =>
    if c = '\\' ∧ inString then (c, true) :: inLiterals inString true rest
    else if c = '"' then (c, true) :: inLiterals (!inString) false rest
    else (c, inString) :: inLiterals inString false rest

theorem inLiterals_stripTrailingCommas (inString escape : Bool) (t : List Char) :
    (inLiterals inString escape (stripTrailingCommas inString escape t)).filter
        (· ≠ (',', false)) =
      (inLiterals inString escape t).filter (· ≠ (',', false)) := by
  induction t generalizing inString escape with
  | nil => rw [stripTrailingCommas]
  | cons c rest ih =>
    cases escape with
    | true =>
      rw [stripTrailingCommas, inLiterals, inLiterals, List.filter_cons, List.filter_cons, ih]
    | false =>
      rw [stripTrailingCommas]
      by_cases hslash : c = '\\' ∧ inString = true
      · rw [if_pos hslash, inLiterals, inLiterals, if_pos hslash, if_pos hslash, List.filter_cons,
          List.filter_cons, ih]
      · rw [if_neg hslash]
        by_cases hquote : c = '"'
        · rw [if_pos hquote, inLiterals, inLiterals, if_neg hslash, if_neg hslash, if_pos hquote,
            if_pos hquote, filter_cons, filter_cons, ih]
        · have hkept : ((inLiterals inString false
                (c :: stripTrailingCommas inString false rest)).filter (· ≠ (',', false))) =
              (inLiterals inString false (c :: rest)).filter (· ≠ (',', false)) := by
            rw [inLiterals, inLiterals, if_neg hslash, if_neg hslash, if_neg hquote,
              if_neg hquote, filter_cons, filter_cons, ih]
          rw [if_neg hquote]
          split_ifs with hcomma hnext
          · obtain ⟨rfl, hout⟩ := hcomma
            have hfalse : inString = false := by simpa using hout
            subst hfalse
            rw [ih, inLiterals, if_neg hslash, if_neg hquote, filter_cons_of_neg (by simp)]
          · exact hkept
          · exact hkept

/-! ## JSON texts -/

/-- The balanced scan from the bracket of a JSON object or array returns that text, and
nothing else is ever extracted there. The repair leaves JSON alone, changes in any text no
more than commas outside of string literals, and takes the extra commas out of a JSON text
that has one before some of its closing brackets. -/
theorem scans_keep_json :
    (∀ (fromStr : JsonReader) (b : Bracket) (v s : List Char), Derives .value v →
      v.head? = some b.opening →
        balancedPrefix b.opening b.closing 0 false false (v ++ s) = some v ∧
        candidateHere fromStr (v ++ s) =
          if (fromStr (String.ofList v)).isSome then some (String.ofList v) else none) ∧
      (∀ t, IsJson t → stripTrailingCommas false false t = t) ∧
      (∀ t, (inLiterals false false (stripTrailingCommas false false t)).filter
        (· ≠ (',', false)) = (inLiterals false false t).filter (· ≠ (',', false))) ∧
      (∀ t u, HasTrailing t u → stripTrailingCommas false false t = u) := by
  refine ⟨fun fromStr b v s hv hhead => ?_, fun t ht => ?_, fun t => ?_, fun t u h => ?_⟩
  · have hscan := balancedPrefix_value hv hhead s
    refine ⟨hscan, ?_⟩
    have hsame : stripTrailingCommas false false v = v := by
      have hstrip := stripTrailingCommas_trailing hv.trailing [] trivial
      rwa [append_nil, stripTrailingCommas, append_nil] at hstrip
    rw [candidateHere_opening hhead, extractBalancedJsonCandidate, hscan]
    dsimp only
    rw [hsame]
    simp
  · exact stripTrailingCommas_hasTrailing ht.hasTrailing
  · exact inLiterals_stripTrailingCommas false false t
  · exact stripTrailingCommas_hasTrailing h

end GenieClaw.Parser
