import GenieClaw.Security.SecretTokens

/-!
# The text that is shown

What all patterns together leave of a piece, and of a text. Where no replacement changes whether
there is a token in front of it, each piece is cut at its first token.

* `redactPiece_front`: the turn of one pattern on the front of a piece.
* `sanitizeOutput_hides` (`Separable`, `Steady`): each piece is cut at its first token.
-/

namespace GenieClaw.Security

open Library Library.Text Server List Option

/-! ## Where tokens stand -/

/-- A token of the pattern begins at this place of the piece. -/
def TokenAt (pattern : SecretPattern) (piece : List Char) (i : Nat) : Prop :=
  pattern.pre.toList <+: piece.drop i ∧ pattern.minLen ≤ byteSize (piece.drop i)

instance (pattern : SecretPattern) (piece : List Char) (i : Nat) :
    Decidable (TokenAt pattern piece i) :=
  inferInstanceAs (Decidable (_ ∧ _))

/-- Replacing the token of `other` at `c` does not change whether the prefix at `i` begins one. -/
def SteadyAt (pattern : SecretPattern) (piece : List Char) (i : Nat) (other : SecretPattern)
    (c : Nat) : Prop :=
  i + pattern.pre.toList.length ≤ c → TokenAt other piece c →
    (pattern.minLen ≤ byteSize ((piece.take c).drop i ++ marker other) ↔
      pattern.minLen ≤ byteSize (piece.drop i))

instance (pattern : SecretPattern) (piece : List Char) (i : Nat) (other : SecretPattern)
    (c : Nat) : Decidable (SteadyAt pattern piece i other c) :=
  inferInstanceAs (Decidable (_ → _ → _))

/-- Replacing a token changes for no prefix before it whether that begins a token. -/
def Steady (piece : List Char) : Prop :=
  ∀ pattern ∈ secretPatterns, ∀ i < piece.length, pattern.pre.toList <+: piece.drop i →
    ∀ other ∈ secretPatterns, ∀ c < piece.length, SteadyAt pattern piece i other c

instance (piece : List Char) : Decidable (Steady piece) :=
  inferInstanceAs (Decidable (∀ pattern ∈ secretPatterns, ∀ i < piece.length,
    pattern.pre.toList <+: piece.drop i → ∀ other ∈ secretPatterns, ∀ c < piece.length,
      SteadyAt pattern piece i other c))

/-- The piece up to the first token, and the marker of that token. -/
def hideSecret : List Char → List Char
  | [] => []
  | c :: cs =>
    match secretPatterns.find? fun pattern => decide (TokenAt pattern (c :: cs) 0) with
    | some pattern => marker pattern
    | none => c :: hideSecret cs

variable {pattern other : SecretPattern} {piece : List Char}

theorem TokenAt.lt (h : PlainPrefix pattern) {i : Nat} (hi : TokenAt pattern piece i) :
    i < piece.length := by
  by_contra hle
  have hnil := hi.1
  rw [drop_eq_nil_of_le (Nat.le_of_not_lt hle)] at hnil
  exact h.ne_nil (List.prefix_nil.mp hnil)

theorem prefixes_apart (hpattern : pattern ∈ secretPatterns) (hother : other ∈ secretPatterns)
    (hne : pattern.pre ≠ other.pre) {i c : Nat} (hi : pattern.pre.toList <+: piece.drop i)
    (hc : other.pre.toList <+: piece.drop c) (hlt : i < c) : i + pattern.pre.toList.length ≤ c := by
  have hall : ∀ pattern ∈ secretPatterns, ∀ other ∈ secretPatterns, pattern.pre ≠ other.pre →
      ∀ n < pattern.pre.toList.length, 0 < n → ¬ (pattern.pre.toList.drop n <+: other.pre.toList ∨
        other.pre.toList <+: pattern.pre.toList.drop n) := forall_mem_of_all (by decide)
  by_contra hover
  have hwithin : pattern.pre.toList.drop (c - i) <+: piece.drop c := by
    have hdrop := hi.drop (c - i)
    rwa [drop_drop, Nat.add_sub_cancel' (Nat.le_of_lt hlt)] at hdrop
  refine hall pattern hpattern other hother hne (c - i) (by omega) (by omega) ?_
  rcases Nat.le_total (pattern.pre.toList.drop (c - i)).length other.pre.toList.length with h | h
  · exact .inl (prefix_of_prefix_length_le hwithin hc h)
  · exact .inr (prefix_of_prefix_length_le hc hwithin h)

/-! ## The turn of a pattern -/

/-- What the turn of a pattern does to the front of a piece with something behind it, if the
tokens of the piece can be told from what is there. -/
theorem redactPiece_front (h : PlainPrefix pattern) {c : Nat} {tail : List Char}
    (hc : c ≤ piece.length)
    (hsplit : splitOnce pattern.pre.toList (piece.take c ++ tail) =
      (splitOnce pattern.pre.toList (piece.take c)).map fun parts => (parts.1, parts.2 ++ tail))
    (hsize : ∀ i, i + pattern.pre.toList.length ≤ c → pattern.pre.toList <+: piece.drop i →
      (pattern.minLen ≤ byteSize ((piece.take c).drop i ++ tail) ↔
        pattern.minLen ≤ byteSize (piece.drop i)))
    (hover : ∀ i < c, TokenAt pattern piece i → i + pattern.pre.toList.length ≤ c) :
    (redactPiece pattern (piece.take c ++ tail) = piece.take c ++ tail ∧
        ∀ i, TokenAt pattern piece i → c ≤ i) ∨
      ∃ s < c, TokenAt pattern piece s ∧ (∀ i, TokenAt pattern piece i → s ≤ i) ∧
        redactPiece pattern (piece.take c ++ tail) = piece.take s ++ marker pattern := by
  have hlength : (piece.take c).length = c := length_take_of_le hc
  -- A token in front of the cut lies within what is there.
  have hvisible : ∀ i < c, TokenAt pattern piece i →
      pattern.pre.toList <+: (piece.take c).drop i := by
    intro i hi htoken
    have hshort := hover i hi htoken
    have hdrop : (piece.take c).drop i <+: piece.drop i := (List.take_prefix c piece).drop i
    refine prefix_of_prefix_length_le htoken.1 hdrop ?_
    rw [length_drop, hlength]
    omega
  unfold redactPiece firstToken
  rw [hsplit]
  cases hfirst : splitOnce pattern.pre.toList (piece.take c) with
  | none =>
    refine .inl ⟨rfl, fun i htoken => ?_⟩
    by_contra hlt
    have hin := hvisible i (Nat.lt_of_not_le hlt) htoken
    exact splitOnce_eq_none.mp hfirst (hin.isInfix.trans (drop_suffix _ _).isInfix)
  | some parts =>
    obtain ⟨before, after⟩ := parts
    have htake := (splitOnce_eq_some hfirst).1
    have hlengths := congrArg List.length htake
    rw [hlength, length_append, length_append] at hlengths
    have hstarts : (piece.take c).drop before.length = pattern.pre.toList ++ after := by
      rw [htake, append_assoc, drop_left]
    have hpiece : pattern.pre.toList <+: piece.drop before.length :=
      (hstarts ▸ prefix_append _ after).trans ((List.take_prefix c piece).drop _)
    have hlong := hsize before.length (by omega) hpiece
    rw [hstarts, append_assoc] at hlong
    have hleast : ∀ i, i < c → TokenAt pattern piece i → before.length ≤ i := fun i hi htoken =>
      splitOnce_first h.ne_nil hfirst (hvisible i hi htoken)
    have hpos : 0 < pattern.pre.toList.length := length_pos_of_ne_nil h.ne_nil
    rw [map_some, bind_some]
    dsimp only
    by_cases hfits : pattern.minLen ≤ byteSize (pattern.pre.toList ++ (after ++ tail))
    · rw [if_pos hfits]
      refine .inr ⟨before.length, by omega, ⟨hpiece, hlong.mp hfits⟩, fun i htoken => ?_, ?_⟩
      · rcases Nat.lt_or_ge i c with hi | hi
        · exact hleast i hi htoken
        · omega
      · have hbefore : piece.take before.length = before := by
          have htwice := congrArg (List.take before.length) htake
          rwa [take_take, Nat.min_eq_left (by omega), append_assoc, take_left]
            at htwice
        rw [hbefore]
    · rw [if_neg hfits]
      refine .inl ⟨rfl, fun i htoken => ?_⟩
      by_contra hlt
      have hi := hleast i (Nat.lt_of_not_le hlt) htoken
      have hsuffix : piece.drop i <:+ piece.drop before.length := by
        rw [← Nat.add_sub_cancel' hi, ← drop_drop]
        exact drop_suffix _ _
      exact hfits (hlong.mpr (htoken.2.trans (byteSize_le_of_within hsuffix.isInfix)))

/-- What is left of a piece after the turns of some patterns: all of it if they have no token
there, or what stands before their first token. -/
inductive Left (done : List SecretPattern) (piece : List Char) : List Char → Prop where
  | whole (h : ∀ pattern ∈ done, ∀ i, ¬ TokenAt pattern piece i) : Left done piece piece
  | cut (c : Nat) (other : SecretPattern) (hother : other ∈ done) (hc : TokenAt other piece c)
      (h : ∀ pattern ∈ done, ∀ i, TokenAt pattern piece i → c ≤ i) :
      Left done piece (piece.take c ++ marker other)

theorem redactPiece_turn (hpattern : pattern ∈ secretPatterns) (hsteady : Steady piece)
    {done : List SecretPattern} (hdone : ∀ other ∈ done, other ∈ secretPatterns)
    (hnew : ∀ other ∈ done, pattern.pre ≠ other.pre) {current : List Char}
    (h : Left done piece current) : Left (pattern :: done) piece (redactPiece pattern current) := by
  have hplain := plainPrefix hpattern
  cases h with
  | whole hnone =>
    have hturn := @redactPiece_front pattern piece hplain piece.length [] (Nat.le_refl _)
      (by
        rw [append_nil]
        cases splitOnce pattern.pre.toList (piece.take piece.length) with
        | none => rfl
        | some parts => rw [map_some, append_nil])
      (fun i _ _ => by rw [take_length, append_nil])
      (fun i hi htoken => by
        have hlength := htoken.1.length_le
        rw [length_drop] at hlength
        omega)
    rw [append_nil, take_length] at hturn
    rcases hturn with ⟨hsame, hlate⟩ | ⟨s, -, htoken, hfirst, hcut⟩
    · rw [hsame]
      refine .whole (List.forall_mem_cons.mpr ⟨fun i htoken => ?_, hnone⟩)
      exact absurd (hlate i htoken) (Nat.not_le_of_lt (htoken.lt hplain))
    · rw [hcut]
      refine .cut s pattern mem_cons_self htoken (List.forall_mem_cons.mpr ⟨hfirst, ?_⟩)
      exact fun other hother i hi => absurd hi (hnone other hother i)
  | cut c other hother hc hleast =>
    have hsecret := hdone other hother
    have hlt := hc.lt (plainPrefix hsecret)
    have htail : splitOnce pattern.pre.toList ("REDACTED:" ++ other.name ++ "]").toList = none :=
      splitOnce_eq_none.mpr (not_infix_markerTail hpattern hsecret)
    have hturn := @redactPiece_front pattern piece hplain c (marker other) (Nat.le_of_lt hlt)
      (by
        rw [marker, splitOnce_break hplain.ne_nil hplain.bracket, htail, map_none,
          or_none])
      (fun i hi hstarts => hsteady pattern hpattern i (by omega) hstarts other hsecret c hlt hi hc)
      (fun i hi htoken =>
        prefixes_apart hpattern hsecret (hnew other hother) htoken.1 hc.1 hi)
    rcases hturn with ⟨hsame, hlate⟩ | ⟨s, hs, htoken, hfirst, hcut⟩
    · rw [hsame]
      exact .cut c other (mem_cons_of_mem _ hother) hc
        (List.forall_mem_cons.mpr ⟨hlate, hleast⟩)
    · rw [hcut]
      refine .cut s pattern mem_cons_self htoken (List.forall_mem_cons.mpr ⟨hfirst, ?_⟩)
      exact fun other hother i hi => Nat.le_of_lt (Nat.lt_of_lt_of_le hs (hleast other hother i hi))

theorem redactAll_left {patterns done : List SecretPattern} (hsteady : Steady piece)
    (hpatterns : ∀ pattern ∈ patterns, pattern ∈ secretPatterns)
    (hdone : ∀ other ∈ done, other ∈ secretPatterns)
    (hdistinct : (patterns.reverse ++ done).Pairwise fun one other => one.pre ≠ other.pre)
    {current : List Char} (h : Left done piece current) :
    Left (patterns.reverse ++ done) piece (redactAll patterns current) := by
  induction patterns generalizing done current with
  | nil => exact h
  | cons pattern rest ih =>
    have hpattern := hpatterns pattern mem_cons_self
    rw [reverse_cons, append_assoc, singleton_append] at hdistinct ⊢
    have hnew := (List.pairwise_cons.mp (List.pairwise_append.mp hdistinct).2.1).1
    exact ih (fun other hmem => hpatterns other (mem_cons_of_mem _ hmem))
      (List.forall_mem_cons.mpr ⟨hpattern, hdone⟩) hdistinct
      (redactPiece_turn hpattern hsteady hdone hnew h)

/-! ## The first token -/

theorem hideSecret_of_none (h : ∀ pattern ∈ secretPatterns, ∀ i, ¬ TokenAt pattern piece i) :
    hideSecret piece = piece := by
  induction piece with
  | nil => rfl
  | cons c cs ih =>
    have hnone : (secretPatterns.find? fun pattern => decide (TokenAt pattern (c :: cs) 0)) =
        none := by
      refine List.find?_eq_none.mpr fun pattern hpattern htoken => ?_
      exact h pattern hpattern 0 (of_decide_eq_true htoken)
    rw [hideSecret, hnone]
    dsimp only
    rw [ih fun pattern hpattern i htoken => h pattern hpattern (i + 1) htoken]

theorem marker_unique (hpattern : pattern ∈ secretPatterns) (hother : other ∈ secretPatterns)
    (h : pattern.pre.toList <+: piece) (h' : other.pre.toList <+: piece) :
    marker pattern = marker other := by
  have hall : ∀ pattern ∈ secretPatterns, ∀ other ∈ secretPatterns,
      pattern.pre.toList <+: other.pre.toList → marker pattern = marker other :=
    forall_mem_of_all (by decide)
  rcases Nat.le_total pattern.pre.toList.length other.pre.toList.length with hle | hle
  · exact hall pattern hpattern other hother (prefix_of_prefix_length_le h h' hle)
  · exact (hall other hother pattern hpattern (prefix_of_prefix_length_le h' h hle)).symm

theorem hideSecret_of_first (hother : other ∈ secretPatterns) {c : Nat} (hc : TokenAt other piece c)
    (h : ∀ pattern ∈ secretPatterns, ∀ i, TokenAt pattern piece i → c ≤ i) :
    hideSecret piece = piece.take c ++ marker other := by
  induction piece generalizing c with
  | nil => exact absurd (hc.lt (plainPrefix hother)) (Nat.not_lt_zero c)
  | cons x xs ih =>
    rw [hideSecret]
    cases c with
    | zero =>
      cases hfind : secretPatterns.find? fun pattern => decide (TokenAt pattern (x :: xs) 0) with
      | none =>
        have hno := List.find?_eq_none.mp hfind other hother
        exact absurd (decide_eq_true hc) hno
      | some pattern =>
        have hsome := find?_some hfind
        have htoken : TokenAt pattern (x :: xs) 0 := of_decide_eq_true hsome
        exact marker_unique (mem_of_find?_eq_some hfind) hother htoken.1 hc.1
    | succ c =>
      have hnone : (secretPatterns.find? fun pattern => decide (TokenAt pattern (x :: xs) 0)) =
          none := by
        refine List.find?_eq_none.mpr fun pattern hpattern htoken => ?_
        exact Nat.not_succ_le_zero c (h pattern hpattern 0 (of_decide_eq_true htoken))
      rw [hnone]
      dsimp only
      rw [ih hc fun pattern hpattern i htoken =>
        Nat.le_of_succ_le_succ (h pattern hpattern (i + 1) htoken)]
      rfl

theorem redactAll_hides (hsteady : Steady piece) :
    Left secretPatterns piece (redactAll secretPatterns piece) ∧
      redactAll secretPatterns piece = hideSecret piece := by
  have hdistinct : (secretPatterns.reverse ++ []).Pairwise
      fun one other : SecretPattern => one.pre ≠ other.pre := by decide
  have hwhole : Left [] piece piece :=
    .whole fun pattern hpattern => absurd hpattern not_mem_nil
  have hleft := redactAll_left hsteady (fun pattern hpattern => hpattern)
    (fun other hother => absurd hother not_mem_nil) hdistinct hwhole
  rw [append_nil] at hleft
  generalize redactAll secretPatterns piece = rest at hleft
  cases hleft with
  | whole hnone =>
    have hall : ∀ pattern ∈ secretPatterns, ∀ i, ¬ TokenAt pattern piece i :=
      fun pattern hpattern => hnone pattern (List.mem_reverse.mpr hpattern)
    exact ⟨.whole hall, (hideSecret_of_none hall).symm⟩
  | cut c other hother hc hfirst =>
    have hmem := List.mem_reverse.mp hother
    have hall : ∀ pattern ∈ secretPatterns, ∀ i, TokenAt pattern piece i → c ≤ i :=
      fun pattern hpattern => hfirst pattern (List.mem_reverse.mpr hpattern)
    exact ⟨.cut c other hmem hc hall, (hideSecret_of_first hmem hc hall).symm⟩

theorem Left.no_token (hsteady : Steady piece) {rest : List Char}
    (h : Left secretPatterns piece rest) (hpattern : pattern ∈ secretPatterns) (i : Nat) :
    ¬ TokenAt pattern rest i := by
  have hplain := plainPrefix hpattern
  cases h with
  | whole hnone => exact hnone pattern hpattern i
  | cut c other hother hc hfirst =>
    intro htoken
    have hlt := hc.lt (plainPrefix hother)
    have hlength : (piece.take c).length = c := length_take_of_le (Nat.le_of_lt hlt)
    obtain ⟨hstarts, hlong⟩ := htoken
    rcases Nat.lt_or_ge i c with hi | hi
    · rw [drop_append_of_le_length (by omega)] at hstarts hlong
      have hfront : pattern.pre.toList <+: (piece.take c).drop i :=
        (prefix_break hplain.bracket).mp hstarts
      have hpiece : pattern.pre.toList <+: piece.drop i :=
        hfront.trans ((List.take_prefix c piece).drop i)
      have hshort := hfront.length_le
      rw [length_drop, hlength] at hshort
      have hsteady := (hsteady pattern hpattern i (by omega) hpiece other hother c hlt (by omega)
        hc).mp hlong
      exact absurd (hfirst pattern hpattern i ⟨hpiece, hsteady⟩) (Nat.not_le_of_lt hi)
    · have hin : pattern.pre.toList <:+: marker other := by
        have hdrop : (piece.take c ++ marker other).drop i <:+ marker other := by
          rw [drop_append, drop_eq_nil_of_le (by omega), nil_append]
          exact drop_suffix _ _
        exact hstarts.isInfix.trans hdrop.isInfix
      have hparts : pattern.pre.toList <:+: [] ++ marker other := hin
      rcases (infix_break hplain.ne_nil hplain.bracket).mp hparts with hnil | htail
      · exact hplain.ne_nil (List.infix_nil.mp hnil)
      · exact not_infix_markerTail hpattern hother htail

/-! ## The text that is left -/

theorem firstToken_eq_none (hnone : ∀ i, ¬ TokenAt pattern piece i) :
    firstToken pattern piece = none := by
  cases hfirst : firstToken pattern piece with
  | none => rfl
  | some parts =>
    obtain ⟨before, token⟩ := parts
    obtain ⟨after, -, -, hpiece, hfound⟩ := firstToken_eq_some hfirst
    refine absurd ?_ (hnone before.length)
    unfold TokenAt
    rw [hpiece, drop_left]
    exact ⟨hfound.starts, hfound.long⟩

theorem sanitizeOutput_of_no_token {text : String}
    (h : ∀ piece ∈ wordsBy endsSecret text.toList, ∀ pattern ∈ secretPatterns,
      ∀ i, ¬ TokenAt pattern piece i) : sanitizeOutput text = text := by
  refine (sanitizeOutput_eq_self ?_).1
  rintro ⟨pattern, hpattern, found, hfound⟩
  rw [findSecretMatches_pieces (plainPrefix hpattern)] at hfound
  obtain ⟨token, htoken, -⟩ := List.mem_map.mp hfound
  obtain ⟨piece, hpiece, hparts⟩ := List.mem_filterMap.mp htoken
  rw [firstToken_eq_none (h piece hpiece pattern hpattern)] at hparts
  cases hparts

/-- Each piece is cut at its first token, and nothing else changes, now or when this is done
again. -/
theorem sanitizeOutput_hides (text : String) (hapart : Separable secretPatterns text.toList)
    (hsteady : ∀ piece ∈ wordsBy endsSecret text.toList, Steady piece) :
    (sanitizeOutput text).toList = mapPieces endsSecret hideSecret text.toList ∧
      (∀ piece ∈ wordsBy endsSecret text.toList,
        ((∀ pattern ∈ secretPatterns, ∀ i, ¬ TokenAt pattern piece i) → hideSecret piece = piece) ∧
        ∀ pattern ∈ secretPatterns, ∀ i, TokenAt pattern piece i →
          ∃ c ≤ i, ∃ other ∈ secretPatterns, hideSecret piece = piece.take c ++ marker other) ∧
      sanitizeOutput (sanitizeOutput text) = sanitizeOutput text := by
  have hrest : (sanitizeOutput text).toList =
      mapPieces endsSecret (redactAll secretPatterns) text.toList :=
    @redact_fold_pieces secretPatterns (fun pattern hpattern => hpattern) (text, []) hapart
  have hnil : redactAll secretPatterns [] = [] := (@redactAll_hides [] (by decide)).2
  have hunbroken : ∀ piece, (∀ c ∈ piece, endsSecret c = false) →
      ∀ c ∈ redactAll secretPatterns piece, endsSecret c = false :=
    fun piece hpiece => unbroken_redactAll (fun pattern hpattern => hpattern) hpiece
  refine ⟨hrest.trans (mapPieces_congr hnil fun piece hpiece =>
    (redactAll_hides (hsteady piece hpiece)).2), fun piece hpiece => ⟨hideSecret_of_none, ?_⟩, ?_⟩
  · intro pattern hpattern i htoken
    obtain ⟨hleft, hsame⟩ := redactAll_hides (hsteady piece hpiece)
    rw [← hsame]
    generalize redactAll secretPatterns piece = rest at hleft
    cases hleft with
    | whole hnone => exact absurd htoken (hnone pattern hpattern i)
    | cut c other hother _ hfirst =>
      exact ⟨c, hfirst pattern hpattern i htoken, other, hother, rfl⟩
  · refine sanitizeOutput_of_no_token ?_
    rw [hrest]
    refine forall_wordsBy_mapPieces hnil hunbroken fun piece hpiece pattern hpattern i => ?_
    exact (redactAll_hides (hsteady piece hpiece)).1.no_token (hsteady piece hpiece) hpattern i

theorem sanitizeOutput_two_keys :
    (sanitizeOutput "key=sk-ABCDEFGHIJKLMNOPQ, ghp_ABCDEFGHIJKLMNOP").toList =
      "key=[REDACTED:api_key], [REDACTED:github_token]".toList :=
  (sanitizeOutput_hides "key=sk-ABCDEFGHIJKLMNOPQ, ghp_ABCDEFGHIJKLMNOP" (by decide)
    (forall_mem_of_all (by decide))).1.trans (by decide)

/-- A text in which no word begins with a prefix is changed, the end of a token whose front is a
token before it is shown, and a marker makes a token of what stood before it. -/
theorem sanitizeOutput_misses :
    (¬ ∀ text, (∀ word ∈ wordsBy isWhitespace text.toList, ∀ pattern ∈ secretPatterns,
      ¬ pattern.pre.toList <+: word) → sanitizeOutput text = text) ∧
    (¬ ∀ text, ∀ word ∈ wordsBy isWhitespace text.toList, ∀ pattern ∈ secretPatterns,
      pattern.pre.toList <+: word →
      pattern.minLen ≤ byteSize (word.takeWhile fun c => !endsSecret c) →
      ∀ rest, rest <:+ (word.takeWhile fun c => !endsSecret c).drop pattern.pre.toList.length →
        8 ≤ rest.length → ¬ rest <:+: (sanitizeOutput text).toList) ∧
    ¬ ∀ text, sanitizeOutput (sanitizeOutput text) = sanitizeOutput text := by
  refine ⟨fun h => ?_, fun h => ?_, fun h => ?_⟩
  · have hsame := h "desk-lamp-in-the-office" (forall_mem_of_all (by decide))
    revert hsame
    decide
  · have hhidden := h "AKIAABCDEFGHIJKL AKIAABCDEFGHIJKLMNOPQRST"
      "AKIAABCDEFGHIJKLMNOPQRST".toList (by decide) ⟨"aws_key", "AKIA", 16⟩
      (by simp [secretPatterns]) (by decide) (by decide) "MNOPQRST".toList (by decide) (by decide)
    revert hhidden
    decide +kernel
  · have hsame := h "sk-AKIAIOSFODNN7EXA"
    revert hsame
    decide +kernel

end GenieClaw.Security
