import GenieClaw.Library.Pieces
import GenieClaw.Server.Redaction

/-!
# The tokens that the sanitizer finds

Secrets are looked for pattern by pattern, and every match is replaced wherever its text stands.
A token goes from a prefix to the end of its piece, the stretch without white space, quotes,
commas and closing braces. Where no token lies within a later one, a turn of the loop works piece
by piece.

* `findSecretsIn_pieces`, `substitute_redactIn`: one pattern on the pieces of a text.
* `redact_fold_pieces`: all of them, piece by piece.
-/

namespace GenieClaw.Security

open Library Library.Text Server List Option

/-! ## The patterns -/

theorem byteSize_le_of_within {xs ys : List Char} (h : xs <:+: ys) : byteSize xs ≤ byteSize ys := by
  obtain ⟨front, back, rfl⟩ := h
  rw [byteSize_append, byteSize_append]
  omega

/-- What is written for a secret. -/
def marker (pattern : SecretPattern) : List Char :=
  '[' :: ("REDACTED:" ++ pattern.name ++ "]").toList

theorem toList_marker (pattern : SecretPattern) :
    ("[REDACTED:" ++ pattern.name ++ "]").toList = marker pattern := by
  simp only [marker, String.toList_append]
  rfl

/-- No prefix holds a character that ends a token or begins a marker. -/
structure PlainPrefix (pattern : SecretPattern) : Prop where
  ne_nil : pattern.pre.toList ≠ []
  bracket : '[' ∉ pattern.pre.toList
  unbroken : ∀ c ∈ pattern.pre.toList, endsSecret c = false

theorem plainPrefix {pattern : SecretPattern} (h : pattern ∈ secretPatterns) :
    PlainPrefix pattern := by
  have hne : ∀ pattern ∈ secretPatterns, pattern.pre.toList ≠ [] := forall_mem_of_all (by decide)
  have hbracket : ∀ pattern ∈ secretPatterns, '[' ∉ pattern.pre.toList :=
    forall_mem_of_all (by decide)
  have hunbroken : ∀ pattern ∈ secretPatterns,
      (pattern.pre.toList.all fun c => !endsSecret c) = true := forall_mem_of_all (by decide)
  refine ⟨hne pattern h, hbracket pattern h, fun c hc => ?_⟩
  simpa using List.all_eq_true.mp (hunbroken pattern h) c hc

theorem unbroken_marker {pattern : SecretPattern} (h : pattern ∈ secretPatterns) :
    ∀ c ∈ marker pattern, endsSecret c = false := by
  have hunbroken : ∀ pattern ∈ secretPatterns,
      ((marker pattern).all fun c => !endsSecret c) = true := forall_mem_of_all (by decide)
  intro c hc
  simpa using List.all_eq_true.mp (hunbroken pattern h) c hc

theorem not_infix_markerTail {pattern other : SecretPattern} (h : pattern ∈ secretPatterns)
    (hother : other ∈ secretPatterns) :
    ¬ pattern.pre.toList <:+: ("REDACTED:" ++ other.name ++ "]").toList := by
  have hall : ∀ pattern ∈ secretPatterns, ∀ other ∈ secretPatterns,
      ¬ pattern.pre.toList <:+: ("REDACTED:" ++ other.name ++ "]").toList :=
    forall_mem_of_all (by decide)
  exact hall pattern h other hother

/-! ## The tokens -/

section

variable (pattern : SecretPattern)

/-- The token of a piece, and what stands before it. -/
def firstToken (piece : List Char) : Option (List Char × List Char) :=
  (splitOnce pattern.pre.toList piece).bind fun parts =>
    if pattern.minLen ≤ byteSize (pattern.pre.toList ++ parts.2) then
      some (parts.1, pattern.pre.toList ++ parts.2) else none

/-- The tokens of a text. -/
def tokens (cs : List Char) : List (List Char) :=
  (wordsBy endsSecret cs).filterMap fun piece => (firstToken pattern piece).map Prod.snd

/-- A piece without its token. -/
def redactPiece (piece : List Char) : List Char :=
  match firstToken pattern piece with
  | none => piece
  | some (before, _) => before ++ marker pattern

end

variable {pattern : SecretPattern}

theorem firstToken_nil (h : PlainPrefix pattern) : firstToken pattern [] = none := by
  rw [firstToken, splitOnce, if_neg h.ne_nil]
  rfl

theorem tokens_piece (h : PlainPrefix pattern) {cs : List Char}
    (hcs : ∀ c ∈ cs, endsSecret c = false) :
    tokens pattern cs = ((firstToken pattern cs).map Prod.snd).toList := by
  rw [tokens, wordsBy_piece hcs]
  split
  · rename_i hnil
    rw [hnil, firstToken_nil h]
    rfl
  · cases hfirst : firstToken pattern cs with
    | none => simp [hfirst]
    | some parts => simp [hfirst]

theorem tokens_break {d : Char} (hd : endsSecret d = true) (xs ys : List Char) :
    tokens pattern (xs ++ d :: ys) = tokens pattern xs ++ tokens pattern ys := by
  rw [tokens, wordsBy_append_break hd, filterMap_append]
  rfl

/-- The loop finds the token of each piece in turn. -/
theorem findSecretsIn_pieces (h : PlainPrefix pattern) {n : Nat} {cs : List Char}
    (hn : cs.length ≤ n) : findSecretsIn pattern n cs = (tokens pattern cs).map String.ofList := by
  induction n generalizing cs with
  | zero =>
    rw [List.length_eq_zero_iff.mp (Nat.le_zero.mp hn)]
    rfl
  | succ n ih =>
    induction cs using pieces_induction endsSecret with
    | piece cs hpiece =>
      rw [tokens_piece h hpiece, findSecretsIn, firstToken]
      cases hsplit : splitOnce pattern.pre.toList cs with
      | none => rfl
      | some parts =>
        obtain ⟨before, after⟩ := parts
        have hcs := (splitOnce_eq_some hsplit).1
        have hafter : ∀ c ∈ after, (!endsSecret c) = true := by
          intro c hc
          rw [hpiece c (hcs ▸ mem_append_right _ hc)]
          rfl
        have htake := List.takeWhile_eq_self_iff.mpr hafter
        have hdrop := List.dropWhile_eq_nil_iff.mpr hafter
        have hnone : findSecretsIn pattern n [] = [] := ih (Nat.zero_le n)
        dsimp only
        rw [htake, hdrop, hnone, bind_some]
        show (if pattern.minLen ≤ byteSize (pattern.pre.toList ++ after) then _ else _) = _
        dsimp only
        split <;> rfl
    | step xs d ys hpiece hd ihys =>
      have hlength : (xs ++ d :: ys).length = xs.length + (ys.length + 1) := by
        rw [length_append, length_cons]
      rw [hlength] at hn
      have hys := ihys (by omega)
      have hbreak : d ∉ pattern.pre.toList := fun hmem => by
        rw [h.unbroken d hmem] at hd
        cases hd
      rw [tokens_break hd, map_append, ← hys, tokens_piece h hpiece, findSecretsIn,
        splitOnce_break h.ne_nil hbreak, firstToken]
      cases hsplit : splitOnce pattern.pre.toList xs with
      | none =>
        rw [findSecretsIn]
        cases splitOnce pattern.pre.toList ys <;> rfl
      | some parts =>
        obtain ⟨before, after⟩ := parts
        have hxs := (splitOnce_eq_some hsplit).1
        have hafter : ∀ c ∈ after, (!endsSecret c) = true := by
          intro c hc
          rw [hpiece c (hxs ▸ mem_append_right _ hc)]
          rfl
        have hstop : (!endsSecret d) = false := by rw [hd]; rfl
        have htake : (after ++ d :: ys).takeWhile (fun c => !endsSecret c) = after := by
          rw [takeWhile_append_of_pos hafter, takeWhile_cons, hstop]
          simp
        have hdrop : (after ++ d :: ys).dropWhile (fun c => !endsSecret c) = d :: ys := by
          rw [dropWhile_append_of_pos hafter, dropWhile_cons, hstop]
          rfl
        have hlater : findSecretsIn pattern n (d :: ys) = findSecretsIn pattern (n + 1) ys := by
          have hxlength := congrArg List.length hxs
          have hpos : 0 < pattern.pre.toList.length := length_pos_of_ne_nil h.ne_nil
          rw [length_append, length_append] at hxlength
          rw [ih (by rw [length_cons]; omega), hys, tokens, wordsBy_cons_break hd]
          rfl
        rw [map_some, some_or, bind_some]
        dsimp only
        rw [htake, hdrop, hlater]
        show (if pattern.minLen ≤ byteSize (pattern.pre.toList ++ after) then _ else _) = _
        split <;> rfl

theorem findSecretMatches_pieces (h : PlainPrefix pattern) (text : String) :
    findSecretMatches text pattern = (tokens pattern text.toList).map String.ofList :=
  findSecretsIn_pieces h (Nat.le_refl _)

/-! ## One pattern -/

/-- What can be found of a pattern: a text that begins with its prefix and is long enough. -/
structure Found (pattern : SecretPattern) (m : List Char) : Prop where
  starts : pattern.pre.toList <+: m
  long : pattern.minLen ≤ byteSize m

theorem firstToken_eq_some {piece before token : List Char}
    (h : firstToken pattern piece = some (before, token)) :
    ∃ after, splitOnce pattern.pre.toList piece = some (before, after) ∧
      token = pattern.pre.toList ++ after ∧ piece = before ++ token ∧ Found pattern token := by
  obtain ⟨⟨before', after⟩, hsplit, hparts⟩ := Option.bind_eq_some_iff.mp h
  split at hparts
  · rename_i hlong
    cases hparts
    refine ⟨after, hsplit, rfl, ?_, ⟨prefix_append _ _, hlong⟩⟩
    rw [(splitOnce_eq_some hsplit).1, append_assoc]
  · cases hparts

theorem Found.infix_token (h : PlainPrefix pattern) {m piece : List Char} (hm : Found pattern m)
    (hin : m <:+: piece) :
    ∃ before token, firstToken pattern piece = some (before, token) ∧ m <:+: token := by
  obtain ⟨front, back, hpiece⟩ := hin
  have hstarts : pattern.pre.toList <+: piece.drop front.length := by
    rw [← hpiece, append_assoc, drop_left]
    exact hm.starts.trans (prefix_append m back)
  cases hsplit : splitOnce pattern.pre.toList piece with
  | none =>
    exact absurd (hstarts.isInfix.trans (drop_suffix _ _).isInfix)
      (splitOnce_eq_none.mp hsplit)
  | some parts =>
    obtain ⟨before, after⟩ := parts
    have hfirst := splitOnce_first h.ne_nil hsplit hstarts
    have hcs := (splitOnce_eq_some hsplit).1
    rw [append_assoc] at hcs
    have hwithin : m <:+: pattern.pre.toList ++ after := by
      refine ⟨front.drop before.length, back, ?_⟩
      have htail := congrArg (List.drop before.length) (hpiece.trans hcs)
      rwa [drop_left, append_assoc, drop_append_of_le_length hfirst,
        ← append_assoc] at htail
    refine ⟨before, pattern.pre.toList ++ after, ?_, hwithin⟩
    rw [firstToken, hsplit, bind_some,
      if_pos (hm.long.trans (byteSize_le_of_within hwithin))]

theorem not_infix_before (h : PlainPrefix pattern) {piece before token : List Char}
    (hfirst : firstToken pattern piece = some (before, token)) :
    ¬ pattern.pre.toList <:+: before := by
  obtain ⟨after, hsplit, -⟩ := firstToken_eq_some hfirst
  exact fun hin => (splitOnce_eq_some hsplit).2 h.ne_nil
    (hin.trans (prefix_append _ _).isInfix)

/-- Replacing the tokens that are found one after the other: those of `done` are gone. -/
def redactIn (pattern : SecretPattern) (done : List (List Char)) (piece : List Char) : List Char :=
  match firstToken pattern piece with
  | none => piece
  | some (before, token) => if token ∈ done then before ++ marker pattern else piece

/-- One more token is replaced. Where it stands within the token of a piece it is that token. -/
theorem substitute_redactIn (hpattern : pattern ∈ secretPatterns) {m piece : List Char}
    {done : List (List Char)} (hm : Found pattern m)
    (h : ∀ before token, firstToken pattern piece = some (before, token) → token ∉ done →
      m <:+: token → m = token) :
    substitute m (marker pattern) (redactIn pattern done piece) =
      redactIn pattern (m :: done) piece := by
  have hplain := plainPrefix hpattern
  have hin : pattern.pre.toList <:+: m := hm.starts.isInfix
  unfold redactIn
  cases hfirst : firstToken pattern piece with
  | none =>
    refine substitute_eq_self fun hwithin => ?_
    obtain ⟨before, token, hsome, -⟩ := hm.infix_token hplain hwithin
    rw [hfirst] at hsome
    cases hsome
  | some parts =>
    obtain ⟨before, token⟩ := parts
    obtain ⟨after, hsplit, htoken, hpiece, hfound⟩ := firstToken_eq_some hfirst
    have hbefore := not_infix_before hplain hfirst
    dsimp only
    by_cases hdone : token ∈ done
    · rw [if_pos hdone, if_pos (mem_cons_of_mem m hdone)]
      refine substitute_eq_self fun hwithin => ?_
      rcases (infix_break hplain.ne_nil hplain.bracket).mp (hin.trans hwithin) with hleft | hright
      · exact hbefore hleft
      · exact not_infix_markerTail hpattern hpattern hright
    · rw [if_neg hdone]
      by_cases heq : m = token
      · rw [heq, if_pos mem_cons_self, hpiece]
        have hne : token ≠ [] := by
          rintro rfl
          exact hplain.ne_nil (List.prefix_nil.mp hfound.starts)
        have hapart : Text.Apart token before token := by
          intro k hk hp
          have hstarts : pattern.pre.toList <+: piece.drop k := by
            rw [hpiece, drop_append_of_le_length (Nat.le_of_lt hk)]
            exact hfound.starts.trans hp
          exact absurd (splitOnce_first hplain.ne_nil hsplit hstarts) (Nat.not_le_of_lt hk)
        have hall : substitute token (marker pattern) token = marker pattern := by
          obtain ⟨c, rest, hcons⟩ := exists_cons_of_ne_nil hne
          have hstart := @substitute_cons_of_starts token (marker pattern) hne c rest
            (by rw [hcons])
          rw [← hcons, drop_length] at hstart
          rw [hstart]
          exact append_nil _
        rw [substitute_append hne hapart, hall,
          substitute_eq_self fun hwithin => hbefore (hfound.starts.isInfix.trans hwithin)]
      · have hnot : token ∉ m :: done := fun hmem =>
          (List.mem_cons.mp hmem).elim (fun hsame => heq hsame.symm) hdone
        rw [if_neg hnot]
        refine substitute_eq_self fun hwithin => ?_
        obtain ⟨before', token', hsome, hlies⟩ := hm.infix_token hplain hwithin
        rw [hfirst] at hsome
        cases hsome
        exact heq (h before token hfirst hdone hlies)

theorem redactIn_nil (hpattern : pattern ∈ secretPatterns) (done : List (List Char)) :
    redactIn pattern done [] = [] := by
  rw [redactIn, firstToken_nil (plainPrefix hpattern)]

theorem mem_tokens {cs token : List Char} (h : token ∈ tokens pattern cs) :
    Found pattern token ∧ ∀ c ∈ token, endsSecret c = false := by
  obtain ⟨piece, hpiece, htoken⟩ := List.mem_filterMap.mp h
  obtain ⟨⟨before, token'⟩, hfirst, rfl⟩ := Option.map_eq_some_iff.mp htoken
  obtain ⟨after, -, -, hsplit, hfound⟩ := firstToken_eq_some hfirst
  refine ⟨hfound, fun c hc => ?_⟩
  exact forall_of_mem_wordsBy hpiece c (hsplit ▸ mem_append_right _ hc)

theorem replaceAll_redactIn (hpattern : pattern ∈ secretPatterns) {cs : List Char}
    {later : List (List Char)}
    (hlater : later.Pairwise fun token next => token <:+: next → token = next)
    (htokens : ∀ token ∈ later, token ∈ tokens pattern cs) {done : List (List Char)}
    (hall : ∀ token ∈ tokens pattern cs, token ∈ done ∨ token ∈ later) {result : String}
    (hresult : result.toList = mapPieces endsSecret (redactIn pattern done) cs) :
    ((later.map String.ofList).foldl (fun result text =>
        replaceText text ("[REDACTED:" ++ pattern.name ++ "]") result) result).toList =
      mapPieces endsSecret (redactIn pattern (later.reverse ++ done)) cs := by
  induction later generalizing done result with
  | nil => exact hresult
  | cons m later ih =>
    obtain ⟨hm, hlater⟩ := List.pairwise_cons.mp hlater
    obtain ⟨hfound, hunbroken⟩ := mem_tokens (htokens m mem_cons_self)
    have hne : m ≠ [] := by
      rintro rfl
      exact (plainPrefix hpattern).ne_nil (List.prefix_nil.mp hfound.starts)
    have hstep : (replaceText (String.ofList m) ("[REDACTED:" ++ pattern.name ++ "]")
        result).toList = mapPieces endsSecret (redactIn pattern (m :: done)) cs := by
      have hbreak : ∀ d xs ys, endsSecret d = true →
          substitute m (marker pattern) (xs ++ d :: ys) =
            substitute m (marker pattern) xs ++ d :: substitute m (marker pattern) ys := by
        intro d xs ys hd
        refine substitute_break hne (fun hmem => ?_) xs ys
        rw [hunbroken d hmem] at hd
        cases hd
      rw [replaceText_eq _ (by rwa [String.toList_ofList]), String.toList_ofList, toList_marker,
        hresult, map_mapPieces hbreak]
      refine mapPieces_congr ?_ fun piece hpiece => ?_
      · rw [redactIn_nil hpattern, redactIn_nil hpattern]
        rfl
      · refine substitute_redactIn hpattern hfound fun before token hfirst hdone hwithin => ?_
        have htoken : token ∈ tokens pattern cs := by
          refine List.mem_filterMap.mpr ⟨piece, hpiece, ?_⟩
          rw [hfirst]
          rfl
        rcases List.mem_cons.mp ((hall token htoken).resolve_left hdone) with rfl | hmem
        · rfl
        · exact hm token hmem hwithin
    have hrest : ∀ token ∈ tokens pattern cs, token ∈ m :: done ∨ token ∈ later := by
      intro token htoken
      rcases hall token htoken with hdone | hmem
      · exact .inl (mem_cons_of_mem m hdone)
      · rcases List.mem_cons.mp hmem with rfl | hmem
        · exact .inl mem_cons_self
        · exact .inr hmem
    have hrun := ih hlater (fun token hmem => htokens token (mem_cons_of_mem m hmem)) hrest
      hstep
    rwa [reverse_cons, append_assoc, singleton_append]

theorem redactPattern_pieces (hpattern : pattern ∈ secretPatterns) (state : String × List String)
    (h : (tokens pattern state.1.toList).Pairwise fun token next =>
      token <:+: next → token = next) :
    (redactPattern state pattern).1.toList =
      mapPieces endsSecret (redactPiece pattern) state.1.toList := by
  have hplain := plainPrefix hpattern
  have hstart : state.1.toList = mapPieces endsSecret (redactIn pattern []) state.1.toList := by
    refine mapPieces_id.symm.trans (mapPieces_congr (redactIn_nil hpattern []).symm ?_)
    intro piece _
    unfold redactIn
    cases firstToken pattern piece with
    | none => rfl
    | some parts => exact (if_neg not_mem_nil).symm
  have hrun := replaceAll_redactIn hpattern h (fun token hmem => hmem)
    (fun token hmem => .inr hmem) hstart
  unfold redactPattern
  dsimp only
  rw [findSecretMatches_pieces hplain, hrun, append_nil]
  refine mapPieces_congr ?_ fun piece hpiece => ?_
  · rw [redactIn_nil hpattern, redactPiece, firstToken_nil hplain]
  · unfold redactIn redactPiece
    cases hfirst : firstToken pattern piece with
    | none => rfl
    | some parts =>
      refine if_pos (List.mem_reverse.mpr (List.mem_filterMap.mpr ⟨piece, hpiece, ?_⟩))
      rw [hfirst]
      rfl

/-! ## All patterns -/

/-- When the turn of a pattern comes, none of its tokens lies within a later one. -/
def Separable : List SecretPattern → List Char → Prop
  | [], _ => True
  | pattern :: rest, cs =>
    (tokens pattern cs).Pairwise (fun token next => token <:+: next → token = next) ∧
      Separable rest (mapPieces endsSecret (redactPiece pattern) cs)

instance decidableSeparable : (patterns : List SecretPattern) → (cs : List Char) →
    Decidable (Separable patterns cs)
  | [], _ => isTrue trivial
  | pattern :: rest, cs =>
    let _ := decidableSeparable rest (mapPieces endsSecret (redactPiece pattern) cs)
    inferInstanceAs (Decidable (_ ∧ _))

/-- What the patterns leave of a piece, one after the other. -/
def redactAll (patterns : List SecretPattern) (piece : List Char) : List Char :=
  patterns.foldl (fun piece pattern => redactPiece pattern piece) piece

theorem unbroken_redactPiece (hpattern : pattern ∈ secretPatterns) {piece : List Char}
    (h : ∀ c ∈ piece, endsSecret c = false) :
    ∀ c ∈ redactPiece pattern piece, endsSecret c = false := by
  unfold redactPiece
  cases hfirst : firstToken pattern piece with
  | none => exact h
  | some parts =>
    obtain ⟨after, -, -, hpiece, -⟩ := firstToken_eq_some hfirst
    refine List.forall_mem_append.mpr ⟨fun c hc => ?_, unbroken_marker hpattern⟩
    exact h c (hpiece ▸ mem_append_left _ hc)

theorem unbroken_redactAll {patterns : List SecretPattern}
    (hpatterns : ∀ pattern ∈ patterns, pattern ∈ secretPatterns) {piece : List Char}
    (h : ∀ c ∈ piece, endsSecret c = false) :
    ∀ c ∈ redactAll patterns piece, endsSecret c = false := by
  induction patterns generalizing piece with
  | nil => exact h
  | cons pattern rest ih =>
    exact ih (fun other hmem => hpatterns other (mem_cons_of_mem _ hmem))
      (unbroken_redactPiece (hpatterns pattern mem_cons_self) h)

theorem redact_fold_pieces {patterns : List SecretPattern}
    (hpatterns : ∀ pattern ∈ patterns, pattern ∈ secretPatterns) {state : String × List String}
    (h : Separable patterns state.1.toList) :
    (patterns.foldl redactPattern state).1.toList =
      mapPieces endsSecret (redactAll patterns) state.1.toList := by
  induction patterns generalizing state with
  | nil => exact mapPieces_id.symm
  | cons pattern rest ih =>
    have hpattern := hpatterns pattern mem_cons_self
    have hturn := redactPattern_pieces hpattern state h.1
    rw [foldl_cons, ih (fun other hmem => hpatterns other (mem_cons_of_mem _ hmem))
      (by rw [hturn]; exact h.2), hturn,
      mapPieces_mapPieces fun piece hpiece => unbroken_redactPiece hpattern hpiece]
    rfl

end GenieClaw.Security
