import GenieClaw.Voice.PlainReply
import GenieClaw.Voice.SpokenAlike

/-!
# The reply that is spoken on both paths

The cleaning for the synthesiser works sentence by sentence, and so the streamed sentences of a
plain text have the words of the whole reply where the two paths agree about the sentence ends.

* `speaks_alike` (a plain text on whose sentence ends both paths agree): they speak the same.
-/

namespace GenieClaw.Voice

open Library Library.Text SentenceStreamer Format List

/-! ## Cleaning on both sides of a blank -/

section

variable {old new front rest : List Char}

theorem starts_of_substitute (hold : old ≠ []) {a b c : Char} {cs : List Char}
    (hnew : new = c :: cs) (ha : a ≠ c) (hb : b ≠ c) {xs : List Char}
    (h : [a, b] <+: substitute old new xs) : [a, b] <+: xs := by
  have hstarts : ∀ {x : Char} {ys zs : List Char}, x ≠ c → x :: ys <+: substitute old new zs →
      ∃ ws, zs = x :: ws ∧ ys <+: substitute old new ws := by
    intro x ys zs hx hxs
    cases zs with
    | nil => exact absurd (List.prefix_nil.mp hxs) (cons_ne_nil x ys)
    | cons z zs =>
      by_cases hz : old <+: z :: zs
      · rw [substitute_cons_of_starts hold hz, hnew, cons_append,
          cons_prefix_cons] at hxs
        exact absurd hxs.1 hx
      · rw [substitute_cons_of_not hz, cons_prefix_cons] at hxs
        exact ⟨zs, by rw [hxs.1], hxs.2⟩
  obtain ⟨ws, rfl, hws⟩ := hstarts ha h
  obtain ⟨vs, rfl, -⟩ := hstarts hb hws
  exact ⟨vs, rfl⟩

theorem substitute_blank_of_dash {dash : Char} (hdash : dash ≠ ' ')
    (hfront : front.getLast? ≠ some dash) (hrest : ¬ [dash, ' '] <+: rest) :
    substitute [' ', dash, ' '] new (front ++ ' ' :: rest) =
      substitute [' ', dash, ' '] new front ++ ' ' :: substitute [' ', dash, ' '] new rest := by
  have hnot : ¬ [' ', dash, ' '] <+: ' ' :: rest := fun h =>
    hrest (List.cons_prefix_cons.mp h).2
  have hapart : Apart [' ', dash, ' '] front (' ' :: rest) := by
    intro k hk hp
    by_contra hshort
    have hlen : (front.drop k).length = 1 ∨ (front.drop k).length = 2 := by
      rw [length_drop] at hshort ⊢
      simp only [length_cons, length_nil] at hshort
      omega
    have hlast : (front.drop k).getLast? = front.getLast? := by
      rw [getLast?_drop, if_neg (Nat.not_le_of_lt hk)]
    rcases hlen with hone | htwo
    · obtain ⟨c, hc⟩ := List.length_eq_one_iff.mp hone
      rw [hc, singleton_append, cons_prefix_cons, cons_prefix_cons] at hp
      exact hdash hp.2.1
    · obtain ⟨c, d, hc⟩ := List.length_eq_two.mp htwo
      rw [hc, cons_append, singleton_append, cons_prefix_cons,
        cons_prefix_cons] at hp
      rw [hc, ← hp.2.1] at hlast
      exact hfront hlast.symm
  rw [substitute_append (cons_ne_nil _ _) hapart, substitute_cons_of_not hnot]

/-- The dashes that are taken for a comma between blanks. -/
def dashes : List Char := ['-', '—', '–']

/-- No dash stands beside the blank between the two texts. -/
structure Seam (front rest : List Char) : Prop where
  front : ∀ dash ∈ dashes, front.getLast? ≠ some dash
  rest : ∀ dash ∈ dashes, ¬ [dash, ' '] <+: rest

def comma : List Char := [',', ' ']

theorem Seam.paused (h : Seam front rest) (hold : old ≠ []) :
    Seam (substitute old comma front) (substitute old comma rest) := by
  have hcomma : ∀ dash ∈ dashes, dash ≠ ',' ∧ dash ≠ ' ' := forall_mem_of_all (by decide)
  have hblank : ' ' ≠ ',' := by decide
  refine ⟨fun dash hdash hlast => ?_, fun dash hdash hstarts => ?_⟩
  · rcases getLast?_substitute hold (cons_ne_nil _ _) hlast with hnew | hfront
    · exact (hcomma dash hdash).2 (Option.some.inj hnew).symm
    · exact h.front dash hdash hfront
  · have hnot := (hcomma dash hdash).1
    exact h.rest dash hdash (starts_of_substitute hold rfl hnot hblank hstarts)

theorem Seam.paused_dash (h : Seam front rest) {dash : Char} (hdash : dash ∈ dashes) :
    substitute [' ', dash, ' '] comma (front ++ ' ' :: rest) =
      substitute [' ', dash, ' '] comma front ++
        ' ' :: substitute [' ', dash, ' '] comma rest := by
  have hblank : ∀ dash ∈ dashes, dash ≠ ' ' := forall_mem_of_all (by decide)
  exact substitute_blank_of_dash (hblank dash hdash) (h.front dash hdash) (h.rest dash hdash)

/-- What is read of a character. -/
def spokenChar (ch : Char) : List Char :=
  if ch = '(' ∨ ch = ')' then [',', ' '] else if ch ∈ ['[', ']', '{', '}', '"'] then [] else [ch]

/-- The pauses that dots and dashes stand for. -/
def withPauses (cs : List Char) : List Char :=
  substitute [' ', '–', ' '] comma (substitute [' ', '—', ' '] comma
    (substitute [' ', '-', ' '] comma (substitute ['.', '.', '.'] comma cs)))

theorem toList_cleanForTts (cs : List Char) : (cleanForTts (String.ofList cs)).toList =
    substitute ['\'', 's'] ['s'] ((withPauses cs).flatMap spokenChar) := by
  have hdots : "...".toList = ['.', '.', '.'] := by decide
  have hhyphen : " - ".toList = [' ', '-', ' '] := by decide
  have hem : " — ".toList = [' ', '—', ' '] := by decide
  have hen : " – ".toList = [' ', '–', ' '] := by decide
  have hcomma : ", ".toList = comma := by decide
  have hgenitive : "'s".toList = ['\'', 's'] := by decide
  have hs : "s".toList = ['s'] := by decide
  unfold cleanForTts
  dsimp only
  rw [replaceText_eq "s" (by rw [hgenitive]; exact List.cons_ne_nil _ _),
    replaceText_eq ", " (by rw [hen]; exact List.cons_ne_nil _ _),
    replaceText_eq ", " (by rw [hem]; exact List.cons_ne_nil _ _),
    replaceText_eq ", " (by rw [hhyphen]; exact List.cons_ne_nil _ _),
    replaceText_eq ", " (by rw [hdots]; exact List.cons_ne_nil _ _),
    hdots, hhyphen, hem, hen, hcomma, hgenitive, hs, String.toList_ofList, String.toList_ofList]
  rfl

theorem Seam.withPauses (h : Seam front rest) :
    withPauses (front ++ ' ' :: rest) = withPauses front ++ ' ' :: withPauses rest := by
  have hdots := h.paused (List.cons_ne_nil '.' ['.', '.'])
  have hhyphen := hdots.paused (List.cons_ne_nil ' ' ['-', ' '])
  have hem := hhyphen.paused (List.cons_ne_nil ' ' ['—', ' '])
  unfold Voice.withPauses
  rw [substitute_break (List.cons_ne_nil _ _) (by decide),
    hdots.paused_dash (by decide), hhyphen.paused_dash (by decide),
    hem.paused_dash (by decide)]

theorem Seam.words_cleanForTts (h : Seam front rest) :
    words (cleanForTts (String.ofList (front ++ ' ' :: rest))).toList =
      words (cleanForTts (String.ofList front)).toList ++
        words (cleanForTts (String.ofList rest)).toList := by
  have hblank : spokenChar ' ' = [' '] := by decide
  rw [toList_cleanForTts, toList_cleanForTts, toList_cleanForTts, h.withPauses,
    List.flatMap_append, List.flatMap_cons, hblank, List.singleton_append,
    substitute_break (List.cons_ne_nil _ _) (by decide)]
  exact words_append_space (by decide) _ _

end

/-! ## Sentences beside each other -/

/-- A sentence ends with a terminator, and the next one does not begin with a dash. -/
def Beside (sentence next : List Char) : Prop :=
  (∃ c, sentence.getLast? = some c ∧ (isCjkBoundary c || isAsciiBoundary c) = true) ∧
    ∀ dash ∈ dashes, ¬ [dash, ' '] <+: next

theorem terminator_not_dash {c : Char} (h : (isCjkBoundary c || isAsciiBoundary c) = true) :
    ∀ dash ∈ dashes, c ≠ dash := by
  have hdashes : ∀ dash ∈ dashes, (isCjkBoundary dash || isAsciiBoundary dash) = false :=
    forall_mem_of_all (by decide)
  rintro dash hdash rfl
  exact Bool.false_ne_true ((hdashes c hdash).symm.trans h)

theorem Beside.seam {sentence next : List Char} (h : Beside sentence next) :
    Seam sentence next := by
  obtain ⟨⟨c, hlast, hc⟩, hnext⟩ := h
  refine ⟨fun dash hdash hsame => ?_, hnext⟩
  rw [hlast, Option.some.injEq] at hsame
  exact terminator_not_dash hc dash hdash hsame

theorem Beside.append {sentence next later more : List Char} (h : Beside sentence next)
    (hnext : Beside next later) : Beside sentence (next ++ ' ' :: more) := by
  refine ⟨h.1, fun dash hdash hstarts => ?_⟩
  obtain ⟨⟨c, hlast, hc⟩, -⟩ := hnext
  cases next with
  | nil => cases hlast
  | cons x xs =>
    cases xs with
    | nil =>
      rw [List.getLast?_singleton, Option.some.injEq] at hlast
      rw [List.singleton_append, List.cons_prefix_cons] at hstarts
      exact terminator_not_dash hc dash hdash (hlast ▸ hstarts.1.symm)
    | cons y ys =>
      refine h.2 dash hdash (List.prefix_of_prefix_length_le hstarts (List.prefix_append _ _) ?_)
      exact Nat.le_add_left 2 ys.length

theorem words_cleanForTts_join {sentences : List (List Char)} (h : sentences.IsChain Beside) :
    words (cleanForTts (String.ofList ([' '].intercalate sentences))).toList =
      sentences.flatMap fun sentence => words (cleanForTts (String.ofList sentence)).toList := by
  induction sentences with
  | nil => decide +kernel
  | cons first rest ih =>
    cases rest with
    | nil => rw [List.intercalate_singleton, List.flatMap_singleton]
    | cons second rest =>
      obtain ⟨hbeside, hrest⟩ := List.isChain_cons_cons.mp h
      have hseam : Seam first ([' '].intercalate (second :: rest)) := by
        cases rest with
        | nil =>
          rw [List.intercalate_singleton]
          exact hbeside.seam
        | cons third rest =>
          rw [List.intercalate_cons_cons, List.append_assoc, List.singleton_append]
          exact (hbeside.append (List.isChain_cons_cons.mp hrest).1).seam
      rw [List.intercalate_cons_cons, List.append_assoc, List.singleton_append,
        hseam.words_cleanForTts, ih hrest, List.flatMap_cons (x := first)]

/-! ## The sentences of the whole reply -/

/-- Sentences that no cleaning takes for something else and that can be taken apart. -/
structure Divided (first : Bool) (sentences : List (List Char)) : Prop where
  unmarked : ∀ sentence ∈ sentences,
    stripListOrHeaderPrefix (String.ofList sentence) = String.ofList sentence
  head : first = false → ∀ sentence ∈ sentences.head?, ∀ dash ∈ dashes,
    ¬ [dash, ' '] <+: sentence
  chain : sentences.IsChain Beside

section

variable {first : Bool} {room : Nat} {prev : Option Char} {clause rest : List Char} {ch : Char}
  {sentences : List (List Char)}

theorem divided_nil (first : Bool) : Divided first [] where
  unmarked _ h := absurd h List.not_mem_nil
  head _ _ h := absurd h (Option.not_mem_none _)
  chain := .nil

theorem Unmarked.sentence (h : Unmarked first clause) (hspaced : Spaced isWhitespace ' ' clause) :
    stripListOrHeaderPrefix (String.ofList (trimChars clause)) = String.ofList (trimChars clause) ∧
      (first = false → ∀ dash ∈ dashes, ¬ [dash, ' '] <+: trimChars clause) := by
  obtain ⟨hmark, hdash⟩ := h
  rw [tidy_eq_of_spaced hspaced] at hmark hdash
  refine ⟨hmark, fun hfirst => ?_⟩
  have hnot : ∀ dash : String, startsWith dash (String.ofList (trimChars clause)) = false →
      ¬ dash.toList <+: trimChars clause := by
    intro dash hfalse hstarts
    have htrue : startsWith dash (String.ofList (trimChars clause)) = true := by
      rw [startsWith, String.toList_ofList]
      exact List.isPrefixOf_iff_prefix.mpr hstarts
    exact Bool.false_ne_true (hfalse.symm.trans htrue)
  intro dash hmem
  simp only [dashes, List.mem_cons, List.not_mem_nil, or_false] at hmem
  rcases hmem with rfl | rfl | rfl
  · exact hnot "- " (hdash hfirst "- " (by decide))
  · exact hnot "— " (hdash hfirst "— " (by decide))
  · exact hnot "– " (hdash hfirst "– " (by decide))

theorem Unmarked.divided (h : Unmarked first clause) (hspaced : Spaced isWhitespace ' ' clause) :
    Divided first [trimChars clause] := by
  obtain ⟨hmark, hdash⟩ := h.sentence hspaced
  refine ⟨fun sentence hmem => ?_, fun hfirst sentence hmem => ?_, .singleton _⟩
  · rw [List.mem_singleton.mp hmem]
    exact hmark
  · rw [← Option.some.inj hmem]
    exact hdash hfirst

theorem getLast?_trimChars (h : isWhitespace ch = false) :
    (trimChars (clause ++ [ch])).getLast? = some ch := by
  have hone : [ch].dropWhile isWhitespace = [ch] := by
    rw [List.dropWhile_cons, h, if_neg Bool.false_ne_true]
  have hdrop : ∃ front, (clause ++ [ch]).dropWhile isWhitespace = front ++ [ch] := by
    rw [List.dropWhile_append, hone]
    split
    · exact ⟨[], rfl⟩
    · exact ⟨_, rfl⟩
  obtain ⟨front, hfront⟩ := hdrop
  rw [trimChars, hfront, List.rdropWhile_concat_neg _ _ _ (by rw [h]; exact Bool.false_ne_true),
    List.getLast?_concat]

theorem Divided.cons (hrest : Divided false sentences) (h : Unmarked first (clause ++ [ch]))
    (hspaced : Spaced isWhitespace ' ' (clause ++ [ch]))
    (hch : (isCjkBoundary ch || isAsciiBoundary ch) = true) :
    Divided first (trimChars (clause ++ [ch]) :: sentences) := by
  have hone := h.divided hspaced
  have hspace : isWhitespace ch = false := by
    rcases Bool.or_eq_true_iff.mp hch with hcjk | hascii
    · exact isWhitespace_of_cjk hcjk
    · exact isWhitespace_of_ascii hascii
  refine ⟨fun sentence hmem => ?_, hone.head, ?_⟩
  · rcases List.mem_cons.mp hmem with rfl | hmem
    · exact hone.unmarked _ List.mem_cons_self
    · exact hrest.unmarked sentence hmem
  · cases sentences with
    | nil => exact .singleton _
    | cons next later =>
      have hbeside : Beside (trimChars (clause ++ [ch])) next :=
        ⟨⟨ch, getLast?_trimChars hspace, hch⟩, hrest.head rfl next rfl⟩
      exact List.isChain_cons_cons.mpr ⟨hbeside, hrest.chain⟩

theorem Agrees.of_ends (h : Agrees first (room + 1) clause (ch :: rest))
    (hends : endsSentence prev ch rest.head? (clause ++ [ch]) = true) :
    Unmarked first (clause ++ [ch]) ∧ Agrees false room [] rest ∧
      (isCjkBoundary ch || isAsciiBoundary ch) = true := by
  unfold Agrees at h
  dsimp only at h
  rw [if_neg (Nat.succ_ne_zero room), Nat.add_sub_cancel] at h
  have hempty : Agrees false room [] [] := .inr (unmarked_nil false)
  by_cases hcjk : isCjkBoundary ch = true
  · rw [if_pos hcjk] at h
    obtain ⟨hunmarked, hnext⟩ := h
    refine ⟨hunmarked, ?_, by rw [hcjk]; rfl⟩
    rcases hnext with rfl | ⟨-, hnext⟩
    · exact hempty
    · exact hnext
  · have hcjk' := eq_false_of_ne_true hcjk
    have hascii : isAsciiBoundary ch = true := by
      by_contra hnot
      rw [endsSentence_other _ hcjk' (eq_false_of_ne_true hnot)] at hends
      cases hends
    have hboundary : (isCjkBoundary ch || isAsciiBoundary ch) = true := by
      rw [hascii, Bool.or_true]
    rw [if_neg hcjk] at h
    cases rest with
    | nil =>
      rw [if_neg fun hboth => Bool.false_ne_true hboth.2.1] at h
      exact ⟨h.resolve_left (Nat.succ_ne_zero room), hempty, hboundary⟩
    | cons d rest =>
      have hd : isWhitespace d = true := by
        by_contra hnot
        rw [List.head?_cons, endsSentence_text hcjk' (eq_false_of_ne_true hnot)] at hends
        cases hends
      rw [List.head?_cons, endsSentence_space hcjk' hascii hd, Bool.and_eq_true,
        decide_eq_true_eq, Bool.not_eq_true'] at hends
      obtain ⟨hwhole, habbr⟩ := hends
      rw [if_pos ⟨hascii, hd, habbr⟩] at h
      rcases h with ⟨-, -, hunmarked, hnext⟩ | ⟨-, hshort, -⟩
      · exact ⟨hunmarked, hnext, hboundary⟩
      · exact absurd hwhole hshort

theorem Agrees.of_not_ends (h : Agrees first (room + 1) clause (ch :: rest))
    (hends : endsSentence prev ch rest.head? (clause ++ [ch]) = false) :
    Agrees first (room + 1) (clause ++ [ch]) rest := by
  have hcjk : isCjkBoundary ch = false := by
    by_contra hnot
    unfold endsSentence at hends
    rw [if_pos (eq_true_of_ne_false hnot)] at hends
    cases hends
  unfold Agrees at h
  dsimp only at h
  rw [if_neg (Nat.succ_ne_zero room), hcjk, if_neg Bool.false_ne_true] at h
  by_cases hconfirmed : isAsciiBoundary ch = true ∧ rest.head?.any isWhitespace = true ∧
      endsWithAbbreviation (String.ofList (clause ++ [ch])) = false
  · rw [if_pos hconfirmed] at h
    obtain ⟨hascii, hspace, habbr⟩ := hconfirmed
    cases rest with
    | nil => cases hspace
    | cons d rest =>
      rw [List.head?_cons, endsSentence_space hcjk hascii hspace, habbr, Bool.not_false,
        Bool.and_true] at hends
      have hshort : ¬ Format.minSentenceChars ≤ (trimChars (clause ++ [ch])).length :=
        of_decide_eq_false hends
      rcases h with ⟨-, hwhole, -⟩ | ⟨-, -, hnext⟩
      · exact absurd hwhole hshort
      · exact hnext
  · rwa [if_neg hconfirmed] at h

theorem divided_sentencesFrom {cs : List Char} (hspaced : Spaced isWhitespace ' ' (clause ++ cs))
    (hagree : Agrees first room clause cs) : Divided first (sentencesFrom room prev clause cs) := by
  induction cs generalizing first room prev clause with
  | nil =>
    rw [List.append_nil] at hspaced
    cases room with
    | zero =>
      rw [sentencesFrom_zero]
      exact divided_nil first
    | succ room =>
      have hunmarked := hagree.resolve_left (Nat.succ_ne_zero room)
      rw [sentencesFrom_nil]
      split
      · exact divided_nil first
      · exact hunmarked.divided hspaced
  | cons ch rest ih =>
    cases room with
    | zero =>
      rw [sentencesFrom_zero]
      exact divided_nil first
    | succ room =>
      have hassoc : clause ++ ch :: rest = clause ++ [ch] ++ rest := by
        rw [List.append_assoc, List.singleton_append]
      rw [hassoc] at hspaced
      by_cases hends : endsSentence prev ch rest.head? (clause ++ [ch]) = true
      · obtain ⟨hunmarked, hnext, hch⟩ := hagree.of_ends hends
        have hrest : Spaced isWhitespace ' ' ([] ++ rest) :=
          hspaced.mono (List.suffix_append _ _).isInfix
        have hclause : Spaced isWhitespace ' ' (clause ++ [ch]) :=
          hspaced.mono (List.prefix_append _ _).isInfix
        rw [sentencesFrom_of_ends hends]
        exact (ih hrest hnext).cons hunmarked hclause hch
      · have hnot := eq_false_of_ne_true hends
        rw [sentencesFrom_of_not hnot]
        exact ih hspaced (hagree.of_not_ends hnot)

theorem exists_clause {cs sentence : List Char} (h : sentence ∈ sentencesFrom room prev clause cs) :
    ∃ part, part <:+: clause ++ cs ∧ sentence = trimChars part := by
  induction cs generalizing room prev clause with
  | nil =>
    cases room with
    | zero =>
      rw [sentencesFrom_zero] at h
      exact absurd h List.not_mem_nil
    | succ room =>
      rw [sentencesFrom_nil] at h
      split at h
      · exact absurd h List.not_mem_nil
      · exact ⟨clause, by rw [List.append_nil], List.mem_singleton.mp h⟩
  | cons ch rest ih =>
    cases room with
    | zero =>
      rw [sentencesFrom_zero] at h
      exact absurd h List.not_mem_nil
    | succ room =>
      have hassoc : clause ++ ch :: rest = clause ++ [ch] ++ rest := by
        rw [List.append_assoc, List.singleton_append]
      rw [hassoc]
      by_cases hends : endsSentence prev ch rest.head? (clause ++ [ch]) = true
      · rw [sentencesFrom_of_ends hends] at h
        rcases List.mem_cons.mp h with rfl | h
        · exact ⟨_, (List.prefix_append _ _).isInfix, rfl⟩
        · obtain ⟨part, hpart, hsentence⟩ := ih h
          exact ⟨part, hpart.trans (List.suffix_append _ _).isInfix, hsentence⟩
      · rw [sentencesFrom_of_not (eq_false_of_ne_true hends)] at h
        exact ih h

end

/-! ## No word is lost -/

/-- The sentences handed on are the cleaned parts of the text, one after the other. What is not
spoken is the end of the text, and only if there are as many sentences as allowed. -/
def Kept (s : SentenceStreamer) (cs : List Char) : Prop :=
  ∃ clauses rest, clauses.flatten ++ rest = s.pendingSentence ++ cs ∧ s.run cs = cleaned clauses ∧
    (s.emitted + clauses.length < s.maxSentences → rest = [])

section

variable {s : SentenceStreamer} {cs : List Char}

theorem kept_of_full (h : s.full = true) (cs : List Char) : Kept s cs := by
  refine ⟨[], s.pendingSentence ++ cs, rfl, run_of_full h cs, fun hlt => ?_⟩
  exact absurd (s.full_iff.mp h) (Nat.not_le_of_lt hlt)

theorem SentenceStreamer.Clear.kept_nil (h : s.Clear) (hfull : ¬ s.full = true) : Kept s [] := by
  refine ⟨[s.pendingSentence], [], ?_, ?_, fun _ => rfl⟩
  · rw [List.flatten_singleton]
  · rw [h.run_nil_eq hfull, cleaned_clause h.links]

theorem Kept.push {t : SentenceStreamer} {ch : Char} (h : Kept t cs)
    (hrun : s.run (ch :: cs) = t.run cs) (hpending : t.pendingSentence = s.pendingSentence ++ [ch])
    (hemitted : t.emitted = s.emitted) (hmax : t.maxSentences = s.maxSentences) :
    Kept s (ch :: cs) := by
  obtain ⟨clauses, rest, htext, hclauses, hrest⟩ := h
  rw [hpending, List.append_assoc, List.singleton_append] at htext
  rw [hemitted, hmax] at hrest
  exact ⟨clauses, rest, htext, hrun.trans hclauses, hrest⟩

theorem Kept.emit {t : SentenceStreamer} {clause later : List Char} {ch : Char} (h : Kept t later)
    (hlinks : '[' ∉ clause) (hne : cleanWords (words clause) ≠ "")
    (hrun : s.run (ch :: cs) = cleanWords (words clause) :: t.run later)
    (htext : clause ++ (t.pendingSentence ++ later) = s.pendingSentence ++ ch :: cs)
    (hemitted : t.emitted = s.emitted + 1) (hmax : t.maxSentences = s.maxSentences) :
    Kept s (ch :: cs) := by
  obtain ⟨clauses, rest, hrest, hclauses, hall⟩ := h
  refine ⟨clause :: clauses, rest, ?_, ?_, fun hlt => hall ?_⟩
  · rw [List.flatten_cons, List.append_assoc, hrest, htext]
  · rw [hrun, hclauses, cleaned_cons hlinks hne]
  · rw [List.length_cons] at hlt
    omega

theorem SentenceStreamer.Clear.kept (h : s.Clear) (hcs : ∀ c ∈ cs, Plain c) : Kept s cs := by
  induction cs generalizing s with
  | nil =>
    by_cases hfull : s.full = true
    · exact kept_of_full hfull []
    · exact h.kept_nil hfull
  | cons ch cs ih =>
    have hch : Plain ch := hcs ch List.mem_cons_self
    have hrest : ∀ t : SentenceStreamer, t.Clear → Kept t cs := fun t ht =>
      ih ht fun c hc => hcs c (List.mem_cons_of_mem ch hc)
    by_cases hfull : s.full = true
    · exact kept_of_full hfull (ch :: cs)
    · by_cases hspace : isWhitespace ch = true
      · by_cases hconfirms : s.Confirms
        · have hnext : Kept s.renewed (ch :: cs) := by
            by_cases hlast : s.renewed.full = true
            · exact kept_of_full hlast (ch :: cs)
            · have hnot : ¬ s.renewed.Confirms := fun hboth => Bool.false_ne_true hboth.1
              have hnext := run_none hlast (h.renewed.step_kept hspace hnot) cs
              exact (hrest _ (h.renewed.settled.push hch)).push hnext rfl rfl rfl
          have hrun := h.run_confirmed hfull hspace hconfirms cs
          exact hnext.emit h.links (ne_empty_of_long hconfirms.2.2) hrun rfl rfl rfl
        · have hstep := h.step_kept hspace hconfirms
          exact (hrest _ (h.settled.push hch)).push (run_none hfull hstep cs) rfl rfl rfl
      · have hspace' := eq_false_of_ne_true hspace
        by_cases hcjk : isCjkBoundary ch = true
        · have hpush := h.push hch
          have hrun := h.run_cjk hfull hch hcjk hspace' cs
          by_cases hlong : LongStreamed (s.pendingSentence ++ [ch])
          · have hne := ne_empty_of_long ((longStreamed_iff hpush.links).mp hlong)
            refine (hrest _ hpush.renewed).emit hpush.links hne (hrun.1 hlong) ?_ rfl rfl
            exact List.append_assoc _ _ _
          · exact (hrest _ hpush.settled).push (hrun.2 hlong) rfl rfl rfl
        · have hcjk' := eq_false_of_ne_true hcjk
          have hstep := h.step_other hch hcjk' fun htrue => absurd htrue hspace
          have hpush := h.push hch
          exact (hrest { s.push ch with awaitingAsciiBoundary := isAsciiBoundary ch }
            ⟨hpush.code, hpush.markers, hpush.links⟩).push (run_none hfull hstep cs) rfl rfl rfl

end

/-! ## Both paths -/

section

variable {text : String}

theorem PlainText.sentence {room : Nat} {sentence : List Char} (h : PlainText text)
    (hmem : sentence ∈ sentencesFrom room none [] (tidy text.toList)) :
    Bare sentence ∧ tidy sentence = sentence := by
  obtain ⟨part, hpart, rfl⟩ := exists_clause hmem
  have hspaced : Spaced isWhitespace ' ' part := spaced_tidy.mono hpart
  have htrimmed : trimChars part <:+: part :=
    (List.rdropWhile_prefix _ _).isInfix.trans (List.dropWhile_suffix _).isInfix
  refine ⟨(h.bare.of_words words_tidy).mono (htrimmed.trans hpart), ?_⟩
  have hwords : tidy (trimChars part) = tidy part := by
    unfold tidy
    rw [words_trimChars]
  rw [hwords]
  exact tidy_eq_of_spaced hspaced

theorem PlainText.words_forVoice (h : PlainText text)
    (hagree : Agrees true maxSpokenSentences [] (tidy text.toList)) :
    words (forVoice text).toList =
      (cleaned (sentencesFrom maxSpokenSentences none [] (tidy text.toList))).flatMap
        fun sentence => words sentence.toList := by
  have hdivided : Divided true (sentencesFrom maxSpokenSentences none [] (tidy text.toList)) :=
    divided_sentencesFrom spaced_tidy hagree
  have hclean : ∀ sentence ∈ sentencesFrom maxSpokenSentences none [] (tidy text.toList),
      words (cleanForTts (String.ofList sentence)).toList =
        words (cleanSentence (String.ofList sentence)).toList := by
    intro sentence hmem
    obtain ⟨hbare, htidy⟩ := h.sentence hmem
    exact (hbare.words_cleanSentence htidy (hdivided.unmarked sentence hmem)).symm
  have hempty : ∀ sentences : List String, (sentences.filter (· ≠ "")).flatMap
      (fun sentence => words sentence.toList) = sentences.flatMap fun s => words s.toList := by
    intro sentences
    induction sentences with
    | nil => rfl
    | cons sentence rest ih =>
      by_cases hblank : sentence = ""
      · rw [List.filter_cons_of_neg (by simp [hblank]), ih, List.flatMap_cons, hblank]
        rfl
      · rw [List.filter_cons_of_pos (by simp [hblank]), List.flatMap_cons, List.flatMap_cons, ih]
  unfold forVoice truncateForVoice cleaned
  rw [words_trim, h.plainReply_eq, String.toList_ofList, hempty, List.flatMap_map]
  exact (words_cleanForTts_join hdivided.chain).trans (List.flatMap_congr hclean)

/-- What the two paths of a reply are to have in common. -/
structure SpeaksAlike (text : String) : Prop where
  /-- The sentences do not depend on the tokens. -/
  chunks : ∀ maxSentences tokens, tokens.flatMap String.toList = text.toList →
    spoken maxSentences tokens = spoken maxSentences [text]
  capped : ∀ maxSentences, (spoken maxSentences [text]).length ≤ maxSentences
  /-- They are made of consecutive parts of the text, and of all of it before the cap. -/
  kept : ∀ maxSentences, ∃ clauses rest, clauses.flatten ++ rest = text.toList ∧
    spoken maxSentences [text] = cleaned clauses ∧ (clauses.length < maxSentences → rest = [])
  /-- The sentence boundaries are those of `truncate_for_voice`. -/
  boundaries : streamAndSpeak [text] =
    cleaned (sentencesFrom maxSpokenSentences none [] (plainReply text).toList)
  words : (streamAndSpeak [text]).flatMap (fun sentence => words sentence.toList) =
    words (forVoice text).toList

/-- Where the two paths agree about the sentence ends of a plain text, they speak the same. -/
theorem speaks_alike (h : PlainText text)
    (hagree : Agrees true maxSpokenSentences [] (tidy text.toList)) : SpeaksAlike text := by
  have hclear : ∀ maxSentences, ({ maxSentences } : SentenceStreamer).Clear := fun _ =>
    ⟨rfl, rfl, List.not_mem_nil⟩
  have hplain : ∀ c ∈ text.toList, Plain c := h.bare.plain
  have htidy : ∀ c ∈ tidy text.toList, Plain c := (h.bare.of_words words_tidy).plain
  have hrun : ∀ maxSentences, spoken maxSentences [text] =
      ({ maxSentences } : SentenceStreamer).run text.toList := by
    intro maxSentences
    rw [spoken_eq_run, List.flatMap_singleton]
  have hsentences : streamAndSpeak [text] =
      cleaned (sentencesFrom maxSpokenSentences none [] (tidy text.toList)) := by
    rw [streamAndSpeak_eq, hrun, run_tidy hplain]
    exact streams htidy true maxSpokenSentences none _ (hclear maxSpokenSentences)
      (Nat.zero_add _).symm (fun hawait => absurd hawait Bool.false_ne_true) hagree
  refine ⟨fun maxSentences tokens htokens => ?_, fun maxSentences => ?_, fun maxSentences => ?_,
    ?_, ?_⟩
  · rw [spoken_eq_run, htokens, hrun]
  · rw [hrun]
    exact length_run_le _ _
  · obtain ⟨clauses, rest, htext, hclauses, hall⟩ := (hclear maxSentences).kept hplain
    refine ⟨clauses, rest, htext, (hrun maxSentences).trans hclauses, fun hlt => hall ?_⟩
    rwa [Nat.zero_add]
  · rw [hsentences, h.plainReply_eq, String.toList_ofList]
  · rw [hsentences, h.words_forVoice hagree]

theorem speaks_alike_lamp : SpeaksAlike "The lamp is on. The fan is off." :=
  speaks_alike ⟨by decide +kernel, by decide +kernel⟩ (by decide +kernel)

/-- A short first sentence is spoken together with the second one when it is streamed, and so
there is room for one more. -/
theorem short_opener_makes_room : ¬ ∀ text, PlainText text → SpeaksAlike text := by
  intro h
  have hplain : PlainText "Sure. It is on. All is well. Bye." :=
    ⟨by decide +kernel, by decide +kernel⟩
  exact absurd (h _ hplain).words (by decide +kernel)

end

end GenieClaw.Voice
