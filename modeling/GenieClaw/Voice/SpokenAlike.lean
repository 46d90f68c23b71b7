import GenieClaw.Voice.SentenceStreamer
import GenieClaw.Voice.SpokenWords

/-!
# The streamed reply and the whole one

The streamer and `for_voice` cut a reply at the same places if they agree about every sentence end.
The streamer counts eight characters of a clause as it is spoken, `truncate_for_voice` five of the
clause as it is written, and none where the terminator is a full-width one.

* `streams`: the streamer and `for_voice` cut at the same places where they agree about every
  sentence end.
-/

namespace GenieClaw.Voice

open Library Library.Text SentenceStreamer Format List Option Bool

/-! ## Sentence ends -/

/-- A clause that no cleaning takes for a list item or a header. Behind another sentence it must
not begin with a dash either, which only the whole reply takes for a comma. -/
def Unmarked (first : Bool) (clause : List Char) : Prop :=
  let text := String.ofList (tidy clause)
  stripListOrHeaderPrefix text = text ∧
    (first = false → ∀ dash ∈ ["- ", "— ", "– "], startsWith dash text = false)

/-- Long enough to be handed on by the streamer. -/
def LongStreamed (clause : List Char) : Prop :=
  Voice.minSentenceChars ≤ (cleanSentence (String.ofList clause)).toList.length

/-- Long enough to stand alone in the whole reply. -/
def LongWhole (clause : List Char) : Prop := Format.minSentenceChars ≤ (trimChars clause).length

/-- At every sentence end before the last of the `room` sentences, with more text behind it, the
clause that may end there is long enough on both paths or on none; and no sentence is marked. -/
def Agrees : Bool → Nat → List Char → List Char → Prop
  | first, room, clause, [] => room = 0 ∨ Unmarked first clause
  | first, room, clause, ch :: rest =>
    let clause := clause ++ [ch]
    if room = 0 then True
    else if isCjkBoundary ch then
      Unmarked first clause ∧ (rest = [] ∨ (LongStreamed clause ∧ Agrees false (room - 1) [] rest))
    else if isAsciiBoundary ch ∧ rest.head?.any isWhitespace ∧
        endsWithAbbreviation (String.ofList clause) = false then
      (LongStreamed clause ∧ LongWhole clause ∧ Unmarked first clause ∧
          Agrees false (room - 1) [] rest) ∨
        (¬ LongStreamed clause ∧ ¬ LongWhole clause ∧ Agrees first room clause rest)
    else Agrees first room clause rest

instance (first : Bool) (clause : List Char) : Decidable (Unmarked first clause) := by
  unfold Unmarked
  infer_instance

instance (clause : List Char) : Decidable (LongStreamed clause) := by
  unfold LongStreamed
  infer_instance

instance (clause : List Char) : Decidable (LongWhole clause) := by
  unfold LongWhole
  infer_instance

instance decidableAgrees : ∀ (first : Bool) (room : Nat) (clause cs : List Char),
    Decidable (Agrees first room clause cs)
  | first, room, clause, [] => inferInstanceAs (Decidable (room = 0 ∨ Unmarked first clause))
  | first, room, clause, ch :: rest =>
    have := decidableAgrees false (room - 1) [] rest
    have := decidableAgrees first room (clause ++ [ch]) rest
    decidable_of_iff
      (if room = 0 then True
        else if isCjkBoundary ch then Unmarked first (clause ++ [ch]) ∧
          (rest = [] ∨ (LongStreamed (clause ++ [ch]) ∧ Agrees false (room - 1) [] rest))
        else if isAsciiBoundary ch ∧ rest.head?.any isWhitespace ∧
            endsWithAbbreviation (String.ofList (clause ++ [ch])) = false then
          (LongStreamed (clause ++ [ch]) ∧ LongWhole (clause ++ [ch]) ∧
              Unmarked first (clause ++ [ch]) ∧ Agrees false (room - 1) [] rest) ∨
            (¬ LongStreamed (clause ++ [ch]) ∧ ¬ LongWhole (clause ++ [ch]) ∧
              Agrees first room (clause ++ [ch]) rest)
        else Agrees first room (clause ++ [ch]) rest) Iff.rfl

/-! ## The same sentences -/

/-- The sentences as they are spoken. -/
def cleaned (sentences : List (List Char)) : List String :=
  (sentences.map fun sentence => cleanSentence (String.ofList sentence)).filter (· ≠ "")

section

variable {s : SentenceStreamer} {ch : Char}

theorem cleaned_cons {clause : List Char} (h : '[' ∉ clause)
    (hne : cleanWords (words clause) ≠ "") (rest : List (List Char)) :
    cleaned (clause :: rest) = cleanWords (words clause) :: cleaned rest := by
  unfold cleaned
  rw [map_cons, cleanSentence_eq h, filter_cons_of_pos (by simpa using hne)]

theorem cleaned_cons_of_ne {sentence : List Char} (h : '[' ∉ sentence)
    (hne : cleanWords (words sentence) ≠ "") (rest : List (List Char)) :
    cleaned (trimChars sentence :: rest) = cleanWords (words sentence) :: cleaned rest := by
  rw [← words_trimChars] at hne
  rw [cleaned_cons (notMem_trimChars h) hne, words_trimChars]

theorem cleaned_clause {clause : List Char} (h : '[' ∉ clause) :
    cleaned [clause] = (finishWords (words clause)).toList := by
  unfold finishWords
  by_cases hempty : cleanWords (words clause) = ""
  · have hnone : (if words clause = [] then none else if cleanWords (words clause) = "" then none
        else some (cleanWords (words clause))) = none := by
      rw [if_pos hempty]
      exact ite_self none
    rw [hnone]
    unfold cleaned
    rw [map_singleton, cleanSentence_eq h, hempty]
    rfl
  · have hwords : words clause ≠ [] := by
      intro hnil
      rw [hnil] at hempty
      exact hempty cleanWords_nil
    rw [cleaned_cons h hempty, if_neg hwords, if_neg hempty]
    rfl

theorem cleaned_singleton {clause : List Char} (h : '[' ∉ clause) :
    cleaned (if trimChars clause = [] then [] else [trimChars clause]) =
      (finishWords (words clause)).toList := by
  by_cases hblank : trimChars clause = []
  · rw [if_pos hblank, trimChars_eq_nil_iff.mp hblank]
    rfl
  · rw [if_neg hblank, cleaned_clause (notMem_trimChars h), words_trimChars]

theorem SentenceStreamer.Clear.run_nil_eq (h : s.Clear) (hfull : ¬ s.full = true) :
    s.run [] = (finishWords (words s.pendingSentence)).toList := by
  rw [run_nil hfull, h.finish_eq, if_neg hfull]

theorem longStreamed_iff {clause : List Char} (h : '[' ∉ clause) :
    LongStreamed clause ↔ Voice.minSentenceChars ≤ (cleanWords (words clause)).toList.length := by
  unfold LongStreamed
  rw [cleanSentence_eq h]

theorem ne_empty_of_long {clause : List Char}
    (h : Voice.minSentenceChars ≤ (cleanWords (words clause)).toList.length) :
    cleanWords (words clause) ≠ "" := by
  intro hempty
  rw [hempty] at h
  exact absurd h (by decide)

theorem SentenceStreamer.Clear.step_other (h : s.Clear) (hch : Plain ch)
    (hcjk : isCjkBoundary ch = false)
    (hspace : isWhitespace ch = true → s.awaitingAsciiBoundary = false) :
    s.step ch = (none, { s.push ch with awaitingAsciiBoundary := isAsciiBoundary ch }) := by
  rw [h.step_eq hch]
  unfold SentenceStreamer.readChar
  rw [if_neg fun hboth => Bool.false_ne_true ((hspace hboth.2).symm.trans hboth.1)]
  dsimp only
  rw [hcjk, if_neg Bool.false_ne_true]
  rfl

theorem SentenceStreamer.Clear.step_cjk (h : s.Clear) (hch : Plain ch)
    (hcjk : isCjkBoundary ch = true) (hspace : isWhitespace ch = false) :
    s.step ch = ({ s.push ch with awaitingAsciiBoundary := false } : SentenceStreamer).tryEmit := by
  rw [h.step_eq hch]
  unfold SentenceStreamer.readChar
  rw [if_neg fun hboth => Bool.false_ne_true (hspace.symm.trans hboth.2)]
  dsimp only
  rw [if_pos hcjk]
  rfl

theorem SentenceStreamer.Clear.run_rejected (h : s.Clear) {d : Char}
    (hd : isWhitespace d = true) (hnot : ¬ s.Confirms) (rest : List Char) :
    s.run (d :: rest) = s.settled.run (d :: rest) := by
  by_cases hfull : s.full = true
  · have hfull' : s.settled.full = true := hfull
    rw [run_of_full hfull, run_of_full hfull']
  · have hfull' : ¬ s.settled.full = true := hfull
    have hnot' : ¬ s.settled.Confirms := fun hconfirms => Bool.false_ne_true hconfirms.1
    rw [run_none hfull (h.step_kept hd hnot), run_none hfull' (h.settled.step_kept hd hnot')]
    rfl

theorem SentenceStreamer.Clear.run_confirmed (h : s.Clear) (hfull : ¬ s.full = true) {d : Char}
    (hd : isWhitespace d = true) (hconfirms : s.Confirms) (rest : List Char) :
    s.run (d :: rest) = cleanWords (words s.pendingSentence) :: s.renewed.run (d :: rest) := by
  have hnot : ¬ s.renewed.Confirms := fun hboth => Bool.false_ne_true hboth.1
  rw [run_some hfull (h.step_confirmed hd hconfirms)]
  congr 1
  by_cases hlast : s.renewed.full = true
  · rw [if_pos hlast, run_of_full hlast, run_of_full hlast]
  · rw [if_neg hlast, run_none hlast (h.renewed.step_kept hd hnot)]
    rfl

theorem SentenceStreamer.Clear.run_space (h : s.Clear) (hfull : ¬ s.full = true)
    (hawait : s.awaitingAsciiBoundary = true) {clause : List Char}
    (hpending : s.pendingSentence = clause) {d : Char} (hd : isWhitespace d = true)
    (habbr : endsWithAbbreviation (String.ofList clause) = false) (rest : List Char) :
    (LongStreamed clause →
        s.run (d :: rest) = cleanWords (words clause) :: s.renewed.run (d :: rest)) ∧
      (¬ LongStreamed clause → s.run (d :: rest) = s.settled.run (d :: rest)) := by
  subst hpending
  have hiff := longStreamed_iff h.links
  refine ⟨fun hlong => ?_, fun hshort => ?_⟩
  · exact h.run_confirmed hfull hd ⟨hawait, habbr, hiff.mp hlong⟩ rest
  · exact h.run_rejected hd (fun hconfirms => hshort (hiff.mpr hconfirms.2.2)) rest

theorem SentenceStreamer.Clear.run_cjk (h : s.Clear) (hfull : ¬ s.full = true) (hch : Plain ch)
    (hcjk : isCjkBoundary ch = true) (hspace : isWhitespace ch = false) (rest : List Char) :
    (LongStreamed (s.pendingSentence ++ [ch]) → s.run (ch :: rest) =
        cleanWords (words (s.pendingSentence ++ [ch])) :: (s.push ch).renewed.run rest) ∧
      (¬ LongStreamed (s.pendingSentence ++ [ch]) →
        s.run (ch :: rest) = (s.push ch).settled.run rest) := by
  have hpush := h.push hch
  have hstep := (h.step_cjk hch hcjk hspace).trans hpush.settled.tryEmit_eq
  have hiff := longStreamed_iff hpush.links
  refine ⟨fun hlong => ?_, fun hshort => ?_⟩
  · exact run_some hfull (hstep.trans (if_pos (hiff.mp hlong))) rest
  · exact run_none hfull (hstep.trans (if_neg fun hlong => hshort (hiff.mpr hlong))) rest

theorem isWhitespace_of_cjk (h : isCjkBoundary ch = true) : isWhitespace ch = false := by
  by_contra hspace
  rw [(isWhitespace_facts (eq_true_of_ne_false hspace)).1] at h
  cases h

theorem isWhitespace_of_ascii (h : isAsciiBoundary ch = true) : isWhitespace ch = false := by
  by_contra hspace
  rw [(isWhitespace_facts (eq_true_of_ne_false hspace)).2.1] at h
  cases h

theorem unmarked_nil (first : Bool) : Unmarked first [] := by
  refine ⟨by decide, fun _ => ?_⟩
  decide

end

/-! ## Where the whole reply ends a sentence -/

section

variable {room : Nat} {prev : Option Char} {clause rest : List Char} {ch d : Char}

theorem sentencesFrom_of_ends (h : endsSentence prev ch rest.head? (clause ++ [ch]) = true) :
    sentencesFrom (room + 1) prev clause (ch :: rest) =
      trimChars (clause ++ [ch]) :: sentencesFrom room (some ch) [] rest := by
  rw [sentencesFrom, if_neg (Nat.succ_ne_zero room), if_pos h, Nat.add_sub_cancel]

theorem sentencesFrom_of_not (h : endsSentence prev ch rest.head? (clause ++ [ch]) = false) :
    sentencesFrom (room + 1) prev clause (ch :: rest) =
      sentencesFrom (room + 1) (some ch) (clause ++ [ch]) rest := by
  rw [sentencesFrom, if_neg (Nat.succ_ne_zero room), h, if_neg Bool.false_ne_true]

theorem sentencesFrom_zero (cs : List Char) : sentencesFrom 0 prev clause cs = [] := by
  cases cs with
  | nil => exact if_pos (.inl rfl)
  | cons ch rest => exact if_pos rfl

theorem sentencesFrom_nil : sentencesFrom (room + 1) prev clause [] =
    if trimChars clause = [] then [] else [trimChars clause] := by
  rw [sentencesFrom]
  by_cases hblank : trimChars clause = []
  · rw [if_pos hblank, if_pos (.inr hblank)]
  · rw [if_neg hblank, if_neg fun h => h.elim (Nat.succ_ne_zero room) hblank]

theorem isAsciiDigit_of_space (h : isWhitespace d = true) : isAsciiDigit d = false := by
  by_contra hdigit
  have hbounds : 48 ≤ d.toNat ∧ d.toNat ≤ 57 := by
    simpa [isAsciiDigit, Char.le_def, UInt32.le_iff_toNat_le] using hdigit
  unfold isWhitespace at h
  simp only [or_eq_true, and_eq_true, decide_eq_true_eq, beq_iff_eq] at h
  omega

theorem endsSentence_space (hcjk : isCjkBoundary ch = false) (hascii : isAsciiBoundary ch = true)
    (hd : isWhitespace d = true) : endsSentence prev ch (some d) clause =
      (decide (Format.minSentenceChars ≤ (trimChars clause).length) &&
        !endsWithAbbreviation (String.ofList clause)) := by
  unfold endsSentence
  rw [hcjk, if_neg Bool.false_ne_true, if_pos hascii]
  dsimp only [any_some, all_some]
  rw [isAsciiDigit_of_space hd, hd, Bool.and_false, Bool.not_false, Bool.true_and, Bool.true_and]

theorem endsSentence_text (hcjk : isCjkBoundary ch = false) (hd : isWhitespace d = false) :
    endsSentence prev ch (some d) clause = false := by
  unfold endsSentence
  rw [hcjk, if_neg Bool.false_ne_true]
  split
  · dsimp only [all_some]
    rw [hd, Bool.and_false, Bool.false_and, Bool.false_and]
  · rfl

theorem endsSentence_other (next : Option Char) (hcjk : isCjkBoundary ch = false)
    (hascii : isAsciiBoundary ch = false) : endsSentence prev ch next clause = false := by
  unfold endsSentence
  rw [hcjk, if_neg Bool.false_ne_true, hascii, if_neg Bool.false_ne_true]

theorem sentencesFrom_last (hne : trimChars (clause ++ [ch]) ≠ []) :
    sentencesFrom (room + 1) prev clause [ch] = [trimChars (clause ++ [ch])] := by
  by_cases hends : endsSentence prev ch [].head? (clause ++ [ch]) = true
  · rw [sentencesFrom_of_ends hends]
    cases room with
    | zero => rfl
    | succ room => rw [sentencesFrom_nil]; rfl
  · rw [sentencesFrom_of_not (eq_false_of_ne_true hends), sentencesFrom_nil, if_neg hne]

theorem trimChars_ne_nil (h : isWhitespace ch = false) : trimChars (clause ++ [ch]) ≠ [] := by
  rw [Ne, trimChars_eq_nil_iff, words_eq_nil_iff]
  intro hall
  rw [hall ch (mem_append_right _ mem_cons_self)] at h
  cases h

end

/-! ## The run -/

theorem full_of_room {s : SentenceStreamer} {room : Nat}
    (h : s.maxSentences = s.emitted + room) : s.full = true ↔ room = 0 := by
  rw [full_iff, h]
  omega

theorem renewed_room {s : SentenceStreamer} {room : Nat}
    (h : s.maxSentences = s.emitted + (room + 1)) :
    s.renewed.maxSentences = s.renewed.emitted + room := by
  show s.maxSentences = s.emitted + 1 + room
  omega

/-- On this rest of the text the streamed sentences are the cleaned sentences of the whole reply,
from every clause on. -/
def Streams (cs : List Char) : Prop :=
  ∀ (first : Bool) (room : Nat) (prev : Option Char) (s : SentenceStreamer), s.Clear →
    s.maxSentences = s.emitted + room →
    (s.awaitingAsciiBoundary = true → cs.head?.any isWhitespace = false) →
    Agrees first room s.pendingSentence cs →
    s.run cs = cleaned (sentencesFrom room prev s.pendingSentence cs)

theorem streams_nil : Streams [] := by
  intro first room prev s h hroom _ _
  cases room with
  | zero =>
    rw [run_of_full ((full_of_room hroom).mpr rfl), sentencesFrom_zero]
    rfl
  | succ room =>
    have hfull : ¬ s.full = true := fun hf => Nat.succ_ne_zero room ((full_of_room hroom).mp hf)
    rw [h.run_nil_eq hfull, sentencesFrom_nil, cleaned_singleton h.links]

section

variable {first : Bool} {room : Nat} {prev : Option Char} {s : SentenceStreamer} {ch : Char}
  {rest : List Char}

theorem streams_cjk (ih : Streams rest) (h : s.Clear)
    (hroom : s.maxSentences = s.emitted + (room + 1)) (hch : Plain ch)
    (hcjk : isCjkBoundary ch = true)
    (hagree : Agrees first (room + 1) s.pendingSentence (ch :: rest)) :
    s.run (ch :: rest) =
      cleaned (sentencesFrom (room + 1) prev s.pendingSentence (ch :: rest)) := by
  have hfull : ¬ s.full = true := fun hf => Nat.succ_ne_zero room ((full_of_room hroom).mp hf)
  have hspace := isWhitespace_of_cjk hcjk
  have hpush := h.push hch
  have hlinks : '[' ∉ s.pendingSentence ++ [ch] := hpush.links
  have hrun := h.run_cjk hfull hch hcjk hspace rest
  unfold Agrees at hagree
  dsimp only at hagree
  rw [if_neg (Nat.succ_ne_zero room), Nat.add_sub_cancel, if_pos hcjk] at hagree
  obtain ⟨-, hnext⟩ := hagree
  by_cases hlong : LongStreamed (s.pendingSentence ++ [ch])
  · have hnext' : Agrees false room [] rest := by
      rcases hnext with rfl | ⟨-, hnext⟩
      · exact .inr (unmarked_nil false)
      · exact hnext
    have hrenewed := ih false room (some ch) (s.push ch).renewed hpush.renewed
      (renewed_room hroom)
      (fun htrue => absurd htrue Bool.false_ne_true) hnext'
    rw [hrun.1 hlong, sentencesFrom_of_ends (by unfold endsSentence; exact if_pos hcjk),
      cleaned_cons_of_ne hlinks (ne_empty_of_long ((longStreamed_iff hlinks).mp hlong)), hrenewed]
    rfl
  · have hlast : rest = [] := hnext.resolve_right fun hboth => hlong hboth.1
    have hfull' : ¬ (s.push ch).settled.full = true := hfull
    have hend := @cleaned_singleton (s.pendingSentence ++ [ch]) hpush.links
    rw [if_neg (trimChars_ne_nil hspace)] at hend
    rw [hrun.2 hlong, hlast, hpush.settled.run_nil_eq hfull',
      sentencesFrom_last (trimChars_ne_nil hspace), hend]
    rfl

theorem Streams.settled (ih : Streams rest) (h : s.Clear)
    (hroom : s.maxSentences = s.emitted + (room + 1)) {clause : List Char}
    (hpending : s.pendingSentence = clause) (hagree : Agrees first (room + 1) clause rest) :
    s.settled.run rest = cleaned (sentencesFrom (room + 1) prev clause rest) := by
  subst hpending
  exact ih first (room + 1) prev s.settled h.settled hroom
    (fun htrue => absurd htrue Bool.false_ne_true) hagree

theorem Streams.renewed (ih : Streams rest) (h : s.Clear)
    (hroom : s.maxSentences = s.emitted + (room + 1)) (hagree : Agrees false room [] rest) :
    s.renewed.run rest = cleaned (sentencesFrom room prev [] rest) :=
  ih false room prev s.renewed h.renewed (renewed_room hroom)
    (fun htrue => absurd htrue Bool.false_ne_true) hagree

theorem streams_space {d : Char} (ih : Streams (d :: rest)) (h : s.Clear)
    (hroom : s.maxSentences = s.emitted + (room + 1)) (hawait : s.awaitingAsciiBoundary = true)
    {clause : List Char} (hpending : s.pendingSentence = clause ++ [ch])
    (hcjk : isCjkBoundary ch = false) (hascii : isAsciiBoundary ch = true)
    (hd : isWhitespace d = true)
    (habbr : endsWithAbbreviation (String.ofList (clause ++ [ch])) = false)
    (hagree : (LongStreamed (clause ++ [ch]) ∧ LongWhole (clause ++ [ch]) ∧
        Unmarked first (clause ++ [ch]) ∧ Agrees false room [] (d :: rest)) ∨
      (¬ LongStreamed (clause ++ [ch]) ∧ ¬ LongWhole (clause ++ [ch]) ∧
        Agrees first (room + 1) (clause ++ [ch]) (d :: rest))) :
    s.run (d :: rest) = cleaned (sentencesFrom (room + 1) prev clause (ch :: d :: rest)) := by
  have hfull : ¬ s.full = true := fun hf => Nat.succ_ne_zero room ((full_of_room hroom).mp hf)
  have hlinks : '[' ∉ clause ++ [ch] := hpending ▸ h.links
  have hrun := h.run_space hfull hawait hpending hd habbr rest
  have hends : endsSentence prev ch (d :: rest).head? (clause ++ [ch]) =
      decide (Format.minSentenceChars ≤ (trimChars (clause ++ [ch])).length) := by
    have hboth := @endsSentence_space prev (clause ++ [ch]) ch d hcjk hascii hd
    rw [habbr, Bool.not_false, Bool.and_true] at hboth
    exact hboth
  rcases hagree with ⟨hlong, hwhole, -, hnext⟩ | ⟨hshort, hwhole, hnext⟩
  · have hne := ne_empty_of_long ((longStreamed_iff hlinks).mp hlong)
    rw [sentencesFrom_of_ends (hends.trans (decide_eq_true hwhole)),
      cleaned_cons_of_ne hlinks hne, hrun.1 hlong, ih.renewed h hroom hnext]
  · rw [sentencesFrom_of_not (hends.trans (decide_eq_false hwhole)), hrun.2 hshort]
    exact ih.settled h hroom hpending hnext

theorem streams_awaited (ih : Streams rest) (h : s.Clear)
    (hroom : s.maxSentences = s.emitted + (room + 1)) (hawait : s.awaitingAsciiBoundary = true)
    {clause : List Char} (hpending : s.pendingSentence = clause ++ [ch])
    (hcjk : isCjkBoundary ch = false) (hascii : isAsciiBoundary ch = true)
    (hagree : Agrees first (room + 1) clause (ch :: rest)) :
    s.run rest = cleaned (sentencesFrom (room + 1) prev clause (ch :: rest)) := by
  have hfull : ¬ s.full = true := fun hf => Nat.succ_ne_zero room ((full_of_room hroom).mp hf)
  have hspace := isWhitespace_of_ascii hascii
  have hlinks : '[' ∉ clause ++ [ch] := hpending ▸ h.links
  unfold Agrees at hagree
  dsimp only at hagree
  rw [if_neg (Nat.succ_ne_zero room), Nat.add_sub_cancel, hcjk, if_neg Bool.false_ne_true]
    at hagree
  cases rest with
  | nil =>
    have hend := @cleaned_singleton (clause ++ [ch]) hlinks
    rw [if_neg (trimChars_ne_nil hspace)] at hend
    rw [h.run_nil_eq hfull, sentencesFrom_last (trimChars_ne_nil hspace), hend, hpending]
  | cons d rest =>
    by_cases hd : isWhitespace d = true
    · by_cases habbr : endsWithAbbreviation (String.ofList (clause ++ [ch])) = true
      · rw [if_neg fun hboth => Bool.false_ne_true (hboth.2.2.symm.trans habbr)] at hagree
        have hends : endsSentence prev ch (d :: rest).head? (clause ++ [ch]) = false := by
          have hboth := @endsSentence_space prev (clause ++ [ch]) ch d hcjk hascii hd
          rw [habbr, Bool.not_true, Bool.and_false] at hboth
          exact hboth
        have hnot : ¬ s.Confirms := by
          intro hconfirms
          have hfalse := hconfirms.2.1
          rw [hpending, habbr] at hfalse
          cases hfalse
        rw [sentencesFrom_of_not hends, h.run_rejected hd hnot]
        exact ih.settled h hroom hpending hagree
      · rw [if_pos ⟨hascii, hd, eq_false_of_ne_true habbr⟩] at hagree
        exact streams_space ih h hroom hawait hpending hcjk hascii hd
          (eq_false_of_ne_true habbr) hagree
    · have hd' := eq_false_of_ne_true hd
      have hends : endsSentence prev ch (d :: rest).head? (clause ++ [ch]) = false :=
        endsSentence_text hcjk hd'
      rw [if_neg fun hboth => hd hboth.2.1, ← hpending] at hagree
      rw [sentencesFrom_of_not hends, ← hpending]
      exact ih first (room + 1) (some ch) s h hroom (fun _ => hd') hagree

theorem streams {cs : List Char} (hcs : ∀ c ∈ cs, Plain c) : Streams cs := by
  induction cs with
  | nil => exact streams_nil
  | cons ch rest ih =>
    have hrest := ih fun c hc => hcs c (mem_cons_of_mem _ hc)
    have hch : Plain ch := hcs ch mem_cons_self
    intro first room prev s h hroom hawait hagree
    cases room with
    | zero =>
      rw [run_of_full ((full_of_room hroom).mpr rfl), sentencesFrom_zero]
      rfl
    | succ room =>
      have hfull : ¬ s.full = true := fun hf => Nat.succ_ne_zero room ((full_of_room hroom).mp hf)
      have hwait : isWhitespace ch = true → s.awaitingAsciiBoundary = false := by
        intro hspace
        by_contra hboth
        have hfalse := hawait (eq_true_of_ne_false hboth)
        rw [head?_cons, any_some, hspace] at hfalse
        cases hfalse
      by_cases hcjk : isCjkBoundary ch = true
      · exact streams_cjk hrest h hroom hch hcjk hagree
      · have hcjk' := eq_false_of_ne_true hcjk
        have hclear : ({ s.push ch with awaitingAsciiBoundary := isAsciiBoundary ch } :
            SentenceStreamer).Clear :=
          ⟨(h.push hch).code, (h.push hch).markers, (h.push hch).links⟩
        rw [run_none hfull (h.step_other hch hcjk' hwait)]
        by_cases hascii : isAsciiBoundary ch = true
        · rw [hascii] at hclear ⊢
          exact streams_awaited hrest hclear hroom rfl rfl hcjk' hascii hagree
        · have hascii' := eq_false_of_ne_true hascii
          unfold Agrees at hagree
          dsimp only at hagree
          rw [if_neg (Nat.succ_ne_zero room), if_neg hcjk, if_neg fun hboth => hascii hboth.1]
            at hagree
          rw [hascii'] at hclear ⊢
          rw [sentencesFrom_of_not (endsSentence_other _ hcjk' hascii')]
          exact hrest first (room + 1) (some ch) _ hclear hroom
            (fun htrue => absurd htrue Bool.false_ne_true) hagree

end

end GenieClaw.Voice
