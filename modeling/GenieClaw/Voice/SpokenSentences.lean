import GenieClaw.Voice.SentenceStreamer

/-!
# The sentences of a stream

What the streamer hands on does not depend on the way the reply is cut into tokens, and never goes
beyond the limit.

* `spoken_eq_run`: what is handed on does not depend on the tokens.
* `length_run_le`: it is no more than the limit.
-/

namespace GenieClaw.Voice

open Library Library.Text List

/-- The sentences handed on for the tokens, with what is left at the end of the stream. -/
def spoken (maxSentences : Nat) (tokens : List String) : List String :=
  let (sentences, s) := SentenceStreamer.feedAll { maxSentences } tokens
  sentences ++ s.finish.toList

theorem streamAndSpeak_eq (tokens : List String) :
    streamAndSpeak tokens = spoken maxSpokenSentences tokens := rfl

namespace SentenceStreamer

/-- The sentences out of the rest of the text. -/
def run (s : SentenceStreamer) (cs : List Char) : List String :=
  if s.full then [] else (s.feedChars cs).1 ++ (s.feedChars cs).2.finish.toList

/-! ## Steps -/

section

variable (s : SentenceStreamer)

theorem tryEmit_some {sentence : String} {t : SentenceStreamer}
    (h : s.tryEmit = (some sentence, t)) :
    t = { s with pendingSentence := [], emitted := s.emitted + 1 } := by
  unfold tryEmit at h
  dsimp only at h
  split at h
  · exact (Prod.ext_iff.mp h).2.symm
  · cases (Prod.ext_iff.mp h).1

theorem tryEmit_none {t : SentenceStreamer} (h : s.tryEmit = (none, t)) : t = s := by
  unfold tryEmit at h
  dsimp only at h
  split at h
  · cases (Prod.ext_iff.mp h).1
  · exact (Prod.ext_iff.mp h).2.symm

/-- How many sentences have been handed on is all that a step changes about the limit. -/
structure Counts (s t : SentenceStreamer) (out : Option String) : Prop where
  emitted : t.emitted = s.emitted + out.toList.length
  max : t.maxSentences = s.maxSentences

theorem tryEmit_counts : Counts s s.tryEmit.2 s.tryEmit.1 := by
  rcases h : s.tryEmit with ⟨_ | sentence, t⟩
  · rw [s.tryEmit_none h]
    exact ⟨rfl, rfl⟩
  · rw [s.tryEmit_some h]
    exact ⟨rfl, rfl⟩

theorem confirmBoundary_counts (ch : Char) :
    Counts s (s.confirmBoundary ch).2 (s.confirmBoundary ch).1 := by
  unfold confirmBoundary
  split
  · exact ⟨rfl, rfl⟩
  · have h := s.tryEmit_counts
    rcases hemit : s.tryEmit with ⟨_ | sentence, t⟩
    · rw [hemit] at h
      exact ⟨h.emitted, h.max⟩
    · rw [hemit] at h
      dsimp only
      split
      · exact ⟨h.emitted, h.max⟩
      · exact ⟨h.emitted, h.max⟩

theorem readChar_counts (ch : Char) : Counts s (s.readChar ch).2 (s.readChar ch).1 := by
  unfold readChar
  split
  · have h := confirmBoundary_counts { s with awaitingAsciiBoundary := false } ch
    exact ⟨h.emitted, h.max⟩
  · dsimp only
    split
    · have h := tryEmit_counts ({ s with awaitingAsciiBoundary := false }.push ch)
      exact ⟨h.emitted, h.max⟩
    · exact ⟨rfl, rfl⟩

theorem consumeFenceMarker_counts (ch : Char) : Counts s (s.consumeFenceMarker ch).2 none := by
  unfold consumeFenceMarker
  split
  · split
    · exact ⟨rfl, rfl⟩
    · exact ⟨rfl, rfl⟩
  · exact ⟨rfl, rfl⟩

theorem step_counts (ch : Char) : Counts s (s.step ch).2 (s.step ch).1 := by
  have hfence := s.consumeFenceMarker_counts ch
  unfold step
  rcases hconsume : s.consumeFenceMarker ch with ⟨absorbed, t⟩
  rw [hconsume] at hfence
  cases absorbed with
  | true => exact hfence
  | false =>
    dsimp only
    split
    · exact hfence
    · have hread := t.readChar_counts ch
      exact ⟨by rw [hread.emitted, hfence.emitted]; rfl, hread.max.trans hfence.max⟩

theorem full_iff : s.full = true ↔ s.maxSentences ≤ s.emitted := decide_eq_true_iff

theorem step_not_full {ch : Char} {t : SentenceStreamer} (h : ¬ s.full = true)
    (hstep : s.step ch = (none, t)) : ¬ t.full = true := by
  have hcounts := s.step_counts ch
  rw [hstep] at hcounts
  rw [full_iff] at h ⊢
  rw [hcounts.emitted, hcounts.max]
  exact h

end

/-! ## Tokens -/

section

variable {s t : SentenceStreamer} {ch : Char} {sentence : String}

theorem feedChars_none (h : s.step ch = (none, t)) (rest : List Char) :
    s.feedChars (ch :: rest) = t.feedChars rest := by
  rw [feedChars, h]

theorem feedChars_last (h : s.step ch = (some sentence, t)) (hfull : t.full = true)
    (rest : List Char) : s.feedChars (ch :: rest) = ([sentence], t) := by
  rw [feedChars, h]
  dsimp only
  rw [if_pos hfull]

theorem feedChars_some (h : s.step ch = (some sentence, t)) (hfull : ¬ t.full = true)
    (rest : List Char) : s.feedChars (ch :: rest) =
      (sentence :: (t.feedChars rest).1, (t.feedChars rest).2) := by
  rw [feedChars, h]
  dsimp only
  rw [if_neg hfull]

end

theorem feedChars_append {s : SentenceStreamer} (h : ¬ s.full = true) (xs ys : List Char) :
    s.feedChars (xs ++ ys) =
      if (s.feedChars xs).2.full then s.feedChars xs
      else ((s.feedChars xs).1 ++ ((s.feedChars xs).2.feedChars ys).1,
        ((s.feedChars xs).2.feedChars ys).2) := by
  induction xs generalizing s with
  | nil =>
    have hnil : s.feedChars [] = ([], s) := rfl
    rw [hnil, if_neg h]
    rfl
  | cons ch xs ih =>
    rw [cons_append]
    rcases hstep : s.step ch with ⟨_ | sentence, t⟩
    · rw [feedChars_none hstep, feedChars_none hstep]
      exact ih (s.step_not_full h hstep)
    · by_cases hfull : t.full = true
      · rw [feedChars_last hstep hfull, feedChars_last hstep hfull]
        exact (if_pos hfull).symm
      · rw [feedChars_some hstep hfull, feedChars_some hstep hfull, ih hfull]
        dsimp only
        split
        · rfl
        · rfl

theorem feedAll_eq (s : SentenceStreamer) (tokens : List String) :
    s.feedAll tokens = if s.full then ([], s) else s.feedChars (tokens.flatMap String.toList) := by
  induction tokens generalizing s with
  | nil =>
    split
    · rfl
    · rfl
  | cons token rest ih =>
    rw [feedAll, feed]
    by_cases hfull : s.full = true
    · rw [if_pos hfull, if_pos hfull]
      dsimp only
      rw [ih, if_pos hfull]
      rfl
    · rw [if_neg hfull, if_neg hfull, flatMap_cons, feedChars_append hfull]
      dsimp only
      rw [ih]
      split
      · rw [append_nil]
      · rfl

theorem finish_of_full {s : SentenceStreamer} (h : s.full = true) : s.finish = none := if_pos h

end SentenceStreamer

open SentenceStreamer

theorem spoken_eq_run (maxSentences : Nat) (tokens : List String) :
    spoken maxSentences tokens =
      ({ maxSentences } : SentenceStreamer).run (tokens.flatMap String.toList) := by
  unfold spoken run
  dsimp only
  rw [feedAll_eq]
  by_cases hfull : ({ maxSentences } : SentenceStreamer).full = true
  · rw [if_pos hfull, if_pos hfull]
    dsimp only
    rw [finish_of_full hfull]
    rfl
  · rw [if_neg hfull, if_neg hfull]

/-! ## The limit -/

theorem feedChars_count {s : SentenceStreamer} (h : ¬ s.full = true) (cs : List Char) :
    (s.feedChars cs).2.emitted = s.emitted + (s.feedChars cs).1.length ∧
      (s.feedChars cs).2.maxSentences = s.maxSentences ∧
      (s.feedChars cs).2.emitted ≤ s.maxSentences := by
  induction cs generalizing s with
  | nil =>
    rw [full_iff] at h
    exact ⟨rfl, rfl, Nat.le_of_not_le h⟩
  | cons ch cs ih =>
    have hcounts := s.step_counts ch
    rcases hstep : s.step ch with ⟨_ | sentence, t⟩
    · rw [hstep] at hcounts
      have hone : t.emitted = s.emitted := hcounts.emitted
      obtain ⟨hemitted, hmax, hle⟩ := ih (s.step_not_full h hstep)
      rw [feedChars_none hstep]
      rw [hone] at hemitted
      rw [hcounts.max] at hmax hle
      exact ⟨hemitted, hmax, hle⟩
    · rw [hstep] at hcounts
      have hone : t.emitted = s.emitted + 1 := hcounts.emitted
      by_cases hfull : t.full = true
      · rw [feedChars_last hstep hfull]
        rw [full_iff] at h
        exact ⟨hone, hcounts.max, by dsimp only; omega⟩
      · rw [feedChars_some hstep hfull]
        obtain ⟨hemitted, hmax, hle⟩ := ih hfull
        rw [hcounts.max] at hmax hle
        refine ⟨?_, hmax, hle⟩
        dsimp only
        rw [hemitted, hone, length_cons]
        omega

theorem length_run_le (s : SentenceStreamer) (cs : List Char) :
    (s.run cs).length ≤ s.maxSentences - s.emitted := by
  unfold run
  by_cases hfull : s.full = true
  · rw [if_pos hfull]
    exact Nat.zero_le _
  · rw [if_neg hfull, length_append]
    obtain ⟨hemitted, hmax, hle⟩ := feedChars_count hfull cs
    by_cases hend : (s.feedChars cs).2.full = true
    · rw [finish_of_full hend]
      simp only [Option.toList_none, length_nil]
      omega
    · rw [full_iff, hmax] at hend
      have hone : (s.feedChars cs).2.finish.toList.length ≤ 1 := by
        cases (s.feedChars cs).2.finish with
        | none => exact Nat.zero_le _
        | some sentence => exact Nat.le_refl _
      omega

end GenieClaw.Voice
