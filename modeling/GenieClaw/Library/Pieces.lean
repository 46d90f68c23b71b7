import GenieClaw.Library.Substitute
import GenieClaw.Library.Words

/-!
# Rewriting the pieces between breaks

A list is cut at its breaks, and every piece between them is rewritten on its own. The breaks stay
where they are.
-/

namespace GenieClaw.Library

open List Option
section

variable {α : Type} {p : α → Bool} {f g : List α → List α}

/-- The walk along the list, with the piece so far. -/
def mapPiecesFrom (p : α → Bool) (f : List α → List α) : List α → List α → List α
  | piece, [] => f piece
  | piece, x :: xs =>
    if p x then f piece ++ x :: mapPiecesFrom p f [] xs else mapPiecesFrom p f (piece ++ [x]) xs

/-- Every piece rewritten, those that are empty too. -/
def mapPieces (p : α → Bool) (f : List α → List α) (xs : List α) : List α := mapPiecesFrom p f [] xs

theorem mapPiecesFrom_break {d : α} (hd : p d = true) (piece xs ys : List α) :
    mapPiecesFrom p f piece (xs ++ d :: ys) =
      mapPiecesFrom p f piece xs ++ d :: mapPieces p f ys := by
  induction xs generalizing piece with
  | nil =>
    show (if p d then _ else _) = _
    rw [if_pos hd]
    rfl
  | cons x xs ih =>
    rw [cons_append, mapPiecesFrom, mapPiecesFrom]
    split
    · rw [ih, append_assoc, cons_append]
    · exact ih (piece ++ [x])

variable {xs : List α}

theorem mapPiecesFrom_piece (piece : List α) (h : ∀ x ∈ xs, p x = false) :
    mapPiecesFrom p f piece xs = f (piece ++ xs) := by
  induction xs generalizing piece with
  | nil => rw [mapPiecesFrom, append_nil]
  | cons x xs ih =>
    have hx : ¬ p x = true := Bool.eq_false_iff.mp (h x mem_cons_self)
    rw [mapPiecesFrom, if_neg hx, ih _ fun y hy => h y (mem_cons_of_mem x hy),
      append_assoc, singleton_append]

theorem mapPieces_break {d : α} (hd : p d = true) (xs ys : List α) :
    mapPieces p f (xs ++ d :: ys) = mapPieces p f xs ++ d :: mapPieces p f ys :=
  mapPiecesFrom_break hd [] xs ys

theorem mapPieces_piece (h : ∀ x ∈ xs, p x = false) : mapPieces p f xs = f xs :=
  mapPiecesFrom_piece [] h

theorem pieces_induction (p : α → Bool) {P : List α → Prop}
    (piece : ∀ xs, (∀ x ∈ xs, p x = false) → P xs)
    (step : ∀ xs d ys, (∀ x ∈ xs, p x = false) → p d = true → P ys → P (xs ++ d :: ys))
    (xs : List α) : P xs := by
  induction hlen : xs.length using Nat.strong_induction_on generalizing xs with
  | _ len ih =>
    have hfront : ∀ x ∈ xs.takeWhile fun x => !p x, p x = false := fun x hx => by
      simpa using mem_takeWhile_imp hx
    have hsplit := takeWhile_append_dropWhile (p := fun x => !p x) (l := xs)
    cases hback : xs.dropWhile fun x => !p x with
    | nil =>
      rw [hback, append_nil] at hsplit
      rw [← hsplit]
      exact piece _ hfront
    | cons d ys =>
      have hd : p d = true := by
        have hhead := head?_dropWhile_not (fun x => !p x) xs
        rw [hback] at hhead
        simpa using hhead
      rw [hback] at hsplit
      have hlength := congrArg List.length hsplit
      rw [length_append, length_cons] at hlength
      rw [← hsplit]
      exact step _ d ys hfront hd (ih ys.length (by omega) ys rfl)

theorem map_mapPieces {F : List α → List α}
    (h : ∀ d xs ys, p d = true → F (xs ++ d :: ys) = F xs ++ d :: F ys) (xs : List α) :
    F (mapPieces p f xs) = mapPieces p (fun piece => F (f piece)) xs := by
  induction xs using pieces_induction p with
  | piece xs hpiece => rw [mapPieces_piece hpiece, mapPieces_piece hpiece]
  | step xs d ys hpiece hd ih =>
    rw [mapPieces_break hd, mapPieces_break hd, h _ _ _ hd, ih, mapPieces_piece hpiece,
      mapPieces_piece hpiece]

theorem wordsBy_piece (h : ∀ x ∈ xs, p x = false) :
    wordsBy p xs = if xs = [] then [] else [xs] := by
  split
  · rename_i hnil
    rw [hnil, wordsBy_nil]
  · rename_i hne
    exact wordsBy_of_forall hne h

theorem forall_of_mem_wordsBy {xs w : List α} (h : w ∈ wordsBy p xs) : ∀ x ∈ w, p x = false := by
  induction xs using pieces_induction p with
  | piece xs hpiece =>
    rw [wordsBy_piece hpiece] at h
    split at h
    · cases h
    · rwa [List.mem_singleton.mp h]
  | step xs d ys hpiece hd ih =>
    rw [wordsBy_append_break hd, wordsBy_piece hpiece] at h
    rcases List.mem_append.mp h with h | h
    · split at h
      · cases h
      · rwa [List.mem_singleton.mp h]
    · exact ih h

theorem mapPieces_congr (hnil : f [] = g []) (h : ∀ w ∈ wordsBy p xs, f w = g w) :
    mapPieces p f xs = mapPieces p g xs := by
  induction xs using pieces_induction p with
  | piece xs hpiece =>
    rw [mapPieces_piece hpiece, mapPieces_piece hpiece]
    by_cases hne : xs = []
    · rw [hne, hnil]
    · exact h xs (wordsBy_of_forall hne hpiece ▸ mem_singleton_self xs)
  | step xs d ys hpiece hd ih =>
    rw [wordsBy_append_break hd, forall_mem_append] at h
    rw [mapPieces_break hd, mapPieces_break hd, ih h.2, mapPieces_piece hpiece,
      mapPieces_piece hpiece]
    by_cases hne : xs = []
    · rw [hne, hnil]
    · rw [h.1 xs (wordsBy_of_forall hne hpiece ▸ mem_singleton_self xs)]

theorem mapPieces_mapPieces (hf : ∀ w, (∀ x ∈ w, p x = false) → ∀ x ∈ f w, p x = false)
    (xs : List α) :
    mapPieces p g (mapPieces p f xs) = mapPieces p (fun piece => g (f piece)) xs := by
  induction xs using pieces_induction p with
  | piece xs hpiece =>
    rw [mapPieces_piece hpiece, mapPieces_piece hpiece, mapPieces_piece (hf xs hpiece)]
  | step xs d ys hpiece hd ih =>
    rw [mapPieces_break hd, mapPieces_break hd, mapPieces_break hd, ih, mapPieces_piece hpiece,
      mapPieces_piece hpiece, mapPieces_piece (hf xs hpiece)]

theorem mapPieces_id : mapPieces p (fun piece => piece) xs = xs := by
  induction xs using pieces_induction p with
  | piece xs hpiece => exact mapPieces_piece hpiece
  | step xs d ys hpiece hd ih => rw [mapPieces_break hd, ih, mapPieces_piece hpiece]

theorem forall_wordsBy_mapPieces {P : List α → Prop} (hnil : f [] = [])
    (hf : ∀ w, (∀ x ∈ w, p x = false) → ∀ x ∈ f w, p x = false) (h : ∀ w ∈ wordsBy p xs, P (f w)) :
    ∀ w ∈ wordsBy p (mapPieces p f xs), P w := by
  have hone : ∀ w, (∀ x ∈ w, p x = false) → (∀ v ∈ wordsBy p w, P (f v)) →
      ∀ v ∈ wordsBy p (f w), P v := by
    intro w hw hP v hv
    rw [wordsBy_piece (hf w hw)] at hv
    split at hv
    · cases hv
    · rename_i hne
      rw [List.mem_singleton.mp hv]
      refine hP w ?_
      rw [wordsBy_of_forall (fun hnone => hne (by rw [hnone, hnil])) hw]
      exact mem_singleton_self w
  induction xs using pieces_induction p with
  | piece xs hpiece =>
    rw [mapPieces_piece hpiece]
    exact hone xs hpiece h
  | step xs d ys hpiece hd ih =>
    rw [wordsBy_append_break hd, forall_mem_append] at h
    rw [mapPieces_break hd, wordsBy_append_break hd, forall_mem_append,
      mapPieces_piece hpiece]
    exact ⟨hone xs hpiece h.1, ih h.2⟩

end

namespace Text

variable {d : Char} {sep : List Char}

theorem prefix_break (hd : d ∉ sep) {xs ys : List Char} : sep <+: xs ++ d :: ys ↔ sep <+: xs := by
  constructor
  · intro h
    rcases Nat.lt_or_ge xs.length sep.length with hlong | hshort
    · have hwithin : xs ++ [d] <+: sep := by
        refine prefix_of_prefix_length_le ⟨ys, by simp⟩ h ?_
        rw [length_append, length_singleton]
        omega
      exact absurd (hwithin.subset (mem_append_right _ mem_cons_self)) hd
    · exact prefix_of_prefix_length_le h (prefix_append xs _) hshort
  · intro h
    exact h.trans (prefix_append xs _)

theorem splitOnce_break (hne : sep ≠ []) (hd : d ∉ sep) (xs ys : List Char) :
    splitOnce sep (xs ++ d :: ys) =
      ((splitOnce sep xs).map fun parts => (parts.1, parts.2 ++ d :: ys)).or
        ((splitOnce sep ys).map fun parts => (xs ++ d :: parts.1, parts.2)) := by
  induction xs with
  | nil =>
    rw [nil_append, splitOnce, splitOnce, if_neg hne,
      if_neg fun h => not_prefix_cons hne hd ys (List.isPrefixOf_iff_prefix.mp h)]
    rfl
  | cons x xs ih =>
    have hlonger : sep <+: x :: (xs ++ d :: ys) ↔ sep <+: x :: xs :=
      @prefix_break d sep hd (x :: xs) ys
    rw [cons_append, splitOnce, splitOnce]
    by_cases hstarts : sep <+: x :: xs
    · rw [if_pos (List.isPrefixOf_iff_prefix.mpr (hlonger.mpr hstarts)),
        if_pos (List.isPrefixOf_iff_prefix.mpr hstarts), map_some, some_or,
        ← cons_append, drop_append_of_le_length hstarts.length_le]
    · rw [if_neg fun h => hstarts (hlonger.mp (List.isPrefixOf_iff_prefix.mp h)),
        if_neg fun h => hstarts (List.isPrefixOf_iff_prefix.mp h), ih]
      cases splitOnce sep xs with
      | some parts => rfl
      | none => cases splitOnce sep ys <;> rfl

theorem splitOnce_first {cs before after : List Char} (hne : sep ≠ [])
    (h : splitOnce sep cs = some (before, after)) {i : Nat} (hi : sep <+: cs.drop i) :
    before.length ≤ i := by
  obtain ⟨hcs, hfirst⟩ := splitOnce_eq_some h
  by_contra hlt
  obtain ⟨rest, hrest⟩ := hi
  have hpos : 0 < sep.length := length_pos_of_ne_nil hne
  have hlength := congrArg List.length hrest
  rw [length_append, length_drop, hcs, length_append, length_append] at hlength
  have hshort : cs.take i ++ sep <+: before ++ sep.dropLast := by
    have hwhole : cs.take i ++ sep <+: cs := by
      refine ⟨rest, ?_⟩
      rw [append_assoc, hrest, take_append_drop]
    have hstart : before ++ sep.dropLast <+: cs := by
      rw [hcs, append_assoc]
      exact (prefix_append_right_inj before).mpr
        ((List.dropLast_prefix sep).trans (prefix_append sep after))
    refine prefix_of_prefix_length_le hwhole hstart ?_
    rw [length_append, length_append, length_take, length_dropLast]
    omega
  exact hfirst hne ((suffix_append _ sep).isInfix.trans hshort.isInfix)

theorem infix_break (hne : sep ≠ []) (hd : d ∉ sep) {xs ys : List Char} :
    sep <:+: xs ++ d :: ys ↔ sep <:+: xs ∨ sep <:+: ys := by
  have hsplit := congrArg Option.isNone (splitOnce_break hne hd xs ys)
  rw [isNone_or, isNone_map, isNone_map] at hsplit
  have hnone : ∀ cs, (splitOnce sep cs).isNone = true ↔ ¬ sep <:+: cs := fun cs =>
    Option.isNone_iff_eq_none.trans splitOnce_eq_none
  rw [← not_iff_not, ← hnone, hsplit, Bool.and_eq_true, hnone, hnone, not_or]

end Text

end GenieClaw.Library
