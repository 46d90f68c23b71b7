import GenieClaw.Library.Pieces
import GenieClaw.Memory.Extract

/-!
# The value behind a trigger phrase

What `extract_pattern` captures behind one of its phrases: the words up to the first sentence mark,
and of these the ones before the first word that begins another clause.
-/

namespace GenieClaw.Memory

open Library Library.Text List

/-! ## The earliest marker -/

theorem foldl_least {α : Type} (f : α → Option Nat) (n : Nat) (as : List α) :
    as.foldl (fun n a => (f a).elim n (min n)) n ≤ n ∧
      (∀ a ∈ as, ∀ k, f a = some k → as.foldl (fun n a => (f a).elim n (min n)) n ≤ k) ∧
      (as.foldl (fun n a => (f a).elim n (min n)) n = n ∨
        ∃ a ∈ as, f a = some (as.foldl (fun n a => (f a).elim n (min n)) n)) := by
  induction as generalizing n with
  | nil => exact ⟨Nat.le_refl n, fun a ha => absurd ha not_mem_nil, .inl rfl⟩
  | cons a as ih =>
    obtain ⟨hle, hall, hsome⟩ := ih ((f a).elim n (min n))
    have hfirst : (f a).elim n (min n) ≤ n ∧ (∀ k, f a = some k → (f a).elim n (min n) ≤ k) ∧
        ((f a).elim n (min n) = n ∨ f a = some ((f a).elim n (min n))) := by
      cases hfa : f a with
      | none => exact ⟨Nat.le_refl n, fun k hk => absurd hk (by simp), .inl rfl⟩
      | some k =>
        refine ⟨Nat.min_le_left n k, fun k' hk => ?_, ?_⟩
        · cases hk
          exact Nat.min_le_right n k
        · rcases Nat.le_total n k with h | h
          · exact .inl (Nat.min_eq_left h)
          · exact .inr (congrArg some (Nat.min_eq_right h).symm)
    rw [foldl_cons]
    refine ⟨hle.trans hfirst.1, ?_, ?_⟩
    · intro b hb k hk
      rcases List.mem_cons.mp hb with rfl | hb
      · exact hle.trans (hfirst.2.1 k hk)
      · exact hall b hb k hk
    · rcases hsome with hsame | ⟨b, hb, hk⟩
      · rw [hsame]
        rcases hfirst.2.2 with h | h
        · exact .inl h
        · exact .inr ⟨a, mem_cons_self, h⟩
      · exact .inr ⟨b, mem_cons_of_mem a hb, hk⟩

/-- Where a marker stands first. -/
def firstOf (value marker : String) : Option Nat :=
  (splitOnce marker.toList value.toList).map fun parts => parts.1.length

theorem clauseEnd_eq (value : String) : clauseEnd value = valueBoundaryMarkers.foldl
    (fun clause marker => (firstOf value marker).elim clause (min clause)) value.toList.length := by
  unfold clauseEnd firstOf
  congr 1
  funext clause marker
  cases splitOnce marker.toList value.toList <;> rfl

theorem clauseEnd_spec (value : String) :
    clauseEnd value ≤ value.toList.length ∧
      (∀ marker ∈ valueBoundaryMarkers, ∀ i, marker.toList <+: value.toList.drop i →
        clauseEnd value ≤ i) ∧
      (clauseEnd value = value.toList.length ∨
        ∃ marker ∈ valueBoundaryMarkers,
          marker.toList <+: value.toList.drop (clauseEnd value)) := by
  have hmarkers : ∀ marker ∈ valueBoundaryMarkers, marker.toList ≠ [] :=
    forall_mem_of_all (by decide)
  obtain ⟨hle, hall, hsome⟩ := foldl_least (firstOf value) value.toList.length valueBoundaryMarkers
  rw [← clauseEnd_eq] at hle hall hsome
  refine ⟨hle, fun marker hmarker i hi => ?_, hsome.imp_right ?_⟩
  · cases hsplit : splitOnce marker.toList value.toList with
    | none =>
      exact absurd (hi.isInfix.trans (drop_suffix _ _).isInfix) (splitOnce_eq_none.mp hsplit)
    | some parts =>
      have hleast := hall marker hmarker parts.1.length (by rw [firstOf, hsplit]; rfl)
      exact hleast.trans (splitOnce_first (hmarkers marker hmarker) hsplit hi)
  · rintro ⟨marker, hmarker, hend⟩
    obtain ⟨⟨before, after⟩, hsplit, hlength⟩ := Option.map_eq_some_iff.mp hend
    refine ⟨marker, hmarker, ?_⟩
    have hclause : clauseEnd value = before.length := hlength.symm
    rw [hclause, (splitOnce_eq_some hsplit).1, append_assoc, drop_left]
    exact prefix_append _ _

/-! ## The captured value -/

/-- The value is the words that begin a sentence up to where another clause begins. -/
structure Clause (marks : List Char) (rest value : String) : Prop where
  ne_empty : value ≠ ""
  words : wordsBy isWhitespace value.toList <+: wordsBy isWhitespace (firstPiece marks rest).toList
  unmarked : ∀ c ∈ value.toList, c ∉ marks
  one : ∀ marker ∈ valueBoundaryMarkers, ¬ marker.toList <:+: value.toList
  stops : ∃ blanks back, trim (firstPiece marks rest) = value ++ String.ofList (blanks ++ back) ∧
    (∀ c ∈ blanks, isWhitespace c = true) ∧
      (back = [] ∨ ∃ marker ∈ valueBoundaryMarkers, marker.toList <+: back)

theorem trimChars_rdropWhile {cs front : List Char} (h : front <+: trimChars cs) :
    trimChars (front.rdropWhile isWhitespace) = front.rdropWhile isWhitespace := by
  have hhead : (front.rdropWhile isWhitespace).dropWhile isWhitespace =
      front.rdropWhile isWhitespace := by
    refine dropWhile_eq_self_of_head fun c hc => ?_
    have hprefix : front.rdropWhile isWhitespace <+: cs.dropWhile isWhitespace :=
      ((List.rdropWhile_prefix isWhitespace front).trans h).trans
        (List.rdropWhile_prefix isWhitespace _)
    obtain ⟨back, hback⟩ := hprefix
    have hstart := head?_dropWhile_not isWhitespace cs
    rw [← hback, head?_append, hc] at hstart
    simpa using hstart
  unfold trimChars
  rw [hhead, rdropWhile_idempotent]

theorem toList_capturedValue (marks : List Char) (rest : String) :
    (capturedValue marks rest).toList =
      ((trim (firstPiece marks rest)).toList.take
        (clauseEnd (trim (firstPiece marks rest)))).rdropWhile isWhitespace := by
  have hprefix : (trim (firstPiece marks rest)).toList.take
      (clauseEnd (trim (firstPiece marks rest))) <+: trimChars (firstPiece marks rest).toList := by
    rw [trim, String.toList_ofList]
    exact take_prefix _ _
  unfold capturedValue firstClause
  rw [trim, String.toList_ofList, String.toList_ofList, trimChars_rdropWhile hprefix]

theorem capturedValue_clause {marks : List Char} {rest value : String}
    (h : capturedValue marks rest = value) (hne : value ≠ "") : Clause marks rest value := by
  have hvalue := toList_capturedValue marks rest
  rw [h] at hvalue
  generalize hsentence : trim (firstPiece marks rest) = sentence at hvalue
  obtain ⟨hle, hleast, hend⟩ := clauseEnd_spec sentence
  -- The value, the blanks behind it, and what follows the clause.
  obtain ⟨blanks, hwhite, hparts⟩ : ∃ blanks, (∀ c ∈ blanks, isWhitespace c = true) ∧
      sentence.toList = value.toList ++ (blanks ++ sentence.toList.drop (clauseEnd sentence)) := by
    have hblanks := rdropWhile_append_rtakeWhile (p := isWhitespace)
      (l := sentence.toList.take (clauseEnd sentence))
    refine ⟨(sentence.toList.take (clauseEnd sentence)).rtakeWhile isWhitespace,
      fun c hc => mem_rtakeWhile_imp hc, ?_⟩
    rw [hvalue, ← append_assoc, hblanks, take_append_drop]
  have hmarkers : ∀ marker ∈ valueBoundaryMarkers, marker.toList.head? = some ' ' :=
    forall_mem_of_all (by decide)
  have hback : sentence.toList.drop (clauseEnd sentence) = [] ∨
      ∃ marker ∈ valueBoundaryMarkers,
        marker.toList <+: sentence.toList.drop (clauseEnd sentence) :=
    hend.imp_left fun hall => by rw [hall, drop_length]
  have hsame : wordsBy isWhitespace sentence.toList =
      wordsBy isWhitespace (firstPiece marks rest).toList := by
    rw [← hsentence, wordsBy_trim fun c hc => hc]
  refine ⟨hne, ?_, ?_, ?_, ⟨blanks, _, ?_, hwhite, hback⟩⟩
  · -- Behind the value stands a blank, or nothing.
    have hhead : ∀ c ∈ (blanks ++ sentence.toList.drop (clauseEnd sentence)).head?,
        isWhitespace c = true := by
      intro c hc
      cases blanks with
      | cons d blanks =>
        cases hc
        exact hwhite c mem_cons_self
      | nil =>
        rw [nil_append] at hc
        rcases hback with hnil | ⟨marker, hmarker, more, hmore⟩
        · rw [hnil] at hc
          cases hc
        · rw [← hmore, head?_append, hmarkers marker hmarker] at hc
          cases hc
          decide
    rw [← hsame, hparts, wordsBy_append_of_head hhead]
    exact prefix_append _ _
  · intro c hc
    have hpiece : c ∈ (firstPiece marks rest).toList := by
      have hmem : c ∈ sentence.toList := hparts ▸ mem_append_left _ hc
      rw [← hsentence, trim, String.toList_ofList] at hmem
      exact (dropWhile_sublist _).subset ((List.rdropWhile_prefix _ _).subset hmem)
    rw [firstPiece, String.toList_ofList] at hpiece
    have hkept := mem_takeWhile_imp hpiece
    exact of_decide_eq_true hkept
  · rintro marker hmarker ⟨front, back, hfront⟩
    have hlength := congrArg List.length hfront
    have hshort : value.toList.length ≤ clauseEnd sentence := by
      rw [hvalue]
      refine (List.rdropWhile_prefix _ _).length_le.trans ?_
      rw [length_take]
      omega
    have hpos : 0 < marker.toList.length := by
      refine length_pos_of_ne_nil fun hnil => ?_
      have hhead := hmarkers marker hmarker
      rw [hnil] at hhead
      cases hhead
    have hfound : marker.toList <+: sentence.toList.drop front.length := by
      rw [hparts, ← hfront, append_assoc, append_assoc, drop_left]
      exact prefix_append _ _
    have hearly := hleast marker hmarker front.length hfound
    rw [length_append, length_append] at hlength
    omega
  · refine String.toList_inj.mp ?_
    rw [hsentence, String.toList_append, String.toList_ofList]
    exact hparts

theorem extractPattern_eq_some {text value : String} {phrases : List String}
    (h : extractPattern text phrases = some value) :
    ∃ phrase ∈ phrases, ∃ front rest, splitOnce phrase.toList text.toList = some (front, rest) ∧
      Clause sentenceMarks (String.ofList rest) value := by
  obtain ⟨phrase, hphrase, hfound⟩ := exists_of_findSome?_eq_some h
  obtain ⟨rest, hrest, hvalue⟩ := Option.bind_eq_some_iff.mp hfound
  obtain ⟨⟨front, after⟩, hsplit, rfl⟩ := Option.map_eq_some_iff.mp hrest
  dsimp only at hvalue
  split at hvalue
  · rename_i hkept
    refine ⟨phrase, hphrase, front, after, hsplit, ?_⟩
    exact capturedValue_clause (Option.some.inj hvalue) (Option.some.inj hvalue ▸ hkept.1)
  · cases hvalue

end GenieClaw.Memory
