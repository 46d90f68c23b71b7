import GenieClaw.Library.Text

/-!
# Replacing a text

`replaceText` as a walk along the text: where the old text stands the new one is written, and
otherwise a character is kept. The walk cuts in two at every place that no occurrence crosses.
-/

namespace GenieClaw.Library.Text

open List
/-- With `n` at least the length of the text. -/
def substituteFrom (old new : List Char) : Nat → List Char → List Char
  | 0, cs => cs
  | _ + 1, [] => []
  | n + 1, c :: cs =>
    if old.isPrefixOf (c :: cs) then new ++ substituteFrom old new n ((c :: cs).drop old.length)
    else c :: substituteFrom old new n cs

def substitute (old new cs : List Char) : List Char := substituteFrom old new cs.length cs

variable {old new : List Char}

theorem substituteFrom_enough (hold : old ≠ []) {n m : Nat} {cs : List Char} (hn : cs.length ≤ n)
    (hm : cs.length ≤ m) : substituteFrom old new n cs = substituteFrom old new m cs := by
  induction n generalizing m cs with
  | zero =>
    have hnil : cs = [] := List.length_eq_zero_iff.mp (Nat.le_zero.mp hn)
    rw [hnil]
    cases m <;> rfl
  | succ n ih =>
    cases cs with
    | nil => cases m <;> rfl
    | cons c cs =>
      cases m with
      | zero => exact absurd hm (Nat.not_succ_le_zero _)
      | succ m =>
        rw [length_cons] at hn hm
        have hpos : 0 < old.length := length_pos_of_ne_nil hold
        rw [substituteFrom, substituteFrom]
        have hdrop : ((c :: cs).drop old.length).length ≤ cs.length := by
          rw [length_drop, length_cons]
          omega
        rw [@ih m ((c :: cs).drop old.length) (by omega) (by omega),
          @ih m cs (by omega) (by omega)]

theorem substitute_cons_of_starts (hold : old ≠ []) {c : Char} {cs : List Char}
    (h : old <+: c :: cs) :
    substitute old new (c :: cs) = new ++ substitute old new ((c :: cs).drop old.length) := by
  have hpos : 0 < old.length := length_pos_of_ne_nil hold
  rw [substitute, length_cons, substituteFrom, if_pos (List.isPrefixOf_iff_prefix.mpr h)]
  congr 1
  refine substituteFrom_enough hold ?_ (Nat.le_refl _)
  rw [length_drop, length_cons]
  omega

theorem substitute_cons_of_not {c : Char} {cs : List Char} (h : ¬ old <+: c :: cs) :
    substitute old new (c :: cs) = c :: substitute old new cs := by
  rw [substitute, length_cons, substituteFrom,
    if_neg fun hp => h (List.isPrefixOf_iff_prefix.mp hp)]
  rfl

theorem replaceFirst_eq (hold : old ≠ []) {n : Nat} {cs : List Char} (hn : cs.length ≤ n) :
    replaceFirst old new n cs = substitute old new cs := by
  induction hlen : cs.length using Nat.strong_induction_on generalizing n cs with
  | _ len ih =>
    cases cs with
    | nil =>
      cases n with
      | zero => rfl
      | succ n =>
        rw [replaceFirst, splitOnce, if_neg hold]
        rfl
    | cons c cs =>
      rw [length_cons] at hn hlen
      obtain ⟨n, rfl⟩ := Nat.exists_eq_succ_of_ne_zero (Nat.ne_of_gt (Nat.zero_lt_of_lt hn))
      have hpos : 0 < old.length := length_pos_of_ne_nil hold
      by_cases hstarts : old <+: c :: cs
      · have hdrop : ((c :: cs).drop old.length).length < len := by
          rw [length_drop, length_cons]
          omega
        rw [substitute_cons_of_starts hold hstarts, replaceFirst, splitOnce,
          if_pos (List.isPrefixOf_iff_prefix.mpr hstarts)]
        dsimp only
        rw [nil_append, ih _ hdrop (by omega) rfl]
      · have hrest := @ih cs.length (by omega) n cs (by omega) rfl
        rw [substitute_cons_of_not hstarts, ← hrest, replaceFirst, splitOnce,
          if_neg fun hp => hstarts (List.isPrefixOf_iff_prefix.mp hp)]
        cases hsplit : splitOnce old cs with
        | none =>
          cases n with
          | zero =>
            rw [List.length_eq_zero_iff.mp (Nat.le_zero.mp (Nat.le_of_succ_le_succ hn))]
            rfl
          | succ n =>
            rw [replaceFirst, hsplit]
            rfl
        | some parts =>
          obtain ⟨before, after⟩ := parts
          obtain ⟨hcs, -⟩ := splitOnce_eq_some hsplit
          have hlength := congrArg List.length hcs
          rw [length_append, length_append] at hlength
          cases n with
          | zero => omega
          | succ n =>
            have hlater := @ih after.length (by omega) (n + 1) after (by omega) rfl
            have hlater' := @ih after.length (by omega) n after (by omega) rfl
            rw [replaceFirst, hsplit]
            dsimp only [Option.map_some]
            rw [hlater, hlater', cons_append, cons_append]

theorem replaceText_eq {old : String} (new : String) (hold : old.toList ≠ []) (s : String) :
    (replaceText old new s).toList = substitute old.toList new.toList s.toList := by
  rw [replaceText, String.toList_ofList, replaceFirst_eq hold (Nat.le_refl _)]

/-- No occurrence of the old text begins in front of the cut and ends behind it. -/
def Apart (old front back : List Char) : Prop :=
  ∀ k < front.length, old <+: front.drop k ++ back → old.length ≤ (front.drop k).length

theorem substitute_append (hold : old ≠ []) {front back : List Char} (h : Apart old front back) :
    substitute old new (front ++ back) = substitute old new front ++ substitute old new back := by
  induction hlen : front.length using Nat.strong_induction_on generalizing front with
  | _ len ih =>
    cases front with
    | nil => rfl
    | cons c front =>
      rw [length_cons] at hlen
      have hpos : 0 < old.length := length_pos_of_ne_nil hold
      rw [cons_append]
      by_cases hstarts : old <+: c :: (front ++ back)
      · have hshort : old.length ≤ (c :: front).length := h 0 (Nat.zero_lt_succ _) hstarts
        have hfront : old <+: c :: front :=
          prefix_of_prefix_length_le hstarts ⟨back, rfl⟩ hshort
        have hdrop : (c :: (front ++ back)).drop old.length =
            (c :: front).drop old.length ++ back := by
          rw [← cons_append, drop_append_of_le_length hshort]
        have hlater : Apart old ((c :: front).drop old.length) back := by
          intro k hk hp
          rw [drop_drop] at hp ⊢
          refine h _ ?_ hp
          rw [length_drop] at hk
          omega
        rw [substitute_cons_of_starts hold hstarts, substitute_cons_of_starts hold hfront, hdrop,
          ih _ ?_ hlater rfl, append_assoc]
        rw [length_drop, length_cons]
        omega
      · have hfront : ¬ old <+: c :: front := fun hp =>
          hstarts (hp.trans ⟨back, rfl⟩)
        have hlater : Apart old front back := fun k hk hp => h (k + 1) (Nat.succ_lt_succ hk) hp
        rw [substitute_cons_of_not hstarts, substitute_cons_of_not hfront,
          ih front.length (by omega) hlater rfl, cons_append]

theorem substitute_eq_self {cs : List Char} (h : ¬ old <:+: cs) : substitute old new cs = cs := by
  induction cs with
  | nil => rfl
  | cons c cs ih =>
    rw [substitute_cons_of_not fun hp => h hp.isInfix,
      ih fun hi => h (hi.trans (suffix_cons c cs).isInfix)]

theorem substitute_eq_nil (hold : old ≠ []) (hnew : new ≠ []) {cs : List Char}
    (h : substitute old new cs = []) : cs = [] := by
  cases cs with
  | nil => rfl
  | cons c cs =>
    by_cases hstarts : old <+: c :: cs
    · rw [substitute_cons_of_starts hold hstarts] at h
      exact absurd (List.append_eq_nil_iff.mp h).1 hnew
    · rw [substitute_cons_of_not hstarts] at h
      cases h

theorem getLast?_substitute (hold : old ≠ []) (hnew : new ≠ []) {cs : List Char} {x : Char}
    (h : (substitute old new cs).getLast? = some x) :
    new.getLast? = some x ∨ cs.getLast? = some x := by
  induction hlen : cs.length using Nat.strong_induction_on generalizing cs with
  | _ len ih =>
    cases cs with
    | nil => cases h
    | cons c cs =>
      rw [length_cons] at hlen
      by_cases hstarts : old <+: c :: cs
      · have hpos : 0 < old.length := length_pos_of_ne_nil hold
        rw [substitute_cons_of_starts hold hstarts] at h
        by_cases hnil : substitute old new ((c :: cs).drop old.length) = []
        · rw [hnil, append_nil] at h
          exact .inl h
        · rw [getLast?_append_of_ne_nil _ hnil] at h
          refine (ih _ ?_ h rfl).imp_right fun hlast => ?_
          · rw [length_drop, length_cons]
            omega
          · rw [getLast?_drop] at hlast
            split at hlast
            · cases hlast
            · exact hlast
      · rw [substitute_cons_of_not hstarts] at h
        by_cases hnil : substitute old new cs = []
        · rw [hnil] at h
          rw [substitute_eq_nil hold hnew hnil]
          exact .inr h
        · rw [getLast?_cons_of_ne_nil hnil] at h
          refine (ih _ (by omega) h rfl).imp_right fun hlast => ?_
          rwa [getLast?_cons_of_ne_nil]
          rintro rfl
          cases hlast

theorem apart_of_notMem {front back : List Char} {c : Char} (hc : c ∉ old)
    (hback : back = [] ∨ back.head? = some c) : Apart old front back := by
  intro k hk hp
  rcases hback with rfl | hhead
  · rw [append_nil] at hp
    exact hp.length_le
  · obtain ⟨rest, rfl⟩ := List.head?_eq_some_iff.mp hhead
    by_contra hlong
    have hwhole : front.drop k ++ [c] <+: old := by
      refine prefix_of_prefix_length_le ⟨rest, by simp⟩ hp ?_
      rw [length_append, length_singleton]
      omega
    exact hc (hwhole.subset (mem_append_right _ mem_cons_self))

theorem not_prefix_cons {d : Char} (hold : old ≠ []) (hd : d ∉ old) (ys : List Char) :
    ¬ old <+: d :: ys := by
  intro h
  obtain ⟨c, rest, rfl⟩ := exists_cons_of_ne_nil hold
  rw [cons_prefix_cons] at h
  exact hd (h.1 ▸ mem_cons_self)

theorem substitute_break {d : Char} (hold : old ≠ []) (hd : d ∉ old) (xs ys : List Char) :
    substitute old new (xs ++ d :: ys) = substitute old new xs ++ d :: substitute old new ys := by
  rw [substitute_append hold (apart_of_notMem hd (.inr rfl)),
    substitute_cons_of_not (not_prefix_cons hold hd ys)]

end GenieClaw.Library.Text
