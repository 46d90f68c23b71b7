import Mathlib.Data.List.Sort
import Mathlib.Data.List.Count

/-!
# The first rows of a sorted table

`ORDER BY key DESC LIMIT n` over rows with distinct keys.
-/

namespace GenieClaw.Library

open List
section

variable {α κ : Type} [LinearOrder κ] (key : α → κ)

def newestFirst (rows : List α) : List α := rows.insertionSort fun a b => key b ≤ key a

variable {key}

theorem mem_take_of_pairwise {rows : List α} (h : rows.Pairwise fun a b => key b < key a) {a : α}
    (n : Nat) : a ∈ rows.take n ↔ a ∈ rows ∧ rows.countP (fun b => key a < key b) < n := by
  induction rows generalizing n with
  | nil => simp
  | cons first rest ih =>
    obtain ⟨hfirst, hrest⟩ := List.pairwise_cons.mp h
    cases n with
    | zero => simp
    | succ n =>
      rw [take_succ_cons, mem_cons, mem_cons, ih hrest]
      by_cases ha : a = first
      · subst ha
        have hzero : (a :: rest).countP (fun b => key a < key b) = 0 := by
          rw [countP_eq_zero]
          intro b hb
          rw [decide_eq_true_eq, not_lt]
          rcases List.mem_cons.mp hb with rfl | hb
          · exact le_refl _
          · exact le_of_lt (hfirst b hb)
        simp [hzero]
      · have hcount : ∀ _ : a ∈ rest, (first :: rest).countP (fun b => key a < key b) =
            rest.countP (fun b => key a < key b) + 1 := fun hmem =>
          countP_cons_of_pos (decide_eq_true (hfirst a hmem))
        constructor
        · rintro (heq | ⟨hmem, hlt⟩)
          · exact absurd heq ha
          · rw [hcount hmem]
            exact ⟨.inr hmem, Nat.succ_lt_succ hlt⟩
        · rintro ⟨heq | hmem, hlt⟩
          · exact absurd heq ha
          · rw [hcount hmem] at hlt
            exact .inr ⟨hmem, Nat.lt_of_succ_lt_succ hlt⟩

theorem pairwise_newestFirst {rows : List α} (h : (rows.map key).Nodup) :
    (newestFirst key rows).Pairwise fun a b => key b < key a := by
  have hsorted : (newestFirst key rows).Pairwise fun a b => key b ≤ key a :=
    pairwise_insertionSort (fun a b => key b ≤ key a) rows
  have hdistinct : (newestFirst key rows).Pairwise fun a b => key a ≠ key b := by
    have hperm : ((newestFirst key rows).map key).Perm (rows.map key) :=
      (perm_insertionSort _ rows).map key
    exact List.pairwise_map.mp (hperm.nodup_iff.mpr h)
  exact (hsorted.and hdistinct).imp fun hab => lt_of_le_of_ne hab.1 hab.2.symm

theorem mem_take_newest {rows : List α} (h : (rows.map key).Nodup) {a : α} (n : Nat) :
    a ∈ (newestFirst key rows).take n ↔ a ∈ rows ∧ rows.countP (fun b => key a < key b) < n := by
  have hperm : (newestFirst key rows).Perm rows := perm_insertionSort _ rows
  rw [mem_take_of_pairwise (pairwise_newestFirst h), hperm.mem_iff, hperm.countP_eq]

end

end GenieClaw.Library
