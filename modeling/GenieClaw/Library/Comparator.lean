import Mathlib.Order.Compare
import Mathlib.Order.Defs.Unbundled

/-!
# Three-way comparisons

A comparison that is transitive orders the values of a type strictly and weakly. A comparison
of lists decides at the first pair of entries that differ, and by the length where none does.
-/

namespace GenieClaw.Library.Comparator

open Std

variable {α β : Type} {cmp : α → α → Ordering}

instance OrientedCmp.comap [OrientedCmp cmp] (f : β → α) :
    OrientedCmp fun a b => cmp (f a) (f b) where
  eq_swap := OrientedCmp.eq_swap

instance TransCmp.comap [TransCmp cmp] (f : β → α) : TransCmp fun a b => cmp (f a) (f b) where
  isLE_trans := TransCmp.isLE_trans

/-! ## Strict weak orders -/

theorem eq_eq_of_not_gt [OrientedCmp cmp] {a b : α} (h : ¬ cmp a b = .gt ∧ ¬ cmp b a = .gt) :
    cmp a b = .eq := by
  cases hab : cmp a b with
  | eq => rfl
  | gt => exact absurd hab h.1
  | lt => exact absurd (OrientedCmp.gt_of_lt hab) h.2

theorem not_gt_of_eq_eq [OrientedCmp cmp] {a b : α} (h : cmp a b = .eq) :
    ¬ cmp a b = .gt ∧ ¬ cmp b a = .gt := by
  have hba := OrientedCmp.eq_symm h
  rw [h, hba]
  exact ⟨by decide, by decide⟩

theorem strictWeakOrder [TransCmp cmp] : IsStrictWeakOrder α fun a b => cmp a b = .gt where
  irrefl a := by
    have hself : cmp a a = .eq := ReflCmp.compare_self
    rw [hself]
    decide
  trans a b c hab hbc := TransCmp.gt_trans hab hbc
  incomp_trans a b c hab hbc :=
    not_gt_of_eq_eq (TransCmp.eq_trans (eq_eq_of_not_gt hab) (eq_eq_of_not_gt hbc))

/-! ## Lists -/

/-- The entries that the lists share, up to the first difference. -/
def compareShared (cmp : α → α → Ordering) : List α → List α → Ordering
  | x :: xs, y :: ys =>
    match cmp x y with
    | .eq => compareShared cmp xs ys
    | different => different
  | _, _ => .eq

theorem shared_then_length (cmp : α → α → Ordering) (xs ys : List α) :
    (compareShared cmp xs ys).then (compare xs.length ys.length) = List.compareLex cmp xs ys := by
  induction xs generalizing ys with
  | nil =>
    cases ys with
    | nil => rfl
    | cons y ys => exact Nat.compare_eq_lt.mpr (Nat.succ_pos ys.length)
  | cons x xs ih =>
    cases ys with
    | nil => exact Nat.compare_eq_gt.mpr (Nat.succ_pos xs.length)
    | cons y ys =>
      have hlength : compare (x :: xs).length (y :: ys).length = compare xs.length ys.length := by
        rw [List.length_cons, List.length_cons]
        simp only [Nat.compare_eq_ite_lt]
        grind
      rw [List.compareLex_cons_cons, hlength, ← ih ys, compareShared]
      cases cmp x y with
      | eq => rfl
      | lt => rfl
      | gt => rfl

theorem compareLex_map_eq_lt {cmp : β → β → Ordering} {f : α → β} {r : α → α → Prop}
    {xs ys : List α} (hlt : ∀ x ∈ xs, ∀ y ∈ ys, cmp (f x) (f y) = .lt ↔ r x y)
    (heq : ∀ x ∈ xs, ∀ y ∈ ys, cmp (f x) (f y) = .eq ↔ x = y) :
    List.compareLex cmp (xs.map f) (ys.map f) = .lt ↔ List.Lex r xs ys := by
  induction xs generalizing ys with
  | nil =>
    cases ys with
    | nil => simp [List.compareLex_nil_nil]
    | cons y ys => simp [List.compareLex_nil_cons]
  | cons x xs ih =>
    cases ys with
    | nil => simp [List.compareLex_cons_nil]
    | cons y ys =>
      have hrest := ih (fun a ha b hb => hlt a (List.mem_cons_of_mem x ha) b
        (List.mem_cons_of_mem y hb)) fun a ha b hb => heq a (List.mem_cons_of_mem x ha) b
        (List.mem_cons_of_mem y hb)
      rw [List.map_cons, List.map_cons, List.compareLex_cons_cons, Ordering.then_eq_lt, hrest,
        hlt x List.mem_cons_self y List.mem_cons_self,
        heq x List.mem_cons_self y List.mem_cons_self]
      constructor
      · rintro (h | ⟨rfl, h⟩)
        · exact .rel h
        · exact .cons h
      · intro h
        cases h with
        | rel h => exact .inl h
        | cons h => exact .inr ⟨rfl, h⟩

end GenieClaw.Library.Comparator
