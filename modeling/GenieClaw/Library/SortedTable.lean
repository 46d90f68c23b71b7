import Mathlib.Algebra.Ring.Nat
import Mathlib.Data.List.Pairwise
import Mathlib.Order.Lattice

/-!
# Tables in the order of their keys

The list of the entries with strictly increasing keys, so that a walk along the table meets them
in order. Every operation is known by the entries it leaves.
-/

namespace GenieClaw.Library

structure SortedTable (K V : Type) [LinearOrder K] where
  entries : List (K × V)
  sorted : entries.Pairwise fun a b => a.1 < b.1

namespace SortedTable

variable {K V : Type} [LinearOrder K]

def empty : SortedTable K V := ⟨[], .nil⟩

def size (t : SortedTable K V) : Nat := t.entries.length

def lookup (t : SortedTable K V) (k : K) : Option V :=
  (t.entries.find? fun e => decide (e.1 = k)).map Prod.snd

def filter (t : SortedTable K V) (keep : K × V → Bool) : SortedTable K V :=
  ⟨t.entries.filter keep, t.sorted.filter keep⟩

def erase (t : SortedTable K V) (k : K) : SortedTable K V := t.filter fun e => decide (e.1 ≠ k)

def eraseAll (t : SortedTable K V) (ks : List K) : SortedTable K V := ks.foldl erase t

def insertEntry (k : K) (v : V) : List (K × V) → List (K × V)
  | [] => [(k, v)]
  | e :: rest =>
    if k < e.1 then (k, v) :: e :: rest
    else if k = e.1 then (k, v) :: rest
    else e :: insertEntry k v rest

variable {es : List (K × V)}

theorem mem_insertEntry {k : K} {v : V} (hes : es.Pairwise fun a b => a.1 < b.1) {e : K × V} :
    e ∈ insertEntry k v es ↔ e = (k, v) ∨ e ∈ es ∧ e.1 ≠ k := by
  induction es with
  | nil => simp [insertEntry]
  | cons d rest ih =>
    obtain ⟨hfirst, hrest⟩ := List.pairwise_cons.mp hes
    unfold insertEntry
    split
    · rename_i hlt
      have hne : ∀ x ∈ d :: rest, x.1 ≠ k := by
        intro x hx
        rcases List.mem_cons.mp hx with rfl | hx
        · exact (ne_of_lt hlt).symm
        · exact (ne_of_lt (lt_trans hlt (hfirst x hx))).symm
      rw [List.mem_cons]
      exact or_congr_right ⟨fun he => ⟨he, hne e he⟩, And.left⟩
    · split
      · rename_i heq
        have hne : ∀ x ∈ rest, x.1 ≠ k := fun x hx => heq ▸ (ne_of_lt (hfirst x hx)).symm
        rw [List.mem_cons, List.mem_cons]
        refine or_congr_right ⟨fun he => ⟨.inr he, hne e he⟩, fun ⟨he, hk⟩ => ?_⟩
        exact he.resolve_left fun h => hk (h ▸ heq.symm)
      · rename_i hne
        rw [List.mem_cons, ih hrest, List.mem_cons]
        constructor
        · rintro (rfl | hkept)
          · exact .inr ⟨.inl rfl, fun h => hne h.symm⟩
          · exact hkept.imp_right fun ⟨he, hk⟩ => ⟨.inr he, hk⟩
        · rintro (rfl | ⟨rfl | he, hk⟩)
          · exact .inr (.inl rfl)
          · exact .inl rfl
          · exact .inr (.inr ⟨he, hk⟩)

theorem sorted_insertEntry (k : K) (v : V) (hes : es.Pairwise fun a b => a.1 < b.1) :
    (insertEntry k v es).Pairwise fun a b => a.1 < b.1 := by
  induction es with
  | nil => exact List.pairwise_singleton _ _
  | cons d rest ih =>
    obtain ⟨hfirst, hrest⟩ := List.pairwise_cons.mp hes
    unfold insertEntry
    split
    · rename_i hlt
      refine List.pairwise_cons.mpr ⟨fun x hx => ?_, hes⟩
      rcases List.mem_cons.mp hx with rfl | hx
      · exact hlt
      · exact lt_trans hlt (hfirst x hx)
    · split
      · rename_i heq
        exact List.pairwise_cons.mpr ⟨fun x hx => heq ▸ hfirst x hx, hrest⟩
      · rename_i hlt hne
        have hgt : d.1 < k := lt_of_le_of_ne (not_lt.mp hlt) fun h => hne h.symm
        refine List.pairwise_cons.mpr ⟨fun x hx => ?_, ih hrest⟩
        rcases (mem_insertEntry hrest).mp hx with rfl | ⟨hx, -⟩
        · exact hgt
        · exact hfirst x hx

def insert (t : SortedTable K V) (k : K) (v : V) : SortedTable K V :=
  ⟨insertEntry k v t.entries, sorted_insertEntry k v t.sorted⟩

/-- The value of a key changed in its place. -/
def modify (t : SortedTable K V) (k : K) (f : V → V) : SortedTable K V :=
  ⟨t.entries.map fun e => if e.1 = k then (e.1, f e.2) else e, by
    refine List.pairwise_map.mpr (t.sorted.imp fun {a b} h => ?_)
    have hkey : ∀ e : K × V, (if e.1 = k then (e.1, f e.2) else e).1 = e.1 := by
      intro e
      split <;> rfl
    rw [hkey, hkey]
    exact h⟩

/-! ## Entries -/

variable {t : SortedTable K V} {k : K} {v : V} {e : K × V}

theorem mem_insert : e ∈ (t.insert k v).entries ↔ e = (k, v) ∨ e ∈ t.entries ∧ e.1 ≠ k :=
  mem_insertEntry t.sorted

theorem mem_filter {keep : K × V → Bool} :
    e ∈ (t.filter keep).entries ↔ e ∈ t.entries ∧ keep e = true := List.mem_filter

theorem mem_erase : e ∈ (t.erase k).entries ↔ e ∈ t.entries ∧ e.1 ≠ k := by
  unfold erase
  rw [mem_filter, decide_eq_true_iff]

theorem mem_eraseAll {ks : List K} : e ∈ (t.eraseAll ks).entries ↔ e ∈ t.entries ∧ e.1 ∉ ks := by
  unfold eraseAll
  induction ks generalizing t with
  | nil => simp
  | cons k ks ih => rw [List.foldl_cons, ih, mem_erase, and_assoc, List.mem_cons, not_or]

theorem mem_modify {f : V → V} : e ∈ (t.modify k f).entries ↔
    (e ∈ t.entries ∧ e.1 ≠ k) ∨ ∃ old, (k, old) ∈ t.entries ∧ e = (k, f old) := by
  show e ∈ t.entries.map _ ↔ _
  rw [List.mem_map]
  constructor
  · rintro ⟨d, hd, rfl⟩
    by_cases hk : d.1 = k
    · rw [if_pos hk]
      exact .inr ⟨d.2, hk ▸ hd, hk ▸ rfl⟩
    · rw [if_neg hk]
      exact .inl ⟨hd, hk⟩
  · rintro (⟨he, hk⟩ | ⟨old, hold, rfl⟩)
    · exact ⟨e, he, if_neg hk⟩
    · exact ⟨(k, old), hold, if_pos rfl⟩

theorem eq_of_mem {d : K × V} (he : e ∈ t.entries) (hd : d ∈ t.entries) (hkey : e.1 = d.1) :
    e = d := by
  have hpair : t.entries.Pairwise fun a b => a.1 ≠ b.1 := t.sorted.imp fun h => ne_of_lt h
  have hsymm : Std.Symm fun a b : K × V => a.1 ≠ b.1 := ⟨fun _ _ h => h.symm⟩
  by_contra hne
  exact hpair.forall he hd hne hkey

theorem lookup_eq_some : t.lookup k = some v ↔ (k, v) ∈ t.entries := by
  unfold lookup
  rw [Option.map_eq_some_iff]
  constructor
  · rintro ⟨e, he, rfl⟩
    have hkey : e.1 = k := by simpa using List.find?_some he
    exact hkey ▸ List.mem_of_find?_eq_some he
  · intro hmem
    cases hfind : t.entries.find? fun e => decide (e.1 = k) with
    | none => exact absurd (decide_eq_true rfl) (List.find?_eq_none.mp hfind _ hmem)
    | some e =>
      have hkey : e.1 = k := by simpa using List.find?_some hfind
      have heq : e = (k, v) := eq_of_mem (List.mem_of_find?_eq_some hfind) hmem hkey
      exact ⟨e, rfl, congrArg Prod.snd heq⟩

theorem lookup_insert (t : SortedTable K V) (k j : K) (v : V) :
    (t.insert k v).lookup j = if j = k then some v else t.lookup j := by
  ext w
  rw [lookup_eq_some, mem_insert, Prod.mk.injEq]
  split
  · rename_i hkey
    simp [hkey, eq_comm]
  · rename_i hkey
    simp [hkey, lookup_eq_some]

theorem lookup_eq_none : t.lookup k = none ↔ ∀ e ∈ t.entries, e.1 ≠ k := by
  unfold lookup
  rw [Option.map_eq_none_iff, List.find?_eq_none]
  exact forall₂_congr fun e _ => by rw [decide_eq_true_iff]

/-! ## Sizes -/

theorem size_filter_le (t : SortedTable K V) (keep : K × V → Bool) :
    (t.filter keep).size ≤ t.size := List.length_filter_le _ _

theorem size_eraseAll_le (t : SortedTable K V) (ks : List K) : (t.eraseAll ks).size ≤ t.size := by
  unfold eraseAll
  induction ks generalizing t with
  | nil => exact Nat.le_refl _
  | cons k ks ih => exact Nat.le_trans (ih (t.erase k)) (size_filter_le _ _)

@[simp] theorem size_modify (t : SortedTable K V) (k : K) (f : V → V) :
    (t.modify k f).size = t.size := List.length_map _

theorem length_insertEntry (h : ∀ e ∈ es, e.1 ≠ k) :
    (insertEntry k v es).length = es.length + 1 := by
  induction es with
  | nil => rfl
  | cons d rest ih =>
    obtain ⟨hd, hrest⟩ := List.forall_mem_cons.mp h
    unfold insertEntry
    split
    · rfl
    · rw [if_neg (Ne.symm hd), List.length_cons, ih hrest, List.length_cons]

theorem size_insert (h : t.lookup k = none) : (t.insert k v).size = t.size + 1 :=
  length_insertEntry (lookup_eq_none.mp h)

theorem size_erase (he : e ∈ t.entries) : (t.erase e.1).size + 1 = t.size := by
  obtain ⟨front, back, heq⟩ := List.append_of_mem he
  have hfilter : (t.entries.filter fun d => decide (d.1 ≠ e.1)) = front ++ back := by
    have hpair := t.sorted
    rw [heq, List.pairwise_append] at hpair
    obtain ⟨-, hback, hcross⟩ := hpair
    have hkept : ∀ part : List (K × V), (∀ d ∈ part, d.1 ≠ e.1) →
        (part.filter fun d => decide (d.1 ≠ e.1)) = part :=
      fun part hpart => List.filter_eq_self.mpr fun d hd => decide_eq_true (hpart d hd)
    have hcons : ((e :: back).filter fun d => decide (d.1 ≠ e.1)) =
        back.filter fun d => decide (d.1 ≠ e.1) :=
      List.filter_cons_of_neg (by rw [decide_eq_true_iff]; exact fun hne => hne rfl)
    rw [heq, List.filter_append, hcons, hkept front, hkept back]
    · exact fun d hd => (ne_of_lt (List.rel_of_pairwise_cons hback hd)).symm
    · exact fun d hd => ne_of_lt (hcross d hd e List.mem_cons_self)
  have hsize : (t.erase e.1).size = (front ++ back).length := congrArg List.length hfilter
  have hall : t.size = (front ++ e :: back).length := congrArg List.length heq
  rw [hsize, hall, List.length_append, List.length_append, List.length_cons]
  exact Nat.add_assoc _ _ _

/-! ## Counting -/

/-- One more for the key. -/
def count (t : SortedTable K ℕ) (k : K) : SortedTable K ℕ := t.insert k ((t.lookup k).getD 0 + 1)

def total (t : SortedTable K ℕ) : ℕ := (t.entries.map Prod.snd).sum

theorem sum_insertEntry (k : K) (n : ℕ) {es : List (K × ℕ)}
    (hes : es.Pairwise fun a b => a.1 < b.1) :
    ((insertEntry k n es).map Prod.snd).sum +
        (((es.find? fun e => decide (e.1 = k)).map Prod.snd).getD 0) =
      (es.map Prod.snd).sum + n := by
  induction es with
  | nil => simp [insertEntry]
  | cons d rest ih =>
    obtain ⟨hfirst, hrest⟩ := List.pairwise_cons.mp hes
    unfold insertEntry
    split
    · rename_i hlt
      have habsent : (d :: rest).find? (fun e => decide (e.1 = k)) = none := by
        refine List.find?_eq_none.mpr fun e he => ?_
        rcases List.mem_cons.mp he with rfl | he
        · simpa using (ne_of_lt hlt).symm
        · simpa using (ne_of_lt (lt_trans hlt (hfirst e he))).symm
      rw [habsent]
      simp [Nat.add_comm]
    · split
      · rename_i heq
        simp only [List.find?_cons, heq, decide_true, List.map_cons, List.sum_cons]
        simp only [Option.map_some, Option.getD_some]
        omega
      · rename_i hne
        have hskip : decide (d.1 = k) = false := decide_eq_false fun h => hne h.symm
        rw [List.find?_cons, hskip, List.map_cons, List.map_cons, List.sum_cons, List.sum_cons]
        have := ih hrest
        dsimp only
        omega

theorem total_count (t : SortedTable K ℕ) (k : K) : (t.count k).total = t.total + 1 := by
  have h := sum_insertEntry k ((t.lookup k).getD 0 + 1) t.sorted
  have hlookup : ((t.entries.find? fun e => decide (e.1 = k)).map Prod.snd).getD 0 =
      (t.lookup k).getD 0 := rfl
  rw [hlookup] at h
  show ((insertEntry k ((t.lookup k).getD 0 + 1) t.entries).map Prod.snd).sum = _
  unfold total
  omega

theorem lookup_count (t : SortedTable K ℕ) (k j : K) :
    ((t.count k).lookup j).getD 0 = (t.lookup j).getD 0 + if k = j then 1 else 0 := by
  unfold count
  rw [lookup_insert]
  by_cases hkey : j = k
  · rw [if_pos hkey, if_pos hkey.symm, hkey]
    rfl
  · rw [if_neg hkey, if_neg (Ne.symm hkey)]
    rfl

theorem total_foldl_count (ks : List K) (t : SortedTable K ℕ) :
    (ks.foldl count t).total = t.total + ks.length := by
  induction ks generalizing t with
  | nil => rfl
  | cons k ks ih =>
    rw [List.foldl_cons, ih, total_count, List.length_cons]
    omega

theorem lookup_foldl_count (ks : List K) (t : SortedTable K ℕ) (j : K) :
    ((ks.foldl count t).lookup j).getD 0 = (t.lookup j).getD 0 + ks.count j := by
  induction ks generalizing t with
  | nil => rfl
  | cons k ks ih =>
    rw [List.foldl_cons, ih, lookup_count, List.count_cons, beq_eq_decide]
    simp only [decide_eq_true_eq]
    omega

end SortedTable

end GenieClaw.Library
