import Mathlib.Algebra.Order.Group.Abs
import Mathlib.Data.List.Induction
import Mathlib.Data.List.Perm.Basic

/-!
# Loops that keep the best candidate

Candidates with their scores, taken one after the other. `bestOf` keeps the first of the best
ones; `tiedOf` keeps all those that come close to the best.

* `bestOf_cases`, `tiedOf_cases`: what the loops have kept, by induction on the candidates.
* `uniqueTied_perm`: the single best candidate does not depend on the order.
-/

namespace GenieClaw.Library.BestOf

open List
/-! ## The first of the best -/

section

variable {K β : Type} [LinearOrder K] {t : K} {c : K × β} {cs ds : List (K × β)}

def keepBest (t : K) (best : Option (K × β)) (c : K × β) : Option (K × β) :=
  if t < c.1 ∧ ∀ b ∈ best, b.1 < c.1 then some c else best

/-- The first of the candidates with the largest score, if that is above the threshold. -/
def bestOf (t : K) (cs : List (K × β)) : Option (K × β) := cs.foldl (keepBest t) none

/-- A candidate that no other one beats. -/
structure IsTop (t : K) (cs : List (K × β)) (c : K × β) : Prop where
  mem : c ∈ cs
  above : t < c.1
  le : ∀ d ∈ cs, d.1 ≤ c.1

theorem IsTop.perm (h : IsTop t cs c) (hperm : cs.Perm ds) : IsTop t ds c :=
  ⟨hperm.mem_iff.mp h.mem, h.above, fun d hd => h.le d (hperm.mem_iff.mpr hd)⟩

theorem bestOf_append_singleton (cs : List (K × β)) (c : K × β) :
    bestOf t (cs ++ [c]) = keepBest t (bestOf t cs) c := by
  rw [bestOf, foldl_append]
  rfl

/-- What the loop has kept so far: nothing, when no candidate was above the threshold, or the
first of the best. -/
theorem bestOf_cases (cs : List (K × β)) :
    (bestOf t cs = none ∧ ∀ d ∈ cs, d.1 ≤ t) ∨
      ∃ c before after, bestOf t cs = some c ∧ cs = before ++ c :: after ∧ t < c.1 ∧
        (∀ d ∈ before, d.1 < c.1) ∧ ∀ d ∈ after, d.1 ≤ c.1 := by
  induction cs using List.reverseRecOn with
  | nil => exact .inl ⟨rfl, by simp⟩
  | append_singleton cs d ih =>
    rw [bestOf_append_singleton]
    obtain ⟨hnone, hle⟩ | ⟨c, before, after, hsome, rfl, habove, hbefore, hafter⟩ := ih
    · by_cases hd : t < d.1
      · have hkeep : keepBest t none d = some d := if_pos ⟨hd, by simp⟩
        refine .inr ⟨d, cs, [], by rw [hnone, hkeep], rfl, hd, ?_, by simp⟩
        exact fun e he => lt_of_le_of_lt (hle e he) hd
      · have hkeep : keepBest t (none : Option (K × β)) d = none := if_neg fun h => hd h.1
        refine .inl ⟨by rw [hnone, hkeep], ?_⟩
        intro e he
        obtain he | he := List.mem_append.mp he
        · exact hle e he
        · rw [List.mem_singleton.mp he]
          exact le_of_not_gt hd
    · by_cases hd : c.1 < d.1
      · have hkeep : keepBest t (some c) d = some d :=
          if_pos ⟨lt_trans habove hd, by simpa using hd⟩
        refine .inr ⟨d, before ++ c :: after, [], by rw [hsome, hkeep], rfl, lt_trans habove hd, ?_,
          by simp⟩
        intro e he
        obtain he | he := List.mem_append.mp he
        · exact lt_trans (hbefore e he) hd
        · obtain rfl | he := List.mem_cons.mp he
          · exact hd
          · exact lt_of_le_of_lt (hafter e he) hd
      · have hkeep : keepBest t (some c) d = some c :=
          if_neg fun h => hd (h.2 c rfl)
        refine .inr ⟨c, before, after ++ [d], by rw [hsome, hkeep], by simp, habove, hbefore, ?_⟩
        intro e he
        obtain he | he := List.mem_append.mp he
        · exact hafter e he
        · rw [List.mem_singleton.mp he]
          exact le_of_not_gt hd

theorem bestOf_eq_none : bestOf t cs = none ↔ ∀ d ∈ cs, d.1 ≤ t := by
  obtain ⟨hnone, hle⟩ | ⟨c, before, after, hsome, rfl, habove, -, -⟩ := bestOf_cases (t := t) cs
  · exact ⟨fun _ => hle, fun _ => hnone⟩
  · constructor
    · intro hnone
      rw [hsome] at hnone
      cases hnone
    · intro hle
      exact absurd habove (not_lt.mpr (hle c (by simp)))

theorem bestOf_split (h : bestOf t cs = some c) :
    ∃ before after, cs = before ++ c :: after ∧ t < c.1 ∧
      (∀ d ∈ before, d.1 < c.1) ∧ ∀ d ∈ after, d.1 ≤ c.1 := by
  obtain ⟨hnone, -⟩ | ⟨c', before, after, hsome, hrest⟩ := bestOf_cases (t := t) cs
  · rw [hnone] at h
    cases h
  · rw [hsome] at h
    cases h
    exact ⟨before, after, hrest⟩

theorem bestOf_isTop (h : bestOf t cs = some c) : IsTop t cs c := by
  obtain ⟨before, after, rfl, habove, hbefore, hafter⟩ := bestOf_split h
  refine ⟨by simp, habove, ?_⟩
  intro d hd
  obtain hd | hd := List.mem_append.mp hd
  · exact (hbefore d hd).le
  · obtain rfl | hd := List.mem_cons.mp hd
    · exact le_rfl
    · exact hafter d hd

theorem bestOf_append_cons {before after : List (K × β)} (habove : t < c.1)
    (hbefore : ∀ d ∈ before, d.1 < c.1) (hafter : ∀ d ∈ after, d.1 ≤ c.1) :
    bestOf t (before ++ c :: after) = some c := by
  induction after using List.reverseRecOn with
  | nil =>
    rw [bestOf_append_singleton]
    refine if_pos ⟨habove, ?_⟩
    intro b hb
    exact hbefore b (bestOf_isTop hb).mem
  | append_singleton after d ih =>
    have hsplit : before ++ c :: (after ++ [d]) = (before ++ c :: after) ++ [d] := by simp
    rw [hsplit, bestOf_append_singleton, ih fun e he => hafter e (by simp [he])]
    refine if_neg fun h => ?_
    exact absurd (h.2 c rfl) (not_lt.mpr (hafter d (by simp)))

theorem bestOf_eq_some :
    bestOf t cs = some c ↔ ∃ before after, cs = before ++ c :: after ∧ t < c.1 ∧
      (∀ d ∈ before, d.1 < c.1) ∧ ∀ d ∈ after, d.1 ≤ c.1 := by
  refine ⟨bestOf_split, ?_⟩
  rintro ⟨before, after, rfl, habove, hbefore, hafter⟩
  exact bestOf_append_cons habove hbefore hafter

theorem bestOf_perm (hperm : cs.Perm ds) :
    (bestOf t cs).map Prod.fst = (bestOf t ds).map Prod.fst := by
  cases hcs : bestOf t cs with
  | none =>
    have hds : bestOf t ds = none := by
      rw [bestOf_eq_none] at hcs ⊢
      exact fun d hd => hcs d (hperm.mem_iff.mpr hd)
    rw [hds]
  | some c =>
    cases hds : bestOf t ds with
    | none =>
      rw [bestOf_eq_none] at hds
      have htop := (bestOf_isTop hcs).perm hperm
      exact absurd htop.above (not_lt.mpr (hds c htop.mem))
    | some d =>
      have hc := bestOf_isTop hcs
      have hd := (bestOf_isTop hds).perm hperm.symm
      have hscore : c.1 = d.1 := le_antisymm (hd.le c hc.mem) (hc.le d hd.mem)
      exact congrArg some hscore

theorem bestOf_append (h : bestOf t (cs ++ ds) = some c) :
    c ∈ cs ∨ c ∈ ds ∧ ∀ d ∈ cs, d.1 < c.1 := by
  obtain ⟨before, after, hsplit, -, hbefore, -⟩ := bestOf_split h
  obtain ⟨more, rfl, hds⟩ | ⟨more, hcs, hmore⟩ := List.append_eq_append_iff.mp hsplit
  · refine .inr ⟨by simp [hds], ?_⟩
    exact fun d hd => hbefore d (mem_append_left _ hd)
  · cases more with
    | nil =>
      rw [append_nil] at hcs
      rw [nil_append] at hmore
      refine .inr ⟨hmore ▸ mem_cons_self, ?_⟩
      exact fun d hd => hbefore d (hcs ▸ hd)
    | cons e rest =>
      rw [cons_append, List.cons.injEq] at hmore
      left
      rw [hcs, hmore.1]
      simp

theorem exists_perm_cons {α : Type} {a : α} {xs : List α} (ha : a ∈ xs) :
    ∃ rest, xs.Perm (a :: rest) := by
  obtain ⟨before, after, rfl⟩ := append_of_mem ha
  exact ⟨before ++ after, perm_middle⟩

theorem exists_perm_bestOf {α : Type} {f : α → K × β} {xs : List α} {a : α} (ha : a ∈ xs)
    (htop : IsTop t (xs.map f) (f a)) : ∃ ys, xs.Perm ys ∧ bestOf t (ys.map f) = some (f a) := by
  obtain ⟨rest, hperm⟩ := exists_perm_cons ha
  refine ⟨a :: rest, hperm, ?_⟩
  change bestOf t ([] ++ f a :: rest.map f) = some (f a)
  refine bestOf_append_cons htop.above (by simp) ?_
  intro d hd
  obtain ⟨b, hb, rfl⟩ := List.mem_map.mp hd
  exact htop.le _ (mem_map_of_mem (hperm.mem_iff.mpr (mem_cons_of_mem a hb)))

end

/-! ## All that come close to the best -/

section

variable {K β : Type} [AddCommGroup K] [LinearOrder K] {t eps : K} {c : K × β}
  {cs ds : List (K × β)}

def keepTied (t eps : K) (kept : K × List β) (c : K × β) : K × List β :=
  if c.1 ≤ t then kept
  else if kept.1 + eps < c.1 then (c.1, [c.2])
  else if |c.1 - kept.1| ≤ eps then (max kept.1 c.1, kept.2 ++ [c.2])
  else kept

def tiedOf (t eps : K) (cs : List (K × β)) : K × List β := cs.foldl (keepTied t eps) (0, [])

/-- The candidate that is left when no other one comes close to it. -/
def uniqueTied (t eps : K) (cs : List (K × β)) : Option (K × β) :=
  match tiedOf t eps cs with
  | (score, [b]) => some (score, b)
  | _ => none

/-- The candidates above the threshold whose score is at most `eps` below `m`. -/
def near (t eps m : K) (cs : List (K × β)) : List (K × β) :=
  cs.filter fun d => t < d.1 ∧ m ≤ d.1 + eps

theorem near_append_singleton (m : K) (cs : List (K × β)) (c : K × β) :
    near t eps m (cs ++ [c]) = near t eps m cs ++ if t < c.1 ∧ m ≤ c.1 + eps then [c] else [] := by
  rw [near, filter_append, filter_cons]
  by_cases h : t < c.1 ∧ m ≤ c.1 + eps <;> simp [near, h]

theorem tiedOf_append_singleton (cs : List (K × β)) (c : K × β) :
    tiedOf t eps (cs ++ [c]) = keepTied t eps (tiedOf t eps cs) c := by
  rw [tiedOf, foldl_append]
  rfl

/-- What the loop has kept once a candidate was above the threshold: the largest score, and one
name exactly when one candidate is near that score. -/
structure KeptTied (t eps : K) (cs : List (K × β)) (kept : K × List β) : Prop where
  above : t < kept.1
  attained : ∃ c ∈ cs, c.1 = kept.1
  largest : ∀ d ∈ cs, t < d.1 → d.1 ≤ kept.1
  named : kept.2 ≠ []
  unique : (∃ b, kept.2 = [b] ∧ near t eps kept.1 cs = [(kept.1, b)]) ∨
    2 ≤ kept.2.length ∧ 2 ≤ (near t eps kept.1 cs).length

theorem near_eq_nil {m : K} (h : ∀ d ∈ cs, t < d.1 → d.1 + eps < m) : near t eps m cs = [] := by
  rw [near, filter_eq_nil_iff]
  intro d hd hnear
  rw [decide_eq_true_eq] at hnear
  exact absurd (h d hd hnear.1) (not_lt.mpr hnear.2)

variable [IsOrderedAddMonoid K]

theorem KeptTied.step {kept : K × List β} (heps : 0 ≤ eps) (h : KeptTied t eps cs kept)
    (c : K × β) : KeptTied t eps (cs ++ [c]) (keepTied t eps kept c) := by
  have hmore : ∀ m, m ∈ cs → m ∈ cs ++ [c] := fun m hm => mem_append_left _ hm
  obtain ⟨e, he, hescore⟩ := h.attained
  unfold keepTied
  split
  case isTrue hlow =>
    -- A candidate that is not above the threshold changes neither side.
    have hsame : near t eps kept.1 (cs ++ [c]) = near t eps kept.1 cs := by
      rw [near_append_singleton, if_neg fun hc => absurd hc.1 (not_lt.mpr hlow), append_nil]
    refine ⟨h.above, ⟨e, hmore e he, hescore⟩, ?_, h.named, by rw [hsame]; exact h.unique⟩
    intro d hd habove
    obtain hd | hd := List.mem_append.mp hd
    · exact h.largest d hd habove
    · rw [List.mem_singleton.mp hd] at habove
      exact absurd habove (not_lt.mpr hlow)
  case isFalse hhigh =>
    have habove : t < c.1 := lt_of_not_ge hhigh
    split
    case isTrue hjump =>
      have hlarger : kept.1 < c.1 := lt_of_le_of_lt (le_add_of_nonneg_right heps) hjump
      have hempty : near t eps c.1 cs = [] := near_eq_nil fun d hd hd' =>
        lt_of_le_of_lt (add_le_add_left (h.largest d hd hd') eps) hjump
      refine ⟨habove, ⟨c, by simp, rfl⟩, ?_, by simp, .inl ⟨c.2, rfl, ?_⟩⟩
      · intro d hd hd'
        obtain hd | hd := List.mem_append.mp hd
        · exact (h.largest d hd hd').trans hlarger.le
        · rw [List.mem_singleton.mp hd]
      · rw [near_append_singleton, hempty,
          if_pos ⟨habove, le_add_of_nonneg_right heps⟩, nil_append]
    case isFalse hnojump =>
      have hclose : c.1 ≤ kept.1 + eps := le_of_not_gt hnojump
      split
      case isTrue hpush =>
        have hback : kept.1 ≤ c.1 + eps := by
          have := (abs_le.mp hpush).1
          rw [neg_le_sub_iff_le_add] at this
          exact this
        -- Both the candidate that attains the old best and the new one are near the new best.
        have htwo : 2 ≤ (near t eps (max kept.1 c.1) (cs ++ [c])).length := by
          have hmem : e ∈ near t eps (max kept.1 c.1) cs := by
            refine List.mem_filter.mpr ⟨he, decide_eq_true ⟨by rw [hescore]; exact h.above, ?_⟩⟩
            rw [hescore]
            exact max_le (le_add_of_nonneg_right heps) hclose
          rw [near_append_singleton,
            if_pos ⟨habove, max_le hback (le_add_of_nonneg_right heps)⟩, length_append,
            length_singleton]
          have := length_pos_of_mem hmem
          omega
        refine ⟨lt_max_of_lt_left h.above, ?_, ?_, by simp, .inr ⟨?_, htwo⟩⟩
        · obtain hmax | hmax := le_total kept.1 c.1
          · exact ⟨c, by simp, (max_eq_right hmax).symm⟩
          · exact ⟨e, hmore e he, by rw [hescore]; exact (max_eq_left hmax).symm⟩
        · intro d hd hd'
          obtain hd | hd := List.mem_append.mp hd
          · exact le_max_of_le_left (h.largest d hd hd')
          · rw [List.mem_singleton.mp hd]
            exact le_max_right _ _
        · have := List.length_pos_iff.mpr h.named
          rw [length_append, length_singleton]
          omega
      case isFalse hfar =>
        -- Too far below the best to be near it.
        have hbelow : c.1 + eps < kept.1 := by
          by_contra hno
          refine hfar (abs_le.mpr ⟨?_, sub_le_iff_le_add'.mpr hclose⟩)
          rw [neg_le_sub_iff_le_add]
          exact le_of_not_gt hno
        have hsame : near t eps kept.1 (cs ++ [c]) = near t eps kept.1 cs := by
          rw [near_append_singleton, if_neg fun hc => absurd hbelow (not_lt.mpr hc.2),
            append_nil]
        refine ⟨h.above, ⟨e, hmore e he, hescore⟩, ?_, h.named, by rw [hsame]; exact h.unique⟩
        intro d hd hd'
        obtain hd | hd := List.mem_append.mp hd
        · exact h.largest d hd hd'
        · rw [List.mem_singleton.mp hd]
          exact (lt_of_le_of_lt (le_add_of_nonneg_right heps) hbelow).le

theorem tiedOf_cases (heps : 0 ≤ eps) (ht : eps ≤ t) (cs : List (K × β)) :
    (tiedOf t eps cs = (0, []) ∧ ∀ d ∈ cs, d.1 ≤ t) ∨ KeptTied t eps cs (tiedOf t eps cs) := by
  induction cs using List.reverseRecOn with
  | nil => exact .inl ⟨rfl, by simp⟩
  | append_singleton cs c ih =>
    rw [tiedOf_append_singleton]
    obtain ⟨hempty, hle⟩ | hkept := ih
    · rw [hempty]
      by_cases hc : c.1 ≤ t
      · refine .inl ⟨if_pos hc, ?_⟩
        intro d hd
        obtain hd | hd := List.mem_append.mp hd
        · exact hle d hd
        · rw [List.mem_singleton.mp hd]
          exact hc
      · have habove : t < c.1 := lt_of_not_ge hc
        have hfirst : keepTied t eps ((0, []) : K × List β) c = (c.1, [c.2]) := by
          rw [keepTied, if_neg hc, if_pos (by rw [zero_add]; exact lt_of_le_of_lt ht habove)]
        have hnil : near t eps c.1 cs = [] := by
          refine near_eq_nil fun d hd hd' => ?_
          exact absurd hd' (not_lt.mpr (hle d hd))
        rw [hfirst]
        refine .inr ⟨habove, ⟨c, by simp, rfl⟩, ?_, by simp, .inl ⟨c.2, rfl, ?_⟩⟩
        · intro d hd hd'
          obtain hd | hd := List.mem_append.mp hd
          · exact absurd hd' (not_lt.mpr (hle d hd))
          · rw [List.mem_singleton.mp hd]
        · rw [near_append_singleton, hnil, if_pos ⟨habove, le_add_of_nonneg_right heps⟩,
            nil_append]
    · exact .inr (hkept.step heps c)

theorem uniqueTied_eq_some (heps : 0 ≤ eps) (ht : eps ≤ t) :
    uniqueTied t eps cs = some c ↔ near t eps c.1 cs = [c] := by
  obtain ⟨hempty, hle⟩ | hkept := tiedOf_cases heps ht cs
  · have hnone : uniqueTied t eps cs = none := by rw [uniqueTied, hempty]
    rw [hnone]
    refine iff_of_false (by simp) fun hnear => ?_
    have hc : c ∈ near t eps c.1 cs := by rw [hnear]; exact mem_singleton_self c
    obtain ⟨hmem, habove⟩ := List.mem_filter.mp hc
    exact absurd (of_decide_eq_true habove).1 (not_lt.mpr (hle c hmem))
  · obtain ⟨e, he, hescore⟩ := hkept.attained
    -- Whoever is alone near its own score has the largest score.
    have hlargest : near t eps c.1 cs = [c] → c.1 = (tiedOf t eps cs).1 := by
      intro hnear
      have hc : c ∈ near t eps c.1 cs := by rw [hnear]; exact mem_singleton_self c
      obtain ⟨hmem, habove⟩ := List.mem_filter.mp hc
      have hle := hkept.largest c hmem (of_decide_eq_true habove).1
      have hmem' : e ∈ near t eps c.1 cs := by
        refine List.mem_filter.mpr ⟨he, decide_eq_true ⟨by rw [hescore]; exact hkept.above, ?_⟩⟩
        rw [hescore]
        exact hle.trans (le_add_of_nonneg_right heps)
      rw [hnear] at hmem'
      rw [← hescore, List.mem_singleton.mp hmem']
    unfold uniqueTied
    generalize htied : tiedOf t eps cs = kept at hkept hlargest
    obtain ⟨score, names⟩ := kept
    obtain ⟨b, hnames, hnear⟩ | ⟨hlong, htwo⟩ := hkept.unique
    · simp only at hnames hnear hlargest
      subst hnames
      constructor
      · intro h
        cases h
        exact hnear
      · intro h
        have hscore := hlargest h
        rw [hscore, hnear] at h
        exact congrArg some (List.singleton_inj.mp h)
    · simp only at hlong htwo hlargest
      constructor
      · intro h
        split at h
        · rename_i heq
          cases heq
          simp at hlong
        · cases h
      · intro h
        rw [← hlargest h, h] at htwo
        simp at htwo

theorem uniqueTied_perm (heps : 0 ≤ eps) (ht : eps ≤ t) (hperm : cs.Perm ds) :
    uniqueTied t eps cs = uniqueTied t eps ds := by
  ext c
  rw [uniqueTied_eq_some heps ht, uniqueTied_eq_some heps ht]
  have hnear : (near t eps c.1 cs).Perm (near t eps c.1 ds) := hperm.filter _
  constructor
  · intro h
    rw [h] at hnear
    exact (List.singleton_perm.mp hnear).symm
  · intro h
    rw [h] at hnear
    exact List.perm_singleton.mp hnear

end

end GenieClaw.Library.BestOf
