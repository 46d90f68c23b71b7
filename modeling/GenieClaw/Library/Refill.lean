import GenieClaw.Library.Buffered
import Mathlib.Tactic.Common

/-!
# Filling a buffer from a stream

A stream hands out its items in reads, one after the other. A loop appends what it reads to a
buffer until the buffer holds what it waits for, and gives up when the buffer grows beyond a
limit. What it comes to depends on the cuts, the places between two reads: the limit is compared
at the cuts inside of what the loop waits for, and nowhere else.

* `fill_spec`: a part comes in whole, with what arrived together with its end, or the loop gives up.
-/

namespace GenieClaw.Library.Refill

open List
variable {β ε : Type}

/-- The place in the stream behind the first `k` reads. -/
def cut (reads : Buffers β) (k : Nat) : Nat := (reads.take k).flatten.length

/-- At some cut inside of the part from `a` to `b`, more than the limit has been received: `base`
items from before and what is there of the part. -/
def Overrun (limit base : Nat) (reads : Buffers β) (a b : Nat) : Prop :=
  ∃ k < reads.length + 1, a ≤ cut reads k ∧ cut reads k < b ∧ limit < base + (cut reads k - a)

instance (limit base : Nat) (reads : Buffers β) (a b : Nat) :
    Decidable (Overrun limit base reads a b) := by
  unfold Overrun
  infer_instance

/-- The buffer and the remaining reads with the stream consumed up to `q`: the reads taken are
those it took to get there. -/
structure Received (reads : Buffers β) (q : Nat) (buf : List β) (rest : Buffers β) (k : Nat) :
    Prop where
  rest : rest = reads.drop k
  buf : buf = (reads.take k).flatten.drop q
  reached : q ≤ cut reads k
  count : k ≤ reads.length
  least : ∀ j < k, cut reads j < q

/-! ## The loops -/

section

variable (done beyond : List β → Bool) (large short : ε)

/-- Read until the buffer is `done`. A read of nothing is the end of the stream. -/
def fillFrom : List β → Buffers β → Except ε (List β) × Buffers β
  | buf, [] =>
    if done buf then (.ok buf, [])
    else if beyond buf then (.error large, [])
    else (.error short, [])
  | buf, r :: rest =>
    if done buf then (.ok buf, r :: rest)
    else if beyond buf then (.error large, r :: rest)
    else if r = [] then (.error short, rest)
    else fillFrom (buf ++ r) rest

def fill (buf : List β) : Program (Buffers β) ε (List β) := fillFrom done beyond large short buf

/-- Read to the end of the stream. -/
def drainFrom : List β → Buffers β → Except ε (List β) × Buffers β
  | buf, [] => if beyond buf then (.error large, []) else (.ok buf, [])
  | buf, r :: rest =>
    if beyond buf then (.error large, r :: rest)
    else if r = [] then (.ok buf, rest)
    else drainFrom (buf ++ r) rest

def drain (buf : List β) : Program (Buffers β) ε (List β) := drainFrom beyond large buf

end

/-! ## Cuts -/

section

variable {reads : Buffers β} {q a b k limit base : Nat} {buf : List β} {rest : Buffers β}

theorem cut_length (reads : Buffers β) : cut reads reads.length = reads.flatten.length := by
  rw [cut, take_length]

theorem take_succ_flatten {r : List β} (h : reads.drop k = r :: rest) :
    (reads.take (k + 1)).flatten = (reads.take k).flatten ++ r := by
  have hget : reads[k]? = some r := by
    rw [← Nat.add_zero k, ← getElem?_drop, h]
    rfl
  rw [take_add_one, hget, flatten_append]
  simp

theorem cut_mono (reads : Buffers β) {j k : Nat} (h : j ≤ k) : cut reads j ≤ cut reads k := by
  have hprefix : reads.take j <+: reads.take k := take_prefix_take_left h
  obtain ⟨more, hmore⟩ := hprefix
  rw [cut, cut, ← hmore, flatten_append, length_append]
  exact Nat.le_add_right _ _

theorem Received.start (reads : Buffers β) : Received reads 0 [] reads 0 where
  rest := rfl
  buf := rfl
  reached := Nat.zero_le _
  count := Nat.zero_le _
  least j hj := absurd hj (Nat.not_lt_zero j)

theorem Received.flatten (h : Received reads q buf rest k) :
    buf ++ rest.flatten = reads.flatten.drop q := by
  have hall : (reads.take k).flatten ++ (reads.drop k).flatten = reads.flatten := by
    rw [← flatten_append, take_append_drop]
  rw [h.buf, h.rest, ← hall, drop_append_of_le_length h.reached]

/-! ## One part of the stream -/

/-- The loop on its way through the part from `a` to `b`, not given up so far. -/
structure Filling (limit base : Nat) (reads : Buffers β) (a b k : Nat) : Prop where
  reached : a ≤ cut reads k
  count : k ≤ reads.length
  inside : ∀ j < k, cut reads j < b
  within : ∀ j < k, a ≤ cut reads j → ¬ limit < base + (cut reads j - a)

theorem Received.filling (h : Received reads a buf rest k) (hab : a < b) :
    Filling limit base reads a b k where
  reached := h.reached
  count := h.count
  inside j hj := Nat.lt_trans (h.least j hj) hab
  within j hj hreached := absurd (h.least j hj) (Nat.not_lt.mpr hreached)

theorem Filling.next (h : Filling limit base reads a b k) (hinside : cut reads k < b)
    (hwithin : ¬ limit < base + (cut reads k - a)) (hmore : k < reads.length) :
    Filling limit base reads a b (k + 1) where
  reached := Nat.le_trans h.reached (cut_mono reads (Nat.le_succ k))
  count := hmore
  inside j hj := (Nat.lt_succ_iff_lt_or_eq.mp hj).elim (h.inside j) fun heq => heq ▸ hinside
  within j hj hreached := (Nat.lt_succ_iff_lt_or_eq.mp hj).elim
    (fun hlt => h.within j hlt hreached) fun heq => heq ▸ hwithin

/-- What the loop waits for is the part up to `b`, and it gives up beyond the limit. -/
structure Waits (done beyond : List β → Bool) (limit base : Nat) (reads : Buffers β)
    (a b : Nat) : Prop where
  done_iff : ∀ x, x <+: reads.flatten.drop a → (done x = true ↔ b - a ≤ x.length)
  beyond_iff : ∀ x, beyond x = true ↔ limit < base + x.length
  within : b ≤ reads.flatten.length

variable {done beyond : List β → Bool} {large short : ε}

theorem fillFrom_done (rest : Buffers β) (h : done buf = true) :
    fillFrom done beyond large short buf rest = (.ok buf, rest) := by
  cases rest <;> rw [fillFrom, if_pos h]

theorem fillFrom_over (rest : Buffers β) (h : ¬ done buf = true) (hover : beyond buf = true) :
    fillFrom done beyond large short buf rest = (.error large, rest) := by
  cases rest <;> rw [fillFrom, if_neg h, if_pos hover]

theorem fillFrom_next {r : List β} (rest : Buffers β) (h : ¬ done buf = true)
    (hover : ¬ beyond buf = true) (hr : r ≠ []) :
    fillFrom done beyond large short buf (r :: rest) =
      fillFrom done beyond large short (buf ++ r) rest := by
  rw [fillFrom, if_neg h, if_neg hover, if_neg hr]

theorem Filling.received_prefix (h : Filling limit base reads a b k) :
    (reads.take k).flatten.drop a <+: reads.flatten.drop a := by
  have hall : (reads.take k).flatten ++ (reads.drop k).flatten = reads.flatten := by
    rw [← flatten_append, take_append_drop]
  rw [← hall, drop_append_of_le_length h.reached]
  exact prefix_append _ _

variable (done beyond large short) in
/-- Where the loop comes to: it gives up at the first cut inside of the part that is over the
limit, and stops at the first cut behind the part if there is none. -/
def Fills (limit base : Nat) (reads : Buffers β) (a b k : Nat) : Prop :=
  let filled := fillFrom done beyond large short ((reads.take k).flatten.drop a) (reads.drop k)
  (Overrun limit base reads a b → ∃ rest, filled = (.error large, rest)) ∧
    (¬ Overrun limit base reads a b → ∃ k',
      filled = (.ok ((reads.take k').flatten.drop a), reads.drop k') ∧
        Filling limit base reads a b k' ∧ b ≤ cut reads k')

theorem fillFrom_behind (hwaits : Waits done beyond limit base reads a b)
    (h : Filling limit base reads a b k) (hend : b ≤ cut reads k) :
    Fills done beyond large short limit base reads a b k := by
  have hdone : done ((reads.take k).flatten.drop a) = true := by
    rw [hwaits.done_iff _ h.received_prefix, length_drop]
    exact Nat.sub_le_sub_right hend a
  unfold Fills
  rw [fillFrom_done _ hdone]
  refine ⟨?_, fun _ => ⟨k, rfl, h, hend⟩⟩
  rintro ⟨j, -, hreached, hinside, hover⟩
  have hj : j < k := by
    by_contra hle
    have := cut_mono reads (Nat.not_lt.mp hle)
    omega
  exact absurd hover (h.within j hj hreached)

theorem fillFrom_spec (hreads : ∀ r ∈ reads, r ≠ [])
    (hwaits : Waits done beyond limit base reads a b) (h : Filling limit base reads a b k) :
    Fills done beyond large short limit base reads a b k := by
  -- by the number of reads that are left
  induction hleft : reads.length - k generalizing k with
  | zero =>
    have hk : k = reads.length := Nat.le_antisymm h.count (Nat.sub_eq_zero_iff_le.mp hleft)
    have hend : b ≤ cut reads k := by
      rw [hk, cut_length]
      exact hwaits.within
    exact fillFrom_behind hwaits h hend
  | succ n ih =>
    by_cases hend : b ≤ cut reads k
    · exact fillFrom_behind hwaits h hend
    · have hdone : ¬ done ((reads.take k).flatten.drop a) = true := by
        rw [hwaits.done_iff _ (h.received_prefix), length_drop]
        exact fun hle => hend (by have := h.reached; unfold cut at *; omega)
      have hlength : ((reads.take k).flatten.drop a).length = cut reads k - a := length_drop
      by_cases hover : limit < base + (cut reads k - a)
      · rw [← hlength, ← hwaits.beyond_iff] at hover
        unfold Fills
        rw [fillFrom_over _ hdone hover]
        refine ⟨fun _ => ⟨_, rfl⟩, fun hnone => absurd ⟨k, ?_⟩ hnone⟩
        rw [hwaits.beyond_iff, hlength] at hover
        exact ⟨Nat.lt_succ_of_le h.count, h.reached, Nat.not_le.mp hend, hover⟩
      · have hmore : k < reads.length := by omega
        have hnext := ih (h.next (Nat.not_le.mp hend) hover hmore) (by omega)
        have hsplit : reads.drop k = reads[k] :: reads.drop (k + 1) :=
          drop_eq_getElem_cons hmore
        rw [← hlength, ← hwaits.beyond_iff] at hover
        unfold Fills
        rw [hsplit, fillFrom_next _ hdone hover (hreads _ (getElem_mem hmore)),
          ← drop_append_of_le_length h.reached, ← take_succ_flatten hsplit]
        exact hnext

/-- Without a cut over the limit the part comes in whole, with what arrived together with its
end. -/
theorem fill_spec (hreads : ∀ r ∈ reads, r ≠ []) (h : Received reads a buf rest k) (hab : a < b)
    (hwaits : Waits done beyond limit base reads a b) {part more : List β}
    (hstream : reads.flatten.drop a = part ++ more) (hlength : part.length = b - a) :
    (Overrun limit base reads a b →
        ∃ rest', fill done beyond large short buf rest = (.error large, rest')) ∧
      (¬ Overrun limit base reads a b → ∃ left rest' k',
        fill done beyond large short buf rest = (.ok (part ++ left), rest') ∧
          Received reads b left rest' k') := by
  rw [h.buf, h.rest]
  have hfills : Fills done beyond large short limit base reads a b k :=
    fillFrom_spec hreads hwaits (h.filling hab)
  obtain ⟨hover, hstops⟩ := hfills
  refine ⟨hover, fun hnone => ?_⟩
  obtain ⟨k', hrun, hfilling, hend⟩ := hstops hnone
  obtain ⟨behind, hbehind⟩ := hfilling.received_prefix
  have hreceived : b - a ≤ ((reads.take k').flatten.drop a).length := by
    rw [length_drop]
    exact Nat.sub_le_sub_right hend a
  have hpart : ((reads.take k').flatten.drop a).take (b - a) = part := by
    have htake := @take_append_of_le_length _ _ behind _ hreceived
    rw [← htake, hbehind, hstream, ← hlength, take_left]
  have hab' : a + (b - a) = b := by omega
  refine ⟨((reads.take k').flatten.drop a).drop (b - a), reads.drop k', k', ?_, {
    rest := rfl
    buf := by rw [drop_drop, hab']
    reached := hend
    count := hfilling.count
    least := hfilling.inside }⟩
  rw [← hpart, take_append_drop]
  exact hrun

theorem drain_eq (hrest : ∀ r ∈ rest, r ≠ []) (hover : ∀ x, beyond x = true ↔ limit < x.length) :
    ∃ left, drain beyond large buf rest =
      (if limit < (buf ++ rest.flatten).length then .error large
        else .ok (buf ++ rest.flatten), left) := by
  unfold drain
  induction rest generalizing buf with
  | nil =>
    refine ⟨[], ?_⟩
    simp only [drainFrom, hover, flatten_nil, append_nil]
    split_ifs <;> rfl
  | cons r rest ih =>
    rw [drainFrom]
    by_cases hlarge : limit < buf.length
    · refine ⟨r :: rest, ?_⟩
      have hall : limit < (buf ++ (r :: rest).flatten).length := by
        rw [length_append]
        omega
      rw [if_pos ((hover buf).mpr hlarge), if_pos hall]
    · have hlater : ∀ r ∈ rest, r ≠ [] := fun r hr => hrest r (mem_cons_of_mem _ hr)
      obtain ⟨left, hrun⟩ := @ih (buf ++ r) hlater
      refine ⟨left, ?_⟩
      rw [if_neg fun h => hlarge ((hover buf).mp h), if_neg (hrest r mem_cons_self), hrun,
        flatten_cons, append_assoc]

end

end GenieClaw.Library.Refill
