import GenieClaw.Library.Statements
import Mathlib.Data.List.TakeDrop

/-!
# Reading from a buffered stream

A stream hands out what it has in buffers, and how it is cut into buffers is of no interest to
what reads from it. `Runs x input outcome` says what `x` comes to on an input, however that is
cut: the value that it returns with what it leaves of the input, or its error. There is one rule
for each way to build a program, and the outcome is unique.
-/

namespace GenieClaw.Library

variable {β ε α γ : Type}

/-- What a stream has to hand out, buffer by buffer. An empty buffer is filled again, and
without a next buffer the stream is at its end. -/
abbrev Buffers (β : Type) := List (List β)

namespace Buffered

open Program List

/-- What the program comes to on an input. -/
def Runs (x : Program (Buffers β) ε α) (input : List β) : Except ε (α × List β) → Prop
  | .ok (a, left) => ∀ bs : Buffers β, bs.flatten = input →
      ∃ rest, x bs = (.ok a, rest) ∧ rest.flatten = left
  | .error e => ∀ bs : Buffers β, bs.flatten = input → ∃ rest, x bs = (.error e, rest)

namespace Runs

variable {x : Program (Buffers β) ε α} {f : α → Program (Buffers β) ε γ} {input left : List β}

theorem unique {o o' : Except ε (α × List β)} (h : Runs x input o) (h' : Runs x input o') :
    o = o' := by
  have hflatten : ([input] : Buffers β).flatten = input := append_nil input
  rcases o with e | ⟨a, left⟩
  · obtain ⟨rest, hrun⟩ := h [input] hflatten
    rcases o' with e' | ⟨a', left'⟩
    · obtain ⟨rest', hrun'⟩ := h' [input] hflatten
      rw [hrun] at hrun'
      cases hrun'
      rfl
    · obtain ⟨rest', hrun', -⟩ := h' [input] hflatten
      rw [hrun] at hrun'
      cases hrun'
  · obtain ⟨rest, hrun, hleft⟩ := h [input] hflatten
    rcases o' with e' | ⟨a', left'⟩
    · obtain ⟨rest', hrun'⟩ := h' [input] hflatten
      rw [hrun] at hrun'
      cases hrun'
    · obtain ⟨rest', hrun', hleft'⟩ := h' [input] hflatten
      rw [hrun] at hrun'
      cases hrun'
      rw [← hleft, ← hleft']

theorem iff_eq {o o' : Except ε (α × List β)} (h : Runs x input o) : Runs x input o' ↔ o' = o :=
  ⟨fun h' => h'.unique h, fun heq => heq ▸ h⟩

theorem congr {y : Program (Buffers β) ε α} {o : Except ε (α × List β)} (h : Runs x input o)
    (hxy : ∀ bs : Buffers β, bs.flatten = input → y bs = x bs) : Runs y input o := by
  rcases o with e | ⟨a, left⟩
  · intro bs hbs
    rw [hxy bs hbs]
    exact h bs hbs
  · intro bs hbs
    rw [hxy bs hbs]
    exact h bs hbs

protected theorem pure (a : α) (input : List β) :
    Runs (pure a : Program (Buffers β) ε α) input (.ok (a, input)) :=
  fun bs h => ⟨bs, rfl, h⟩

protected theorem fail (e : ε) (input : List β) :
    Runs (fail e : Program (Buffers β) ε α) input (.error e) :=
  fun bs _ => ⟨bs, rfl⟩

protected theorem bind {a : α} {o : Except ε (γ × List β)} (hx : Runs x input (.ok (a, left)))
    (hf : Runs (f a) left o) : Runs (x >>= f) input o := by
  rcases o with e | ⟨c, left'⟩
  · intro bs h
    obtain ⟨rest, hrun, hrest⟩ := hx bs h
    obtain ⟨rest', hrun'⟩ := hf rest hrest
    exact ⟨rest', (bind_apply_ok hrun).trans hrun'⟩
  · intro bs h
    obtain ⟨rest, hrun, hrest⟩ := hx bs h
    obtain ⟨rest', hrun', hrest'⟩ := hf rest hrest
    exact ⟨rest', (bind_apply_ok hrun).trans hrun', hrest'⟩

protected theorem map {o : Except ε (α × List β)} (hx : Runs x input o) (g : α → γ) :
    Runs (x >>= fun a => (pure (g a) : Program (Buffers β) ε γ)) input
      (o.map fun result => (g result.1, result.2)) := by
  rcases o with e | ⟨a, left⟩
  · intro bs h
    obtain ⟨rest, hrun⟩ := hx bs h
    exact ⟨rest, bind_apply_error hrun⟩
  · exact Runs.bind hx (Runs.pure (g a) left)

theorem bind_error {e : ε} (hx : Runs x input (.error e)) : Runs (x >>= f) input (.error e) := by
  intro bs h
  obtain ⟨rest, hrun⟩ := hx bs h
  exact ⟨rest, bind_apply_error hrun⟩

end Runs

/-! ## A number of items -/

/-- As many items as there are, and no more than this number. -/
def takeUpTo : Nat → Buffers β → List β × Buffers β
  | _, [] => ([], [])
  | n, b :: bs =>
    if n ≤ b.length then (b.take n, b.drop n :: bs)
    else (b ++ (takeUpTo (n - b.length) bs).1, (takeUpTo (n - b.length) bs).2)

theorem takeUpTo_eq (n : Nat) (bs : Buffers β) :
    (takeUpTo n bs).1 = bs.flatten.take n ∧ (takeUpTo n bs).2.flatten = bs.flatten.drop n := by
  induction bs generalizing n with
  | nil => simp [takeUpTo]
  | cons b bs ih =>
    obtain ⟨htake, hdrop⟩ := ih (n - b.length)
    rw [takeUpTo, flatten_cons]
    split
    · rename_i hle
      rw [take_append_of_le_length hle, drop_append_of_le_length hle]
      exact ⟨rfl, rfl⟩
    · rename_i hlong
      rw [take_append, drop_append, take_of_length_le (by omega),
        drop_of_length_le (by omega), nil_append]
      exact ⟨congrArg (b ++ ·) htake, hdrop⟩

def readUpTo (n : Nat) : Program (Buffers β) ε (List β) :=
  fun bs => (.ok (takeUpTo n bs).1, (takeUpTo n bs).2)

/-- `read_exact`: what was there is gone also when it was too short. -/
def readExact (n : Nat) (short : ε) : Program (Buffers β) ε (List β) := do
  let items ← readUpTo n
  if items.length = n then pure items else fail short

theorem runs_readUpTo (n : Nat) (input : List β) :
    Runs (readUpTo n : Program (Buffers β) ε (List β)) input
      (.ok (input.take n, input.drop n)) := by
  rintro bs rfl
  obtain ⟨htake, hdrop⟩ := takeUpTo_eq n bs
  exact ⟨(takeUpTo n bs).2, by rw [readUpTo, htake], hdrop⟩

theorem runs_readExact (short : ε) (items left : List β) :
    Runs (readExact items.length short) (items ++ left) (.ok (items, left)) := by
  have hread := @runs_readUpTo β ε items.length (items ++ left)
  rw [take_left, drop_left] at hread
  refine Runs.bind hread ?_
  rw [if_pos rfl]
  exact Runs.pure items left

theorem readExact_eq_ok {n : Nat} {short : ε} {bs rest : Buffers β} {items : List β}
    (h : readExact n short bs = (.ok items, rest)) :
    items.length = n ∧ bs.flatten = items ++ rest.flatten := by
  obtain ⟨taken, left, hread, h⟩ := bind_eq_ok h
  obtain ⟨htake, hdrop⟩ := takeUpTo_eq n bs
  cases hread
  split at h
  · rename_i hlength
    cases h
    exact ⟨hlength, by rw [htake, hdrop, take_append_drop]⟩
  · cases h

/-! ## Items up to a delimiter -/

section

variable [DecidableEq β]

/-- Items up to and including the first delimiter, or all there are without one. An item beyond
the limit is an error. `line` is what was taken from the buffers before. -/
def readLineFrom (delimiter : β) (limit : Nat) (tooLong : ε) :
    List β → Buffers β → Except ε (List β) × Buffers β
  | line, [] => (.ok line, [])
  | line, b :: bs =>
    if delimiter ∈ b then
      let taken := b.take (b.idxOf delimiter + 1)
      if limit < line.length + taken.length then (.error tooLong, b :: bs)
      else (.ok (line ++ taken), b.drop (b.idxOf delimiter + 1) :: bs)
    else if limit < line.length + b.length then (.error tooLong, b :: bs)
    else readLineFrom delimiter limit tooLong (line ++ b) bs

def readLine (delimiter : β) (limit : Nat) (tooLong : ε) : Program (Buffers β) ε (List β) :=
  readLineFrom delimiter limit tooLong []

variable {delimiter : β} {limit : Nat} {tooLong : ε}

theorem split_at_delimiter {b : List β} (h : delimiter ∈ b) {line left rest : List β}
    (hline : delimiter ∉ line) (hsplit : b ++ rest = line ++ delimiter :: left) :
    b.take (b.idxOf delimiter + 1) = line ++ [delimiter] ∧
      b.drop (b.idxOf delimiter + 1) ++ rest = left := by
  have hidx : b.idxOf delimiter = line.length := by
    have hleft : (b ++ rest).idxOf delimiter = b.idxOf delimiter := idxOf_append_of_mem h
    rw [← hleft, hsplit, idxOf_append_of_notMem hline, idxOf_cons_self, Nat.add_zero]
  have hlt := idxOf_lt_length_of_mem h
  have htake : (b ++ rest).take (line.length + 1) = line ++ [delimiter] := by
    rw [hsplit, take_append, take_of_length_le (Nat.le_succ _),
      Nat.add_sub_cancel_left]
    rfl
  have hdrop : (b ++ rest).drop (line.length + 1) = left := by
    rw [hsplit, drop_append, drop_of_length_le (Nat.le_succ _),
      Nat.add_sub_cancel_left]
    rfl
  rw [hidx] at hlt ⊢
  rw [take_append_of_le_length hlt] at htake
  rw [drop_append_of_le_length hlt] at hdrop
  exact ⟨htake, hdrop⟩

omit [DecidableEq β] in
theorem prefix_of_no_delimiter {b : List β} (h : delimiter ∉ b) {line left rest : List β}
    (hsplit : b ++ rest = line ++ delimiter :: left) :
    ∃ line', line = b ++ line' ∧ rest = line' ++ delimiter :: left := by
  rcases List.append_eq_append_iff.mp hsplit with ⟨more, rfl, hrest⟩ | ⟨more, rfl, hrest⟩
  · exact ⟨more, rfl, hrest⟩
  · cases more with
    | nil => exact ⟨[], by simp, hrest.symm⟩
    | cons c more =>
      cases hrest
      exact absurd (mem_append_right _ mem_cons_self) h

theorem readLineFrom_eq (before : List β) {line left : List β} (hline : delimiter ∉ line)
    {bs : Buffers β} (hbs : bs.flatten = line ++ delimiter :: left)
    (hlimit : before.length + line.length + 1 ≤ limit) :
    ∃ rest, readLineFrom delimiter limit tooLong before bs =
      (.ok (before ++ (line ++ [delimiter])), rest) ∧ rest.flatten = left := by
  induction bs generalizing line before with
  | nil => simp at hbs
  | cons b bs ih =>
    rw [flatten_cons] at hbs
    rw [readLineFrom]
    by_cases hmem : delimiter ∈ b
    · obtain ⟨htake, hdrop⟩ := split_at_delimiter hmem hline hbs
      rw [if_pos hmem]
      dsimp only
      rw [htake, if_neg (by rw [length_append, length_singleton]; omega)]
      exact ⟨_, rfl, hdrop⟩
    · obtain ⟨line, rfl, hrest⟩ := prefix_of_no_delimiter hmem hbs
      rw [length_append] at hlimit
      rw [if_neg hmem, if_neg (by omega)]
      obtain ⟨rest, hrun, hleft⟩ := ih (before ++ b)
        (fun h => hline (mem_append_right _ h)) hrest
        (by rw [length_append]; omega)
      rw [append_assoc] at hrun
      exact ⟨rest, by rw [hrun, append_assoc], hleft⟩

theorem runs_readLine {line : List β} (hline : delimiter ∉ line)
    (hlimit : line.length + 1 ≤ limit) (left : List β) :
    Runs (readLine delimiter limit tooLong) (line ++ [delimiter] ++ left)
      (.ok (line ++ [delimiter], left)) := by
  intro bs h
  rw [append_assoc] at h
  exact readLineFrom_eq [] hline h (by simpa using hlimit)

theorem readLineFrom_shrinks (line : List β) (bs : Buffers β) :
    (readLineFrom delimiter limit tooLong line bs).2.flatten.length ≤ bs.flatten.length := by
  induction bs generalizing line with
  | nil => exact Nat.le_refl _
  | cons b bs ih =>
    rw [readLineFrom, flatten_cons, length_append]
    split
    · dsimp only
      split
      · have hall : (b :: bs).flatten.length ≤ b.length + bs.flatten.length := by simp
        exact hall
      · rw [flatten_cons, length_append, length_drop]
        omega
    · split
      · have hall : (b :: bs).flatten.length ≤ b.length + bs.flatten.length := by simp
        exact hall
      · exact Nat.le_trans (ih _) (Nat.le_add_left _ _)

theorem readLine_shrinks {bs rest : Buffers β} {r : Except ε (List β)}
    (h : readLine delimiter limit tooLong bs = (r, rest)) :
    rest.flatten.length ≤ bs.flatten.length := by
  have hshrinks := @readLineFrom_shrinks β ε _ delimiter limit tooLong [] bs
  rw [readLine] at h
  rwa [h] at hshrinks

theorem runs_readLine_nil : Runs (readLine delimiter limit tooLong) [] (.ok ([], [])) := by
  intro bs h
  suffices ∃ rest, readLineFrom delimiter limit tooLong [] bs = (.ok [], rest) ∧
      rest.flatten = [] from this
  induction bs with
  | nil => exact ⟨[], rfl, rfl⟩
  | cons b bs ih =>
    rw [flatten_cons, append_eq_nil_iff] at h
    obtain ⟨rfl, hrest⟩ := h
    exact ih hrest

end

end Buffered

end GenieClaw.Library
