import GenieClaw.Http.BoundedLine
import GenieClaw.Http.Headers

/-!
# Where a head ends

The header loop on a stream of any bytes. It ends at the first line that is blank, and a line that
the end of the stream cuts off is a line for it like the others. `HeadRead` says what it has seen
when it returns.

* `readHeaders_ok`: what the loop has read when it returns, by induction on its turns.
* `readHeaderLines_ok`, `HeadRead.runs`: and from where it goes on.
-/

namespace GenieClaw.Http

open Library Library.Buffered Library.Program Library.Text List

def carriageReturn : UInt8 := 13

/-- A line with its line feed. -/
def Terminated (line : List UInt8) : Prop := ∃ text, newline ∉ text ∧ line = text ++ [newline]

/-- What the loop takes for the end of the head. -/
def Blank (line : List UInt8) : Prop := trimLineEnd (fromUtf8Lossy line) = ""

instance (line : List UInt8) : Decidable (Blank line) := inferInstanceAs (Decidable (_ = _))

/-! ## Blank lines -/

theorem eq_encode_of_lossy {bytes : List UInt8} (h : Char.ofNat 0xFFFD ∉ lossy bytes) :
    bytes = (lossy bytes).flatMap String.utf8EncodeChar := by
  induction hn : bytes.length using Nat.strong_induction_on generalizing bytes with
  | _ n ih =>
    cases bytes with
    | nil => rfl
    | cons b bs =>
      cases hdecode : decodeChar? (b :: bs) with
      | some d =>
        obtain ⟨rest, hbytes⟩ := exists_of_decodeChar? hdecode
        have hshort : rest.length < n := by
          have hlength := congrArg List.length hbytes
          rw [length_append, String.length_utf8EncodeChar] at hlength
          have := d.utf8Size_pos
          omega
        rw [hbytes, lossy_encode, mem_cons, not_or] at h
        rw [hbytes, lossy_encode, flatMap_cons, ← ih rest.length hshort h.2 rfl]
      | none =>
        rw [lossy_invalid hdecode] at h
        exact absurd mem_cons_self h

theorem trimLineEnd_eq_empty {text : String} :
    trimLineEnd text = "" ↔ ∀ c ∈ text.toList, c = '\r' ∨ c = '\n' := by
  rw [trimLineEnd, String.ofList_eq_empty_iff, List.rdropWhile_eq_nil_iff]
  simp

theorem blank_iff {line : List UInt8} :
    Blank line ↔ ∀ b ∈ line, b = carriageReturn ∨ b = newline := by
  rw [Blank, trimLineEnd_eq_empty, fromUtf8Lossy_eq, String.toList_ofList]
  constructor
  · intro h b hb
    have hread : Char.ofNat 0xFFFD ∉ lossy line := by
      intro hmem
      rcases h _ hmem with heq | heq
      · exact absurd heq (by decide)
      · exact absurd heq (by decide)
    rw [eq_encode_of_lossy hread, mem_flatMap] at hb
    obtain ⟨c, hc, hb⟩ := hb
    rcases h c hc with rfl | rfl
    · exact .inl (List.mem_singleton.mp hb)
    · exact .inr (List.mem_singleton.mp hb)
  · intro h
    induction line with
    | nil => simp [lossy_nil]
    | cons b bs ih =>
      have hrest := ih fun b' hb' => h b' (mem_cons_of_mem b hb')
      have hascii : b.toNat < 128 := by
        rcases h b mem_cons_self with rfl | rfl
        · decide
        · decide
      have hcut := lossy_append_ascii [] hascii bs
      rw [nil_append, lossy_nil, nil_append] at hcut
      rw [hcut, forall_mem_cons]
      refine ⟨?_, hrest⟩
      rcases h b mem_cons_self with rfl | rfl
      · exact .inl (by decide)
      · exact .inr (by decide)

/-! ## Lines of a stream -/

variable {line left input : List UInt8}

theorem Terminated.ne_nil (h : Terminated line) : line ≠ [] := by
  obtain ⟨text, -, rfl⟩ := h
  simp

theorem Terminated.newline_mem (h : Terminated line) : newline ∈ line := by
  obtain ⟨text, -, rfl⟩ := h
  simp

theorem Terminated.firstLine_append (h : Terminated line) (left : List UInt8) :
    firstLine (line ++ left) = line := by
  obtain ⟨text, htext, rfl⟩ := h
  have hmem : newline ∈ text ++ [newline] := by simp
  rw [firstLine_append_of_mem hmem, idxOf_append_of_notMem htext, idxOf_cons_self,
    take_of_length_le (by simp)]

theorem firstLine_cases (input : List UInt8) :
    (Terminated (firstLine input) ∧
        input = firstLine input ++ input.drop (firstLine input).length) ∨
      (newline ∉ input ∧ firstLine input = input) := by
  by_cases hmem : newline ∈ input
  · left
    obtain ⟨text, rest, rfl, htext⟩ := eq_append_cons_of_mem hmem
    have hterminated : Terminated (text ++ [newline]) := ⟨text, htext, rfl⟩
    have hfirst := hterminated.firstLine_append rest
    rw [append_cons, hfirst, drop_left]
    exact ⟨hterminated, rfl⟩
  · right
    rw [firstLine, idxOf_eq_length hmem, take_of_length_le (Nat.le_succ _)]
    exact ⟨hmem, rfl⟩

variable {pieces rest : Buffers UInt8}

theorem readLineBounded_ok {maxBytes : Nat} {tooLong : HttpReadError}
    (h : readLineBounded maxBytes tooLong pieces = (.ok line, rest)) :
    line = firstLine pieces.flatten ∧ line.length ≤ maxBytes ∧
      rest.flatten = pieces.flatten.drop line.length := by
  by_cases hfits : (firstLine pieces.flatten).length ≤ maxBytes
  · obtain ⟨rest', hrun, hleft⟩ := @runs_readLineBounded _ maxBytes tooLong hfits pieces rfl
    rw [h] at hrun
    cases hrun
    exact ⟨rfl, hfits, hleft⟩
  · obtain ⟨rest', hrun⟩ :=
      @runs_readLineBounded_long _ maxBytes tooLong (Nat.not_le.mp hfits) pieces rfl
    rw [h] at hrun
    cases hrun

/-! ## The loop -/

section

variable {σ : Type} (limits : HeaderLimits) (count : σ → Nat)
  (accept : σ → String → Except HttpReadError σ)

/-- The limits leave room for the line. -/
def Room (st : σ) (total : Nat) (line : List UInt8) : Prop :=
  count st < limits.maxCount ∧ line.length ≤ limits.maxLineBytes ∧
    saturatingAdd usizeMax total line.length ≤ limits.maxBytes

instance (st : σ) (total : Nat) (line : List UInt8) : Decidable (Room limits count st total line) :=
  inferInstanceAs (Decidable (_ ∧ _))

/-- The loop takes the line, which is not blank, in the state. -/
def takeLine (st : σ) (total : Nat) (line : List UInt8) : Option (σ × Nat) :=
  if Room limits count st total line then
    match accept st (trimLineEnd (fromUtf8Lossy line)) with
    | .ok next => some (next, saturatingAdd usizeMax total line.length)
    | .error _ => none
  else none

def takeLines (st : σ) (total : Nat) : List (List UInt8) → Option (σ × Nat)
  | [] => some (st, total)
  | line :: lines => (takeLine limits count accept st total line).bind fun taken =>
    takeLines taken.1 taken.2 lines

/-- The head that the loop has read of a stream when it returns. -/
structure HeadRead (st : σ) (total : Nat) (input : List UInt8) (lines : List (List UInt8))
    (last : List UInt8) (final : σ) (left : List UInt8) : Prop where
  split : input = lines.flatten ++ (last ++ left)
  terminated : ∀ line ∈ lines, Terminated line
  solid : ∀ line ∈ lines, ¬ Blank line
  blank : Blank last
  first : firstLine (last ++ left) = last
  nonempty : last ≠ []
  taken : ∃ total', takeLines limits count accept st total lines = some (final, total') ∧
    Room limits count final total' last

variable {limits count accept} {st final : σ} {total fuel : Nat}

theorem takeLine_eq_some {next : σ} {total' : Nat}
    (h : takeLine limits count accept st total line = some (next, total')) :
    Room limits count st total line ∧ accept st (trimLineEnd (fromUtf8Lossy line)) = .ok next ∧
      total' = saturatingAdd usizeMax total line.length := by
  unfold takeLine at h
  split_ifs at h with hroom
  cases haccept : accept st (trimLineEnd (fromUtf8Lossy line)) with
  | error e =>
    rw [haccept] at h
    cases h
  | ok next' =>
    rw [haccept] at h
    cases h
    exact ⟨hroom, rfl, rfl⟩

theorem readHeaders_turn
    (h : readHeaders limits count accept (fuel + 1) st total pieces = (.ok final, rest)) :
    ∃ line rest', line = firstLine pieces.flatten ∧ line ≠ [] ∧
      rest'.flatten = pieces.flatten.drop line.length ∧ Room limits count st total line ∧
      ((Blank line ∧ final = st ∧ rest = rest') ∨
        (¬ Blank line ∧ ∃ next, takeLine limits count accept st total line =
            some (next, saturatingAdd usizeMax total line.length) ∧
          readHeaders limits count accept fuel next (saturatingAdd usizeMax total line.length)
            rest' =
            (.ok final, rest))) := by
  rw [readHeaders] at h
  by_cases hfull : limits.maxCount ≤ count st
  · rw [if_pos hfull] at h
    cases h
  · rw [if_neg hfull] at h
    obtain ⟨line, rest', hread, h⟩ := bind_eq_ok h
    obtain ⟨hline, hlength, hrest⟩ := readLineBounded_ok hread
    by_cases hnil : line = []
    · rw [if_pos hnil] at h
      cases h
    · rw [if_neg hnil] at h
      by_cases hlarge : limits.maxBytes < saturatingAdd usizeMax total line.length
      · rw [if_pos hlarge] at h
        cases h
      · rw [if_neg hlarge] at h
        have hroom : Room limits count st total line :=
          ⟨Nat.not_le.mp hfull, hlength, Nat.not_lt.mp hlarge⟩
        refine ⟨line, rest', hline, hnil, hrest, hroom, ?_⟩
        by_cases hblank : trimLineEnd (fromUtf8Lossy line) = ""
        · rw [if_pos hblank] at h
          cases h
          exact .inl ⟨hblank, rfl, rfl⟩
        · rw [if_neg hblank] at h
          right
          refine ⟨hblank, ?_⟩
          unfold takeLine
          rw [if_pos hroom]
          cases haccept : accept st (trimLineEnd (fromUtf8Lossy line)) with
          | error e =>
            rw [haccept] at h
            cases h
          | ok next =>
            rw [haccept] at h
            exact ⟨next, rfl, h⟩

/-- By induction on the turns. A line without its line feed is the last, and no turn returns
behind it. -/
theorem readHeaders_ok
    (h : readHeaders limits count accept fuel st total pieces = (.ok final, rest)) :
    ∃ lines last, HeadRead limits count accept st total pieces.flatten lines last final
      rest.flatten := by
  induction fuel generalizing st total pieces with
  | zero => cases h
  | succ fuel ih =>
    obtain ⟨line, rest', hline, hnil, hrest, hroom, hturn⟩ := readHeaders_turn h
    have hinput : pieces.flatten = line ++ rest'.flatten := by
      rw [hrest, hline]
      rcases firstLine_cases pieces.flatten with ⟨-, hsplit⟩ | ⟨-, hall⟩
      · exact hsplit
      · rw [hall, drop_length, append_nil]
    rcases hturn with ⟨hblank, rfl, rfl⟩ | ⟨hsolid, next, htake, hnext⟩
    · refine ⟨[], line, ?_⟩
      exact {
        split := hinput
        terminated := by simp
        solid := by simp
        blank := hblank
        first := by rw [← hinput, hline]
        nonempty := hnil
        taken := ⟨total, rfl, hroom⟩ }
    · obtain ⟨lines, last, hread⟩ := ih hnext
      obtain ⟨total', htaken, hroom'⟩ := hread.taken
      have hterminated : Terminated line := by
        rcases firstLine_cases pieces.flatten with ⟨hterminated, -⟩ | ⟨-, hall⟩
        · rw [hline]
          exact hterminated
        · have hempty : rest'.flatten = [] := by
            rw [hrest, hline, hall, drop_length]
          have hsplit := hread.split
          rw [hempty] at hsplit
          have hnone := (List.append_eq_nil_iff.mp hsplit.symm).2
          exact absurd (List.append_eq_nil_iff.mp hnone).1 hread.nonempty
      refine ⟨line :: lines, last, ?_⟩
      exact {
        split := by rw [flatten_cons, append_assoc, ← hread.split, hinput]
        terminated := List.forall_mem_cons.mpr ⟨hterminated, hread.terminated⟩
        solid := List.forall_mem_cons.mpr ⟨hsolid, hread.solid⟩
        blank := hread.blank
        first := hread.first
        nonempty := hread.nonempty
        taken := ⟨total', by rw [takeLines, htake]; exact htaken, hroom'⟩ }

theorem HeadRead.runs_headers {lines : List (List UInt8)} {last : List UInt8}
    (h : HeadRead limits count accept st total input lines last final left)
    (hfuel : lines.length < fuel) :
    Runs (readHeaders limits count accept fuel st total) input (.ok (final, left)) := by
  induction lines generalizing st total input fuel with
  | nil =>
    obtain ⟨fuel, rfl⟩ : ∃ n, fuel = n + 1 := ⟨fuel - 1, by omega⟩
    obtain ⟨total', htaken, hcount, hlength, htotal⟩ := h.taken
    cases htaken
    have hread := @runs_readLineBounded input limits.maxLineBytes .headerLineTooLong
    rw [h.split, flatten_nil, nil_append, h.first, drop_left] at hread
    rw [readHeaders, if_neg (Nat.not_le.mpr hcount), h.split, flatten_nil, nil_append]
    refine Runs.bind (hread hlength) ?_
    have hblank : trimLineEnd (fromUtf8Lossy last) = "" := h.blank
    rw [if_neg h.nonempty, if_neg (Nat.not_lt.mpr htotal), if_pos hblank]
    exact Runs.pure final left
  | cons line lines ih =>
    obtain ⟨fuel, rfl⟩ : ∃ n, fuel = n + 1 := ⟨fuel - 1, by omega⟩
    obtain ⟨total', htaken, hroom⟩ := h.taken
    rw [takeLines] at htaken
    obtain ⟨⟨next, total₁⟩, htake, htaken⟩ := Option.bind_eq_some_iff.mp htaken
    obtain ⟨⟨hcount, hlength, htotal⟩, haccept, rfl⟩ := takeLine_eq_some htake
    obtain ⟨hterminated, hrestTerminated⟩ := List.forall_mem_cons.mp h.terminated
    obtain ⟨hsolid, hrestSolid⟩ := List.forall_mem_cons.mp h.solid
    have hinput : input = line ++ (lines.flatten ++ (last ++ left)) := by
      rw [h.split, flatten_cons, append_assoc]
    have hrest : HeadRead limits count accept next (saturatingAdd usizeMax total line.length)
        (lines.flatten ++ (last ++ left)) lines last final left := {
      split := rfl
      terminated := hrestTerminated
      solid := hrestSolid
      blank := h.blank
      first := h.first
      nonempty := h.nonempty
      taken := ⟨total', htaken, hroom⟩ }
    have hread := @runs_readLineBounded input limits.maxLineBytes .headerLineTooLong
    rw [hinput, hterminated.firstLine_append, drop_left] at hread
    rw [readHeaders, if_neg (Nat.not_le.mpr hcount), hinput]
    refine Runs.bind (hread hlength) ?_
    have hsolid : ¬ trimLineEnd (fromUtf8Lossy line) = "" := hsolid
    rw [if_neg hterminated.ne_nil, if_neg (Nat.not_lt.mpr htotal), if_neg hsolid, haccept]
    exact ih hrest (Nat.lt_of_succ_lt_succ hfuel)

theorem readHeaderLines_ok (h : readHeaderLines limits count accept st pieces = (.ok final, rest)) :
    ∃ lines last, HeadRead limits count accept st 0 pieces.flatten lines last final
      rest.flatten :=
  readHeaders_ok h

theorem HeadRead.runs {lines : List (List UInt8)} {last : List UInt8}
    (h : HeadRead limits count accept st 0 input lines last final left) :
    Runs (readHeaderLines limits count accept st) input (.ok (final, left)) := by
  have hlines : lines.length ≤ lines.flatten.length := by
    have hmap := @length_le_flatMap _ _ id lines fun line hline => (h.terminated line hline).ne_nil
    rwa [flatMap_id] at hmap
  have hfuel : lines.length < input.length + 1 := by
    rw [h.split, length_append]
    omega
  exact (h.runs_headers hfuel).congr fun pieces hpieces => by rw [readHeaderLines, hpieces]

end

end GenieClaw.Http
