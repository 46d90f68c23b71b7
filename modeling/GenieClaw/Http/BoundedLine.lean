import GenieClaw.Http.Reader

/-!
# One line at most so long

`read_line_bounded` with all that it touches: what it appends to its buffer, turn by turn, and
what it leaves in the reader. The bytes come in pieces, and how they are cut does not matter.

* `readLineInto_law`: the reader, turn by turn, with its buffer within the limit.
* `readLineInto_lawful` (no assumption): the first line is read if it fits and refused if not.
-/

namespace GenieClaw.Http

open Library Library.Buffered List

/-- The bytes up to and including the first line feed, or all there are without one. -/
def firstLine (input : List UInt8) : List UInt8 := input.take (input.idxOf newline + 1)

/-- What a call of `read_line_bounded` comes to, and what `out` held on the way. -/
structure LineRun where
  answer : Except HttpReadError Nat
  out : List UInt8
  reader : Buffers UInt8
  held : List (List UInt8)

/-- The loop of `read_line_bounded`; `start` is the length of `out` at the call. -/
def readLineInto (maxBytes : Nat) (tooLong : HttpReadError) (start : Nat) :
    List UInt8 → Buffers UInt8 → LineRun
  | out, [] => ⟨.ok (out.length - start), out, [], [out]⟩
  | out, available :: rest =>
    match available.findIdx? (· == newline) with
    | some idx =>
      let take := idx + 1
      if maxBytes < (out.length - start) + take then
        ⟨.error tooLong, out, available :: rest, [out]⟩
      else
        let extended := out ++ available.take take
        ⟨.ok (extended.length - start), extended, available.drop take :: rest, [out, extended]⟩
    | none =>
      let take := available.length
      if maxBytes < (out.length - start) + take then
        ⟨.error tooLong, out, available :: rest, [out]⟩
      else
        let run := readLineInto maxBytes tooLong start (out ++ available) rest
        { run with held := out :: run.held }

/-! ## The first line -/

variable {available rest input : List UInt8}

theorem firstLine_append_of_mem (h : newline ∈ available) (rest : List UInt8) :
    firstLine (available ++ rest) = available.take (available.idxOf newline + 1) := by
  have hidx := idxOf_lt_length_of_mem h
  rw [firstLine, idxOf_append_of_mem h, take_append_of_le_length hidx]

theorem firstLine_append_of_notMem (h : newline ∉ available) (rest : List UInt8) :
    firstLine (available ++ rest) = available ++ firstLine rest := by
  rw [firstLine, idxOf_append_of_notMem h, Nat.add_assoc, take_length_add_append]
  rfl

theorem findIdx?_eq_some_of_mem (h : newline ∈ available) :
    available.findIdx? (· == newline) = some (available.idxOf newline) := by
  rw [findIdx?_eq_some_iff_findIdx_eq]
  exact ⟨idxOf_lt_length_of_mem h, rfl⟩

theorem findIdx?_eq_none_of_notMem (h : newline ∉ available) :
    available.findIdx? (· == newline) = none := by
  rw [findIdx?_eq_none_iff]
  intro b hb
  exact beq_eq_false_iff_ne.mpr fun heq => h (heq ▸ hb)

/-! ## The loop -/

section

variable {maxBytes start : Nat} {tooLong : HttpReadError} {out : List UInt8}

theorem readLineInto_found (h : newline ∈ available) (pieces : Buffers UInt8) :
    readLineInto maxBytes tooLong start out (available :: pieces) =
      if maxBytes < (out.length - start) + (available.idxOf newline + 1) then
        ⟨.error tooLong, out, available :: pieces, [out]⟩
      else
        let extended := out ++ available.take (available.idxOf newline + 1)
        ⟨.ok (extended.length - start), extended,
          available.drop (available.idxOf newline + 1) :: pieces, [out, extended]⟩ := by
  rw [readLineInto, findIdx?_eq_some_of_mem h]

theorem readLineInto_more (h : newline ∉ available) (pieces : Buffers UInt8) :
    readLineInto maxBytes tooLong start out (available :: pieces) =
      if maxBytes < (out.length - start) + available.length then
        ⟨.error tooLong, out, available :: pieces, [out]⟩
      else
        let run := readLineInto maxBytes tooLong start (out ++ available) pieces
        { run with held := out :: run.held } := by
  rw [readLineInto, findIdx?_eq_none_of_notMem h]

/-- What the loop does with `already` bytes of the line in its buffer. -/
structure LineLaw (maxBytes : Nat) (tooLong : HttpReadError) (start : Nat) (out : List UInt8)
    (pieces : Buffers UInt8) (run : LineRun) : Prop where
  fits : (out.length - start) + (firstLine pieces.flatten).length ≤ maxBytes →
    run.answer = .ok ((out.length - start) + (firstLine pieces.flatten).length) ∧
      run.out = out ++ firstLine pieces.flatten ∧
      run.reader.flatten = pieces.flatten.drop (firstLine pieces.flatten).length
  tooLong : maxBytes < (out.length - start) + (firstLine pieces.flatten).length →
    run.answer = .error tooLong
  held : ∀ buffer ∈ run.held, buffer.length ≤ start + maxBytes

/-- By induction on the pieces; the buffer is within the limit whenever a turn begins. -/
theorem readLineInto_law (hstart : start ≤ out.length) (hroom : out.length ≤ start + maxBytes)
    (pieces : Buffers UInt8) :
    LineLaw maxBytes tooLong start out pieces
      (readLineInto maxBytes tooLong start out pieces) := by
  induction pieces generalizing out with
  | nil =>
    have hnone : firstLine ([] : Buffers UInt8).flatten = [] := rfl
    constructor
    · rw [hnone]
      exact fun _ => ⟨rfl, (append_nil out).symm, rfl⟩
    · rw [hnone, length_nil]
      omega
    · intro buffer hbuffer
      rw [List.mem_singleton.mp hbuffer]
      exact hroom
  | cons available pieces ih =>
    have hout : ∀ buffer ∈ [out], buffer.length ≤ start + maxBytes := by
      intro buffer hbuffer
      rw [List.mem_singleton.mp hbuffer]
      exact hroom
    by_cases hmem : newline ∈ available
    · have hidx := idxOf_lt_length_of_mem hmem
      have hline := firstLine_append_of_mem hmem pieces.flatten
      have hlength : (available.take (available.idxOf newline + 1)).length =
          available.idxOf newline + 1 := length_take_of_le hidx
      rw [readLineInto_found hmem]
      split_ifs with hlong
      · refine ⟨fun hfits => ?_, fun _ => rfl, hout⟩
        rw [flatten_cons, hline, hlength] at hfits
        omega
      · refine ⟨fun _ => ?_, fun hover => ?_, ?_⟩
        · rw [flatten_cons, hline]
          refine ⟨congrArg Except.ok ?_, rfl, ?_⟩
          · rw [length_append]
            omega
          · rw [flatten_cons, hlength, drop_append_of_le_length hidx]
        · rw [flatten_cons, hline, hlength] at hover
          omega
        · intro buffer hbuffer
          rcases List.mem_cons.mp hbuffer with rfl | hbuffer
          · exact hroom
          · rw [List.mem_singleton.mp hbuffer, length_append, hlength]
            omega
    · have hline := firstLine_append_of_notMem hmem pieces.flatten
      have hlength : (firstLine (available ++ pieces.flatten)).length =
          available.length + (firstLine pieces.flatten).length := by
        rw [hline, length_append]
      rw [readLineInto_more hmem]
      split_ifs with hlong
      · refine ⟨fun hfits => ?_, fun _ => rfl, hout⟩
        rw [flatten_cons, hlength] at hfits
        omega
      · have hextended : (out ++ available).length = out.length + available.length :=
          length_append
        obtain ⟨hfits, htooLong, hheld⟩ := ih (show start ≤ (out ++ available).length by omega)
          (by omega)
        have hsum : (out ++ available).length - start + (firstLine pieces.flatten).length =
            out.length - start + (firstLine (available :: pieces).flatten).length := by
          rw [flatten_cons, hlength]
          omega
        rw [hsum] at hfits htooLong
        refine ⟨fun hroom => ?_, htooLong, ?_⟩
        · obtain ⟨hanswer, hrun, hreader⟩ := hfits hroom
          refine ⟨hanswer, ?_, ?_⟩
          · rw [flatten_cons, hline, ← append_assoc]
            exact hrun
          · rw [flatten_cons, hlength, drop_length_add_append]
            exact hreader
        · intro buffer hbuffer
          rcases List.mem_cons.mp hbuffer with rfl | hbuffer
          · exact hroom
          · exact hheld buffer hbuffer

/-- For every stream, in whatever pieces it comes, the first line is appended and the rest is left
if the line fits the limit, and is refused if not. The buffer never grows by more than that. -/
theorem readLineInto_lawful (maxBytes : Nat) (tooLong : HttpReadError) (out : List UInt8)
    (pieces : Buffers UInt8) :
    let run := readLineInto maxBytes tooLong out.length out pieces
    let line := firstLine pieces.flatten
    (line.length ≤ maxBytes → run.answer = .ok line.length ∧ run.out = out ++ line ∧
        run.reader.flatten = pieces.flatten.drop line.length) ∧
      (maxBytes < line.length → run.answer = .error tooLong) ∧
      ∀ buffer ∈ run.held, buffer.length ≤ out.length + maxBytes := by
  obtain ⟨hfits, htooLong, hheld⟩ := @readLineInto_law maxBytes out.length tooLong out
    (Nat.le_refl _) (Nat.le_add_right _ _) pieces
  rw [Nat.sub_self, Nat.zero_add] at hfits htooLong
  exact ⟨hfits, htooLong, hheld⟩

/-! ## The reader of the other modules -/

theorem readLineBounded_eq (pieces : Buffers UInt8) :
    let run := readLineInto maxBytes tooLong 0 [] pieces
    readLineBounded maxBytes tooLong pieces = (run.answer.map fun _ => run.out, run.reader) := by
  unfold readLineBounded readLine
  generalize ([] : List UInt8) = out
  induction pieces generalizing out with
  | nil => rfl
  | cons available pieces ih =>
    rw [readLineFrom]
    by_cases hmem : newline ∈ available
    · have hlength : (available.take (available.idxOf newline + 1)).length =
          available.idxOf newline + 1 :=
        length_take_of_le (idxOf_lt_length_of_mem hmem)
      rw [readLineInto_found hmem, if_pos hmem, Nat.sub_zero]
      dsimp only
      rw [hlength]
      split_ifs
      · rfl
      · rfl
    · rw [readLineInto_more hmem, if_neg hmem, Nat.sub_zero]
      split_ifs
      · rfl
      · exact ih (out ++ available)

theorem runs_readLineBounded (h : (firstLine input).length ≤ maxBytes) :
    Runs (readLineBounded maxBytes tooLong) input
      (.ok (firstLine input, input.drop (firstLine input).length)) := by
  rintro pieces rfl
  obtain ⟨hanswer, hout, hreader⟩ := (readLineInto_lawful maxBytes tooLong [] pieces).1 h
  refine ⟨(readLineInto maxBytes tooLong 0 [] pieces).reader, ?_, hreader⟩
  rw [readLineBounded_eq]
  dsimp only [length_nil] at hanswer hout ⊢
  rw [hanswer, hout]
  rfl

theorem runs_readLineBounded_long (h : maxBytes < (firstLine input).length) :
    Runs (readLineBounded maxBytes tooLong) input (.error tooLong) := by
  rintro pieces rfl
  have hanswer := (readLineInto_lawful maxBytes tooLong [] pieces).2.1 h
  refine ⟨(readLineInto maxBytes tooLong 0 [] pieces).reader, ?_⟩
  rw [readLineBounded_eq]
  dsimp only [length_nil] at hanswer ⊢
  rw [hanswer]
  rfl

end

end GenieClaw.Http
