import GenieClaw.Http.Reader
import GenieClaw.Library.Text

/-!
# What the header loop comes to

The loop is run on the lines of a head and the blank line behind them. It compares the number of
headers with the limit before it reads a line, the blank line included.

* `readHeaderLines_runs`: the outcome of the loop on the lines of a head.
* `afterHead_of_clear`, `clear_of_afterHead`: it is through exactly when the limits are kept.
-/

namespace GenieClaw.Http

open Library Library.Buffered Library.Program Library.Text List

/-- A text on a line of its own, as it is sent. -/
def lineBytes (text : String) : List UInt8 := asBytes (text ++ "\r\n")

/-- A line of a head that is not blank. -/
structure HeaderLine where
  text : String
  oneLine : OneLine text
  unpadded : trimLineEnd text = text
  nonempty : text ≠ ""

def HeaderLine.bytes (line : HeaderLine) : List UInt8 := lineBytes line.text

/-- The blank line at the end of a head. -/
def blankLine : List UInt8 := lineBytes ""

/-- The sum of the loop after these lines. -/
def totalBytes (start : Nat) (lines : List (List UInt8)) : Nat :=
  lines.foldl (fun total line => saturatingAdd usizeMax total line.length) start

/-! ## One line -/

section

variable {text : String} {maxBytes : Nat} {tooLong : HttpReadError}

theorem lineBytes_eq (text : String) : lineBytes text = asBytes (text ++ "\r") ++ [newline] := by
  have hsplit : text ++ "\r\n" = text ++ "\r" ++ "\n" := by
    rw [String.append_assoc]
    rfl
  rw [lineBytes, hsplit, asBytes_append _ "\n"]
  rfl

theorem newline_notMem (h : OneLine text) : newline ∉ asBytes (text ++ "\r") := by
  have hbyte : newline = UInt8.ofNat '\n'.toNat := by decide
  rw [hbyte, mem_asBytes_ascii (by decide), String.toList_append, mem_append, not_or]
  exact ⟨h, by decide⟩

theorem lineBytes_ne_nil (text : String) : lineBytes text ≠ [] := by
  rw [lineBytes_eq]
  simp

theorem readLineBounded_runs (h : OneLine text) (hfits : (lineBytes text).length ≤ maxBytes)
    (left : List UInt8) :
    Runs (readLineBounded maxBytes tooLong) (lineBytes text ++ left)
      (.ok (lineBytes text, left)) := by
  rw [lineBytes_eq] at hfits ⊢
  rw [length_append, length_singleton] at hfits
  exact runs_readLine (newline_notMem h) hfits left

theorem trimLineEnd_lineBytes (h : trimLineEnd text = text) :
    trimLineEnd (fromUtf8Lossy (lineBytes text)) = text := by
  rw [lineBytes, fromUtf8Lossy_asBytes]
  unfold trimLineEnd at h ⊢
  have hdrop : (text ++ "\r\n").toList.rdropWhile (fun c => c == '\r' || c == '\n') =
      text.toList.rdropWhile fun c => c == '\r' || c == '\n' := by
    have hlist : (text ++ "\r\n").toList = (text.toList ++ ['\r']) ++ ['\n'] := by
      rw [String.toList_append, append_assoc]
      rfl
    rw [hlist, rdropWhile_concat_pos _ _ _ (by decide),
      rdropWhile_concat_pos _ _ _ (by decide)]
  rw [hdrop, h]

end

/-! ## Sums -/

theorem le_totalBytes {start : Nat} (h : start ≤ usizeMax) (lines : List (List UInt8)) :
    start ≤ totalBytes start lines := by
  induction lines generalizing start with
  | nil => exact le_rfl
  | cons line rest ih =>
    have hstep : start ≤ saturatingAdd usizeMax start line.length :=
      le_min (Nat.le_add_right _ _) h
    exact hstep.trans (ih (saturatingAdd_le _ _ _))

theorem totalBytes_cons (start : Nat) (line : List UInt8) (rest : List (List UInt8)) :
    totalBytes start (line :: rest) =
      totalBytes (saturatingAdd usizeMax start line.length) rest := rfl

/-! ## The loop -/

section

variable {σ : Type} {limits : HeaderLimits} {count : σ → Nat}
  {accept : σ → String → Except HttpReadError σ} {fuel total : Nat} {st : σ}

theorem readHeaders_full (h : limits.maxCount ≤ count st) (input : List UInt8) :
    Runs (readHeaders limits count accept (fuel + 1) st total) input (.error .tooManyHeaders) := by
  rw [readHeaders, if_pos h]
  exact Runs.fail _ _

theorem readHeaders_large (h : count st < limits.maxCount) {text : String} (hline : OneLine text)
    (hfits : (lineBytes text).length ≤ limits.maxLineBytes)
    (hlarge : limits.maxBytes < saturatingAdd usizeMax total (lineBytes text).length)
    (left : List UInt8) :
    Runs (readHeaders limits count accept (fuel + 1) st total) (lineBytes text ++ left)
      (.error .headersTooLarge) := by
  rw [readHeaders, if_neg (Nat.not_le_of_lt h)]
  refine Runs.bind (readLineBounded_runs hline hfits left) ?_
  rw [if_neg (lineBytes_ne_nil text), if_pos hlarge]
  exact Runs.fail _ _

theorem readHeaders_blank (h : count st < limits.maxCount)
    (hfits : blankLine.length ≤ limits.maxLineBytes)
    (htotal : saturatingAdd usizeMax total blankLine.length ≤ limits.maxBytes)
    (left : List UInt8) :
    Runs (readHeaders limits count accept (fuel + 1) st total) (blankLine ++ left)
      (.ok (st, left)) := by
  unfold blankLine at *
  rw [readHeaders, if_neg (Nat.not_le_of_lt h)]
  refine Runs.bind (readLineBounded_runs (by decide) hfits left) ?_
  rw [if_neg (lineBytes_ne_nil ""), if_neg (Nat.not_lt_of_le htotal),
    if_pos (trimLineEnd_lineBytes rfl)]
  exact Runs.pure st left

variable {left : List UInt8}

theorem readHeaders_line (h : count st < limits.maxCount) (line : HeaderLine)
    (hfits : line.bytes.length ≤ limits.maxLineBytes)
    (htotal : saturatingAdd usizeMax total line.bytes.length ≤ limits.maxBytes) {next : σ}
    (haccept : accept st line.text = .ok next) {o : Except HttpReadError (σ × List UInt8)}
    (hrest : Runs
      (readHeaders limits count accept fuel next
        (saturatingAdd usizeMax total line.bytes.length)) left o) :
    Runs (readHeaders limits count accept (fuel + 1) st total) (line.bytes ++ left) o := by
  rw [readHeaders, if_neg (Nat.not_le_of_lt h)]
  refine Runs.bind (readLineBounded_runs line.oneLine hfits left) ?_
  have htext := trimLineEnd_lineBytes line.unpadded
  change saturatingAdd usizeMax total (lineBytes line.text).length ≤ limits.maxBytes at htotal
  rw [if_neg (lineBytes_ne_nil _), if_neg (Nat.not_lt_of_le htotal), htext,
    if_neg line.nonempty, haccept]
  exact hrest

/-- The lines that the loop reads of a head: as many as the limit on the number admits. -/
def countedLines (limits : HeaderLimits) (counted : Nat) (lines : List HeaderLine) :
    List (List UInt8) :=
  (lines.map HeaderLine.bytes ++ [blankLine]).take (limits.maxCount - counted)

/-- What the loop comes to on a head whose lines are accepted. -/
def headOutcome (limits : HeaderLimits) (counted total : Nat) (lines : List HeaderLine)
    (final : σ) (left : List UInt8) : Except HttpReadError (σ × List UInt8) :=
  if limits.maxBytes < totalBytes total (countedLines limits counted lines) then
    .error .headersTooLarge
  else if counted + lines.length < limits.maxCount then .ok (final, left)
  else .error .tooManyHeaders

/-- The bytes of a head. -/
def headBytes (lines : List HeaderLine) : List UInt8 :=
  lines.flatMap HeaderLine.bytes ++ blankLine

variable {counted : Nat}

theorem headOutcome_cons (h : counted < limits.maxCount) (line : HeaderLine)
    (rest : List HeaderLine) (final : σ) (left : List UInt8) :
    headOutcome limits counted total (line :: rest) final left =
      headOutcome limits (counted + 1) (saturatingAdd usizeMax total line.bytes.length) rest final
        left := by
  have hcounted : countedLines limits counted (line :: rest) =
      line.bytes :: countedLines limits (counted + 1) rest := by
    obtain ⟨room, hroom⟩ : ∃ n, limits.maxCount - counted = n + 1 :=
      ⟨limits.maxCount - counted - 1, by omega⟩
    have hroom' : limits.maxCount - (counted + 1) = room := by omega
    rw [countedLines, countedLines, hroom, hroom']
    rfl
  have hlength : counted + (line :: rest).length = counted + 1 + rest.length := by
    rw [length_cons]
    omega
  rw [headOutcome, headOutcome, hcounted, totalBytes_cons, hlength]

variable {lines : List HeaderLine} {final : σ}

theorem headOutcome_large (htotal : total ≤ usizeMax) (h : limits.maxBytes < total) :
    headOutcome limits counted total lines final left = .error .headersTooLarge :=
  if_pos (h.trans_le (le_totalBytes htotal _))

theorem headOutcome_full (h : limits.maxCount ≤ counted) (htotal : total ≤ limits.maxBytes) :
    headOutcome limits counted total lines final left = .error .tooManyHeaders := by
  have hnone : countedLines limits counted lines = [] := by
    rw [countedLines, Nat.sub_eq_zero_of_le h, take_zero]
  have hsmall : totalBytes total [] ≤ limits.maxBytes := htotal
  rw [headOutcome, hnone, if_neg (Nat.not_lt_of_le hsmall), if_neg (by omega)]

theorem headOutcome_nil (h : counted < limits.maxCount) (final : σ) (left : List UInt8) :
    headOutcome limits counted total [] final left =
      if limits.maxBytes < saturatingAdd usizeMax total blankLine.length then
        .error .headersTooLarge
      else .ok (final, left) := by
  have hblank : countedLines limits counted [] = [blankLine] := by
    obtain ⟨room, hroom⟩ : ∃ n, limits.maxCount - counted = n + 1 :=
      ⟨limits.maxCount - counted - 1, by omega⟩
    rw [countedLines, hroom, map_nil, nil_append, take_succ_cons, take_nil]
  have hroom : counted + ([] : List HeaderLine).length < limits.maxCount := h
  rw [headOutcome, hblank, totalBytes_cons, if_pos hroom]
  rfl

theorem readHeaders_runs
    (haccept : lines.foldlM (fun st line => accept st line.text) st = .ok final)
    (hcount : ∀ line ∈ lines, ∀ st next, accept st line.text = .ok next → count next = count st + 1)
    (hfits : ∀ line ∈ lines, line.bytes.length ≤ limits.maxLineBytes)
    (hblank : blankLine.length ≤ limits.maxLineBytes) (htotal : total ≤ limits.maxBytes)
    (hfuel : lines.length < fuel) (left : List UInt8) :
    Runs (readHeaders limits count accept fuel st total) (headBytes lines ++ left)
      (headOutcome limits (count st) total lines final left) := by
  induction lines generalizing st total fuel with
  | nil =>
    obtain ⟨fuel, rfl⟩ : ∃ n, fuel = n + 1 := ⟨fuel - 1, by omega⟩
    obtain rfl : st = final := Except.ok.inj haccept
    by_cases hroom : count st < limits.maxCount
    · rw [headOutcome_nil hroom]
      split
      · rename_i hlarge
        exact readHeaders_large hroom (show OneLine "" by decide) hblank hlarge left
      · rename_i hsmall
        exact readHeaders_blank hroom hblank (Nat.le_of_not_lt hsmall) left
    · rw [headOutcome_full (Nat.le_of_not_lt hroom) htotal]
      exact readHeaders_full (Nat.le_of_not_lt hroom) _
  | cons line rest ih =>
    obtain ⟨fuel, rfl⟩ : ∃ n, fuel = n + 1 := ⟨fuel - 1, by omega⟩
    have hbytes : headBytes (line :: rest) ++ left = line.bytes ++ (headBytes rest ++ left) := by
      rw [headBytes, headBytes, flatMap_cons, append_assoc, append_assoc,
        append_assoc]
    rw [hbytes]
    by_cases hroom : count st < limits.maxCount
    · rw [headOutcome_cons hroom]
      have hline := hfits line mem_cons_self
      by_cases hlarge : limits.maxBytes < saturatingAdd usizeMax total line.bytes.length
      · rw [headOutcome_large (saturatingAdd_le _ _ _) hlarge]
        exact readHeaders_large hroom line.oneLine hline hlarge _
      · have hsmall := Nat.le_of_not_lt hlarge
        rw [foldlM_cons] at haccept
        cases hnext : accept st line.text with
        | error e =>
          rw [hnext] at haccept
          cases haccept
        | ok next =>
          rw [hnext] at haccept
          refine readHeaders_line hroom line hline hsmall hnext ?_
          rw [← hcount line mem_cons_self st next hnext]
          rw [length_cons] at hfuel
          exact ih haccept (fun l hl => hcount l (mem_cons_of_mem line hl))
            (fun l hl => hfits l (mem_cons_of_mem line hl)) hsmall (by omega)
    · rw [headOutcome_full (Nat.le_of_not_lt hroom) htotal]
      exact readHeaders_full (Nat.le_of_not_lt hroom) _

theorem length_le_flatMap {α β : Type} {f : α → List β} {xs : List α} (h : ∀ x ∈ xs, f x ≠ []) :
    xs.length ≤ (xs.flatMap f).length := by
  induction xs with
  | nil => exact le_rfl
  | cons x rest ih =>
    have hrest := ih fun y hy => h y (mem_cons_of_mem x hy)
    have hx := List.length_pos_iff.mpr (h x mem_cons_self)
    rw [flatMap_cons, length_append, length_cons]
    omega

theorem length_le_headBytes (lines : List HeaderLine) :
    lines.length ≤ (headBytes lines).length := by
  have hlines : lines.length ≤ (lines.flatMap HeaderLine.bytes).length :=
    length_le_flatMap fun line _ => lineBytes_ne_nil line.text
  rw [headBytes, length_append]
  omega

theorem readHeaderLines_runs
    (haccept : lines.foldlM (fun st line => accept st line.text) st = .ok final)
    (hcount : ∀ line ∈ lines, ∀ st next, accept st line.text = .ok next → count next = count st + 1)
    (hfits : ∀ line ∈ lines, line.bytes.length ≤ limits.maxLineBytes)
    (hblank : blankLine.length ≤ limits.maxLineBytes) (left : List UInt8) :
    Runs (readHeaderLines limits count accept st) (headBytes lines ++ left)
      (headOutcome limits (count st) 0 lines final left) := by
  have hfuel : lines.length < (headBytes lines ++ left).length + 1 := by
    have hlength := length_le_headBytes lines
    rw [length_append]
    omega
  have hrun := readHeaders_runs haccept hcount hfits hblank (Nat.zero_le _) hfuel left
  exact hrun.congr fun bs h => by rw [readHeaderLines, h]

/-- What comes of a message whose head the loop reads, if it comes to `o` once that is done. -/
def afterHead {γ : Type} (limits : HeaderLimits) (lines : List HeaderLine)
    (o : Except HttpReadError (γ × List UInt8)) : Except HttpReadError (γ × List UInt8) :=
  if limits.maxBytes < totalBytes 0 (countedLines limits 0 lines) then .error .headersTooLarge
  else if lines.length < limits.maxCount then o
  else .error .tooManyHeaders

/-- The number of headers is not the limit, and the lines that are read are within the limit on
their total. -/
def ClearOfLimit (limits : HeaderLimits) (lines : List HeaderLine) : Prop :=
  lines.length ≠ limits.maxCount ∧ totalBytes 0 (countedLines limits 0 lines) ≤ limits.maxBytes

theorem afterHead_of_clear {γ : Type} (h : ClearOfLimit limits lines)
    (o : Except HttpReadError (γ × List UInt8)) :
    (lines.length ≤ limits.maxCount → o = afterHead limits lines o) ∧
      (limits.maxCount < lines.length → .error .tooManyHeaders = afterHead limits lines o) := by
  obtain ⟨hcount, hsmall⟩ := h
  unfold afterHead
  rw [if_neg (Nat.not_lt_of_le hsmall)]
  refine ⟨fun hfew => ?_, fun hmany => ?_⟩
  · rw [if_pos (Nat.lt_of_le_of_ne hfew hcount)]
  · rw [if_neg (Nat.not_lt_of_lt hmany)]

theorem clear_of_afterHead {γ : Type} {o : Except HttpReadError (γ × List UInt8)}
    (hcount : o ≠ .error .tooManyHeaders) (hsize : o ≠ .error .headersTooLarge)
    (hfew : lines.length ≤ limits.maxCount → o = afterHead limits lines o)
    (hmany : limits.maxCount < lines.length → .error .tooManyHeaders = afterHead limits lines o) :
    ClearOfLimit limits lines := by
  unfold afterHead at hfew hmany
  by_cases hlarge : limits.maxBytes < totalBytes 0 (countedLines limits 0 lines)
  · rw [if_pos hlarge] at hfew hmany
    rcases Nat.lt_or_ge limits.maxCount lines.length with hn | hn
    · cases hmany hn
    · exact absurd (hfew hn) hsize
  · rw [if_neg hlarge] at hfew
    refine ⟨fun hn => hcount ?_, Nat.le_of_not_lt hlarge⟩
    have hat := hfew (Nat.le_of_eq hn)
    rwa [if_neg (Nat.not_lt_of_le (Nat.le_of_eq hn.symm))] at hat

theorem readHeaderLines_then (hstart : count st = 0)
    (haccept : lines.foldlM (fun st line => accept st line.text) st = .ok final)
    (hcount : ∀ line ∈ lines, ∀ st next, accept st line.text = .ok next → count next = count st + 1)
    (hfits : ∀ line ∈ lines, line.bytes.length ≤ limits.maxLineBytes)
    (hblank : blankLine.length ≤ limits.maxLineBytes) {γ : Type} {f : σ → Reader γ}
    {o : Except HttpReadError (γ × List UInt8)}
    (hrest : lines.length < limits.maxCount → Runs (f final) left o) :
    Runs (readHeaderLines limits count accept st >>= f) (headBytes lines ++ left)
      (afterHead limits lines o) := by
  have hhead := readHeaderLines_runs haccept hcount hfits hblank left
  rw [hstart] at hhead
  unfold headOutcome at hhead
  unfold afterHead
  rw [Nat.zero_add] at hhead
  split
  · rename_i hlarge
    rw [if_pos hlarge] at hhead
    exact Runs.bind_error hhead
  · rename_i hsmall
    rw [if_neg hsmall] at hhead
    split
    · rename_i hfew
      rw [if_pos hfew] at hhead
      exact Runs.bind hhead (hrest hfew)
    · rename_i hmany
      rw [if_neg hmany] at hhead
      exact Runs.bind_error hhead

end

end GenieClaw.Http
