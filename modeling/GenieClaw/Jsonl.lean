import GenieClaw.Library.Utf8
import Mathlib.Data.List.DropRight

/-!
# The tail of a log

`tail_lines` of `genie-common/src/jsonl.rs`. The file is read from its end in chunks, and the bytes
of a chunk are taken from its last to its first. `held` lists what the buffer of the current line
has held on the way.

* `tailLines_eq` (no assumption): the tail is the last lines that are neither empty nor too long.
* `buffer_bounded_iff` (no assumption): the buffer is bounded only as far as the lines are.
-/

namespace GenieClaw.Jsonl

open Library Library.Text List

def lineFeed : UInt8 := 10

def tailChunkBytes : Nat := 4096

structure TailScan where
  collected : List (List UInt8) := []
  /-- In the order of the pushes, the last byte of the line first. -/
  currentLine : List UInt8 := []
  held : List (List UInt8) := []

namespace TailScan

def push (s : TailScan) (byte : UInt8) : TailScan :=
  { s with
    currentLine := s.currentLine ++ [byte]
    held := s.held ++ [s.currentLine ++ [byte]] }

/-- The current line is complete: it is collected, or dropped if it is too long. -/
def take (maxLineBytes : Nat) (s : TailScan) : TailScan :=
  let line := s.currentLine.reverse
  if line.length ≤ maxLineBytes then
    { s with collected := s.collected ++ [line], currentLine := [] }
  else { s with currentLine := [] }

/-- The loop over the bytes of a chunk, which come in reverse order. -/
def scanChunk (limit maxLineBytes : Nat) : TailScan → List UInt8 → TailScan
  | s, [] => s
  | s, byte :: rest =>
    if byte = lineFeed then
      if s.currentLine ≠ [] then
        if limit ≤ (s.take maxLineBytes).collected.length then s.take maxLineBytes
        else scanChunk limit maxLineBytes (s.take maxLineBytes) rest
      else scanChunk limit maxLineBytes s rest
    else scanChunk limit maxLineBytes (s.push byte) rest

/-- The loop over the chunks. Every turn reads a byte at least, and `pos` is at most the fuel. -/
def scanFile (chunkBytes limit maxLineBytes : Nat) (content : List UInt8) :
    Nat → Nat → TailScan → TailScan
  | 0, _, s => s
  | fuel + 1, pos, s =>
    if 0 < pos ∧ s.collected.length < limit then
      let readSize := min chunkBytes pos
      let chunk := (content.drop (pos - readSize)).take readSize
      let s := scanChunk limit maxLineBytes s chunk.reverse
      if limit ≤ s.collected.length then s
      else scanFile chunkBytes limit maxLineBytes content fuel (pos - readSize) s
    else s

/-- What is left in the buffer at the start of the file is a line too. -/
def finish (limit maxLineBytes : Nat) (s : TailScan) : TailScan :=
  if s.collected.length < limit ∧ s.currentLine ≠ [] then s.take maxLineBytes else s

end TailScan

/-- The state of `tail_lines` behind its loops, for a file with this content. -/
def tailScan (chunkBytes limit maxLineBytes : Nat) (content : List UInt8) : TailScan :=
  (TailScan.scanFile chunkBytes limit maxLineBytes content content.length content.length {}).finish
    limit maxLineBytes

/-- `tail_lines`; there may be no file. -/
def tailLines (chunkBytes : Nat) (file : Option (List UInt8)) (limit maxLineBytes : Nat) :
    List String :=
  if limit = 0 then []
  else match file with
    | none => []
    | some content =>
      (tailScan chunkBytes limit maxLineBytes content).collected.reverse.map fromUtf8Lossy

/-! ## What the tail of a file is -/

/-- The lines of a file that are not empty and not too long. -/
def fileLines (maxLineBytes : Nat) (content : List UInt8) : List (List UInt8) :=
  (content.splitOn lineFeed).filter fun line => line ≠ [] ∧ line.length ≤ maxLineBytes

/-- The lines up to the one that completes the limit. -/
def reached (maxLineBytes : Nat) : Nat → List (List UInt8) → List (List UInt8)
  | _, [] => []
  | 0, _ => []
  | limit + 1, line :: lines =>
    line :: reached maxLineBytes
      (if line ≠ [] ∧ line.length ≤ maxLineBytes then limit else limit + 1) lines

/-- The lines that the scan of a file reaches, from its end. -/
def reachedLines (limit maxLineBytes : Nat) (content : List UInt8) : List (List UInt8) :=
  reached maxLineBytes limit (content.splitOn lineFeed).reverse

namespace TailScan

variable {limit maxLineBytes : Nat}

/-! ## Chunks -/

theorem take_collected (s : TailScan) : (s.take maxLineBytes).collected =
    s.collected ++ if s.currentLine.length ≤ maxLineBytes then [s.currentLine.reverse] else [] := by
  unfold take
  dsimp only
  rw [length_reverse]
  split_ifs
  · rfl
  · rw [append_nil]

@[simp] theorem take_currentLine (s : TailScan) : (s.take maxLineBytes).currentLine = [] := by
  unfold take
  dsimp only
  split_ifs
  · rfl
  · rfl

@[simp] theorem take_held (s : TailScan) : (s.take maxLineBytes).held = s.held := by
  unfold take
  dsimp only
  split_ifs
  · rfl
  · rfl

theorem scanChunk_append (s : TailScan) (hs : s.collected.length < limit) (xs ys : List UInt8) :
    scanChunk limit maxLineBytes s (xs ++ ys) =
      if limit ≤ (scanChunk limit maxLineBytes s xs).collected.length then
        scanChunk limit maxLineBytes s xs
      else scanChunk limit maxLineBytes (scanChunk limit maxLineBytes s xs) ys := by
  induction xs generalizing s with
  | nil => rw [scanChunk, if_neg (Nat.not_le.mpr hs), nil_append]
  | cons byte xs ih =>
    rw [cons_append, scanChunk, scanChunk]
    by_cases hfeed : byte = lineFeed
    · rw [if_pos hfeed, if_pos hfeed]
      by_cases hline : s.currentLine ≠ []
      · rw [if_pos hline, if_pos hline]
        by_cases hfull : limit ≤ (s.take maxLineBytes).collected.length
        · rw [if_pos hfull, if_pos hfull, if_pos hfull]
        · rw [if_neg hfull, if_neg hfull]
          exact ih _ (Nat.not_le.mp hfull)
      · rw [if_neg hline, if_neg hline]
        exact ih s hs
    · rw [if_neg hfeed, if_neg hfeed]
      exact ih (s.push byte) hs

theorem scanFile_eq {chunkBytes : Nat} (hchunk : 0 < chunkBytes) (content : List UInt8)
    {fuel pos : Nat} (hfuel : pos ≤ fuel) (hpos : pos ≤ content.length) (s : TailScan)
    (hs : s.collected.length < limit) :
    scanFile chunkBytes limit maxLineBytes content fuel pos s =
      scanChunk limit maxLineBytes s (content.take pos).reverse := by
  induction fuel generalizing pos s with
  | zero =>
    obtain rfl := Nat.le_zero.mp hfuel
    rfl
  | succ fuel ih =>
    rw [scanFile]
    by_cases hzero : pos = 0
    · subst hzero
      rfl
    · rw [if_pos ⟨Nat.pos_of_ne_zero hzero, hs⟩]
      have hread : pos - min chunkBytes pos + min chunkBytes pos = pos := by omega
      have hsplit : content.take pos = content.take (pos - min chunkBytes pos) ++
          (content.drop (pos - min chunkBytes pos)).take (min chunkBytes pos) := by
        rw [← take_add, hread]
      rw [hsplit, reverse_append, scanChunk_append s hs]
      dsimp only
      split_ifs with hfull
      · rfl
      · exact ih (by omega) (by omega) _ (Nat.not_le.mp hfull)

/-! ## Lines -/

/-- The bytes of a line, pushed one after the other. -/
def extend (s : TailScan) (bytes : List UInt8) : TailScan := bytes.foldl push s

@[simp] theorem extend_collected (s : TailScan) (bytes : List UInt8) :
    (s.extend bytes).collected = s.collected := by
  induction bytes generalizing s with
  | nil => rfl
  | cons byte bytes ih => exact ih (s.push byte)

@[simp] theorem extend_currentLine (s : TailScan) (bytes : List UInt8) :
    (s.extend bytes).currentLine = s.currentLine ++ bytes := by
  induction bytes generalizing s with
  | nil => exact (append_nil _).symm
  | cons byte bytes ih =>
    rw [extend, foldl_cons, ← extend, ih, push, append_assoc]
    rfl

theorem extend_held {bound : Nat} (s : TailScan) (bytes : List UInt8) :
    (∀ buffer ∈ (s.extend bytes).held, buffer.length ≤ bound) ↔
      (∀ buffer ∈ s.held, buffer.length ≤ bound) ∧
        (bytes ≠ [] → s.currentLine.length + bytes.length ≤ bound) := by
  induction bytes generalizing s with
  | nil => simp [extend]
  | cons byte bytes ih =>
    rw [extend, foldl_cons, ← extend, ih]
    simp only [push, forall_mem_append, forall_mem_singleton, length_append,
      length_cons, length_nil]
    constructor
    · rintro ⟨⟨hheld, hbyte⟩, hrest⟩
      refine ⟨hheld, fun _ => ?_⟩
      by_cases hnil : bytes = []
      · rw [hnil, length_nil]
        omega
      · have := hrest hnil
        omega
    · rintro ⟨hheld, hall⟩
      have := hall (cons_ne_nil byte bytes)
      exact ⟨⟨hheld, by omega⟩, fun _ => by omega⟩

theorem scanChunk_line {bytes : List UInt8} (h : lineFeed ∉ bytes) (s : TailScan)
    (rest : List UInt8) : scanChunk limit maxLineBytes s (bytes ++ rest) =
      scanChunk limit maxLineBytes (s.extend bytes) rest := by
  induction bytes generalizing s with
  | nil => rfl
  | cons byte bytes ih =>
    rw [mem_cons, not_or] at h
    rw [cons_append, scanChunk, if_neg (Ne.symm h.1), ih h.2]
    rfl

theorem scanChunk_lineFeed (s : TailScan) (rest : List UInt8) :
    scanChunk limit maxLineBytes s (lineFeed :: rest) =
      if s.currentLine = [] then scanChunk limit maxLineBytes s rest
      else if limit ≤ (s.take maxLineBytes).collected.length then s.take maxLineBytes
      else scanChunk limit maxLineBytes (s.take maxLineBytes) rest := by
  rw [scanChunk, if_pos rfl, ite_not]

/-- What `tail_lines` returns of a line. -/
def Kept (maxLineBytes : Nat) (line : List UInt8) : Prop :=
  line ≠ [] ∧ line.length ≤ maxLineBytes

instance (maxLineBytes : Nat) (line : List UInt8) : Decidable (Kept maxLineBytes line) :=
  inferInstanceAs (Decidable (_ ∧ _))

/-- A line and the line feed in front of it. -/
def afterLine (maxLineBytes : Nat) (s : TailScan) (line : List UInt8) : TailScan :=
  if line = [] then s else (s.extend line.reverse).take maxLineBytes

theorem afterLine_collected (s : TailScan) (hstart : s.currentLine = []) (line : List UInt8) :
    (s.afterLine maxLineBytes line).collected =
      s.collected ++ if Kept maxLineBytes line then [line] else [] := by
  unfold afterLine
  by_cases hnil : line = []
  · have hkept : ¬ Kept maxLineBytes line := fun h => h.1 hnil
    rw [if_pos hnil, if_neg hkept, append_nil]
  · have hkept : Kept maxLineBytes line ↔ line.length ≤ maxLineBytes := and_iff_right hnil
    rw [if_neg hnil, take_collected, extend_collected, extend_currentLine, hstart,
      nil_append, length_reverse, reverse_reverse]
    simp only [hkept]

theorem afterLine_currentLine (s : TailScan) (hstart : s.currentLine = []) (line : List UInt8) :
    (s.afterLine maxLineBytes line).currentLine = [] := by
  unfold afterLine
  split_ifs
  · exact hstart
  · exact take_currentLine _

theorem afterLine_held {bound : Nat} (s : TailScan) (hstart : s.currentLine = [])
    (line : List UInt8) : (∀ buffer ∈ (s.afterLine maxLineBytes line).held, buffer.length ≤ bound) ↔
      (∀ buffer ∈ s.held, buffer.length ≤ bound) ∧ line.length ≤ bound := by
  unfold afterLine
  by_cases hnil : line = []
  · rw [if_pos hnil, hnil]
    exact (and_iff_left (Nat.zero_le bound)).symm
  · have hreverse : line.reverse ≠ [] := fun h => hnil (List.reverse_eq_nil_iff.mp h)
    rw [if_neg hnil, take_held, extend_held, hstart, length_nil, Nat.zero_add,
      length_reverse]
    exact and_congr_right fun _ => ⟨fun h => h hreverse, fun h _ => h⟩

variable {line : List UInt8}

theorem scan_last (h : lineFeed ∉ line) (s : TailScan) (hstart : s.currentLine = [])
    (hs : s.collected.length < limit) :
    (scanChunk limit maxLineBytes s line.reverse).finish limit maxLineBytes =
      s.afterLine maxLineBytes line := by
  have hreverse : lineFeed ∉ line.reverse := fun hmem => h (List.mem_reverse.mp hmem)
  have hscan := @scanChunk_line limit maxLineBytes _ hreverse s []
  rw [append_nil, scanChunk] at hscan
  rw [hscan, finish, extend_collected, extend_currentLine, hstart, nil_append, afterLine]
  by_cases hnil : line = []
  · rw [if_pos hnil, if_neg (by simp [hnil]), hnil]
    rfl
  · rw [if_neg hnil, if_pos ⟨hs, by simpa using hnil⟩]

theorem scan_line (h : lineFeed ∉ line) (s : TailScan) (hstart : s.currentLine = [])
    (hs : s.collected.length < limit) (rest : List UInt8) :
    scanChunk limit maxLineBytes s (line.reverse ++ lineFeed :: rest) =
      if limit ≤ (s.afterLine maxLineBytes line).collected.length then
        s.afterLine maxLineBytes line
      else scanChunk limit maxLineBytes (s.afterLine maxLineBytes line) rest := by
  have hreverse : lineFeed ∉ line.reverse := fun hmem => h (List.mem_reverse.mp hmem)
  have hline : (s.extend line.reverse).currentLine = line.reverse := by
    rw [extend_currentLine, hstart, nil_append]
  rw [scanChunk_line hreverse, scanChunk_lineFeed, hline, afterLine]
  by_cases hnil : line = []
  · rw [if_pos hnil, if_pos (by simp [hnil]), if_neg (Nat.not_le.mpr hs), hnil]
    rfl
  · rw [if_neg hnil, if_neg (by simpa using hnil)]

/-- The bytes of these lines, from the end of the file. -/
def backward : List (List UInt8) → List UInt8
  | [] => []
  | [line] => line.reverse
  | line :: next :: lines => line.reverse ++ lineFeed :: backward (next :: lines)

/-- What the scan of these lines adds to what was collected and held before. -/
structure Scanned (limit maxLineBytes : Nat) (s s' : TailScan) (lines : List (List UInt8)) :
    Prop where
  collected : s'.collected = s.collected ++
    (lines.filter (Kept maxLineBytes)).take (limit - s.collected.length)
  held : ∀ bound, (∀ buffer ∈ s'.held, buffer.length ≤ bound) ↔
    (∀ buffer ∈ s.held, buffer.length ≤ bound) ∧
      ∀ line ∈ reached maxLineBytes (limit - s.collected.length) lines, line.length ≤ bound

variable {lines : List (List UInt8)}

theorem scanned_stop {s : TailScan} (h : lines = [] ∨ limit ≤ s.collected.length) :
    Scanned limit maxLineBytes s s lines := by
  rcases h with rfl | h
  · constructor
    · rw [filter_nil, take_nil, append_nil]
    · intro bound
      rw [reached]
      simp
  · have hroom : limit - s.collected.length = 0 := Nat.sub_eq_zero_of_le h
    constructor
    · rw [hroom, take_zero, append_nil]
    · intro bound
      rw [hroom]
      cases lines <;> simp [reached]

theorem Scanned.cons {s s' : TailScan} (hstart : s.currentLine = [])
    (hs : s.collected.length < limit)
    (h : Scanned limit maxLineBytes (s.afterLine maxLineBytes line) s' lines) :
    Scanned limit maxLineBytes s s' (line :: lines) := by
  obtain ⟨room, hroom⟩ : ∃ n, limit - s.collected.length = n + 1 :=
    ⟨limit - s.collected.length - 1, by omega⟩
  have hleft : limit - (s.afterLine maxLineBytes line).collected.length =
      if Kept maxLineBytes line then room else room + 1 := by
    rw [afterLine_collected s hstart, length_append]
    split_ifs
    · rw [length_singleton]
      omega
    · exact hroom
  obtain ⟨hcollected, hheld⟩ := h
  rw [hleft] at hcollected hheld
  constructor
  · rw [hcollected, afterLine_collected s hstart, hroom, append_assoc]
    congr 1
    by_cases hkept : Kept maxLineBytes line
    · rw [if_pos hkept, if_pos hkept, filter_cons_of_pos (by simpa using hkept),
        take_succ_cons]
      rfl
    · rw [if_neg hkept, if_neg hkept, filter_cons_of_neg (by simpa using hkept)]
      rfl
  · intro bound
    rw [hheld, afterLine_held s hstart, hroom, reached, forall_mem_cons, and_assoc]
    rfl

theorem scan_lines (hne : lines ≠ []) (hlines : ∀ line ∈ lines, lineFeed ∉ line) (s : TailScan)
    (hstart : s.currentLine = []) (hs : s.collected.length < limit) :
    Scanned limit maxLineBytes s
      ((scanChunk limit maxLineBytes s (backward lines)).finish limit maxLineBytes) lines := by
  induction lines generalizing s with
  | nil => exact absurd rfl hne
  | cons line lines ih =>
    obtain ⟨hline, hrest⟩ := List.forall_mem_cons.mp hlines
    apply Scanned.cons hstart hs
    cases lines with
    | nil =>
      rw [backward, scan_last hline s hstart hs]
      exact scanned_stop (.inl rfl)
    | cons next lines =>
      rw [backward, scan_line hline s hstart hs]
      split_ifs with hfull
      · rw [finish, if_neg fun h => Nat.not_lt.mpr hfull h.1]
        exact scanned_stop (.inr hfull)
      · exact ih (cons_ne_nil _ _) hrest _ (afterLine_currentLine s hstart line)
          (Nat.not_le.mp hfull)

end TailScan

/-! ## Files -/

variable {chunkBytes limit maxLineBytes : Nat}

theorem backward_concat (lines : List (List UInt8)) (line : List UInt8) (h : lines ≠ []) :
    TailScan.backward (lines ++ [line]) = TailScan.backward lines ++ lineFeed :: line.reverse := by
  induction lines with
  | nil => exact absurd rfl h
  | cons first lines ih =>
    cases lines with
    | nil => rfl
    | cons next lines =>
      have hnext := ih (cons_ne_nil next lines)
      rw [cons_append] at hnext
      rw [cons_append, cons_append, TailScan.backward, hnext, TailScan.backward,
        append_assoc]
      rfl

theorem backward_lines (content : List UInt8) :
    TailScan.backward (content.splitOn lineFeed).reverse = content.reverse := by
  have hall : ∀ lines : List (List UInt8), lines ≠ [] →
      TailScan.backward lines.reverse = ([lineFeed].intercalate lines).reverse := by
    intro lines hne
    induction lines with
    | nil => exact absurd rfl hne
    | cons line lines ih =>
      cases lines with
      | nil => simp [TailScan.backward, List.intercalate]
      | cons next lines =>
        have hnext := ih (cons_ne_nil next lines)
        rw [reverse_cons, backward_concat _ _ (by simp), hnext,
          intercalate_cons_cons]
        simp
  rw [hall _ (splitOn_ne_nil _ _), intercalate_splitOn]

theorem lineFeed_notMem {content line : List UInt8} (h : line ∈ content.splitOn lineFeed) :
    lineFeed ∉ line := by
  intro hmem
  rw [splitOn_eq_splitOnP] at h
  exact absurd (forall_mem_splitOnP content line h lineFeed hmem) (by decide)

theorem tailScan_scanned (hchunk : 0 < chunkBytes) (hlimit : 0 < limit) (content : List UInt8) :
    TailScan.Scanned limit maxLineBytes {} (tailScan chunkBytes limit maxLineBytes content)
      (content.splitOn lineFeed).reverse := by
  unfold tailScan
  rw [TailScan.scanFile_eq hchunk content (Nat.le_refl _) (Nat.le_refl _) _ hlimit,
    take_length, ← backward_lines]
  refine TailScan.scan_lines (by simp [splitOn_ne_nil]) ?_ {} rfl hlimit
  intro line hline
  exact lineFeed_notMem (List.mem_reverse.mp hline)

theorem collected_eq (hchunk : 0 < chunkBytes) (hlimit : 0 < limit) (content : List UInt8) :
    (tailScan chunkBytes limit maxLineBytes content).collected.reverse =
      (fileLines maxLineBytes content).rtake limit := by
  have hcollected :=
    (@tailScan_scanned chunkBytes limit maxLineBytes hchunk hlimit content).collected
  have hfilter : ((content.splitOn lineFeed).reverse.filter (TailScan.Kept maxLineBytes)) =
      (fileLines maxLineBytes content).reverse := filter_reverse
  rw [hcollected, hfilter, nil_append, rtake_eq_reverse_take_reverse]
  rfl

/-- For every file, limit and maximum, and for chunks of any size, the tail of a file is the last
`limit` of its lines that are not empty and not too long, in the order of the file. -/
theorem tailLines_eq (hchunk : 0 < chunkBytes) (file : Option (List UInt8))
    (limit maxLineBytes : Nat) : tailLines chunkBytes file limit maxLineBytes =
      ((fileLines maxLineBytes (file.getD [])).rtake limit).map fromUtf8Lossy := by
  unfold tailLines
  cases file with
  | none =>
    have hnone : fileLines maxLineBytes ((none : Option (List UInt8)).getD []) = [] := by
      rw [fileLines, Option.getD_none, splitOn_nil]
      simp
    rw [hnone, rtake_nil, ite_self]
    rfl
  | some content =>
    by_cases hlimit : limit = 0
    · rw [if_pos hlimit, hlimit, rtake_zero]
      rfl
    · rw [if_neg hlimit]
      exact congrArg (List.map fromUtf8Lossy)
        (collected_eq hchunk (Nat.pos_of_ne_zero hlimit) content)

theorem tailLines_eq_log :
    tailLines tailChunkBytes (some (asBytes "one\ntwo\nthree\n")) 2 64 = ["two", "three"] :=
  (tailLines_eq (by decide) (some (asBytes "one\ntwo\nthree\n")) 2 64).trans (by decide)

/-! ## The buffer of the current line -/

/-- The buffer stays within the maximum and a constant, and the lines are returned as they are,
also those around a line that is too long. -/
def BoundedTail (constant chunkBytes limit maxLineBytes : Nat) (content : List UInt8) : Prop :=
  (∀ buffer ∈ (tailScan chunkBytes limit maxLineBytes content).held,
      buffer.length ≤ maxLineBytes + constant) ∧
    (tailScan chunkBytes limit maxLineBytes content).collected.reverse =
      (fileLines maxLineBytes content).rtake limit

theorem held_bounded_iff (limit maxLineBytes : Nat) (content : List UInt8) (bound : Nat) :
    (∀ buffer ∈ (tailScan tailChunkBytes limit maxLineBytes content).held, buffer.length ≤ bound) ↔
      ∀ line ∈ reachedLines limit maxLineBytes content, line.length ≤ bound := by
  by_cases hlimit : limit = 0
  · subst hlimit
    have hheld : (tailScan tailChunkBytes 0 maxLineBytes content).held = [] := by
      unfold tailScan
      cases content <;> rfl
    have hreached : reachedLines 0 maxLineBytes content = [] := by
      unfold reachedLines
      cases (content.splitOn lineFeed).reverse <;> rfl
    rw [hheld, hreached]
  · rw [(tailScan_scanned (by decide) (Nat.pos_of_ne_zero hlimit) content).held bound]
    exact and_iff_right (by simp)

/-- The lines around one that is too long are returned whatever its length, but the buffer is
bounded only if the lines that the scan reaches are. -/
theorem buffer_bounded_iff (constant limit maxLineBytes : Nat) (content : List UInt8) :
    BoundedTail constant tailChunkBytes limit maxLineBytes content ↔
      ∀ line ∈ reachedLines limit maxLineBytes content, line.length ≤ maxLineBytes + constant := by
  rw [BoundedTail, held_bounded_iff]
  refine and_iff_left ?_
  by_cases hlimit : limit = 0
  · subst hlimit
    have hcollected : (tailScan tailChunkBytes 0 maxLineBytes content).collected = [] := by
      unfold tailScan
      cases content <;> rfl
    rw [hcollected, rtake_zero, reverse_nil]
  · exact collected_eq (by decide) (Nat.pos_of_ne_zero hlimit) content

/-- A file of one line, however long, is read into the buffer whole. -/
theorem buffer_unbounded : ¬ ∃ constant, ∀ limit maxLineBytes content,
    BoundedTail constant tailChunkBytes limit maxLineBytes content := by
  rintro ⟨constant, h⟩
  have hbounded := (h 1 64 (List.replicate (64 + constant + 1) 120)).1
  have hline : lineFeed ∉ List.replicate (64 + constant + 1) (120 : UInt8) := by
    intro hmem
    exact absurd (eq_of_mem_replicate hmem) (by decide)
  rw [held_bounded_iff, reachedLines, splitOn_eq_singleton hline] at hbounded
  have hlength := hbounded _ mem_cons_self
  rw [length_replicate] at hlength
  omega

end GenieClaw.Jsonl
