import GenieClaw.Library.Pieces
import GenieClaw.Llm.ChatStream

/-!
# A streamed response of a generic backend

`chat_stream_once` of `llm/openai_compatible.rs`, behind a response of success. Every chunk of the
network is decoded for itself, the characters are collected to lines, and a line is read when its
line feed comes. What a line says is read as in `llm/openai_compat.rs`, which has the same payload.

* `finish_takeChars`: what is read of a text, whatever its chunks.
* `chatStreamOnce_delivers_iff` (the stream is within the limit of bytes): when its text is
  delivered.
-/

namespace GenieClaw.Llm

open Library Library.Text List
open Http (usizeMax)

/-! ## The loops -/

structure ReadState where
  fullResponse : String
  lineBuf : List Char
  tokens : List String

inductive Progress where
  | more (s : ReadState)
  | done (outcome : StreamOutcome)

/-- `line_buf.trim_end_matches('\r')`. -/
def lineOf (lineBuf : List Char) : String := String.ofList (lineBuf.rdropWhile (· == '\r'))

section

variable (parse : String → Option ChatResponse)

/-- What a line feed does. -/
def takeLine (s : ReadState) : Progress :=
  let line := lineOf s.lineBuf
  if maxSseLineBytes < line.utf8ByteSize then .done ⟨s.tokens, .error .lineTooLong⟩
  else
    let said := readLine parse line
    let tokens := s.tokens ++ said.1.toList
    let fullResponse := s.fullResponse ++ said.1.getD ""
    if said.2 then .done ⟨tokens, .ok fullResponse⟩
    else .more ⟨fullResponse, [], tokens⟩

def takeChar (s : ReadState) (ch : Char) : Progress :=
  if ch = '\n' then takeLine parse s
  else
    let lineBuf := s.lineBuf ++ [ch]
    if maxSseLineBytes < byteSize lineBuf then .done ⟨s.tokens, .error .lineTooLong⟩
    else .more { s with lineBuf := lineBuf }

def takeChars : ReadState → List Char → Progress
  | s, [] => .more s
  | s, ch :: rest =>
    match takeChar parse s ch with
    | .more s => takeChars s rest
    | .done outcome => .done outcome

/-- The loop over the chunks; the connection ends behind the last one. -/
def takeChunks : Nat → ReadState → List (List UInt8) → StreamOutcome
  | _, s, [] => ⟨s.tokens, .ok s.fullResponse⟩
  | totalBytes, s, chunk :: rest =>
    let totalBytes := saturatingAdd usizeMax totalBytes chunk.length
    if defaultMaxResponseBytes < totalBytes then ⟨s.tokens, .error .responseTooLong⟩
    else
      match takeChars parse s (lossy chunk) with
      | .more s => takeChunks totalBytes s rest
      | .done outcome => outcome

def chatStreamOnce (chunks : List (List UInt8)) : StreamOutcome :=
  takeChunks parse 0 ⟨"", [], []⟩ chunks

/-! ## What a stream says -/

def linesOf (cs : List Char) : List (List Char) := cs.splitOn '\n'

/-- The text of the lines up to the last event. -/
def textOf (lines : List (List Char)) : String :=
  String.join (heard (lines.map fun line => readLine parse (lineOf line)))

/-- The text of a stream, the last line included. -/
def streamText (bytes : List UInt8) : String := textOf parse (linesOf (lossy bytes))

/-- The text is returned, and it is what was passed on. -/
def Delivers (chunks : List (List UInt8)) : Prop :=
  (chatStreamOnce parse chunks).result = .ok (streamText parse chunks.flatten) ∧
    String.join (chatStreamOnce parse chunks).tokens = streamText parse chunks.flatten

/-- The lines up to the last event are within the limit. -/
def FitThrough : List (List Char) → Prop
  | [] => True
  | line :: rest => byteSize line ≤ maxSseLineBytes ∧
    ((readLine parse (lineOf line)).2 = true ∨ FitThrough rest)

/-- Decoded chunk by chunk, the lines that have their line feed say what the stream says. -/
structure ReadsAlike (chunks : List (List UInt8)) : Prop where
  fit : FitThrough parse (linesOf (chunks.flatMap lossy))
  text : textOf parse (linesOf (chunks.flatMap lossy)).dropLast = streamText parse chunks.flatten

/-- No character is cut by the end of a chunk. -/
def WholeChars (chunks : List (List UInt8)) : Prop := ∀ chunk ∈ chunks, ∃ s, chunk = asBytes s

end

/-! ## Lines -/

variable {parse : String → Option ChatResponse}

theorem byteSize_lineOf_le (lineBuf : List Char) :
    (lineOf lineBuf).utf8ByteSize ≤ byteSize lineBuf := by
  obtain ⟨rest, hrest⟩ := rdropWhile_prefix (· == '\r') lineBuf
  have hsize := byteSize_append (lineBuf.rdropWhile (· == '\r')) rest
  rw [hrest] at hsize
  show byteSize _ ≤ _
  omega

theorem takeChars_append (s : ReadState) (as bs : List Char) :
    takeChars parse s (as ++ bs) = match takeChars parse s as with
      | .more s => takeChars parse s bs
      | .done outcome => .done outcome := by
  induction as generalizing s with
  | nil => rfl
  | cons ch as ih =>
    rw [cons_append, takeChars, takeChars]
    cases takeChar parse s ch with
    | more s => exact ih s
    | done outcome => rfl

variable {line : List Char} {s : ReadState}

theorem takeChars_line (hline : '\n' ∉ line) (hbuf : byteSize s.lineBuf ≤ maxSseLineBytes) :
    takeChars parse s line =
      if byteSize (s.lineBuf ++ line) ≤ maxSseLineBytes then
        .more { s with lineBuf := s.lineBuf ++ line }
      else .done ⟨s.tokens, .error .lineTooLong⟩ := by
  induction line generalizing s with
  | nil =>
    rw [append_nil, if_pos hbuf]
    rfl
  | cons ch line ih =>
    obtain ⟨hch, hrest⟩ := not_or.mp fun h => hline (List.mem_cons.mpr h)
    have hassoc : s.lineBuf ++ ch :: line = s.lineBuf ++ [ch] ++ line := by
      rw [append_assoc, singleton_append]
    rw [takeChars, takeChar, if_neg (Ne.symm hch)]
    dsimp only
    by_cases hlong : maxSseLineBytes < byteSize (s.lineBuf ++ [ch])
    · have hsize := byteSize_append (s.lineBuf ++ [ch]) line
      rw [if_pos hlong, hassoc, if_neg (by omega)]
    · rw [if_neg hlong]
      dsimp only
      rw [ih hrest (Nat.le_of_not_lt hlong), hassoc]

theorem takeLine_of_fit (hbuf : byteSize s.lineBuf ≤ maxSseLineBytes) :
    takeLine parse s =
      if (readLine parse (lineOf s.lineBuf)).2 then
        .done ⟨s.tokens ++ (readLine parse (lineOf s.lineBuf)).1.toList,
          .ok (s.fullResponse ++ (readLine parse (lineOf s.lineBuf)).1.getD "")⟩
      else .more ⟨s.fullResponse ++ (readLine parse (lineOf s.lineBuf)).1.getD "", [],
        s.tokens ++ (readLine parse (lineOf s.lineBuf)).1.toList⟩ := by
  have hsize := byteSize_lineOf_le s.lineBuf
  unfold takeLine
  dsimp only
  rw [if_neg (by omega)]

def Progress.finish : Progress → StreamOutcome
  | .more s => ⟨s.tokens, .ok s.fullResponse⟩
  | .done outcome => outcome

theorem linesOf_line (h : '\n' ∉ line) : linesOf line = [line] := by
  unfold linesOf
  exact splitOn_eq_singleton h

theorem linesOf_cons (h : '\n' ∉ line) (rest : List Char) :
    linesOf (line ++ '\n' :: rest) = line :: linesOf rest :=
  splitOn_append_cons_self_of_not_mem h rest

theorem linesOf_ne_nil (cs : List Char) : linesOf cs ≠ [] := splitOn_ne_nil '\n' cs

theorem join_toList (content : Option String) : String.join content.toList = content.getD "" := by
  cases content with
  | none => rfl
  | some content => simp [String.join]

/-- What is read of a text: its lines with a line feed, up to the last event. -/
theorem finish_takeChars (full : String) (tokens : List String) (cs : List Char) :
    (FitThrough parse (linesOf cs) ∧ (takeChars parse ⟨full, [], tokens⟩ cs).finish =
      ⟨tokens ++ heard ((linesOf cs).dropLast.map fun line => readLine parse (lineOf line)),
        .ok (full ++ textOf parse (linesOf cs).dropLast)⟩) ∨
    (¬ FitThrough parse (linesOf cs) ∧
      ∃ e, (takeChars parse ⟨full, [], tokens⟩ cs).finish.result = .error e) := by
  induction cs using pieces_induction (· == '\n') generalizing full tokens with
  | piece line hplain =>
    have hline : '\n' ∉ line := fun hmem => by
      have := hplain '\n' hmem
      simp at this
    rw [takeChars_line hline (Nat.zero_le _), linesOf_line hline]
    dsimp only [nil_append]
    by_cases hsize : byteSize line ≤ maxSseLineBytes
    · left
      rw [if_pos hsize]
      exact ⟨⟨hsize, Or.inr trivial⟩, by simp [Progress.finish, heard, textOf]⟩
    · right
      rw [if_neg hsize]
      exact ⟨fun h => hsize h.1, _, rfl⟩
  | step line d rest hplain hd ih =>
    have hline : '\n' ∉ line := fun hmem => by
      have := hplain '\n' hmem
      simp at this
    obtain rfl : d = '\n' := by simpa using hd
    rw [takeChars_append, takeChars_line hline (Nat.zero_le _), linesOf_cons hline,
      dropLast_cons_of_ne_nil (linesOf_ne_nil rest)]
    dsimp only [nil_append]
    by_cases hsize : byteSize line ≤ maxSseLineBytes
    · rw [if_pos hsize]
      dsimp only
      rw [takeChars, takeChar, if_pos rfl, takeLine_of_fit hsize]
      dsimp only
      rcases hsaid : readLine parse (lineOf line) with ⟨content, last⟩
      cases last with
      | true =>
        left
        refine ⟨⟨hsize, Or.inl (by rw [hsaid])⟩, ?_⟩
        simp [Progress.finish, textOf, heard, hsaid, join_toList]
      | false =>
        have hfit : FitThrough parse (line :: linesOf rest) ↔ FitThrough parse (linesOf rest) := by
          simp [FitThrough, hsize, hsaid]
        rw [hfit]
        dsimp only
        rw [if_neg Bool.false_ne_true]
        dsimp only
        rcases ih (full ++ content.getD "") (tokens ++ content.toList) with
          ⟨hrest, hrun⟩ | ⟨hrest, hrun⟩
        · left
          refine ⟨hrest, ?_⟩
          rw [hrun]
          simp [textOf, heard, hsaid, join_toList, String.append_assoc]
        · exact Or.inr ⟨hrest, hrun⟩
    · right
      rw [if_neg hsize]
      exact ⟨fun h => hsize h.1, _, rfl⟩

variable {chunks : List (List UInt8)}

theorem takeChunks_eq {totalBytes : Nat}
    (h : totalBytes + chunks.flatten.length ≤ defaultMaxResponseBytes) :
    takeChunks parse totalBytes s chunks = (takeChars parse s (chunks.flatMap lossy)).finish := by
  induction chunks generalizing totalBytes s with
  | nil => rfl
  | cons chunk rest ih =>
    rw [flatten_cons, length_append] at h
    have hsum : saturatingAdd usizeMax totalBytes chunk.length ≤ totalBytes + chunk.length := by
      unfold saturatingAdd usizeMax
      omega
    rw [takeChunks, flatMap_cons, takeChars_append]
    rw [if_neg (by omega)]
    cases takeChars parse s (lossy chunk) with
    | done outcome => rfl
    | more s =>
      dsimp only
      exact ih (by omega)

theorem flatMap_lossy_of_whole (h : WholeChars chunks) :
    chunks.flatMap lossy = lossy chunks.flatten := by
  induction chunks with
  | nil => rfl
  | cons chunk rest ih =>
    obtain ⟨s, rfl⟩ := h chunk mem_cons_self
    have hone := lossy_asBytes_append s []
    rw [append_nil, lossy_nil, append_nil] at hone
    rw [flatMap_cons, flatten_cons, lossy_asBytes_append, hone,
      ih fun c hc => h c (mem_cons_of_mem _ hc)]

theorem readsAlike_iff_of_whole (h : WholeChars chunks)
    (hfit : FitThrough parse (linesOf (lossy chunks.flatten))) :
    ReadsAlike parse chunks ↔
      textOf parse (linesOf (lossy chunks.flatten)).dropLast = streamText parse chunks.flatten := by
  rw [← flatMap_lossy_of_whole h] at hfit ⊢
  exact ⟨fun halike => halike.text, fun htext => ⟨hfit, htext⟩⟩

/-- Within the limit of bytes the text of the stream is delivered exactly when the chunks are read
like the whole; where they are of whole characters, exactly when no text is lost with the last
line. -/
theorem chatStreamOnce_delivers_iff (parse : String → Option ChatResponse)
    (chunks : List (List UInt8)) (hbytes : chunks.flatten.length ≤ defaultMaxResponseBytes) :
    (Delivers parse chunks ↔ ReadsAlike parse chunks) ∧
      (WholeChars chunks → FitThrough parse (linesOf (lossy chunks.flatten)) →
        (Delivers parse chunks ↔ textOf parse (linesOf (lossy chunks.flatten)).dropLast =
          streamText parse chunks.flatten)) := by
  have hmain : Delivers parse chunks ↔ ReadsAlike parse chunks := by
    have hrun : chatStreamOnce parse chunks =
        (takeChars parse ⟨"", [], []⟩ (chunks.flatMap lossy)).finish :=
      takeChunks_eq (by omega)
    unfold Delivers
    rw [hrun]
    rcases @finish_takeChars parse "" [] (chunks.flatMap lossy) with
      ⟨hfit, heq⟩ | ⟨hfit, e, heq⟩
    · rw [heq]
      dsimp only
      rw [String.empty_append, nil_append]
      constructor
      · rintro ⟨-, htext⟩
        exact ⟨hfit, htext⟩
      · rintro ⟨-, htext⟩
        exact ⟨congrArg Except.ok htext, htext⟩
    · rw [heq]
      refine iff_of_false ?_ fun h => hfit h.fit
      rintro ⟨h, -⟩
      cases h
  exact ⟨hmain, fun hwhole hfit => hmain.trans (readsAlike_iff_of_whole hwhole hfit)⟩

/-! ## A character in two chunks -/

def deltaPayload (content : String) : String :=
  "\x7b\"choices\":[\x7b\"delta\":\x7b\"content\":\"" ++ content ++ "\"\x7d\x7d]\x7d"

/-- The JSON reader on these payloads. -/
def deltaReader (text : String) : Option ChatResponse :=
  (["é", "\ufffd\ufffd"].find? fun content => text == deltaPayload content).map fun content =>
    ⟨[⟨some ⟨some content⟩, none⟩]⟩

def accentStream : List UInt8 := asBytes ("data: " ++ deltaPayload "é" ++ "\n\n")

theorem chatStreamOnce_accent_whole :
    Delivers deltaReader [accentStream.take 30, accentStream.drop 30] := by
  have hread : ReadsAlike deltaReader [accentStream.take 30, accentStream.drop 30] :=
    ⟨⟨by decide +kernel, Or.inr ⟨by decide +kernel, Or.inr ⟨by decide +kernel, Or.inr trivial⟩⟩⟩,
      by decide +kernel⟩
  exact (chatStreamOnce_delivers_iff deltaReader _ (by decide +kernel)).1.mpr hread

/-- The chunk boundary is between the two bytes of the letter. -/
theorem chatStreamOnce_accent_cut :
    ¬ ∀ parse chunks, chunks.flatten.length ≤ defaultMaxResponseBytes →
      FitThrough parse (linesOf (lossy chunks.flatten)) → Delivers parse chunks := by
  intro h
  have hdelivers := h deltaReader [accentStream.take 40, accentStream.drop 40] (by decide +kernel)
    ⟨by decide +kernel, Or.inr ⟨by decide +kernel, Or.inr ⟨by decide +kernel, Or.inr trivial⟩⟩⟩
  exact absurd hdelivers.2 (by decide +kernel)

end GenieClaw.Llm
