import GenieClaw.Http.ProbeResponse
import GenieClaw.Llm.ChatStream

/-!
# An event stream on the wire

A server sends each event as a data line and a blank line, with or without a blank behind the
colon, and transfers the stream with a length, in chunks or up to the end of the connection. The
client takes the lines of the wire for those of the stream: it does not hear a line without the
blank, and a line with a chunk boundary inside it comes apart.

* `heardOn_events`: without chunks the events with a blank are heard.
* `alike_chunkedStream`: of a chunked stream, the pieces between boundaries and line feeds.
* `alike_takenFrom`: event by event, the line where it is whole and its pieces where it is cut.
-/

namespace GenieClaw.Llm

open Library Library.Text List
open Http (newline)
open Http.Probe (withoutReturn headOf FieldLine SizeLine ProbeChunk EndOfChunks chunkedStream)

/-! ## Events -/

/-- A data line, which ends like the blank line behind it. -/
structure Event where
  spaced : Bool
  payload : String
  crlf : Bool
  oneLine : ∀ c ∈ payload.toList, c ≠ '\r' ∧ c ≠ '\n'
  /-- The first blank behind the colon is not part of the payload. -/
  unspaced : spaced = false → payload.toList.head? ≠ some ' '

namespace Event

variable (parse : String → Option ChatResponse) (e : Event)

def line : String := "data:" ++ ((if e.spaced then " " else "") ++ e.payload)

def eol : List UInt8 := if e.crlf then [13, 10] else [10]

def bytes : List UInt8 := asBytes e.line ++ (e.eol ++ e.eol)

/-- What the event says. -/
def sent : Option String × Bool := readPayload parse e.payload

/-- What the client takes from its line. -/
def received : Option String × Bool := if e.spaced then e.sent parse else (none, false)

/-- What it takes with a boundary behind the carriage return, which then is part of the line. -/
def returned : Option String × Bool :=
  if e.spaced then readPayload parse (e.payload ++ "\r") else (none, false)

end Event

def eventBytes (events : List Event) : List UInt8 := events.flatMap Event.bytes

/-! ## Lines of bytes -/

section

variable {parse : String → Option ChatResponse} {ending : Ending}

theorem nextLines_cons {x : List UInt8} (hx : newline ∉ x) (y : List UInt8) :
    nextLines ending (x ++ newline :: y) = lineText x :: nextLines ending y := by
  have hsplit : (x ++ newline :: y).splitOn newline = x :: y.splitOn newline :=
    splitOn_append_cons_self_of_not_mem hx y
  have hne : y.splitOn newline ≠ [] := splitOn_ne_nil newline y
  unfold nextLines
  dsimp only
  rw [hsplit, dropLast_cons_of_ne_nil hne, map_cons, cons_append,
    getLast?_cons_of_ne_nil hne]

/-- What is heard of the bytes. -/
def heardOn (parse : String → Option ChatResponse) (ending : Ending) (bytes : List UInt8) :
    List String := heard ((nextLines ending bytes).map (effect parse))

theorem heardOn_nil : heardOn parse ending [] = [] := by
  cases ending <;> rfl

theorem heardOn_line {x : List UInt8} (hx : newline ∉ x) (y : List UInt8) :
    heardOn parse ending (x ++ newline :: y) = (effect parse (lineText x)).1.toList ++
      if (effect parse (lineText x)).2 then [] else heardOn parse ending y := by
  unfold heardOn
  rw [nextLines_cons hx, map_cons]
  rfl

theorem lineText_eq_ok {raw : List UInt8} {text : String} (h : lineText raw = .ok text) :
    text.toList = withoutReturn (lossy raw) := by
  unfold lineText at h
  split at h
  · rename_i decoded hdecoded
    cases h
    rw [String.toList_ofList, fromUtf8_eq_some.mp hdecoded, Http.Probe.lossy_asBytes]
  · cases h

theorem prefix_withoutReturn (cs : List Char) : withoutReturn cs <+: cs := by
  unfold withoutReturn
  split
  · exact dropLast_prefix cs
  · exact prefix_rfl

theorem effect_other {x : List UInt8} (hdata : ¬ "data: ".toList <+: lossy x) :
    effect parse (lineText x) = (none, false) := by
  cases hline : lineText x with
  | error e => rfl
  | ok text =>
    have hstarts : startsWith "data: " text = false := by
      refine eq_false_of_ne_true fun hstarts => hdata ?_
      have hprefix := List.isPrefixOf_iff_prefix.mp hstarts
      rw [lineText_eq_ok hline] at hprefix
      exact hprefix.trans (prefix_withoutReturn _)
    unfold effect readLine stripPrefix
    dsimp only
    rw [hstarts]
    rfl

theorem heardOn_other {x : List UInt8} (hx : newline ∉ x) (hdata : ¬ "data: ".toList <+: lossy x)
    (y : List UInt8) : heardOn parse ending (x ++ newline :: y) = heardOn parse ending y := by
  rw [heardOn_line hx, effect_other hdata]
  rfl

theorem newline_notMem_asBytes {s : String} (h : '\n' ∉ s.toList) : newline ∉ asBytes s :=
  fun hmem => h ((mem_asBytes_ascii (c := '\n') (by decide)).mp hmem)

theorem lineText_asBytes {s : String} (h : '\r' ∉ s.toList) : lineText (asBytes s) = .ok s := by
  have hlast : ¬ s.toList.getLast? = some '\r' := fun hlast =>
    h (mem_of_getLast? hlast)
  unfold lineText withoutReturn
  rw [fromUtf8_eq_some.mpr rfl]
  dsimp only
  rw [if_neg hlast, String.ofList_toList]

theorem lineText_return (s : String) : lineText (asBytes s ++ [13]) = .ok s := by
  have hbytes : asBytes s ++ [13] = asBytes (s ++ "\r") := by
    rw [asBytes_append]
    rfl
  unfold lineText
  rw [fromUtf8_eq_some.mpr hbytes]
  dsimp only
  rw [String.toList_append]
  have hreturn : "\r".toList = ['\r'] := rfl
  rw [hreturn, Http.Probe.withoutReturn_append, String.ofList_toList]

end

/-! ## Events without chunks -/

namespace Event

variable {parse : String → Option ChatResponse} {ending : Ending} {e : Event}

theorem line_plain : ∀ c ∈ e.line.toList, c ≠ '\r' ∧ c ≠ '\n' := by
  have hfield : ∀ c ∈ "data:".toList, c ≠ '\r' ∧ c ≠ '\n' := forall_mem_of_all (by decide)
  have hblank : ∀ c ∈ (if e.spaced then " " else "").toList, c ≠ '\r' ∧ c ≠ '\n' := by
    split
    · exact forall_mem_of_all (by decide)
    · exact forall_mem_of_all (by decide)
  intro c hc
  simp only [line, String.toList_append, mem_append] at hc
  rcases hc with hc | hc | hc
  · exact hfield c hc
  · exact hblank c hc
  · exact e.oneLine c hc

theorem newline_notMem_line : newline ∉ asBytes e.line :=
  newline_notMem_asBytes fun h => (line_plain '\n' h).2 rfl

theorem readLine_field {spaced : Bool} {payload : String}
    (hunspaced : spaced = false → payload.toList.head? ≠ some ' ') :
    readLine parse ("data:" ++ ((if spaced then " " else "") ++ payload)) =
      if spaced then readPayload parse payload else (none, false) := by
  have hfive : "data: ".toList = "data:".toList ++ [' '] := by decide
  unfold readLine stripPrefix
  cases spaced with
  | true =>
    have htext : ("data:" ++ (" " ++ payload)).toList = "data: ".toList ++ payload.toList := by
      rw [String.toList_append, String.toList_append, hfive, append_assoc]
      rfl
    have hstarts : startsWith "data: " ("data:" ++ (" " ++ payload)) = true := by
      refine List.isPrefixOf_iff_prefix.mpr ?_
      rw [htext]
      exact prefix_append _ _
    simp only [if_true, hstarts, htext, drop_left, String.ofList_toList]
  | false =>
    have hstarts : startsWith "data: " ("data:" ++ ("" ++ payload)) = false := by
      refine eq_false_of_ne_true fun hstarts => hunspaced rfl ?_
      have hprefix := List.isPrefixOf_iff_prefix.mp hstarts
      rw [String.toList_append, String.empty_append, hfive, prefix_append_right_inj]
        at hprefix
      obtain ⟨rest, hrest⟩ := hprefix
      rw [← hrest]
      rfl
    simp only [Bool.false_eq_true, if_false, hstarts]

theorem readLine_line : readLine parse e.line = e.received parse := readLine_field e.unspaced

theorem effect_line : effect parse (lineText (asBytes e.line)) = e.received parse := by
  rw [lineText_asBytes fun h => (line_plain '\r' h).1 rfl]
  exact readLine_line

theorem effect_line_return :
    effect parse (lineText (asBytes e.line ++ [13])) = e.received parse := by
  rw [lineText_return]
  exact readLine_line

theorem effect_line_returns :
    effect parse (lineText (asBytes e.line ++ [13] ++ [13])) = e.returned parse := by
  have hbytes : asBytes e.line ++ [13] = asBytes (e.line ++ "\r") := by
    rw [asBytes_append]
    rfl
  have hline : e.line ++ "\r" =
      "data:" ++ ((if e.spaced then " " else "") ++ (e.payload ++ "\r")) := by
    rw [line, String.append_assoc, String.append_assoc]
  rw [hbytes, lineText_return, hline]
  refine readLine_field fun hspaced hhead => e.unspaced hspaced ?_
  rw [String.toList_append] at hhead
  cases hpayload : e.payload.toList with
  | nil => simp [hpayload] at hhead
  | cons c payload => simpa [hpayload] using hhead

end Event

theorem heardOn_events {parse : String → Option ChatResponse} {ending : Ending}
    (events : List Event) : heardOn parse ending (eventBytes events) =
      heard (events.map (Event.received parse)) := by
  induction events with
  | nil => exact heardOn_nil
  | cons e events ih =>
    have hblank : heardOn parse ending (e.eol ++ eventBytes events) =
        heard (events.map (Event.received parse)) := by
      rw [← ih]
      unfold Event.eol
      split
      · exact @heardOn_other _ _ [13] (by decide) (by decide) _
      · exact @heardOn_other _ _ [] (by decide) (by decide) _
    have hbytes : eventBytes (e :: events) =
        asBytes e.line ++ (e.eol ++ (e.eol ++ eventBytes events)) := by
      unfold eventBytes
      rw [flatMap_cons, Event.bytes, append_assoc, append_assoc]
    have hline := @Event.newline_notMem_line e
    rw [hbytes, map_cons, heard, ← hblank]
    by_cases hcrlf : e.crlf = true
    · have heol : e.eol = [13, 10] := if_pos hcrlf
      have hreturn : newline ∉ asBytes e.line ++ [13] := by
        rw [mem_append, not_or]
        exact ⟨hline, by decide⟩
      have hheard := @heardOn_line parse ending _ hreturn (e.eol ++ eventBytes events)
      rw [Event.effect_line_return, append_assoc] at hheard
      rw [heol] at hheard ⊢
      exact hheard
    · have heol : e.eol = [10] := if_neg hcrlf
      have hheard := @heardOn_line parse ending _ hline (e.eol ++ eventBytes events)
      rw [Event.effect_line] at hheard
      rw [heol] at hheard ⊢
      exact hheard

/-! ## What is heard of lines in a row -/

/-- The same is heard of both, whatever comes behind them. -/
def Alike (xs ys : List (Option String × Bool)) : Prop :=
  ∀ later, heard (xs ++ later) = heard (ys ++ later)

section

variable {xs ys zs ws : List (Option String × Bool)}

theorem heard_append_congr (xs : List (Option String × Bool)) (h : heard ys = heard zs) :
    heard (xs ++ ys) = heard (xs ++ zs) := by
  induction xs with
  | nil => exact h
  | cons x xs ih => rw [cons_append, cons_append, heard, heard, ih]

theorem Alike.refl (xs : List (Option String × Bool)) : Alike xs xs := fun _ => rfl

theorem Alike.symm (h : Alike xs ys) : Alike ys xs := fun later => (h later).symm

theorem Alike.trans (h : Alike xs ys) (h' : Alike ys zs) : Alike xs zs := fun later =>
  (h later).trans (h' later)

theorem Alike.append (h : Alike xs ys) (h' : Alike zs ws) : Alike (xs ++ zs) (ys ++ ws) := by
  intro later
  rw [append_assoc, append_assoc, h]
  exact heard_append_congr ys (h' later)

theorem Alike.silent (h : ∀ x ∈ xs, x = (none, false)) : Alike xs [] := by
  intro later
  induction xs with
  | nil => rfl
  | cons x xs ih =>
    obtain ⟨rfl, hxs⟩ := List.forall_mem_cons.mp h
    rw [cons_append, heard_silent, ih hxs]

theorem Alike.cons_silent (h : Alike xs ys) : Alike ((none, false) :: xs) ys := h

theorem Alike.heard_eq (h : Alike xs ys) : heard xs = heard ys := by
  have hnil := h []
  rwa [append_nil, append_nil] at hnil

end

/-! ## Lines of the coding -/

section

variable {parse : String → Option ChatResponse} {ending : Ending}

theorem sizeLine_not_data {size : Nat} (sizeLine : SizeLine size) :
    ¬ "data: ".toList <+: lossy (sizeLine.bytes ++ [13]) := by
  obtain ⟨blank, more, hblank, htext, hmore⟩ := sizeLine.text
  rw [htext, append_assoc]
  intro hdata
  have hdigit : ∀ c ∈ sizeLine.digits, (digitOf 16 c).isSome = true :=
    Http.Probe.digitOf_isSome_of_parseDigits sizeLine.value
  have hbehind : ∀ c, (blank ++ more).head? = some c → isWhitespace c = true ∨ c = ';' := by
    intro c hc
    cases blank with
    | nil =>
      rcases hmore with rfl | hmore
      · cases hc
      · exact .inr (Option.some.inj (hc.symm.trans hmore))
    | cons d blank => exact .inl (Option.some.inj hc ▸ hblank d mem_cons_self)
  have hnot : ∀ c, c ∈ ['a', 't'] → (blank ++ more).head? ≠ some c := by
    intro c hc hhead
    have hletters : ∀ c ∈ ['a', 't'], ¬ (isWhitespace c = true ∨ c = ';') :=
      forall_mem_of_all (by decide)
    exact hletters c hc (hbehind c hhead)
  obtain ⟨rest, hrest⟩ := hdata
  have hletters : "data: ".toList = ['d', 'a', 't', 'a', ':', ' '] := rfl
  rw [hletters] at hrest
  rcases hdigits : sizeLine.digits with _ | ⟨x, _ | ⟨y, _ | ⟨z, digits⟩⟩⟩
  · exact sizeLine.nonempty hdigits
  · rw [hdigits] at hrest
    exact hnot 'a' (by decide) (congrArg List.head? (List.cons.inj hrest).2).symm
  · rw [hdigits] at hrest
    exact hnot 't' (by decide)
      (congrArg List.head? (List.cons.inj (List.cons.inj hrest).2).2).symm
  · rw [hdigits] at hrest
    have hz : 't' = z := (List.cons.inj (List.cons.inj (List.cons.inj hrest).2).2).1
    have hhex := hdigit z (by rw [hdigits]; simp)
    rw [← hz] at hhex
    exact absurd hhex (by decide)

theorem newline_notMem_return {x : List UInt8} (h : ∀ b ∈ x, b ≠ 13 ∧ b ≠ 10) :
    newline ∉ x ++ [13] := by
  rw [mem_append, not_or]
  exact ⟨fun hmem => (h newline hmem).2 rfl, by decide⟩

theorem field_not_data {field : FieldLine} (h : field.name ≠ "data") :
    ¬ "data: ".toList <+: lossy (field.bytes ++ [13]) := by
  have hascii : (13 : UInt8).toNat < 128 := by decide
  rw [lossy_append_ascii _ hascii, Http.Probe.lossy_field, append_assoc]
  rintro ⟨rest, hrest⟩
  have hcolon : "data: ".toList ++ rest = "data".toList ++ ':' :: (' ' :: rest) := rfl
  rw [hcolon] at hrest
  have hname := (Http.Probe.append_cons_eq_iff (by decide) field.colon_notMem).mp hrest
  exact h (String.toList_inj.mp hname.1.symm)

theorem effect_returns {x : List UInt8} (hx : ∀ b ∈ x, b = 13) :
    effect parse (lineText x) = (none, false) := by
  refine effect_other fun hdata => ?_
  have hmem : 'd' ∈ lossy x := hdata.subset (by decide)
  exact absurd (hx _ (mem_of_mem_lossy (by decide) hmem)) (by decide)

theorem nextLines_block (z y : List UInt8) : nextLines ending (z ++ newline :: y) =
    (z.splitOn newline).map lineText ++ nextLines ending y := by
  have hne : y.splitOn newline ≠ [] := splitOn_ne_nil newline y
  unfold nextLines
  dsimp only
  rw [splitOn_append_cons_self, dropLast_append_of_ne_nil hne, map_append,
    getLast?_append_of_ne_nil _ hne, append_assoc]

theorem nextLines_headOf {lines : List (List UInt8)}
    (h : ∀ line ∈ lines, Http.Probe.Line line) (body : List UInt8) :
    nextLines ending (headOf lines ++ body) =
      lines.map (fun line => lineText (line ++ [13])) ++ .ok "" :: nextLines ending body := by
  induction lines with
  | nil => exact @nextLines_cons ending [13] (by decide) body
  | cons line lines ih =>
    have hline := newline_notMem_return (h line mem_cons_self).plain
    have hnext := @nextLines_cons ending _ hline (headOf lines ++ body)
    rw [append_assoc, ih fun l hl => h l (mem_cons_of_mem line hl)] at hnext
    rw [Http.Probe.headOf_cons, append_assoc]
    exact hnext

end

section

variable (parse : String → Option ChatResponse)

/-- What the client takes from a piece of the stream. The coding ends it like a line. -/
def pieceReads (piece : List UInt8) : List (Option String × Bool) :=
  ((piece ++ [13]).splitOn newline).map fun line => effect parse (lineText line)

def reads (pieces : List (List UInt8)) : List (Option String × Bool) :=
  pieces.flatMap (pieceReads parse)

/-- A trailer of this name looks like a data line. -/
def trailerReads (last : EndOfChunks) : List (Option String × Bool) :=
  (last.trailers.filter fun field => field.name = "data").map fun field =>
    effect parse (lineText (field.bytes ++ [13]))

end

section

variable {parse : String → Option ChatResponse} {ending : Ending} {last : EndOfChunks}

theorem alike_last (last : EndOfChunks) :
    Alike ((nextLines ending last.bytes).map (effect parse)) (trailerReads parse last) := by
  have hend : Alike ((nextLines ending []).map (effect parse)) [] := by
    cases ending <;> exact .silent (by simp [nextLines, lastLine, effect])
  have hlines : ∀ line ∈ last.trailers.map FieldLine.bytes, Http.Probe.Line line := by
    intro line hline
    obtain ⟨field, -, rfl⟩ := List.mem_map.mp hline
    exact field.line
  have htrailers : Alike ((last.trailers.map FieldLine.bytes).map fun line =>
      effect parse (lineText (line ++ [13]))) (trailerReads parse last) := by
    unfold trailerReads
    rw [map_map]
    induction last.trailers with
    | nil => exact .refl []
    | cons field trailers ih =>
      rw [map_cons, filter_cons]
      split
      · exact (Alike.refl [_]).append ih
      · rename_i hname
        have hsilent : effect parse (lineText (field.bytes ++ [13])) = (none, false) :=
          effect_other (field_not_data fun h => hname (by simpa using h))
        rw [Function.comp_apply, hsilent]
        exact ih.cons_silent
  have hbytes : last.bytes = last.sizeLine.bytes ++ [13] ++ newline ::
      (headOf (last.trailers.map FieldLine.bytes) ++ []) := by
    rw [EndOfChunks.bytes, append_nil, append_assoc]
    rfl
  rw [hbytes, nextLines_cons (newline_notMem_return last.sizeLine.line.plain),
    nextLines_headOf hlines, map_cons, map_append, map_map,
    effect_other (sizeLine_not_data last.sizeLine)]
  have hblank : Alike (effect parse (.ok "") :: (nextLines ending []).map (effect parse)) [] :=
    hend.cons_silent
  have hall := (htrailers.append hblank).cons_silent
  rwa [append_nil] at hall

/-- The lines of a chunked stream are heard like the pieces of its chunks. -/
theorem alike_chunkedStream (chunks : List ProbeChunk) (last : EndOfChunks) :
    Alike ((nextLines ending (chunkedStream chunks last)).map (effect parse))
      (reads parse (chunks.map ProbeChunk.data) ++ trailerReads parse last) := by
  induction chunks with
  | nil => exact alike_last last
  | cons chunk chunks ih =>
    have hbytes : chunkedStream (chunk :: chunks) last = chunk.sizeLine.bytes ++ [13] ++
        newline :: (chunk.data ++ [13] ++ newline :: chunkedStream chunks last) := by
      simp [chunkedStream, ProbeChunk.bytes, Http.Probe.crlf, newline]
    have hpiece : (((chunk.data ++ [13]).splitOn newline).map lineText).map (effect parse) =
        pieceReads parse chunk.data := by
      rw [map_map]
      rfl
    rw [hbytes, nextLines_cons (newline_notMem_return chunk.sizeLine.line.plain), nextLines_block,
      map_cons, map_append, hpiece, effect_other (sizeLine_not_data chunk.sizeLine),
      map_cons, reads, flatMap_cons, append_assoc]
    exact ((Alike.refl (pieceReads parse chunk.data)).append ih).cons_silent

/-! ## Pieces of an event -/

theorem pieceReads_line (a b : List UInt8) : pieceReads parse (a ++ newline :: b) =
    ((a.splitOn newline).map fun line => effect parse (lineText line)) ++ pieceReads parse b := by
  unfold pieceReads
  rw [append_assoc, cons_append, splitOn_append_cons_self, map_append]

theorem pieceReads_single {a : List UInt8} (h : newline ∉ a) :
    pieceReads parse a = [effect parse (lineText (a ++ [13]))] := by
  have hreturn : newline ∉ a ++ [13] := by
    rw [mem_append, not_or]
    exact ⟨h, by decide⟩
  rw [pieceReads, splitOn_eq_singleton hreturn, map_singleton]

/-- Nothing is heard of line ends, wherever they are cut. -/
theorem alike_lineEnds {d : List UInt8} (h : ∀ b ∈ d, b = 13 ∨ b = 10) :
    Alike (pieceReads parse d) [] := by
  have hbehind : ∀ x : List UInt8, (∀ b ∈ x, b = 13) → Alike (pieceReads parse (x ++ d)) [] := by
    induction d with
    | nil =>
      intro x hx
      have hnot : newline ∉ x := fun hmem => absurd (hx _ hmem) (by decide)
      rw [append_nil, pieceReads_single hnot, effect_returns]
      · exact .silent (by simp)
      · simpa [or_imp, forall_and] using hx
    | cons b d ih =>
      intro x hx
      obtain ⟨hb, hd⟩ := List.forall_mem_cons.mp h
      rcases hb with rfl | rfl
      · have hnext := ih hd (x ++ [13]) (by simpa [or_imp, forall_and] using hx)
        rwa [append_assoc] at hnext
      · have hnot : newline ∉ x := fun hmem => absurd (hx _ hmem) (by decide)
        have hline : pieceReads parse (x ++ newline :: d) =
            [(none, false)] ++ pieceReads parse d := by
          rw [pieceReads_line, splitOn_eq_singleton hnot, map_singleton,
            effect_returns hx]
        rw [show (10 : UInt8) = newline from rfl, hline]
        exact (ih hd [] (by simp)).cons_silent
  exact hbehind [] (by simp)

theorem alike_reads_lineEnds {pieces : List (List UInt8)}
    (h : ∀ b ∈ pieces.flatten, b = 13 ∨ b = 10) : Alike (reads parse pieces) [] := by
  induction pieces with
  | nil => exact .refl []
  | cons piece pieces ih =>
    rw [flatten_cons, forall_mem_append] at h
    exact (alike_lineEnds h.1).append (ih h.2)

end

/-- The first `n` bytes, as they lie in the pieces. -/
def takePieces (n : Nat) : List (List UInt8) → List (List UInt8)
  | [] => []
  | piece :: rest =>
    if n ≤ piece.length then [piece.take n] else piece :: takePieces (n - piece.length) rest

/-- The bytes behind them. -/
def dropPieces (n : Nat) : List (List UInt8) → List (List UInt8)
  | [] => []
  | piece :: rest =>
    if n < piece.length then piece.drop n :: rest else dropPieces (n - piece.length) rest

theorem flatten_takePieces (n : Nat) (pieces : List (List UInt8)) :
    (takePieces n pieces).flatten = pieces.flatten.take n := by
  induction pieces generalizing n with
  | nil => simp [takePieces]
  | cons piece rest ih =>
    rw [takePieces, flatten_cons, take_append]
    split
    · rename_i hle
      rw [Nat.sub_eq_zero_of_le hle]
      simp
    · rename_i hlt
      rw [flatten_cons, ih, take_of_length_le (l := piece) (by omega)]

theorem flatten_dropPieces (n : Nat) (pieces : List (List UInt8)) :
    (dropPieces n pieces).flatten = pieces.flatten.drop n := by
  induction pieces generalizing n with
  | nil => simp [dropPieces]
  | cons piece rest ih =>
    rw [dropPieces, flatten_cons, drop_append]
    split
    · rename_i hlt
      rw [Nat.sub_eq_zero_of_le (by omega)]
      simp
    · rename_i hle
      rw [ih, drop_of_length_le (l := piece) (by omega), nil_append]

section

variable (parse : String → Option ChatResponse)

/-- What is taken of an event that lies in these pieces. If the first of them has all of its line,
it is read as such. Otherwise the line is cut, and every piece of it is a line of its own. -/
def Event.taken (e : Event) (pieces : List (List UInt8)) : List (Option String × Bool) :=
  match pieces with
  | [] => []
  | first :: more =>
    if asBytes e.line <+: first then
      [if first = asBytes e.line ++ [13] then e.returned parse else e.received parse]
    else reads parse (first :: more)

def takenFrom : List Event → List (List UInt8) → List (Option String × Bool)
  | [], _ => []
  | e :: events, pieces => e.taken parse (takePieces e.bytes.length pieces) ++
      takenFrom events (dropPieces e.bytes.length pieces)

end

section

variable {parse : String → Option ChatResponse} {e : Event} {pieces : List (List UInt8)}

theorem alike_dropPieces_zero (pieces : List (List UInt8)) :
    Alike (reads parse pieces) (reads parse (dropPieces 0 pieces)) := by
  induction pieces with
  | nil => exact .refl []
  | cons piece rest ih =>
    rw [dropPieces]
    split
    · exact .refl _
    · rename_i hempty
      have hnil : piece = [] := List.length_eq_zero_iff.mp (by omega)
      subst hnil
      exact (alike_lineEnds (by simp)).append ih

/-- Behind a line feed a boundary more or less is not heard. -/
theorem alike_takePieces {n : Nat} (hn : n ≤ pieces.flatten.length)
    (hend : (pieces.flatten.take n).getLast? = some newline) :
    Alike (reads parse pieces) (reads parse (takePieces n pieces) ++
      reads parse (dropPieces n pieces)) := by
  induction pieces generalizing n with
  | nil => simp at hend
  | cons piece rest ih =>
    rw [flatten_cons, length_append] at hn
    rw [flatten_cons, take_append] at hend
    rcases lt_trichotomy n piece.length with hlt | rfl | hgt
    · have hshort : n - piece.length = 0 := by omega
      rw [hshort, take_zero, append_nil] at hend
      obtain ⟨a, ha⟩ := List.getLast?_eq_some_iff.mp hend
      have hpiece : piece = a ++ newline :: piece.drop n := by
        rw [← singleton_append, ← append_assoc, ← ha, take_append_drop]
      have hall : reads parse (piece :: rest) =
          ((a.splitOn newline).map fun line => effect parse (lineText line)) ++
            reads parse (piece.drop n :: rest) := by
        rw [reads, flatMap_cons, hpiece, pieceReads_line, ← hpiece, append_assoc]
        rfl
      have htake : reads parse (takePieces n (piece :: rest)) =
          ((a.splitOn newline).map fun line => effect parse (lineText line)) ++
            pieceReads parse [] := by
        rw [takePieces, if_pos (by omega), ha, reads, flatMap_singleton, pieceReads_line]
      rw [hall, htake, dropPieces, if_pos hlt, append_assoc]
      refine (Alike.refl _).append ?_
      exact ((alike_lineEnds (by simp)).append (.refl (reads parse (piece.drop n :: rest)))).symm
    · rw [takePieces, if_pos (Nat.le_refl _), take_length, dropPieces,
        if_neg (Nat.lt_irrefl _), Nat.sub_self]
      have hpiece : reads parse [piece] = pieceReads parse piece := append_nil _
      rw [hpiece]
      exact (Alike.refl (pieceReads parse piece)).append (alike_dropPieces_zero rest)
    · have hne : rest.flatten.take (n - piece.length) ≠ [] := by
        refine ne_nil_of_length_pos ?_
        rw [length_take]
        omega
      rw [getLast?_append_of_ne_nil _ hne] at hend
      rw [takePieces, if_neg (by omega), dropPieces, if_neg (by omega)]
      have hlater := ih (by omega) hend
      rw [reads, flatMap_cons, reads, flatMap_cons, append_assoc]
      exact (Alike.refl (pieceReads parse piece)).append hlater

theorem lineEnds_eol (e : Event) : ∀ b ∈ e.eol ++ e.eol, b = 13 ∨ b = 10 := by
  unfold Event.eol
  split <;> simp

/-- What of its line ends is in one piece with a line. -/
theorem lineEnds_cases {q : List UInt8} (hq : q <+: e.eol ++ e.eol) :
    q = [] ∨ q = [13] ∨ ∃ later, q = e.eol ++ later ∧ ∀ b ∈ later, b = 13 ∨ b = 10 := by
  have hends : ∀ b ∈ q, b = 13 ∨ b = 10 := fun b hb => lineEnds_eol e b (hq.subset hb)
  by_cases hcrlf : e.crlf = true
  · have heol : e.eol = [13, 10] := if_pos hcrlf
    rw [heol] at hq ⊢
    rcases q with _ | ⟨b, _ | ⟨c, later⟩⟩
    · exact .inl rfl
    · obtain ⟨rfl, -⟩ := List.cons_prefix_cons.mp hq
      exact .inr (.inl rfl)
    · obtain ⟨rfl, hsecond⟩ := List.cons_prefix_cons.mp hq
      obtain ⟨rfl, -⟩ := List.cons_prefix_cons.mp hsecond
      exact .inr (.inr ⟨later, rfl, fun b hb => hends b (by simp [hb])⟩)
  · have heol : e.eol = [10] := if_neg hcrlf
    rw [heol] at hq ⊢
    rcases q with _ | ⟨b, later⟩
    · exact .inl rfl
    · obtain ⟨rfl, -⟩ := List.cons_prefix_cons.mp hq
      exact .inr (.inr ⟨later, rfl, fun b hb => hends b (by simp [hb])⟩)

theorem pieceReads_whole {q : List UInt8} (hq : q <+: e.eol ++ e.eol) :
    Alike (pieceReads parse (asBytes e.line ++ q))
      [if q = [13] then e.returned parse else e.received parse] := by
  have hline := @Event.newline_notMem_line e
  rcases lineEnds_cases hq with rfl | rfl | ⟨later, rfl, hlater⟩
  · rw [append_nil, pieceReads_single hline, Event.effect_line_return]
    exact .refl _
  · have hreturn : newline ∉ asBytes e.line ++ [13] := by
      rw [mem_append, not_or]
      exact ⟨hline, by decide⟩
    rw [pieceReads_single hreturn, Event.effect_line_returns, if_pos rfl]
    exact .refl _
  · have hread : pieceReads parse (asBytes e.line ++ (e.eol ++ later)) =
        [e.received parse] ++ pieceReads parse later := by
      unfold Event.eol
      split
      · have hreturn : newline ∉ asBytes e.line ++ [13] := by
          rw [mem_append, not_or]
          exact ⟨hline, by decide⟩
        have hlines := @pieceReads_line parse (asBytes e.line ++ [13]) later
        rw [splitOn_eq_singleton hreturn, map_singleton, Event.effect_line_return,
          append_assoc] at hlines
        exact hlines
      · have hlines := @pieceReads_line parse (asBytes e.line) later
        rwa [splitOn_eq_singleton hline, map_singleton, Event.effect_line] at hlines
    have hne : e.eol ++ later ≠ [13] := by
      unfold Event.eol
      split <;> simp
    rw [hread, if_neg hne]
    have hends : Alike (pieceReads parse later) [] := alike_lineEnds hlater
    have hsilent := (Alike.refl [e.received parse]).append hends
    rwa [append_nil] at hsilent

theorem alike_taken (h : pieces.flatten = e.bytes) :
    Alike (reads parse pieces) (e.taken parse pieces) := by
  cases pieces with
  | nil => exact .refl []
  | cons first more =>
    rw [Event.taken]
    split
    · rename_i hwhole
      obtain ⟨q, rfl⟩ := hwhole
      rw [flatten_cons, Event.bytes, append_assoc, append_cancel_left_eq] at h
      have hmore : Alike (reads parse more) [] := alike_reads_lineEnds fun b hb =>
        lineEnds_eol e b (h ▸ mem_append_right q hb)
      simp only [append_cancel_left_eq]
      exact (pieceReads_whole ⟨_, h⟩).append hmore
    · exact .refl _

theorem alike_takenFrom {events : List Event} (h : pieces.flatten = eventBytes events) :
    Alike (reads parse pieces) (takenFrom parse events pieces) := by
  induction events generalizing pieces with
  | nil =>
    refine alike_reads_lineEnds fun b hb => ?_
    rw [h] at hb
    exact absurd hb not_mem_nil
  | cons e events ih =>
    have hbytes : pieces.flatten = e.bytes ++ eventBytes events := h
    have htake : (takePieces e.bytes.length pieces).flatten = e.bytes := by
      rw [flatten_takePieces, hbytes, take_left]
    have hdrop : (dropPieces e.bytes.length pieces).flatten = eventBytes events := by
      rw [flatten_dropPieces, hbytes, drop_left]
    have hend : (pieces.flatten.take e.bytes.length).getLast? = some newline := by
      rw [hbytes, take_left, Event.bytes, ← append_assoc]
      unfold Event.eol
      split <;> simp [newline]
    have hlength : e.bytes.length ≤ pieces.flatten.length := by
      rw [hbytes, length_append]
      omega
    exact (alike_takePieces hlength hend).trans ((alike_taken htake).append (ih hdrop))

end

end GenieClaw.Llm
