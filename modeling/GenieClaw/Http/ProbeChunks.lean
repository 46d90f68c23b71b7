import GenieClaw.Http.ProbeHead

/-!
# A response in chunks

Each chunk has a line with its size, its data and a line end; the last one has size zero and is
followed by the trailers. The client waits for a line and then for the data behind it, and gives
up when a cut between two reads finds too much in its buffer.

* `SizeLine.text`: what the client reads of the line with the size.
* `readChunks_spec`: the chunks are decoded or given up, whatever the reads.
-/

namespace GenieClaw.Http.Probe

open Library Library.Program Library.Refill Library.Text List Option Bool

/-! ## Size lines -/

/-- Hexadecimal digits, and behind them optional white space and extensions. -/
structure SizeLine (size : Nat) where
  digits : List Char
  extension : List UInt8
  nonempty : digits ≠ []
  value : parseDigits 16 0 digits = some size
  plain : ∀ b ∈ extension, b ≠ 13 ∧ b ≠ 10
  separated : ∃ blank more, Blank blank ∧
    extension = asBytes (String.ofList blank) ++ more ∧ (more = [] ∨ more.head? = some 59)

def SizeLine.bytes {size : Nat} (line : SizeLine size) : List UInt8 :=
  asBytes (String.ofList line.digits) ++ line.extension

theorem toNat_of_digitOf {radix : Nat} {c : Char} (h : (digitOf radix c).isSome = true) :
    (48 ≤ c.toNat ∧ c.toNat ≤ 57) ∨ (65 ≤ c.toNat ∧ c.toNat ≤ 90) ∨
      (97 ≤ c.toNat ∧ c.toNat ≤ 122) := by
  by_cases hdecimal : '0' ≤ c ∧ c ≤ '9'
  · exact .inl ⟨Char.le_def.mp hdecimal.1, Char.le_def.mp hdecimal.2⟩
  · by_cases hlower : 'a' ≤ c ∧ c ≤ 'z'
    · exact .inr (.inr ⟨Char.le_def.mp hlower.1, Char.le_def.mp hlower.2⟩)
    · by_cases hupper : 'A' ≤ c ∧ c ≤ 'Z'
      · exact .inr (.inl ⟨Char.le_def.mp hupper.1, Char.le_def.mp hupper.2⟩)
      · unfold digitOf at h
        rw [if_neg hdecimal, if_neg hlower, if_neg hupper] at h
        simp at h

theorem digit_text {radix : Nat} {c : Char} (h : (digitOf radix c).isSome = true) :
    isWhitespace c = false ∧ c ≠ ';' ∧ c ≠ '+' ∧ c ≠ '\r' ∧ c ≠ '\n' := by
  have hrange := toNat_of_digitOf h
  refine ⟨?_, ?_, ?_, ?_, ?_⟩
  · unfold isWhitespace
    simp only [or_eq_false_iff, and_eq_false_iff, decide_eq_false_iff_not,
      beq_eq_false_iff_ne]
    omega
  · rintro rfl
    exact absurd hrange (by decide)
  · rintro rfl
    exact absurd hrange (by decide)
  · rintro rfl
    exact absurd hrange (by decide)
  · rintro rfl
    exact absurd hrange (by decide)

theorem digitOf_isSome_of_parseDigits {radix n m : Nat} {cs : List Char}
    (h : parseDigits radix n cs = some m) : ∀ c ∈ cs, (digitOf radix c).isSome = true := by
  induction cs generalizing n with
  | nil => exact fun c hc => nomatch hc
  | cons d ds ih =>
    obtain ⟨v, hv, hrest⟩ := Option.bind_eq_some_iff.mp h
    intro c hc
    rcases List.mem_cons.mp hc with rfl | hc
    · rw [hv]
      rfl
    · exact ih hrest c hc

section

variable {size : Nat} (sizeLine : SizeLine size)

theorem SizeLine.digit {c : Char} (hc : c ∈ sizeLine.digits) :
    isWhitespace c = false ∧ c ≠ ';' ∧ c ≠ '+' ∧ c ≠ '\r' ∧ c ≠ '\n' :=
  digit_text (digitOf_isSome_of_parseDigits sizeLine.value c hc)

theorem SizeLine.line : Line sizeLine.bytes where
  ne_nil h := by
    have hnil : asBytes (String.ofList sizeLine.digits) = [] := (List.append_eq_nil_iff.mp h).1
    have hdigits := congrArg lossy hnil
    rw [lossy_asBytes, String.toList_ofList] at hdigits
    exact sizeLine.nonempty hdigits
  plain b hb := by
    rcases List.mem_append.mp hb with hb | hb
    · constructor
      · rintro rfl
        have h := (mem_asBytes_ascii (c := '\r') (by decide)).mp hb
        rw [String.toList_ofList] at h
        exact (sizeLine.digit h).2.2.2.1 rfl
      · rintro rfl
        have h := (mem_asBytes_ascii (c := '\n') (by decide)).mp hb
        rw [String.toList_ofList] at h
        exact (sizeLine.digit h).2.2.2.2 rfl
    · exact sizeLine.plain b hb

/-- What the client reads of the line: the digits, white space, and something from a `;` on or
nothing. -/
theorem SizeLine.text : ∃ blank more, (∀ c ∈ blank, isWhitespace c = true) ∧
    lossy (sizeLine.bytes ++ [13]) = sizeLine.digits ++ blank ++ more ∧
      (more = [] ∨ more.head? = some ';') := by
  obtain ⟨blank, more, hblank, hextension, hmore⟩ := sizeLine.separated
  have hsplit : lossy (sizeLine.bytes ++ [13]) =
      sizeLine.digits ++ (blank ++ lossy (more ++ [13])) := by
    rw [SizeLine.bytes, hextension, append_assoc, append_assoc, lossy_asBytes_append,
      lossy_asBytes_append, String.toList_ofList, String.toList_ofList]
  have hspace : ∀ c ∈ blank, isWhitespace c = true := isWhitespace_of_blank hblank
  rcases hmore with hnil | hsemicolon
  · refine ⟨blank ++ ['\r'], [], ?_, ?_, .inl rfl⟩
    · intro c hc
      rcases List.mem_append.mp hc with hc | hc
      · exact hspace c hc
      · rw [List.mem_singleton.mp hc]
        decide
    · have hreturn : lossy ([] ++ [13]) = ['\r'] := by decide
      rw [hsplit, hnil, hreturn, append_nil]
  · obtain ⟨rest, rfl⟩ := List.head?_eq_some_iff.mp hsemicolon
    have hascii : (59 : UInt8).toNat < 128 := by decide
    refine ⟨blank, lossy (59 :: rest ++ [13]), hspace, ?_, .inr ?_⟩
    · rw [hsplit, append_assoc]
    · rw [cons_append, ← nil_append (59 :: (rest ++ [13])),
        lossy_append_ascii [] hascii]
      rfl

theorem rdropWhile_append_cons {α : Type} {p : α → Bool} {c : α} (hc : p c = false)
    (front back : List α) :
    (front ++ c :: back).rdropWhile p = front ++ c :: back.rdropWhile p := by
  induction back using List.reverseRecOn with
  | nil => 
    rw [rdropWhile_concat_neg _ _ _ (by rw [hc]; exact Bool.false_ne_true)]
    rfl
  | append_singleton back d ih =>
    by_cases hd : p d = true
    · rw [← cons_append, ← append_assoc, rdropWhile_concat_pos _ _ _ hd, ih,
        rdropWhile_concat_pos _ _ _ hd]
    · rw [← cons_append, ← append_assoc, rdropWhile_concat_neg _ _ _ hd,
        rdropWhile_concat_neg _ _ _ hd, append_assoc, cons_append]

theorem rdropWhile_append_of_all {α : Type} {p : α → Bool} (front : List α) {back : List α}
    (hback : ∀ c ∈ back, p c = true) : (front ++ back).rdropWhile p = front.rdropWhile p := by
  induction back using List.reverseRecOn with
  | nil => rw [append_nil]
  | append_singleton back d ih =>
    have hd : p d = true := hback d (mem_append_right _ mem_cons_self)
    rw [← append_assoc, rdropWhile_concat_pos _ _ _ hd]
    exact ih fun c hc => hback c (mem_append_left _ hc)

theorem trim_of_plain {text blank : List Char} (hne : text ≠ [])
    (htext : ∀ c ∈ text, isWhitespace c = false) (hblank : ∀ c ∈ blank, isWhitespace c = true) :
    trimChars (text ++ blank) = text := by
  have hfirst : (text ++ blank).dropWhile isWhitespace = text ++ blank := by
    apply dropWhile_eq_self_of_head
    intro c hc
    rw [head?_append, or_of_isSome (by simpa using hne)] at hc
    exact htext c (mem_of_head? hc)
  rw [trimChars, hfirst, rdropWhile_append_of_all text hblank, rdropWhile_eq_self_iff]
  intro h
  rw [htext _ (getLast_mem h)]
  exact Bool.false_ne_true

theorem chunkSize_line (hsize : size < 2 ^ 64) :
    chunkSize (sizeLine.bytes ++ [13]) = some size := by
  obtain ⟨blank, more, hblank, htext, hmore⟩ := sizeLine.text
  have hdigits : ∀ c ∈ sizeLine.digits, isWhitespace c = false := fun c hc => (sizeLine.digit hc).1
  have hbefore : ∀ c ∈ sizeLine.digits ++ blank, c ≠ ';' := by
    intro c hc
    rcases List.mem_append.mp hc with hc | hc
    · exact (sizeLine.digit hc).2.1
    · rintro rfl
      exact absurd (hblank ';' hc) (by decide)
  have htrimmed : trimChars ((trimChars (sizeLine.digits ++ blank ++ more)).takeWhile
      fun c => c ≠ ';') = sizeLine.digits := by
    rcases hmore with rfl | hsemicolon
    · rw [append_nil, trim_of_plain sizeLine.nonempty hdigits hblank,
        List.takeWhile_eq_self_iff.mpr fun c hc => by
          simpa using hbefore c (mem_append_left _ hc)]
      have htext := @trim_of_plain sizeLine.digits [] sizeLine.nonempty hdigits (by simp)
      rwa [append_nil] at htext
    · obtain ⟨rest, rfl⟩ := List.head?_eq_some_iff.mp hsemicolon
      have hfirst : (sizeLine.digits ++ blank ++ ';' :: rest).dropWhile isWhitespace =
          sizeLine.digits ++ blank ++ ';' :: rest := by
        apply dropWhile_eq_self_of_head
        intro c hc
        rw [append_assoc, head?_append,
          or_of_isSome (by simpa using sizeLine.nonempty)] at hc
        exact hdigits c (mem_of_head? hc)
      have htaken : (trimChars (sizeLine.digits ++ blank ++ ';' :: rest)).takeWhile
          (fun c => c ≠ ';') = sizeLine.digits ++ blank := by
        rw [trimChars, hfirst, rdropWhile_append_cons (by decide),
          takeWhile_append_of_pos fun c hc => by simpa using hbefore c hc,
          takeWhile_cons_of_neg (by simp), append_nil]
      rw [htaken]
      exact trim_of_plain sizeLine.nonempty hdigits hblank
  have hplus : withoutPlus sizeLine.digits = sizeLine.digits := by
    unfold withoutPlus
    split
    · rename_i rest heq
      exact absurd rfl (sizeLine.digit (heq ▸ mem_cons_self)).2.2.1
    · rfl
  rw [chunkSize, fromUtf8Lossy_eq, htext]
  unfold trim
  rw [String.toList_ofList, String.toList_ofList, String.toList_ofList, htrimmed, parseUnsigned,
    String.toList_ofList, hplus, if_neg sizeLine.nonempty, sizeLine.value, filter_some,
    if_pos (decide_eq_true hsize)]

end

/-! ## Chunks -/

structure ProbeChunk where
  data : List UInt8
  sizeLine : SizeLine data.length
  nonempty : data ≠ []

def ProbeChunk.bytes (chunk : ProbeChunk) : List UInt8 :=
  chunk.sizeLine.bytes ++ 13 :: 10 :: (chunk.data ++ crlf)

/-- The chunk of size zero and the trailers. -/
structure EndOfChunks where
  sizeLine : SizeLine 0
  trailers : List FieldLine

def EndOfChunks.bytes (last : EndOfChunks) : List UInt8 :=
  last.sizeLine.bytes ++ 13 :: 10 :: headOf (last.trailers.map FieldLine.bytes)

def chunkedStream (chunks : List ProbeChunk) (last : EndOfChunks) : List UInt8 :=
  chunks.flatMap ProbeChunk.bytes ++ last.bytes

def decodedData (chunks : List ProbeChunk) : List UInt8 := chunks.flatMap ProbeChunk.data

/-- Where the client gives up chunks that begin at `start` of the stream, with `decoded` bytes
behind it: at a size line of which more than `cap` bytes are there without its end, at a chunk
beyond `cap`, or at a chunk whose end is not there when more than `cap` bytes are. -/
def ChunksRefused (cap : Nat) (reads : Buffers UInt8) (last : EndOfChunks) :
    Nat → Nat → List ProbeChunk → Prop
  | start, _, [] => Overrun cap 0 reads start (start + (last.sizeLine.bytes.length + 2))
  | start, decoded, chunk :: rest =>
    let behind := start + (chunk.sizeLine.bytes.length + 2)
    Overrun cap 0 reads start behind ∨ cap < chunk.data.length ∨
      Overrun cap decoded reads behind (behind + (chunk.data.length + 2)) ∨
      ChunksRefused cap reads last (behind + (chunk.data.length + 2))
        (decoded + chunk.data.length) rest

instance decideChunksRefused (cap : Nat) (reads : Buffers UInt8) (last : EndOfChunks) :
    ∀ (start decoded : Nat) (chunks : List ProbeChunk),
      Decidable (ChunksRefused cap reads last start decoded chunks)
  | _, _, [] => inferInstanceAs (Decidable (Overrun _ _ _ _ _))
  | start, decoded, chunk :: rest =>
    have := decideChunksRefused cap reads last
      (start + (chunk.sizeLine.bytes.length + 2) + (chunk.data.length + 2))
      (decoded + chunk.data.length) rest
    inferInstanceAs (Decidable (Overrun _ _ _ _ _ ∨ _ ∨ Overrun _ _ _ _ _ ∨
      ChunksRefused cap reads last _ _ rest))

/-! ## One part -/

section

variable {cap start k : Nat} {reads rest : Buffers UInt8} {buf : List UInt8}

theorem contains_prefix_iff {delimiter : UInt8} {front back xs : List UInt8}
    (hfront : delimiter ∉ front) (hxs : xs <+: front ++ delimiter :: back) :
    xs.contains delimiter = true ↔ front.length + 1 ≤ xs.length := by
  rw [contains_iff_mem]
  constructor
  · intro hmem
    by_contra hnot
    have hshort : xs <+: front :=
      prefix_of_prefix_length_le hxs (prefix_append _ _) (by omega)
    exact hfront (hshort.subset hmem)
  · intro hlong
    have hwhole : front ++ [delimiter] <+: xs := by
      refine prefix_of_prefix_length_le ?_ hxs (by simpa using hlong)
      exact ⟨back, by simp⟩
    exact hwhole.subset (mem_append_right _ mem_cons_self)

theorem fill_line (hreads : ∀ r ∈ reads, r ≠ []) (h : Received reads start buf rest k)
    {line more : List UInt8} (hline : Line line)
    (hstream : reads.flatten.drop start = line ++ 13 :: 10 :: more) :
    let stop := start + (line.length + 2)
    let waiting := fill (fun scratch => scratch.contains newline)
      (fun scratch => decide (cap < scratch.length)) ProbeError.responseTooLarge
      .invalidHttpResponse buf
    (Overrun cap 0 reads start stop → ∃ rest', waiting rest = (.error .responseTooLarge, rest')) ∧
      (¬ Overrun cap 0 reads start stop → ∃ left rest' k',
        waiting rest = (.ok (line ++ 13 :: newline :: left), rest') ∧
          Received reads stop left rest' k') := by
  intro stop waiting
  have hlength : (reads.flatten.drop start).length = line.length + 2 + more.length := by
    rw [hstream, length_append, length_cons, length_cons]
    omega
  have hsplit : line ++ 13 :: 10 :: more = (line ++ [13]) ++ newline :: more := by
    rw [append_assoc]
    rfl
  have hfront : newline ∉ line ++ [13] := by
    intro hmem
    rcases List.mem_append.mp hmem with hmem | hmem
    · exact (hline.plain _ hmem).2 rfl
    · exact absurd (List.mem_singleton.mp hmem) (by decide)
  have hwaits : Waits (fun scratch => scratch.contains newline)
      (fun scratch => decide (cap < scratch.length)) cap 0 reads start stop := {
    done_iff := by
      intro xs hxs
      rw [hstream, hsplit] at hxs
      rw [contains_prefix_iff hfront hxs, length_append, length_singleton,
        Nat.add_sub_cancel_left]
    beyond_iff := fun xs => by rw [decide_eq_true_iff, Nat.zero_add]
    within := by
      rw [length_drop] at hlength
      omega }
  have hstop : start < stop := by omega
  have hcut : reads.flatten.drop start = line ++ [13, newline] ++ more := by
    rw [hstream, append_assoc]
    rfl
  obtain ⟨hlarge, hwhole⟩ := @fill_spec _ ProbeError _ _ _ _ _ _ _ _ _ _ .responseTooLarge
    .invalidHttpResponse hreads h hstop hwaits _ _ hcut (by simp [stop])
  refine ⟨hlarge, fun hnone => ?_⟩
  obtain ⟨left, rest', k', hrun, hreceived⟩ := hwhole hnone
  rw [append_assoc] at hrun
  exact ⟨left, rest', k', hrun, hreceived⟩

theorem fill_data (hreads : ∀ r ∈ reads, r ≠ []) (h : Received reads start buf rest k)
    {decoded data more : List UInt8} (hstream : reads.flatten.drop start = data ++ crlf ++ more) :
    let stop := start + (data.length + 2)
    let waiting := fill (fun scratch => decide (data.length + 2 ≤ scratch.length))
      (fun scratch => decide (cap < decoded.length + scratch.length)) ProbeError.responseTooLarge
      .invalidHttpResponse buf
    (Overrun cap decoded.length reads start stop →
        ∃ rest', waiting rest = (.error .responseTooLarge, rest')) ∧
      (¬ Overrun cap decoded.length reads start stop → ∃ left rest' k',
        waiting rest = (.ok (data ++ crlf ++ left), rest') ∧
          Received reads stop left rest' k') := by
  intro stop waiting
  have hlength : (reads.flatten.drop start).length = data.length + 2 + more.length := by
    rw [hstream, length_append, length_append]
    rfl
  have hwaits : Waits (fun scratch => decide (data.length + 2 ≤ scratch.length))
      (fun scratch => decide (cap < decoded.length + scratch.length)) cap decoded.length reads
      start stop := {
    done_iff := fun xs _ => by rw [decide_eq_true_iff, Nat.add_sub_cancel_left]
    beyond_iff := fun xs => by rw [decide_eq_true_iff]
    within := by
      rw [length_drop] at hlength
      omega }
  have hstop : start < stop := by omega
  exact fill_spec hreads h hstop hwaits hstream (by simp [stop, crlf])

end

/-! ## The loop over the chunks -/

section

variable {cap : Nat} {reads : Buffers UInt8} {last : EndOfChunks}

theorem readChunks_line {line left decoded : List UInt8} {buf : List UInt8}
    {rest rest' : Buffers UInt8} {fuel : Nat} (hline : Line line)
    (hrun : fill (fun scratch => scratch.contains newline)
      (fun scratch => decide (cap < scratch.length)) ProbeError.responseTooLarge
      .invalidHttpResponse buf rest = (.ok (line ++ 13 :: newline :: left), rest')) :
    readChunks cap (fuel + 1) buf decoded rest =
      readSized cap (readChunks cap fuel) left decoded (chunkSize (line ++ [13])) rest' := by
  have htaken : (line ++ 13 :: newline :: left).takeWhile (fun b => b != newline) =
      line ++ [13] := by
    have hsplit : line ++ 13 :: newline :: left = (line ++ [13]) ++ newline :: left := by
      rw [append_assoc]
      rfl
    rw [hsplit, takeWhile_append_of_pos, takeWhile_cons_of_neg (by simp),
      append_nil]
    intro b hb
    rcases List.mem_append.mp hb with hb | hb
    · exact bne_iff_ne.mpr (hline.plain b hb).2
    · rw [List.mem_singleton.mp hb]
      decide
  have hdropped : (line ++ 13 :: newline :: left).drop ((line ++ [13]).length + 1) = left := by
    have hsplit : line ++ 13 :: newline :: left = (line ++ [13] ++ [newline]) ++ left := by
      rw [append_assoc, append_assoc]
      rfl
    rw [hsplit, drop_left' (by simp)]
  rw [readChunks, bind_apply_ok hrun, htaken, hdropped]

/-- The chunks are decoded, or given up at the first cut that finds too much. -/
theorem readChunks_spec (hreads : ∀ r ∈ reads, r ≠ []) {chunks : List ProbeChunk}
    {start k fuel : Nat} {buf decoded : List UInt8} {rest : Buffers UInt8}
    (h : Received reads start buf rest k)
    (hstream : reads.flatten.drop start = chunkedStream chunks last) (hfuel : chunks.length < fuel)
    (hfits : ∀ chunk ∈ chunks, chunk.data.length + 2 < 2 ^ 64) :
    (ChunksRefused cap reads last start decoded.length chunks → ∃ rest',
        readChunks cap fuel buf decoded rest = (.error .responseTooLarge, rest')) ∧
      (¬ ChunksRefused cap reads last start decoded.length chunks → ∃ rest',
        readChunks cap fuel buf decoded rest = (.ok (decoded ++ decodedData chunks), rest')) := by
  induction chunks generalizing start k fuel buf decoded rest with
  | nil =>
    obtain ⟨fuel, rfl⟩ := Nat.exists_eq_succ_of_ne_zero (Nat.ne_of_gt hfuel)
    have hparts := @fill_line cap start k reads rest buf hreads h _ _ last.sizeLine.line hstream
    refine ⟨fun hover => ?_, fun hnone => ?_⟩
    · obtain ⟨rest', hrun⟩ := hparts.1 hover
      exact ⟨rest', bind_apply_error hrun⟩
    · obtain ⟨left, rest', k', hrun, -⟩ := hparts.2 hnone
      refine ⟨rest', ?_⟩
      rw [readChunks_line last.sizeLine.line hrun, chunkSize_line _ (by decide), readSized,
        if_pos rfl, decodedData, flatMap_nil, append_nil]
      rfl
  | cons chunk chunks ih =>
    obtain ⟨fuel, rfl⟩ := Nat.exists_eq_succ_of_ne_zero (Nat.ne_of_gt (Nat.zero_lt_of_lt hfuel))
    have hsize := hfits chunk mem_cons_self
    have hdata : chunk.data.length ≠ 0 := fun hzero =>
      chunk.nonempty (List.length_eq_zero_iff.mp hzero)
    have hhead : reads.flatten.drop start = chunk.sizeLine.bytes ++
        13 :: 10 :: (chunk.data ++ crlf ++ chunkedStream chunks last) := by
      rw [hstream, chunkedStream, flatMap_cons, ProbeChunk.bytes, append_assoc,
        append_assoc]
      rfl
    have hbehind : reads.flatten.drop (start + (chunk.sizeLine.bytes.length + 2)) =
        chunk.data ++ crlf ++ chunkedStream chunks last := by
      have hsplit : chunk.sizeLine.bytes ++
          13 :: 10 :: (chunk.data ++ crlf ++ chunkedStream chunks last) =
          (chunk.sizeLine.bytes ++ [13, 10]) ++
            (chunk.data ++ crlf ++ chunkedStream chunks last) := by
        rw [append_assoc chunk.sizeLine.bytes]
        rfl
      rw [← drop_drop, hhead, hsplit, drop_left' (by simp)]
    have hline := @fill_line cap start k reads rest buf hreads h _ _ chunk.sizeLine.line hhead
    unfold ChunksRefused
    dsimp only
    by_cases hcut : Overrun cap 0 reads start (start + (chunk.sizeLine.bytes.length + 2))
    · obtain ⟨rest', hrun⟩ := hline.1 hcut
      exact ⟨fun _ => ⟨rest', bind_apply_error hrun⟩, fun hnone => absurd (.inl hcut) hnone⟩
    · obtain ⟨left, rest', k', hrun, hreceived⟩ := hline.2 hcut
      rw [readChunks_line chunk.sizeLine.line hrun, chunkSize_line _ (by omega), readSized,
        if_neg hdata]
      by_cases hlarge : cap < chunk.data.length
      · rw [if_pos hlarge]
        exact ⟨fun _ => ⟨rest', rfl⟩, fun hnone => absurd (.inr (.inl hlarge)) hnone⟩
      · rw [if_neg hlarge, if_neg (by omega)]
        have hpart := @fill_data cap _ k' reads rest' left hreads hreceived decoded _ _ hbehind
        by_cases hover : Overrun cap decoded.length reads
            (start + (chunk.sizeLine.bytes.length + 2))
            (start + (chunk.sizeLine.bytes.length + 2) + (chunk.data.length + 2))
        · obtain ⟨rest'', hrun'⟩ := hpart.1 hover
          exact ⟨fun _ => ⟨rest'', bind_apply_error hrun'⟩,
            fun hnone => absurd (.inr (.inr (.inl hover))) hnone⟩
        · obtain ⟨left', rest'', k'', hrun', hreceived'⟩ := hpart.2 hover
          have htake : (chunk.data ++ crlf ++ left').take chunk.data.length = chunk.data := by
            rw [append_assoc, take_left]
          have hdrop : (chunk.data ++ crlf ++ left').drop (chunk.data.length + 2) = left' :=
            drop_left' (by simp [crlf])
          have hnext : reads.flatten.drop (start + (chunk.sizeLine.bytes.length + 2) +
              (chunk.data.length + 2)) = chunkedStream chunks last := by
            rw [← drop_drop, hbehind]
            exact drop_left' (by simp [crlf])
          have hall := @ih _ k'' fuel left' (decoded ++ chunk.data) rest'' hreceived' hnext
            (Nat.lt_of_succ_lt_succ hfuel) fun c hc => hfits c (mem_cons_of_mem _ hc)
          rw [bind_apply_ok hrun', htake, hdrop]
          rw [length_append] at hall
          refine ⟨fun hrefused => hall.1 ?_, fun hnone => ?_⟩
          · exact ((hrefused.resolve_left hcut).resolve_left hlarge).resolve_left hover
          · obtain ⟨final, hfinal⟩ := hall.2 fun hlater => hnone (.inr (.inr (.inr hlater)))
            refine ⟨final, ?_⟩
            rw [hfinal, append_assoc]
            rfl

end

end GenieClaw.Http.Probe
