import GenieClaw.Library.Text
import Mathlib.Algebra.Order.Field.Rat
import Mathlib.Data.Nat.Digits.Defs

/-!
# WAV files of the voice loop

`write_wav` of `voice/stt.rs` and `read_wav_mono_f32` of `voice/identity.rs`. An index past the
end of the file is a result of its own, and so is a loop that does not end; the source knows
only the first, as a panic that `identify` raises again.

The sum of two offsets is cut to the length of the file at once, so that it does not matter
where it saturates. Single precision is a parameter that leaves the sixteen bit samples as they
are.

* `readWavMonoF32_spec` (no assumption): when the reader returns, and that it reads what was
  written.
-/

namespace GenieClaw.Voice

open Library Library.Text List

/-! ## Little endian -/

def leBytes : Nat → Nat → List UInt8
  | 0, _ => []
  | width + 1, n => UInt8.ofNat (n % 256) :: leBytes width (n / 256)

def leValue (bytes : List UInt8) : Nat := Nat.ofDigits 256 (bytes.map UInt8.toNat)

/-- A sixteen bit number read as a signed one. -/
def signed16 (n : Nat) : Int := if n < 32768 then n else n - 65536

/-! ## Writing -/

def wavHeader (dataSize sampleRate : Nat) : List UInt8 :=
  let channels := 1
  let bitsPerSample := 16
  let byteRate := sampleRate * channels * bitsPerSample % 2 ^ 32 / 8
  let blockAlign := channels * bitsPerSample / 8
  let fileSize := 36 + dataSize
  asBytes "RIFF" ++ leBytes 4 fileSize ++ asBytes "WAVE" ++ asBytes "fmt " ++ leBytes 4 16 ++
    leBytes 2 1 ++ leBytes 2 channels ++ leBytes 4 sampleRate ++ leBytes 4 byteRate ++
    leBytes 2 blockAlign ++ leBytes 2 bitsPerSample ++ asBytes "data" ++ leBytes 4 dataSize

/-- `write_wav`; the arithmetic wraps, as it does in a release build. -/
def writeWav (pcm : List UInt8) (sampleRate : Nat) : List UInt8 :=
  wavHeader (pcm.length % 2 ^ 32) sampleRate ++ pcm

/-! ## Reading -/

inductive WavFailure where
  | refused (reason : String)
  | outOfBounds
  | spinning
deriving DecidableEq

structure WavAudio where
  sampleRate : Nat
  samples : List ℚ
deriving DecidableEq

/-- What the walk has found so far. -/
structure WavHeader where
  audioFormat : Option Nat
  channels : Option Nat
  sampleRate : Option Nat
  bitsPerSample : Option Nat
  dataRange : Option (Nat × Nat)
deriving DecidableEq

def WavHeader.empty : WavHeader := ⟨none, none, none, none, none⟩

structure SampleFloat where
  round : ℚ → ℚ
  round_sample : ∀ k : Int, -32768 ≤ k → k < 32768 → round (k / 32768) = k / 32768

def SampleFloat.exact : SampleFloat := ⟨id, fun _ _ _ => rfl⟩

section

variable (data : List UInt8)

def slice (start count : Nat) : Except WavFailure (List UInt8) :=
  if start + count ≤ data.length then .ok ((data.drop start).take count)
  else .error .outOfBounds

def readLe (start count : Nat) : Except WavFailure Nat := (slice data start count).map leValue

def readFormat (chunkStart : Nat) (found : WavHeader) : Except WavFailure WavHeader := do
  let audioFormat ← readLe data chunkStart 2
  let channels ← readLe data (chunkStart + 2) 2
  let sampleRate ← readLe data (chunkStart + 4) 4
  let bitsPerSample ← readLe data (chunkStart + 14) 2
  return ⟨some audioFormat, some channels, some sampleRate, some bitsPerSample, found.dataRange⟩

/-- One round of the walk: the next offset and what has been found. -/
def readChunk (offset : Nat) (found : WavHeader) : Except WavFailure (Nat × WavHeader) := do
  let chunkId ← slice data offset 4
  let chunkSize ← readLe data (offset + 4) 4
  let chunkStart := offset + 8
  let chunkEnd := min (chunkStart + chunkSize) data.length
  let next := chunkEnd + chunkSize % 2
  if chunkId = asBytes "fmt " then
    if chunkSize < 16 ∨ data.length < chunkEnd then
      throw (.refused "invalid WAV fmt chunk")
    else return (next, ← readFormat data chunkStart found)
  else if chunkId = asBytes "data" then
    return (next, { found with dataRange := some (chunkStart, chunkEnd) })
  else return (next, found)

def walkChunks (rounds offset : Nat) (found : WavHeader) : Except WavFailure WavHeader :=
  if offset + 8 ≤ data.length then
    match rounds with
    | 0 => .error .spinning
    | rounds + 1 => (readChunk data offset found).bind fun next =>
      walkChunks rounds next.1 next.2
  else .ok found

variable (fp : SampleFloat)

/-- The samples of all channels at the cursor, averaged. -/
def readFrame (channels cursor : Nat) : Except WavFailure ℚ := do
  let mixed ← (List.range channels).foldlM (fun (mixed : ℚ) ch => do
    let sample ← readLe data (cursor + ch * 2) 2
    return fp.round (mixed + fp.round ((signed16 sample : ℚ) / 32768))) 0
  return fp.round (mixed / channels)

def readFrames (channels stop : Nat) (rounds cursor : Nat) : Except WavFailure (List ℚ) :=
  if cursor + channels * 2 ≤ stop then
    match rounds with
    | 0 => .error .spinning
    | rounds + 1 => (readFrame data fp channels cursor).bind fun sample =>
      (readFrames channels stop rounds (cursor + channels * 2)).map (sample :: ·)
  else .ok []

def refuse {α : Type} (reason : String) : Except WavFailure α := .error (.refused reason)

/-- What comes after the walk. -/
def readSamples (found : WavHeader) : Except WavFailure WavAudio :=
  if found.audioFormat ≠ some 1 ∨ found.bitsPerSample ≠ some 16 then
    refuse "unsupported WAV file: expected 16-bit PCM"
  else if found.channels.getD 0 = 0 then
    refuse "unsupported WAV file: missing channel count"
  else if found.sampleRate.getD 0 = 0 then
    refuse "unsupported WAV file: missing sample rate"
  else
    match found.dataRange with
    | none => refuse "unsupported WAV file: missing data chunk"
    | some (start, stop) =>
      (readFrames data fp (found.channels.getD 0) stop data.length start).map fun samples =>
        ⟨found.sampleRate.getD 0, samples⟩

def readWavMonoF32 : Except WavFailure WavAudio :=
  if data.length < 44 then refuse "unsupported WAV file: expected RIFF/WAVE"
  else
    (slice data 0 4).bind fun riff => (slice data 8 4).bind fun wave =>
      if riff ≠ asBytes "RIFF" ∨ wave ≠ asBytes "WAVE" then
        refuse "unsupported WAV file: expected RIFF/WAVE"
      else (walkChunks data data.length 12 .empty).bind (readSamples data fp)

/-! ## The layout of a file -/

def chunkId (offset : Nat) : List UInt8 := (data.drop offset).take 4

def leAt (start count : Nat) : Nat := leValue ((data.drop start).take count)

def chunkSize (offset : Nat) : Nat := leAt data (offset + 4) 4

/-- Where the walk goes from the chunk at `offset`. -/
def nextChunk (offset : Nat) : Nat :=
  min (offset + 8 + chunkSize data offset) data.length + chunkSize data offset % 2

/-- A format chunk that is refused for its size. -/
def ShortFormat (offset : Nat) : Prop :=
  chunkId data offset = asBytes "fmt " ∧ chunkSize data offset < 16

/-- A format chunk of sufficient size that the end of the file cuts off within its fields. -/
def CutFormat (offset : Nat) : Prop :=
  chunkId data offset = asBytes "fmt " ∧ 16 ≤ chunkSize data offset ∧ data.length < offset + 8 + 16

/-- From one chunk the walk comes to another. -/
inductive Reaches : Nat → Nat → Prop
  | here (offset : Nat) : Reaches offset offset
  | onward {offset last : Nat} (hroom : offset + 8 ≤ data.length)
      (hlong : ¬ ShortFormat data offset) (hrest : Reaches (nextChunk data offset) last) :
      Reaches offset last

/-- A cut format chunk lies on the walk from `offset`. -/
def CutFrom (offset : Nat) : Prop :=
  ∃ last, Reaches data offset last ∧ last + 8 ≤ data.length ∧ CutFormat data last

def IsRiffWave : Prop :=
  44 ≤ data.length ∧ data.take 4 = asBytes "RIFF" ∧ (data.drop 8).take 4 = asBytes "WAVE"

/-- A value or an error of the source. -/
def Returns {α : Type} (result : Except WavFailure α) : Prop :=
  (∃ value, result = .ok value) ∨ ∃ reason, result = .error (.refused reason)

end

variable {data : List UInt8}

/-! ## The walk -/

theorem slice_of_le {start count : Nat} (h : start + count ≤ data.length) :
    slice data start count = .ok ((data.drop start).take count) :=
  if_pos h

theorem readLe_of_le {start count : Nat} (h : start + count ≤ data.length) :
    readLe data start count = .ok (leAt data start count) := by
  unfold readLe
  rw [slice_of_le h]
  rfl

theorem readLe_of_lt {start count : Nat} (h : data.length < start + count) :
    readLe data start count = .error .outOfBounds := by
  unfold readLe slice
  rw [if_neg (by omega)]
  rfl

theorem readFormat_of_le {chunkStart : Nat} (h : chunkStart + 16 ≤ data.length)
    (found : WavHeader) :
    readFormat data chunkStart found = .ok ⟨some (leAt data chunkStart 2),
      some (leAt data (chunkStart + 2) 2), some (leAt data (chunkStart + 4) 4),
      some (leAt data (chunkStart + 14) 2), found.dataRange⟩ := by
  unfold readFormat
  rw [readLe_of_le (by omega), readLe_of_le (by omega), readLe_of_le (by omega),
    readLe_of_le (by omega)]
  rfl

theorem readFormat_of_lt {chunkStart : Nat} (h : data.length < chunkStart + 16)
    (found : WavHeader) : readFormat data chunkStart found = .error .outOfBounds := by
  have hread : ∀ start count, readLe data start count =
      .ok (leAt data start count) ∨ readLe data start count = .error .outOfBounds := by
    intro start count
    by_cases hle : start + count ≤ data.length
    · exact Or.inl (readLe_of_le hle)
    · exact Or.inr (readLe_of_lt (by omega))
  unfold readFormat
  rcases hread chunkStart 2 with h₁ | h₁
  · rcases hread (chunkStart + 2) 2 with h₂ | h₂
    · rcases hread (chunkStart + 4) 4 with h₃ | h₃
      · rw [h₁, h₂, h₃, readLe_of_lt (show data.length < chunkStart + 14 + 2 by omega)]
        rfl
      · rw [h₁, h₂, h₃]
        rfl
    · rw [h₁, h₂]
      rfl
  · rw [h₁]
    rfl

/-- The data range lies in the file. -/
def RangeInFile (data : List UInt8) (found : WavHeader) : Prop :=
  ∀ range, found.dataRange = some range → range.1 ≤ range.2 ∧ range.2 ≤ data.length

theorem readChunk_eq {offset : Nat} (hroom : offset + 8 ≤ data.length) (found : WavHeader) :
    readChunk data offset found =
      if chunkId data offset = asBytes "fmt " then
        if chunkSize data offset < 16 then .error (.refused "invalid WAV fmt chunk")
        else (readFormat data (offset + 8) found).map (nextChunk data offset, ·)
      else if chunkId data offset = asBytes "data" then
        .ok (nextChunk data offset, { found with dataRange := some (offset + 8,
          min (offset + 8 + chunkSize data offset) data.length) })
      else .ok (nextChunk data offset, found) := by
  have hid : slice data offset 4 = .ok (chunkId data offset) := slice_of_le (by omega)
  have hsize : readLe data (offset + 4) 4 = .ok (chunkSize data offset) := readLe_of_le (by omega)
  have hend : ¬ data.length < min (offset + 8 + chunkSize data offset) data.length := by omega
  unfold readChunk
  rw [hid, hsize]
  show (if _ then _ else _) = _
  split
  · by_cases hshort : chunkSize data offset < 16
    · rw [if_pos (Or.inl hshort), if_pos hshort]
      rfl
    · rw [if_neg (not_or.mpr ⟨hshort, hend⟩), if_neg hshort]
      cases readFormat data (offset + 8) found <;> rfl
  · split <;> rfl

theorem readChunk_cases {offset : Nat} (hroom : offset + 8 ≤ data.length) {found : WavHeader}
    (hfound : RangeInFile data found) :
    (CutFormat data offset ∧ readChunk data offset found = .error .outOfBounds) ∨
    (ShortFormat data offset ∧
      readChunk data offset found = .error (.refused "invalid WAV fmt chunk")) ∨
    (¬ CutFormat data offset ∧ ¬ ShortFormat data offset ∧ ∃ found', RangeInFile data found' ∧
      readChunk data offset found = .ok (nextChunk data offset, found')) := by
  rw [readChunk_eq hroom]
  by_cases hformat : chunkId data offset = asBytes "fmt "
  · rw [if_pos hformat]
    by_cases hshort : chunkSize data offset < 16
    · right; left
      exact ⟨⟨hformat, hshort⟩, if_pos hshort⟩
    · rw [if_neg hshort]
      by_cases hcut : data.length < offset + 8 + 16
      · left
        rw [readFormat_of_lt hcut]
        exact ⟨⟨hformat, by omega, hcut⟩, rfl⟩
      · right; right
        rw [readFormat_of_le (by omega)]
        refine ⟨fun h => hcut h.2.2, fun h => hshort h.2, _, ?_, rfl⟩
        exact hfound
  · right; right
    rw [if_neg hformat]
    refine ⟨fun h => hformat h.1, fun h => hformat h.1, ?_⟩
    split
    · refine ⟨_, ?_, rfl⟩
      rintro range hrange
      cases hrange
      dsimp only
      omega
    · exact ⟨found, hfound, rfl⟩

theorem nextChunk_gt {offset : Nat} (hroom : offset + 8 ≤ data.length) :
    offset + 8 ≤ nextChunk data offset := by
  unfold nextChunk
  omega

theorem walkChunks_cases {rounds offset : Nat} (hrounds : data.length ≤ offset + rounds)
    {found : WavHeader} (hfound : RangeInFile data found) :
    (CutFrom data offset ∧ walkChunks data rounds offset found = .error .outOfBounds) ∨
    (¬ CutFrom data offset ∧
      ((∃ reason, walkChunks data rounds offset found = .error (.refused reason)) ∨
        ∃ found', RangeInFile data found' ∧ walkChunks data rounds offset found = .ok found')) := by
  induction rounds generalizing offset found with
  | zero =>
    have hend : ¬ offset + 8 ≤ data.length := by omega
    right
    refine ⟨?_, Or.inr ⟨found, hfound, by rw [walkChunks, if_neg hend]⟩⟩
    rintro ⟨last, hreach, hlast, -⟩
    cases hreach with
    | here => exact hend hlast
    | onward hroom _ _ => exact hend hroom
  | succ rounds ih =>
    by_cases hroom : offset + 8 ≤ data.length
    · rw [walkChunks, if_pos hroom]
      rcases readChunk_cases hroom hfound with ⟨hcut, hread⟩ | ⟨hshort, hread⟩ |
        ⟨hcut, hshort, found', hfound', hread⟩
      · left
        rw [hread]
        exact ⟨⟨offset, .here offset, hroom, hcut⟩, rfl⟩
      · right
        rw [hread]
        refine ⟨?_, Or.inl ⟨_, rfl⟩⟩
        rintro ⟨last, hreach, -, hcut⟩
        cases hreach with
        | here => exact absurd hcut.2.1 (by have := hshort.2; omega)
        | onward _ hlong _ => exact hlong hshort
      · have hnext := nextChunk_gt hroom
        have hiff : CutFrom data offset ↔ CutFrom data (nextChunk data offset) := by
          constructor
          · rintro ⟨last, hreach, hlast, hlastCut⟩
            cases hreach with
            | here => exact absurd hlastCut hcut
            | onward _ _ hrest => exact ⟨last, hrest, hlast, hlastCut⟩
          · rintro ⟨last, hreach, hlast, hlastCut⟩
            exact ⟨last, .onward hroom hshort hreach, hlast, hlastCut⟩
        rw [hread, hiff]
        exact ih (by omega) hfound'
    · right
      refine ⟨?_, Or.inr ⟨found, hfound, by rw [walkChunks, if_neg hroom]⟩⟩
      rintro ⟨last, hreach, hlast, -⟩
      cases hreach with
      | here => exact hroom hlast
      | onward hroom' _ _ => exact hroom hroom'

/-! ## The samples -/

variable {fp : SampleFloat}

theorem signed16_bounds {n : Nat} (h : n < 65536) : -32768 ≤ signed16 n ∧ signed16 n < 32768 := by
  unfold signed16
  split <;> omega

theorem leValue_lt (bytes : List UInt8) : leValue bytes < 256 ^ bytes.length := by
  unfold leValue
  rw [← length_map (f := UInt8.toNat)]
  apply Nat.ofDigits_lt_base_pow_length (by decide)
  intro d hd
  obtain ⟨b, -, rfl⟩ := List.mem_map.mp hd
  exact b.toNat_lt

theorem readFrame_of_le {channels cursor : Nat} (h : cursor + channels * 2 ≤ data.length) :
    ∃ sample, readFrame data fp channels cursor = .ok sample := by
  have hfold : ∀ (chs : List Nat) (mixed : ℚ), (∀ ch ∈ chs, ch < channels) →
      ∃ total, chs.foldlM (fun (mixed : ℚ) ch => do
        let sample ← readLe data (cursor + ch * 2) 2
        return fp.round (mixed + fp.round ((signed16 sample : ℚ) / 32768))) mixed =
          (.ok total : Except WavFailure ℚ) := by
    intro chs
    induction chs with
    | nil => exact fun mixed _ => ⟨mixed, rfl⟩
    | cons ch chs ih =>
      intro mixed hchs
      have hch := hchs ch mem_cons_self
      rw [foldlM_cons, readLe_of_le (by omega)]
      exact ih _ fun c hc => hchs c (mem_cons_of_mem ch hc)
  obtain ⟨total, htotal⟩ := hfold (List.range channels) 0 fun ch hch => List.mem_range.mp hch
  unfold readFrame
  rw [htotal]
  exact ⟨_, rfl⟩

theorem readFrames_of_le {channels stop rounds cursor : Nat} (hchannels : channels ≠ 0)
    (hstop : stop ≤ data.length) (hrounds : stop ≤ cursor + rounds) :
    ∃ samples, readFrames data fp channels stop rounds cursor = .ok samples := by
  induction rounds generalizing cursor with
  | zero => exact ⟨[], by rw [readFrames, if_neg (by omega)]⟩
  | succ rounds ih =>
    rw [readFrames]
    split
    · obtain ⟨sample, hsample⟩ := @readFrame_of_le data fp channels cursor (by omega)
      obtain ⟨samples, hsamples⟩ := @ih (cursor + channels * 2) (by omega)
      rw [hsample]
      exact ⟨sample :: samples, by simp only [Except.bind, hsamples, Except.map]⟩
    · exact ⟨[], rfl⟩

theorem readSamples_returns {found : WavHeader} (h : RangeInFile data found) :
    Returns (readSamples data fp found) := by
  unfold readSamples
  split
  · exact Or.inr ⟨_, rfl⟩
  · split
    · exact Or.inr ⟨_, rfl⟩
    · next hchannels =>
      split
      · exact Or.inr ⟨_, rfl⟩
      · split
        · exact Or.inr ⟨_, rfl⟩
        · next start stop hrange =>
          have hin := h _ hrange
          obtain ⟨samples, hsamples⟩ := @readFrames_of_le data fp _ stop data.length start
            hchannels hin.2 (by omega)
          rw [hsamples]
          exact Or.inl ⟨_, rfl⟩

theorem readWavMonoF32_returns_iff (fp : SampleFloat) (data : List UInt8) :
    Returns (readWavMonoF32 data fp) ↔ ¬ (IsRiffWave data ∧ CutFrom data 12) := by
  unfold readWavMonoF32
  by_cases hshort : data.length < 44
  · rw [if_pos hshort]
    exact iff_of_true (Or.inr ⟨_, rfl⟩) fun h => by have := h.1.1; omega
  · rw [if_neg hshort, slice_of_le (by omega), slice_of_le (by omega)]
    simp only [Except.bind, drop_zero]
    by_cases hmarks : data.take 4 = asBytes "RIFF" ∧ (data.drop 8).take 4 = asBytes "WAVE"
    · rw [if_neg (by rw [hmarks.1, hmarks.2]; simp)]
      have hwave : IsRiffWave data := ⟨by omega, hmarks⟩
      rcases @walkChunks_cases data data.length 12 (by omega) .empty
        (fun range h => by cases h) with
        ⟨hcut, hwalk⟩ | ⟨hcut, ⟨reason, hwalk⟩ | ⟨found, hfound, hwalk⟩⟩
      · rw [hwalk]
        refine iff_of_false ?_ fun h => h ⟨hwave, hcut⟩
        rintro (⟨value, h⟩ | ⟨reason, h⟩)
        · cases h
        · cases h
      · rw [hwalk]
        exact iff_of_true (Or.inr ⟨reason, rfl⟩) fun h => hcut h.2
      · rw [hwalk]
        exact iff_of_true (readSamples_returns hfound) fun h => hcut h.2
    · rw [if_pos (by tauto)]
      exact iff_of_true (Or.inr ⟨_, rfl⟩) fun h => hmarks h.1.2

/-! ## What was written -/

theorem leValue_leBytes (width n : Nat) : leValue (leBytes width n) = n % 256 ^ width := by
  induction width generalizing n with
  | zero =>
    rw [pow_zero, Nat.mod_one]
    rfl
  | succ width ih =>
    have hbyte : (UInt8.ofNat (n % 256)).toNat = n % 256 :=
      UInt8.toNat_ofNat_of_lt' (Nat.mod_lt n (by decide))
    unfold leValue at *
    rw [leBytes, map_cons, Nat.ofDigits_cons, ih, hbyte, pow_succ', Nat.mod_mul]

theorem length_leBytes (width n : Nat) : (leBytes width n).length = width := by
  induction width generalizing n with
  | zero => rfl
  | succ width ih => rw [leBytes, length_cons, ih]

theorem leBytes_two (n : Nat) :
    leBytes 2 n = [UInt8.ofNat (n % 256), UInt8.ofNat (n / 256 % 256)] := rfl

theorem leBytes_four (n : Nat) :
    leBytes 4 n = [UInt8.ofNat (n % 256), UInt8.ofNat (n / 256 % 256),
      UInt8.ofNat (n / 256 / 256 % 256), UInt8.ofNat (n / 256 / 256 / 256 % 256)] := rfl

theorem length_wavHeader (dataSize sampleRate : Nat) :
    (wavHeader dataSize sampleRate).length = 44 := by
  unfold wavHeader
  simp only [length_append, length_leBytes]
  decide +kernel

theorem field_writeWav {start count : Nat} (h : start + count ≤ 44) (pcm : List UInt8)
    (sampleRate : Nat) :
    ((writeWav pcm sampleRate).drop start).take count =
      ((wavHeader (pcm.length % 2 ^ 32) sampleRate).drop start).take count := by
  have hlength := length_wavHeader (pcm.length % 2 ^ 32) sampleRate
  unfold writeWav
  rw [drop_append_of_le_length (by omega),
    take_append_of_le_length (by rw [length_drop]; omega)]

theorem wavHeader_fields (dataSize sampleRate : Nat) :
    ((wavHeader dataSize sampleRate).take 4 = asBytes "RIFF" ∧
      ((wavHeader dataSize sampleRate).drop 8).take 4 = asBytes "WAVE" ∧
      ((wavHeader dataSize sampleRate).drop 12).take 4 = asBytes "fmt " ∧
      ((wavHeader dataSize sampleRate).drop 36).take 4 = asBytes "data") ∧
    ((wavHeader dataSize sampleRate).drop 16).take 4 = leBytes 4 16 ∧
      ((wavHeader dataSize sampleRate).drop 20).take 2 = leBytes 2 1 ∧
      ((wavHeader dataSize sampleRate).drop 22).take 2 = leBytes 2 1 ∧
      ((wavHeader dataSize sampleRate).drop 24).take 4 = leBytes 4 sampleRate ∧
      ((wavHeader dataSize sampleRate).drop 34).take 2 = leBytes 2 16 ∧
      ((wavHeader dataSize sampleRate).drop 40).take 4 = leBytes 4 dataSize := by
  have hriff : asBytes "RIFF" = [0x52, 0x49, 0x46, 0x46] := by decide +kernel
  have hwave : asBytes "WAVE" = [0x57, 0x41, 0x56, 0x45] := by decide +kernel
  have hformat : asBytes "fmt " = [0x66, 0x6d, 0x74, 0x20] := by decide +kernel
  have hdata : asBytes "data" = [0x64, 0x61, 0x74, 0x61] := by decide +kernel
  unfold wavHeader
  simp only [hriff, hwave, hformat, hdata, leBytes_two, leBytes_four]
  exact ⟨⟨rfl, rfl, rfl, rfl⟩, rfl, rfl, rfl, rfl, rfl, rfl⟩

section

variable {pcm : List UInt8} {sampleRate : Nat}

theorem length_writeWav : (writeWav pcm sampleRate).length = 44 + pcm.length := by
  unfold writeWav
  rw [length_append, length_wavHeader]

theorem leAt_writeWav {start width n : Nat} (h : start + width ≤ 44) (hn : n < 256 ^ width)
    (hfield : ((wavHeader (pcm.length % 2 ^ 32) sampleRate).drop start).take width =
      leBytes width n) : leAt (writeWav pcm sampleRate) start width = n := by
  unfold leAt
  rw [field_writeWav h, hfield, leValue_leBytes, Nat.mod_eq_of_lt hn]

theorem isRiffWave_writeWav : IsRiffWave (writeWav pcm sampleRate) := by
  obtain ⟨⟨hriff, hwave, -, -⟩, -⟩ := wavHeader_fields (pcm.length % 2 ^ 32) sampleRate
  refine ⟨by rw [length_writeWav]; omega, ?_, ?_⟩
  · have hfield := @field_writeWav 0 4 (by omega) pcm sampleRate
    rw [drop_zero, drop_zero] at hfield
    rw [hfield, hriff]
  · rw [field_writeWav (by omega), hwave]

theorem readChunk_format (hrate : sampleRate < 2 ^ 32) :
    readChunk (writeWav pcm sampleRate) 12 .empty =
      .ok (36, ⟨some 1, some 1, some sampleRate, some 16, none⟩) := by
  obtain ⟨⟨-, -, hid, -⟩, hsize, hformat, hchannels, hsampleRate, hbits, -⟩ :=
    wavHeader_fields (pcm.length % 2 ^ 32) sampleRate
  have hlength := @length_writeWav pcm sampleRate
  have hchunkId : chunkId (writeWav pcm sampleRate) 12 = asBytes "fmt " := by
    unfold chunkId
    rw [field_writeWav (by omega), hid]
  have hchunkSize : chunkSize (writeWav pcm sampleRate) 12 = 16 :=
    leAt_writeWav (by omega) (by decide) hsize
  have hnext : nextChunk (writeWav pcm sampleRate) 12 = 36 := by
    unfold nextChunk
    rw [hchunkSize, hlength]
    omega
  rw [readChunk_eq (by omega), if_pos hchunkId, hchunkSize, if_neg (by omega),
    readFormat_of_le (by omega), hnext, leAt_writeWav (by omega) (by decide) hformat,
    leAt_writeWav (by omega) (by decide) hchannels, leAt_writeWav (by omega) hrate hsampleRate,
    leAt_writeWav (by omega) (by decide) hbits]
  rfl

theorem readChunk_data (hfits : 36 + pcm.length < 2 ^ 32) (found : WavHeader) :
    readChunk (writeWav pcm sampleRate) 36 found =
      .ok (44 + pcm.length + pcm.length % 2,
        { found with dataRange := some (44, 44 + pcm.length) }) := by
  obtain ⟨⟨-, -, -, hid⟩, -, -, -, -, -, hsize⟩ := wavHeader_fields (pcm.length % 2 ^ 32) sampleRate
  have hlength := @length_writeWav pcm sampleRate
  have hchunkId : chunkId (writeWav pcm sampleRate) 36 = asBytes "data" := by
    unfold chunkId
    rw [field_writeWav (by omega), hid]
  have hchunkSize : chunkSize (writeWav pcm sampleRate) 36 = pcm.length := by
    rw [Nat.mod_eq_of_lt (by omega)] at hsize
    exact leAt_writeWav (by omega) (by omega) (by rw [Nat.mod_eq_of_lt (by omega)]; exact hsize)
  have hnext : nextChunk (writeWav pcm sampleRate) 36 = 44 + pcm.length + pcm.length % 2 := by
    unfold nextChunk
    rw [hchunkSize, hlength]
    omega
  rw [readChunk_eq (by omega), hchunkId, if_neg (by decide +kernel), if_pos rfl, hnext,
    hchunkSize, hlength, Nat.min_self]

theorem walkChunks_writeWav (hfits : 36 + pcm.length < 2 ^ 32) (hrate : sampleRate < 2 ^ 32)
    {rounds : Nat} (hrounds : 2 ≤ rounds) :
    walkChunks (writeWav pcm sampleRate) rounds 12 .empty =
      .ok ⟨some 1, some 1, some sampleRate, some 16, some (44, 44 + pcm.length)⟩ := by
  have hlength := @length_writeWav pcm sampleRate
  obtain ⟨rounds, rfl⟩ := Nat.exists_eq_add_of_le' hrounds
  have hstop : ∀ found, walkChunks (writeWav pcm sampleRate) rounds
      (44 + pcm.length + pcm.length % 2) found = .ok found := by
    intro found
    unfold walkChunks
    rw [if_neg (by omega)]
  rw [walkChunks, if_pos (by omega), readChunk_format hrate]
  simp only [Except.bind]
  rw [walkChunks, if_pos (by omega), readChunk_data hfits]
  simp only [Except.bind]
  exact hstop _

theorem readFrames_mono {stop rounds cursor : Nat} (hstop : stop ≤ data.length)
    (hrounds : stop ≤ cursor + rounds) :
    readFrames data fp 1 stop rounds cursor = .ok ((List.range ((stop - cursor) / 2)).map fun i =>
      (signed16 (leAt data (cursor + 2 * i) 2) : ℚ) / 32768) := by
  induction rounds generalizing cursor with
  | zero =>
    rw [readFrames, if_neg (by omega), show (stop - cursor) / 2 = 0 by omega]
    rfl
  | succ rounds ih =>
    rw [readFrames]
    split
    · next hroom =>
      have hbound : leAt data cursor 2 < 65536 := by
        refine (leValue_lt _).trans_le ?_
        have hlen : ((data.drop cursor).take 2).length ≤ 2 := length_take_le 2 _
        exact Nat.pow_le_pow_right (by decide) hlen
      have hsample : readFrame data fp 1 cursor =
          .ok ((signed16 (leAt data cursor 2) : ℚ) / 32768) := by
        have hround := fp.round_sample _ (signed16_bounds hbound).1 (signed16_bounds hbound).2
        unfold readFrame
        rw [range_one, foldlM_cons, readLe_of_le (by omega)]
        show Except.ok (fp.round (fp.round (0 + fp.round _) / (1 : Nat))) = _
        rw [Nat.zero_mul, Nat.add_zero, hround, zero_add, hround, Nat.cast_one, div_one, hround]
      have hcount : (stop - cursor) / 2 = (stop - (cursor + 1 * 2)) / 2 + 1 := by omega
      rw [hsample, ih (by omega), hcount, range_succ_eq_map, map_cons, map_map]
      show Except.ok (_ :: _) = _
      congr 2
      apply map_congr_left
      intro i _
      show (signed16 (leAt data (cursor + 1 * 2 + 2 * i) 2) : ℚ) / 32768 =
        (signed16 (leAt data (cursor + 2 * (i + 1)) 2) : ℚ) / 32768
      rw [show cursor + 1 * 2 + 2 * i = cursor + 2 * (i + 1) by omega]
    · rw [show (stop - cursor) / 2 = 0 by omega]
      rfl

theorem readSamples_mono {start stop : Nat} (hpos : 0 < sampleRate) (hstop : stop ≤ data.length) :
    readSamples data fp ⟨some 1, some 1, some sampleRate, some 16, some (start, stop)⟩ =
      .ok ⟨sampleRate, (List.range ((stop - start) / 2)).map fun i =>
        (signed16 (leAt data (start + 2 * i) 2) : ℚ) / 32768⟩ := by
  have hsampleRate : (some sampleRate).getD 0 ≠ 0 := Nat.ne_of_gt hpos
  unfold readSamples
  rw [if_neg (by simp), if_neg (by simp), if_neg hsampleRate]
  dsimp only [Option.getD_some]
  rw [readFrames_mono hstop (by omega)]
  rfl

theorem leAt_writeWav_samples (start count : Nat) :
    leAt (writeWav pcm sampleRate) (44 + start) count = leAt pcm start count := by
  have hlength := length_wavHeader (pcm.length % 2 ^ 32) sampleRate
  unfold leAt writeWav
  rw [drop_append, hlength, drop_of_length_le (by omega), nil_append,
    Nat.add_sub_cancel_left]

theorem readWavMonoF32_writeWav (fp : SampleFloat) (hpos : 0 < sampleRate)
    (hrate : sampleRate < 2 ^ 32) (hfits : 36 + pcm.length < 2 ^ 32) :
    readWavMonoF32 (writeWav pcm sampleRate) fp =
      .ok ⟨sampleRate, (List.range (pcm.length / 2)).map fun i =>
        (signed16 (leAt pcm (2 * i) 2) : ℚ) / 32768⟩ := by
  obtain ⟨hlong, hriff, hwave⟩ := @isRiffWave_writeWav pcm sampleRate
  have hlength := @length_writeWav pcm sampleRate
  have hwalk : walkChunks (writeWav pcm sampleRate) (writeWav pcm sampleRate).length 12 .empty =
      .ok ⟨some 1, some 1, some sampleRate, some 16, some (44, 44 + pcm.length)⟩ :=
    walkChunks_writeWav hfits hrate (by omega)
  unfold readWavMonoF32
  rw [if_neg (by omega), slice_of_le (by omega), slice_of_le (by omega)]
  simp only [Except.bind, drop_zero]
  rw [hriff, hwave, if_neg (by simp), hwalk]
  dsimp only
  rw [readSamples_mono hpos (by omega), show (44 + pcm.length - 44) / 2 = pcm.length / 2 by omega]
  simp only [leAt_writeWav_samples]

end

/-- The reader comes to a value or an error unless a format chunk is cut off, and it gives back
what was written. -/
theorem readWavMonoF32_spec (fp : SampleFloat) :
    (∀ data, Returns (readWavMonoF32 data fp) ↔ ¬ (IsRiffWave data ∧ CutFrom data 12)) ∧
      ∀ pcm sampleRate, 0 < sampleRate → sampleRate < 2 ^ 32 → 36 + pcm.length < 2 ^ 32 →
        readWavMonoF32 (writeWav pcm sampleRate) fp =
          .ok ⟨sampleRate, (List.range (pcm.length / 2)).map fun i =>
            (signed16 (leAt pcm (2 * i) 2) : ℚ) / 32768⟩ :=
  ⟨readWavMonoF32_returns_iff fp, fun _ _ hpos hrate hfits =>
    readWavMonoF32_writeWav fp hpos hrate hfits⟩

theorem readWavMonoF32_two_samples :
    Returns (readWavMonoF32 [] .exact) ∧
      readWavMonoF32 (writeWav [0, 64, 255, 255] 16000) .exact =
        .ok ⟨16000, [1 / 2, -1 / 32768]⟩ := by
  refine ⟨((readWavMonoF32_spec .exact).1 []).mpr fun h => absurd h.1.1 (by decide), ?_⟩
  have hread := (readWavMonoF32_spec .exact).2 [0, 64, 255, 255] 16000 (by decide) (by decide)
    (by decide)
  exact hread.trans (by decide +kernel)

/-- A file of 44 bytes that ends with the header of its format chunk. -/
def cutFile : List UInt8 :=
  asBytes "RIFF" ++ leBytes 4 36 ++ asBytes "WAVE" ++ asBytes "JUNK" ++ leBytes 4 16 ++
    List.replicate 16 0 ++ asBytes "fmt " ++ leBytes 4 16

theorem cutFile_out_of_bounds :
    readWavMonoF32 cutFile .exact = .error .outOfBounds ∧
      ¬ ∀ data, Returns (readWavMonoF32 data .exact) := by
  have hread : readWavMonoF32 cutFile .exact = .error .outOfBounds := by decide +kernel
  refine ⟨hread, fun h => ?_⟩
  rcases h cutFile with ⟨value, hvalue⟩ | ⟨reason, hreason⟩
  · rw [hread] at hvalue
    cases hvalue
  · rw [hread] at hreason
    cases hreason

end GenieClaw.Voice
