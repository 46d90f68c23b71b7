import GenieClaw.Http.Headers
import GenieClaw.Library.Words

/-!
# Requests as they are sent

A request is sent as its request line, its headers, a blank line and its body. Method and path
are words, and a header is a name without a colon and a value, both on one line and without white
space around them.

* `methodAndPath_requestLine`, `accept_headers`: the lines are read back.
* `readRequest_runs`: so is a whole request, where the limits are kept.
-/

namespace GenieClaw.Http

open Library Library.Buffered Library.Program Library.Text List

structure SentHeader where
  name : String
  value : String
  name_trimmed : trim name = name
  value_trimmed : trim value = value
  name_colon : ':' ∉ name.toList
  name_line : OneLine name
  value_line : OneLine value

namespace SentHeader

def text (h : SentHeader) : String := h.name ++ ": " ++ h.value

/-- The name is stored in lower case. -/
def received (h : SentHeader) : String × String := (toAsciiLowercase h.name, h.value)

def isLength (h : SentHeader) : Bool := toAsciiLowercase h.name = "content-length"

/-- The length that the header declares. -/
def length (h : SentHeader) : Option Nat := parseUnsigned 10 64 h.value

end SentHeader

/-- A text that is one word. -/
def IsWord (text : String) : Prop := text ≠ "" ∧ ∀ c ∈ text.toList, isWhitespace c = false

instance (text : String) : Decidable (IsWord text) :=
  @instDecidableAnd _ _ _ (List.decidableBAll (fun c => isWhitespace c = false) text.toList)

structure SentRequest where
  method : String
  path : String
  headers : List SentHeader
  body : Option String
  method_word : IsWord method
  path_word : IsWord path
  body_nonempty : body ≠ some ""
  encoding : ∀ h ∈ headers, toAsciiLowercase h.name = "transfer-encoding" → h.value = ""
  declared : (headers.filter SentHeader.isLength).map SentHeader.length =
      [some (asBytes (body.getD "")).length] ∨
    (headers.filter SentHeader.isLength = [] ∧ body = none)

/-! ## Headers -/

namespace SentHeader

theorem not_whitespace_of_line_end {c : Char} (h : isWhitespace c = false) :
    (c == '\r' || c == '\n') = false := by
  rw [Bool.or_eq_false_iff]
  constructor
  · refine beq_eq_false_iff_ne.mpr ?_
    rintro rfl
    revert h
    decide
  · refine beq_eq_false_iff_ne.mpr ?_
    rintro rfl
    revert h
    decide

theorem last_of_trimmed {value : String} (h : trim value = value) (hne : value.toList ≠ []) :
    isWhitespace (value.toList.getLast hne) = false := by
  have hchars : trimChars value.toList = value.toList := by
    have hlist := congrArg String.toList h
    rwa [trim, String.toList_ofList] at hlist
  have hlast : value.toList.rdropWhile isWhitespace = value.toList := by
    unfold trimChars at hchars
    calc value.toList.rdropWhile isWhitespace
        = ((value.toList.dropWhile isWhitespace).rdropWhile isWhitespace).rdropWhile
            isWhitespace := by rw [hchars]
      _ = (value.toList.dropWhile isWhitespace).rdropWhile isWhitespace :=
          rdropWhile_idempotent _ _
      _ = value.toList := hchars
  have hnot := List.rdropWhile_eq_self_iff.mp hlast hne
  simpa using hnot

/-- The header as a line of the head. -/
def line (h : SentHeader) : HeaderLine where
  text := h.text
  oneLine := by
    rw [text, oneLine_append, oneLine_append]
    exact ⟨⟨h.name_line, by decide⟩, h.value_line⟩
  unpadded := by
    have hlist : h.text.toList = h.name.toList ++ ":".toList ++ (' ' :: h.value.toList) := by
      rw [text, String.toList_append, String.toList_append]
      simp
    rw [trimLineEnd, List.rdropWhile_eq_self_iff.mpr, String.ofList_toList]
    intro hne
    have hlast : (h.text.toList.getLast hne == '\r' || h.text.toList.getLast hne == '\n') =
        false := by
      simp only [hlist]
      rw [getLast_append_of_ne_nil _ (by simp)]
      by_cases hvalue : h.value.toList = []
      · simp only [hvalue, getLast_singleton]
        decide
      · rw [getLast_cons hvalue]
        exact not_whitespace_of_line_end (last_of_trimmed h.value_trimmed hvalue)
    rw [hlast]
    decide
  nonempty := by
    intro hempty
    have hlength := congrArg String.length hempty
    rw [text, String.length_append, String.length_append] at hlength
    have hcolon : ": ".length = 2 := by decide
    rw [hcolon] at hlength
    simp at hlength

theorem splitOnce_line (h : SentHeader) :
    splitOnce [':'] h.text.toList = some (h.name.toList, ' ' :: h.value.toList) := by
  have hlist : h.text.toList = h.name.toList ++ [':'] ++ (' ' :: h.value.toList) := by
    rw [text, String.toList_append, String.toList_append]
    simp
  rw [hlist]
  refine splitOnce_append _ (fun hwithin => ?_) (by decide)
  rw [dropLast_singleton, append_nil] at hwithin
  exact h.name_colon (hwithin.subset (mem_singleton_self _))

theorem trim_blank_value (h : SentHeader) :
    trim (String.ofList (' ' :: h.value.toList)) = h.value := by
  have hblank : trimChars (' ' :: h.value.toList) = trimChars h.value.toList := by
    unfold trimChars
    rw [dropWhile_cons_of_pos (by decide)]
  rw [trim, String.toList_ofList, hblank]
  exact h.value_trimmed

theorem accept_line (h : SentHeader) (st : RequestHeaders) :
    st.accept h.text = st.add h.received.1 h.received.2 := by
  rw [RequestHeaders.accept, splitOnce_line]
  dsimp only
  rw [trim_blank_value, String.ofList_toList, h.name_trimmed]
  rfl

end SentHeader

theorem add_count {st next : RequestHeaders} {name value : String}
    (h : st.add name value = .ok next) : next.headers.length = st.headers.length + 1 := by
  unfold RequestHeaders.add at h
  split at h
  · split at h
    · cases h
    · split at h
      · cases h
      · cases h
        exact length_append
  · split at h
    · cases h
    · cases h
      exact length_append

theorem accept_other (h : SentHeader) (hlength : h.isLength = false)
    (hencoding : toAsciiLowercase h.name = "transfer-encoding" → h.value = "")
    (st : RequestHeaders) :
    st.accept h.text = .ok { st with headers := st.headers ++ [h.received] } := by
  have hname : ¬ h.received.1 = "content-length" := by
    simpa [SentHeader.isLength, SentHeader.received] using hlength
  have hvalue : ¬ (h.received.1 = "transfer-encoding" ∧ h.received.2 ≠ "") := fun hboth =>
    hboth.2 (hencoding hboth.1)
  rw [h.accept_line, RequestHeaders.add, if_neg hname, if_neg hvalue]

theorem accept_length (h : SentHeader) (hlength : h.isLength = true) {n : Nat}
    (hn : h.length = some n) {st : RequestHeaders} (hsaw : st.sawContentLength = false) :
    st.accept h.text = .ok ⟨st.headers ++ [h.received], n, true⟩ := by
  have hname : h.received.1 = "content-length" := by
    simpa [SentHeader.isLength, SentHeader.received] using hlength
  have hsaw' : ¬ st.sawContentLength = true := by simp [hsaw]
  have hparsed : parseUnsigned 10 64 h.received.2 = some n := hn
  rw [h.accept_line, RequestHeaders.add, if_pos hname, if_neg hsaw', hparsed]

theorem accept_unsized {headers : List SentHeader}
    (hencoding : ∀ h ∈ headers, toAsciiLowercase h.name = "transfer-encoding" → h.value = "")
    (hnone : headers.filter SentHeader.isLength = []) (st : RequestHeaders) :
    headers.foldlM (fun st h => RequestHeaders.accept st h.text) st =
      .ok { st with headers := st.headers ++ headers.map SentHeader.received } := by
  induction headers generalizing st with
  | nil =>
    rw [map_nil, append_nil]
    rfl
  | cons h rest ih =>
    have hother := List.filter_eq_nil_iff.mp hnone h mem_cons_self
    rw [filter_cons, if_neg hother] at hnone
    rw [foldlM_cons, accept_other h (Bool.eq_false_iff.mpr hother)
      (hencoding h mem_cons_self)]
    show rest.foldlM _ _ = _
    rw [ih (fun h' hh' => hencoding h' (mem_cons_of_mem h hh')) hnone, map_cons,
      append_assoc, singleton_append]

theorem accept_sized {headers : List SentHeader}
    (hencoding : ∀ h ∈ headers, toAsciiLowercase h.name = "transfer-encoding" → h.value = "")
    {n : Nat} (hone : (headers.filter SentHeader.isLength).map SentHeader.length = [some n])
    {st : RequestHeaders} (hsaw : st.sawContentLength = false) :
    headers.foldlM (fun st h => RequestHeaders.accept st h.text) st =
      .ok ⟨st.headers ++ headers.map SentHeader.received, n, true⟩ := by
  induction headers generalizing st with
  | nil => cases hone
  | cons h rest ih =>
    have hrest := fun h' hh' => hencoding h' (mem_cons_of_mem h hh')
    rw [foldlM_cons, map_cons, append_cons]
    cases hlength : h.isLength with
    | true =>
      rw [filter_cons, if_pos hlength, map_cons, List.cons.injEq,
        map_eq_nil_iff] at hone
      rw [accept_length h hlength hone.1 hsaw]
      exact accept_unsized hrest hone.2 _
    | false =>
      rw [filter_cons, if_neg (Bool.eq_false_iff.mp hlength)] at hone
      rw [accept_other h hlength (hencoding h mem_cons_self)]
      exact ih hrest hone hsaw

/-! ## Requests -/

namespace SentRequest

def requestLine (r : SentRequest) : String := r.method ++ " " ++ r.path ++ " HTTP/1.1"

def lines (r : SentRequest) : List HeaderLine := r.headers.map SentHeader.line

def bodyBytes (r : SentRequest) : List UInt8 := asBytes (r.body.getD "")

def bytes (r : SentRequest) : List UInt8 :=
  lineBytes r.requestLine ++ (headBytes r.lines ++ r.bodyBytes)

/-- The request as it should be read. -/
def received (r : SentRequest) : HttpRequest where
  method := r.method
  path := r.path
  headers := r.headers.map SentHeader.received
  contentLength := r.bodyBytes.length
  body := r.body

/-- The lines are within the limits on a line, and the body within its own. -/
structure Fits (limits : HttpLimits) (r : SentRequest) : Prop where
  requestLine : (lineBytes r.requestLine).length ≤ limits.maxRequestLineBytes
  headers : ∀ h ∈ r.headers, h.line.bytes.length ≤ limits.maxHeaderLineBytes
  blank : blankLine.length ≤ limits.maxHeaderLineBytes
  body : r.bodyBytes.length ≤ limits.maxBodyBytes

end SentRequest

theorem isWhitespace_newline : isWhitespace '\n' = true := by decide

theorem IsWord.oneLine {text : String} (h : IsWord text) : OneLine text := by
  intro hmem
  have hbreak := h.2 '\n' hmem
  rw [isWhitespace_newline] at hbreak
  cases hbreak

theorem splitWhitespace_eq (s : String) :
    splitWhitespace s = (wordsBy isWhitespace s.toList).map String.ofList := rfl

theorem wordsBy_word {text : String} (h : IsWord text) :
    wordsBy isWhitespace text.toList = [text.toList] := by
  refine wordsBy_of_forall (fun hnil => h.1 ?_) h.2
  rw [← String.ofList_toList (s := text), hnil]

theorem methodAndPath_requestLine (r : SentRequest) :
    methodAndPath (lineBytes r.requestLine) = some (r.method, r.path) := by
  have hlist : (r.requestLine ++ "\r\n").toList =
      r.method.toList ++ ' ' :: (r.path.toList ++ ' ' :: "HTTP/1.1\r\n".toList) := by
    rw [SentRequest.requestLine]
    simp
  have hversion : wordsBy isWhitespace "HTTP/1.1\r\n".toList = ["HTTP/1.1".toList] := by decide
  rw [methodAndPath, lineBytes, fromUtf8Lossy_asBytes, splitWhitespace_eq, hlist,
    wordsBy_append_break (by decide), wordsBy_append_break (by decide), wordsBy_word r.method_word,
    wordsBy_word r.path_word, hversion, map_append, map_append, map_singleton,
    map_singleton, map_singleton, String.ofList_toList, String.ofList_toList,
    singleton_append, singleton_append]

theorem accept_headers (r : SentRequest) :
    ∃ st : RequestHeaders,
      r.lines.foldlM (fun st line => RequestHeaders.accept st line.text) {} = .ok st ∧
        st.headers = r.headers.map SentHeader.received ∧
        st.contentLength = r.bodyBytes.length := by
  rw [SentRequest.lines, foldlM_map]
  rcases r.declared with hone | ⟨hnone, hbody⟩
  · exact ⟨_, accept_sized r.encoding hone rfl, rfl, rfl⟩
  · refine ⟨_, accept_unsized r.encoding hnone {}, rfl, ?_⟩
    have hnil : r.bodyBytes = [] := by
      rw [SentRequest.bodyBytes, hbody]
      decide
    rw [hnil]
    rfl

theorem readRequestBody_runs {limits : HttpLimits} (r : SentRequest)
    (hfits : r.bodyBytes.length ≤ limits.maxBodyBytes) (left : List UInt8) :
    Runs (readRequestBody limits r.bodyBytes.length) (r.bodyBytes ++ left)
      (.ok (r.body, left)) := by
  unfold readRequestBody
  cases hbody : r.body with
  | none =>
    have hnil : r.bodyBytes = [] := by
      rw [SentRequest.bodyBytes, hbody]
      decide
    rw [hnil, if_neg (by decide)]
    exact Runs.pure none left
  | some text =>
    have hbytes : r.bodyBytes = asBytes text := by rw [SentRequest.bodyBytes, hbody]; rfl
    have hpos : 0 < r.bodyBytes.length := by
      rw [hbytes]
      refine List.length_pos_iff.mpr fun hnil => r.body_nonempty ?_
      have hempty : asBytes "" = [] := by decide
      rw [hbody, asBytes_injective (hnil.trans hempty.symm)]
    rw [if_pos hpos, if_neg (Nat.not_lt_of_le hfits)]
    refine Runs.bind (runs_readExact _ _ _) ?_
    rw [hbytes, fromUtf8Lossy_asBytes]
    exact Runs.pure (some text) left

theorem readRequest_runs {limits : HttpLimits} {r : SentRequest} (h : r.Fits limits)
    (left : List UInt8) :
    Runs (readRequest limits) (r.bytes ++ left)
      (afterHead limits.header r.lines (.ok (r.received, left))) := by
  have hline : OneLine r.requestLine := by
    rw [SentRequest.requestLine, oneLine_append, oneLine_append, oneLine_append]
    exact ⟨⟨⟨r.method_word.oneLine, by decide⟩, r.path_word.oneLine⟩, by decide⟩
  rw [SentRequest.bytes, append_assoc]
  refine Runs.bind (readLineBounded_runs hline h.requestLine _) ?_
  rw [if_neg (lineBytes_ne_nil _), methodAndPath_requestLine]
  obtain ⟨st, haccept, hheaders, hlength⟩ := accept_headers r
  rw [append_assoc]
  refine @readHeaderLines_then _ limits.header (fun st => st.headers.length)
    RequestHeaders.accept {} _ r.lines st rfl haccept ?_ ?_ h.blank _ _ _ ?_
  · intro line hline st next hnext
    obtain ⟨header, -, rfl⟩ := List.mem_map.mp hline
    exact add_count ((header.accept_line st).symm.trans hnext)
  · intro line hline
    obtain ⟨header, hheader, rfl⟩ := List.mem_map.mp hline
    exact h.headers header hheader
  · intro _
    rw [hlength]
    refine Runs.bind (readRequestBody_runs r h.body left) ?_
    rw [hheaders]
    exact Runs.pure _ left

end GenieClaw.Http
