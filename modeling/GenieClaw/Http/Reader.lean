import GenieClaw.Library.Binary
import GenieClaw.Library.Buffered
import GenieClaw.Library.Digits
import GenieClaw.Library.Utf8

/-!
# The HTTP reader

`genie-common/src/http.rs`: reading a request or a response from a stream under limits. The
deadline of `read_request` is left out. The numbers of the source have 64 bits: sums that
saturate or wrap around there do so here.
-/

namespace GenieClaw.Http

open Library Library.Buffered Library.Program Library.Text

/-- `HttpReadError`, without the texts of the I/O errors. -/
inductive HttpReadError where
  | timeout
  | closed
  | malformed
  | requestLineTooLong
  | statusLineTooLong
  | headerLineTooLong
  | tooManyHeaders
  | headersTooLarge
  | bodyTooLarge
  | invalidContentLength
  | unsupportedTransferEncoding
  | io
deriving DecidableEq

abbrev Reader := Program (Buffers UInt8) HttpReadError

def newline : UInt8 := 10

def usizeMax : Nat := 2 ^ 64 - 1

def readLineBounded (maxBytes : Nat) (tooLong : HttpReadError) : Reader (List UInt8) :=
  readLine newline maxBytes tooLong

/-- `trim_end_matches(['\r', '\n'])`. -/
def trimLineEnd (s : String) : String :=
  String.ofList (s.toList.rdropWhile fun c => c == '\r' || c == '\n')

/-! ## Header lines -/

structure HeaderLimits where
  maxLineBytes : Nat
  maxCount : Nat
  maxBytes : Nat

section

variable {σ : Type} (limits : HeaderLimits) (count : σ → Nat)
  (accept : σ → String → Except HttpReadError σ)

/-- The loop over the header lines, which requests and responses share. `accept` is what is done
with a line that is not blank, and `count` is the number that is compared with the limit. -/
def readHeaders : Nat → σ → Nat → Reader σ
  | 0, _, _ => fail .closed
  | fuel + 1, st, total =>
    if limits.maxCount ≤ count st then fail .tooManyHeaders
    else do
      let line ← readLineBounded limits.maxLineBytes .headerLineTooLong
      if line = [] then fail .closed
      else if limits.maxBytes < saturatingAdd usizeMax total line.length then fail .headersTooLarge
      else if trimLineEnd (fromUtf8Lossy line) = "" then pure st
      else match accept st (trimLineEnd (fromUtf8Lossy line)) with
        | .error e => fail e
        | .ok st => readHeaders fuel st (saturatingAdd usizeMax total line.length)

/-- Every turn of the loop uses up a byte. -/
def readHeaderLines (st : σ) : Reader σ :=
  fun bs => readHeaders limits count accept (bs.flatten.length + 1) st 0 bs

end

/-! ## Requests -/

/-- `HttpLimits`, without the deadline. -/
structure HttpLimits where
  maxRequestLineBytes : Nat
  maxHeaderLineBytes : Nat
  maxHeaderCount : Nat
  maxHeaderBytes : Nat
  maxBodyBytes : Nat

def HttpLimits.header (limits : HttpLimits) : HeaderLimits :=
  ⟨limits.maxHeaderLineBytes, limits.maxHeaderCount, limits.maxHeaderBytes⟩

structure HttpRequest where
  method : String
  path : String
  headers : List (String × String)
  contentLength : Nat
  body : Option String
deriving DecidableEq

structure RequestHeaders where
  headers : List (String × String) := []
  contentLength : Nat := 0
  sawContentLength : Bool := false
deriving DecidableEq

def RequestHeaders.add (st : RequestHeaders) (name value : String) :
    Except HttpReadError RequestHeaders :=
  if name = "content-length" then
    if st.sawContentLength then .error .invalidContentLength
    else match parseUnsigned 10 64 value with
      | none => .error .invalidContentLength
      | some parsed => .ok ⟨st.headers ++ [(name, value)], parsed, true⟩
  else if name = "transfer-encoding" ∧ value ≠ "" then .error .unsupportedTransferEncoding
  else .ok { st with headers := st.headers ++ [(name, value)] }

/-- Lines without a colon are ignored. -/
def RequestHeaders.accept (st : RequestHeaders) (line : String) :
    Except HttpReadError RequestHeaders :=
  match splitOnce [':'] line.toList with
  | none => .ok st
  | some (name, value) =>
    st.add (toAsciiLowercase (trim (String.ofList name))) (trim (String.ofList value))

def methodAndPath (line : List UInt8) : Option (String × String) :=
  match splitWhitespace (fromUtf8Lossy line) with
  | method :: path :: _ => some (method, path)
  | _ => none

def readRequestBody (limits : HttpLimits) (contentLength : Nat) : Reader (Option String) :=
  if 0 < contentLength then
    if limits.maxBodyBytes < contentLength then fail .bodyTooLarge
    else do
      let buf ← readExact contentLength .io
      pure (some (fromUtf8Lossy buf))
  else pure none

/-- The part of `read_request_inner` after the request line. -/
def readRequestRest (limits : HttpLimits) (method path : String) : Reader HttpRequest := do
  let st ← readHeaderLines limits.header (fun st => st.headers.length) RequestHeaders.accept {}
  let body ← readRequestBody limits st.contentLength
  pure ⟨method, path, st.headers, st.contentLength, body⟩

def readRequest (limits : HttpLimits) : Reader HttpRequest := do
  let line ← readLineBounded limits.maxRequestLineBytes .requestLineTooLong
  if line = [] then fail .closed
  else match methodAndPath line with
    | none => fail .malformed
    | some (method, path) => readRequestRest limits method path

/-! ## Responses -/

structure HttpResponseLimits where
  maxStatusLineBytes : Nat := 8 * 1024
  maxHeaderLineBytes : Nat := 8 * 1024
  maxHeaderCount : Nat := 100
  maxHeaderBytes : Nat := 64 * 1024
  maxBodyBytes : Nat

def HttpResponseLimits.withBodyCap (maxBodyBytes : Nat) : HttpResponseLimits := { maxBodyBytes }

def HttpResponseLimits.header (limits : HttpResponseLimits) : HeaderLimits :=
  ⟨limits.maxHeaderLineBytes, limits.maxHeaderCount, limits.maxHeaderBytes⟩

structure HttpResponse where
  status : Nat
  body : String
deriving DecidableEq

structure ResponseHeaders where
  contentLength : Option Nat := none
  chunked : Bool := false
  headerCount : Nat := 0
deriving DecidableEq

def ResponseHeaders.noteLength (st : ResponseHeaders) (lower : String) : ResponseHeaders :=
  match stripPrefix "content-length:" lower with
  | some val => { st with contentLength := parseUnsigned 10 64 (trim val) }
  | none => st

def ResponseHeaders.noteEncoding (st : ResponseHeaders) (lower : String) : ResponseHeaders :=
  match stripPrefix "transfer-encoding:" lower with
  | some val => if containsText val "chunked" then { st with chunked := true } else st
  | none => st

def ResponseHeaders.note (st : ResponseHeaders) (line : String) : ResponseHeaders :=
  let counted := { st with headerCount := st.headerCount + 1 }
  (counted.noteLength (toAsciiLowercase line)).noteEncoding (toAsciiLowercase line)

def maxChunkSizeLineBytes : Nat := 32

/-- The size that the size line of a chunk states. -/
def chunkSize (line : List UInt8) : Option Nat :=
  let text := trim (fromUtf8Lossy line)
  parseUnsigned 16 64 (trim (String.ofList (text.toList.takeWhile fun c => c ≠ ';')))

/-- One turn of the loop over the chunks: the body with the chunk, or nothing after the last. -/
def readChunk (limits : HttpResponseLimits) (body : List UInt8) : Reader (Option (List UInt8)) := do
  let sizeLine ← readLineBounded maxChunkSizeLineBytes .headerLineTooLong
  match chunkSize sizeLine with
  | none => fail .malformed
  | some size =>
    if size = 0 then do
      let _ ← readLineBounded maxChunkSizeLineBytes .headerLineTooLong
      pure none
    else if limits.maxBodyBytes < saturatingAdd usizeMax body.length size then fail .bodyTooLarge
    else do
      let chunk ← readExact size .io
      let _ ← readExact 2 .io
      pure (some (body ++ chunk))

def readChunks (limits : HttpResponseLimits) : Nat → List UInt8 → Reader (List UInt8)
  | 0, _ => fail .closed
  | fuel + 1, body => do
    let next ← readChunk limits body
    match next with
    | none => pure body
    | some body => readChunks limits fuel body

/-- Every turn of the loop uses up a byte. -/
def readChunkedResponseBody (limits : HttpResponseLimits) : Reader String := do
  let body ← fun bs => readChunks limits (bs.flatten.length + 1) [] bs
  pure (fromUtf8Lossy body)

def readSizedBody (limits : HttpResponseLimits) (contentLength : Nat) : Reader String :=
  if limits.maxBodyBytes < contentLength then fail .bodyTooLarge
  else do
    let buf ← readExact contentLength .io
    pure (fromUtf8Lossy buf)

/-- `take(cap + 1)` and `read_to_string`. -/
def readRemainingBody (limits : HttpResponseLimits) : Reader String := do
  let bytes ← readUpTo ((limits.maxBodyBytes + 1) % 2 ^ 64)
  match fromUtf8 bytes with
  | none => fail .io
  | some body =>
    if limits.maxBodyBytes < body.utf8ByteSize then fail .bodyTooLarge else pure body

def readResponseBody (limits : HttpResponseLimits) (st : ResponseHeaders) : Reader String :=
  if st.chunked then readChunkedResponseBody limits
  else match st.contentLength with
    | some contentLength => readSizedBody limits contentLength
    | none => readRemainingBody limits

def statusOf (line : List UInt8) : Nat :=
  ((splitWhitespace (fromUtf8Lossy line))[1]?.bind (parseUnsigned 10 16)).getD 0

/-- The part of `read_response_inner` after the status line. -/
def readResponseRest (limits : HttpResponseLimits) (status : Nat) : Reader HttpResponse := do
  let st ← readHeaderLines limits.header ResponseHeaders.headerCount
    (fun st line => .ok (st.note line)) {}
  let body ← readResponseBody limits st
  pure ⟨status, body⟩

def readResponse (limits : HttpResponseLimits) : Reader HttpResponse := do
  let line ← readLineBounded limits.maxStatusLineBytes .statusLineTooLong
  if line = [] then fail .closed
  else readResponseRest limits (statusOf line)

end GenieClaw.Http
