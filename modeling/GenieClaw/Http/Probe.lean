import GenieClaw.Http.Reader
import GenieClaw.Library.Refill

/-!
# The probe client

`read_http_response` of `genie-common/src/probe.rs`: the response to a health probe or a small
request, read from a stream under a limit. The timeouts of the single reads are left out.
-/

namespace GenieClaw.Http.Probe

open Library Library.Program Library.Refill Library.Text

inductive ProbeError where
  | responseTooLarge
  | invalidHttpResponse
  /-- Not an error that is returned: the task panics. -/
  | panicked
deriving DecidableEq

abbrev ProbeReader := Program (Buffers UInt8) ProbeError

/-! ## The head -/

def terminator : List UInt8 := [13, 10, 13, 10]

/-- `windows(needle.len()).position(|window| window == needle)`. -/
def position (needle : List UInt8) : List UInt8 → Option Nat
  | [] => if needle = [] then some 0 else none
  | b :: rest =>
    if needle.isPrefixOf (b :: rest) then some 0 else (position needle rest).map (· + 1)

def parseHttpStatus (head : List UInt8) : Option Nat :=
  (splitWhitespace (fromUtf8Lossy head))[1]?.bind (parseUnsigned 10 16)

/-- A line without the carriage return at its end. -/
def withoutReturn (line : List Char) : List Char :=
  if line.getLast? = some '\r' then line.dropLast else line

/-- `str::lines`. -/
def lines (text : List Char) : List (List Char) :=
  let pieces := text.splitOn '\n'
  let last := pieces.getLast?.getD []
  pieces.dropLast.map withoutReturn ++ if last = [] then [] else [last]

def isChunkedLine (line : List Char) : Bool :=
  eqIgnoreAsciiCase (String.ofList line) "transfer-encoding: chunked"

def lengthOfLine (line : List Char) : Option Nat :=
  match splitOnce [':'] line with
  | none => none
  | some (name, value) =>
    if eqIgnoreAsciiCase (String.ofList name) "content-length" then
      parseUnsigned 10 64 (trim (String.ofList value))
    else none

def parseContentLength (headers : String) : Option Nat :=
  (lines headers.toList).findSome? lengthOfLine

/-! ## The body -/

def textOf (body : List UInt8) : String := trim (fromUtf8Lossy body)

def readToEofCapped (maxResponseBytes : Nat) (body : List UInt8) : ProbeReader (List UInt8) :=
  drain (fun body => decide (maxResponseBytes < body.length)) .responseTooLarge body

def readFixedBody (maxResponseBytes contentLength : Nat) (body : List UInt8) :
    ProbeReader (List UInt8) := do
  let body ← fill (fun body => decide (contentLength ≤ body.length))
    (fun body => decide (maxResponseBytes < body.length)) .responseTooLarge .invalidHttpResponse
    body
  return body.take contentLength

/-- A turn of the loop over the chunks behind the line with the size; `next` is the next turn. -/
def readSized (maxResponseBytes : Nat)
    (next : List UInt8 → List UInt8 → ProbeReader (List UInt8)) (scratch decoded : List UInt8) :
    Option Nat → ProbeReader (List UInt8)
  | none => fail .invalidHttpResponse
  | some size =>
    if size = 0 then return decoded
    else if maxResponseBytes < size then fail .responseTooLarge
    -- `chunk_size + 2` overflows, or ends up in front of `chunk_size`
    else if 2 ^ 64 ≤ size + 2 then fail .panicked
    else do
      let scratch ← fill (fun scratch => decide (size + 2 ≤ scratch.length))
        (fun scratch => decide (maxResponseBytes < decoded.length + scratch.length))
        .responseTooLarge .invalidHttpResponse scratch
      next (scratch.drop (size + 2)) (decoded ++ scratch.take size)

/-- The loop over the chunks; every turn takes a line off the buffer. -/
def readChunks (maxResponseBytes : Nat) :
    Nat → List UInt8 → List UInt8 → ProbeReader (List UInt8)
  | 0, _, _ => fail .invalidHttpResponse
  | fuel + 1, scratch, decoded => do
    let scratch ← fill (fun scratch => scratch.contains newline)
      (fun scratch => decide (maxResponseBytes < scratch.length)) .responseTooLarge
      .invalidHttpResponse scratch
    let line := scratch.takeWhile fun b => b != newline
    readSized maxResponseBytes (readChunks maxResponseBytes fuel)
      (scratch.drop (line.length + 1)) decoded (chunkSize line)

def readChunkedBody (maxResponseBytes : Nat) (scratch : List UInt8) :
    ProbeReader (List UInt8) := fun reads =>
  readChunks maxResponseBytes (scratch.length + reads.flatten.length + 1) scratch [] reads

def readHttpBody (maxResponseBytes : Nat) (headers : String) (body : List UInt8) :
    ProbeReader String :=
  if (lines headers.toList).any isChunkedLine then do
    let decoded ← readChunkedBody maxResponseBytes body
    return textOf decoded
  else
    match parseContentLength headers with
    | some contentLength =>
      if maxResponseBytes < contentLength then fail .responseTooLarge
      else do
        let body ← readFixedBody maxResponseBytes contentLength body
        return textOf body
    | none => do
      let body ← readToEofCapped maxResponseBytes body
      return textOf body

/-- Once the head is in the buffer. -/
def readAfterHead (maxResponseBytes : Nat) (buf : List UInt8) : ProbeReader (Nat × String) :=
  match position terminator buf with
  | none => fail .invalidHttpResponse
  | some idx =>
    let head := buf.take (idx + 4)
    match parseHttpStatus head with
    | none => fail .invalidHttpResponse
    | some status => do
      let body ← readHttpBody maxResponseBytes (fromUtf8Lossy head) (buf.drop (idx + 4))
      return (status, body)

def readHttpResponse (maxResponseBytes : Nat) : ProbeReader (Nat × String) := do
  let buf ← fill (fun buf => (position terminator buf).isSome)
    (fun buf => decide (maxResponseBytes < buf.length)) .responseTooLarge .invalidHttpResponse []
  readAfterHead maxResponseBytes buf

end GenieClaw.Http.Probe
