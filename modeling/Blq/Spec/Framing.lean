import Blq.Spec.Wire

/-!
# Messages out of a stream (`blq-node`)

`read_p2p_line` call after call, and `read_http_request`. A list holds what the calls to the network
return; nothing more is the end of the stream. The texts of an HTTP request are the bytes they are
decoded from, and what `parse_content_length` makes of the header text is a parameter.
-/

namespace Blq

open Word

/-- The lines of up to `fuel` calls, up to the first that finds none. -/
def readP2pLines : ℕ → List Bytes → Except String (List Bytes)
  | 0, _ => pure []
  | fuel + 1, chunks => do
    let (found, line, left) ← readP2pLine chunks
    if found then
      let lines ← readP2pLines fuel left
      pure (line :: lines)
    else pure []

/-- `windows(n).position(|window| window == pattern)` -/
def windowPosition (pattern : Bytes) : Bytes → Option ℕ
  | [] => none
  | b :: bs =>
    if pattern <+: b :: bs then some 0 else (windowPosition pattern bs).map (· + 1)

def findHeaderEnd (request : Bytes) : Option ℕ :=
  ((windowPosition [13, 10, 13, 10] request).map (· + 4)).or
    ((windowPosition [10, 10] request).map (· + 2))

def maxHttpRequestBytes : ℕ := 1024 * 1024

/-- The length of `read_http_request`'s buffer. -/
def httpBuffer : ℕ := 8192

/-- What one call to `read` puts into the buffer, unless the stream has ended. -/
structure HttpRead where
  bytes : Bytes
  nonempty : bytes ≠ []
  fits : bytes.length ≤ httpBuffer

/-- The bytes that arrive with the reads. -/
def HttpRead.stream (reads : List HttpRead) : Bytes := reads.flatMap HttpRead.bytes

/-- Reads until the header is complete; returns what was read, where the header ends and what is
left. -/
def readHttpHeader (request : Bytes) : List HttpRead → Except String (Bytes × ℕ × List HttpRead)
  | [] => throw "empty HTTP request"
  | read :: reads => do
    let request := request ++ read.bytes
    if request.length > maxHttpRequestBytes then throw "HTTP request is too large"
    match findHeaderEnd request with
    | some headerEnd => pure (request, headerEnd, reads)
    | none => readHttpHeader request reads

/-- Reads until the body is complete or the stream ends. -/
def readHttpBody (bodyStart contentLength : ℕ) (request : Bytes) :
    List HttpRead → Except String Bytes
  | [] => pure request
  | read :: reads => do
    if ¬ request.length - bodyStart < contentLength then return request
    let request := request ++ read.bytes
    if request.length > maxHttpRequestBytes then throw "HTTP request is too large"
    readHttpBody bodyStart contentLength request reads

/-- The header and the body of a request. -/
def readHttpRequest (parseContentLength : Bytes → Option ℕ) (reads : List HttpRead) :
    Except String (Bytes × Bytes) := do
  let (request, headerEnd, reads) ← readHttpHeader [] reads
  let contentLength := (parseContentLength (request.take headerEnd)).getD 0
  let request' ← readHttpBody headerEnd contentLength request reads
  if request'.length - headerEnd < contentLength then
    throw "HTTP request body ended before content-length"
  pure (request.take headerEnd, (request'.drop headerEnd).take contentLength)

end Blq
