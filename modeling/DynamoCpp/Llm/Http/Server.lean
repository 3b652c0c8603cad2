import DynamoCpp.Basic
import DynamoCpp.Framework.Delimited
import DynamoCpp.Framework.OrderedMap

/-! # The HTTP server

    A minimal HTTP/1.1 server with one thread for each connection: exact-path routing,
    keep-alive, bodies with a `Content-Length`, fixed or chunked responses.  What the socket
    does is given: the pieces that successive calls of `recv` return, and for each write
    whether it fails and after how many bytes.
-/

namespace DynamoCpp.Llm.Http

open Framework

def kMaxHeaderBytes : Nat := 64 * 1024

def kMaxBodyBytes : Nat := 32 * 1024 * 1024

/-! ## Texts -/

def lowercase (s : Bytes) : Bytes :=
  s.map fun c => if 'A'.toUInt8 ≤ c ∧ c ≤ 'Z'.toUInt8 then c + 32 else c

def trimSv (s : Bytes) : Bytes :=
  let s := s.dropWhile fun c => c = ' '.toUInt8 ∨ c = '\t'.toUInt8
  (s.reverse.dropWhile fun c => c = ' '.toUInt8 ∨ c = '\t'.toUInt8 ∨ c = '\r'.toUInt8).reverse

def statusText (status : Int) : Bytes :=
  if status = 200 then str "OK"
  else if status = 400 then str "Bad Request"
  else if status = 404 then str "Not Found"
  else if status = 405 then str "Method Not Allowed"
  else if status = 500 then str "Internal Server Error"
  else if status = 503 then str "Service Unavailable"
  else str "Unknown"

/-- `fmt::format` of a size with `{}` or `{:x}`. -/
def digits (base n : Nat) : Bytes := (Nat.toDigits base n).map fun c => c.toUInt8

def decimal (n : Int) : Bytes :=
  if n < 0 then str "-" ++ digits 10 n.natAbs else digits 10 n.natAbs

def isSpace (c : UInt8) : Bool := c == 32 || (9 ≤ c && c ≤ 13)

def isDigit (c : UInt8) : Bool := '0'.toUInt8 ≤ c && c ≤ '9'.toUInt8

/-- `std::stoull`; nothing if it throws.  Text after the digits is ignored, and a minus sign
    negates modulo `2^64`. -/
def stoull (s : Bytes) : Option Nat :=
  let s := s.dropWhile isSpace
  let negative := s.head? == some '-'.toUInt8
  let s := if negative || s.head? == some '+'.toUInt8 then s.tail else s
  let ds := s.takeWhile isDigit
  let n := ds.foldl (fun n d => 10 * n + (d - '0'.toUInt8).toNat) 0
  if ds = [] ∨ UInt64.size ≤ n then none
  else some (if negative then (UInt64.size - n) % UInt64.size else n)

/-! ## Reading -/

/-- `LineReader`: the unread part of the buffer, and the pieces that `recv` will return.
    An empty piece is the end of the stream or an error. -/
structure LineReader where
  buf    : Bytes := []
  pieces : List Bytes := []

namespace LineReader

/-- All that is still to be read. -/
def bytes (r : LineReader) : Bytes := r.buf ++ r.pieces.flatten

def fill (r : LineReader) : Option LineReader :=
  match r.pieces with
  | [] => none
  | piece :: pieces => if piece = [] then none else some ⟨piece, pieces⟩

/-- The next character, from the buffer or after a refill. -/
def next (r : LineReader) : Option (UInt8 × LineReader) :=
  match r.buf with
  | c :: buf => some (c, { r with buf })
  | [] =>
    match r.fill with
    | some ⟨c :: buf, pieces⟩ => some (c, ⟨buf, pieces⟩)
    | _ => none

/-- The loop of `read_line`, with room for as many more characters. -/
def readLineLoop : Nat → Bytes → LineReader → Option Bytes × LineReader
  | 0, _, r => (none, r)
  | room + 1, line, r =>
    match r.next with
    | none => (none, r)
    | some (c, r) =>
      if c = '\n'.toUInt8 then
        (some (if line.getLast? = some '\r'.toUInt8 then line.dropLast else line), r)
      else readLineLoop room (line ++ [c]) r

def readLine (r : LineReader) (maxBytes : Nat) : Option Bytes × LineReader :=
  readLineLoop maxBytes [] r

/-- The loop of `read_exact`.  A turn takes what it can from the buffer; if that is not
    enough the buffer is empty, and the next turn starts with a refill. -/
def readExactLoop (n : Nat) : Bytes → Bytes → List Bytes → Option Bytes × LineReader
  | out, buf, pieces =>
    let take := min (n - out.length) buf.length
    let out := out ++ buf.take take
    if out.length < n then
      match pieces with
      | [] => (none, {})
      | piece :: pieces =>
        if piece = [] then (none, ⟨[], piece :: pieces⟩) else readExactLoop n out piece pieces
    else (some out, ⟨buf.drop take, pieces⟩)

def readExact (r : LineReader) (n : Nat) : Option Bytes × LineReader :=
  readExactLoop n [] r.buf r.pieces

end LineReader

/-! ## Requests and responses -/

structure HttpRequest where
  method  : Bytes := []
  /-- As received, with the query. -/
  target  : Bytes := []
  path    : Bytes := []
  /-- Names are in lower case. -/
  headers : OrdMap Bytes Bytes := ∅
  body    : Bytes := []

/-- `std::function<void(const StreamSink&)>`, by what it does: it returns, throws, or passes
    a chunk to the sink and goes on with the answer. -/
inductive BodyStream where
  | returns
  | throws (what : Bytes)
  | chunk (data : Bytes) (next : Bool → BodyStream)

structure HttpResponse where
  status      : Int := 200
  contentType : Bytes := str "application/json"
  headers     : OrdMap Bytes Bytes := ∅
  body        : Bytes := []
  stream      : Option BodyStream := none

/-- What a handler does may depend on which call it is: it returns or throws. -/
abbrev HttpHandler : Type := Nat → HttpRequest → Except Bytes HttpResponse

/-- The routes by `METHOD path`. -/
abbrev Routes : Type := OrdMap Bytes HttpHandler

/-- `HttpServer::handle` -/
def Routes.handle (routes : Routes) (method path : Bytes) (handler : HttpHandler) : Routes :=
  routes.insert (method ++ str " " ++ path) handler

/-! ## Writing -/

/-- For each write, whether it fails and then after how many bytes. -/
abbrev Faults : Type := Nat → Option Nat

/-- What was sent on the connection, and how many writes were made. -/
structure Output where
  bytes  : Bytes := []
  writes : Nat := 0

def writeAllFd (faults : Faults) (o : Output) (data : Bytes) : Bool × Output :=
  if data = [] then (true, o)
  else
    match faults o.writes with
    | none => (true, ⟨o.bytes ++ data, o.writes + 1⟩)
    -- a write that fails has not sent everything
    | some n => (false, ⟨o.bytes ++ data.dropLast.take n, o.writes + 1⟩)

/-- The sink of a streaming response. -/
def sink (faults : Faults) (o : Output) (chunk : Bytes) : Bool × Output :=
  if chunk = [] then (true, o)
  else writeAllFd faults o (digits 16 chunk.length ++ str "\r\n" ++ chunk ++ str "\r\n")

/-- The stream is run with the sink. -/
def BodyStream.run (faults : Faults) : BodyStream → Output → Except Bytes Unit × Output
  | .returns, o => (.ok (), o)
  | .throws what, o => (.error what, o)
  | .chunk data next, o =>
    let r := sink faults o data
    (next r.1).run faults r.2

/-- The header block up to the field that says how long the body is. -/
def HttpResponse.head (response : HttpResponse) (keepAlive : Bool) : Bytes :=
  str "HTTP/1.1 " ++ decimal response.status ++ str " " ++ statusText response.status ++
    str "\r\n" ++ str "Content-Type: " ++ response.contentType ++ str "\r\n" ++
    (response.headers.toList.flatMap fun h => h.1 ++ str ": " ++ h.2 ++ str "\r\n") ++
    (if keepAlive then str "Connection: keep-alive\r\n" else str "Connection: close\r\n")

def HttpResponse.chunkedHead (response : HttpResponse) (keepAlive : Bool) : Bytes :=
  response.head keepAlive ++ str "Transfer-Encoding: chunked\r\n\r\n"

def writeResponse (faults : Faults) (o : Output) (response : HttpResponse) (keepAlive : Bool) :
    Except Bytes Unit × Output :=
  match response.stream with
  | some stream =>
    let r := writeAllFd faults o (response.chunkedHead keepAlive)
    if r.1 then
      match stream.run faults r.2 with
      -- nothing here catches what the stream throws
      | (.error what, o) => (.error what, o)
      | (.ok _, o) => (.ok (), (writeAllFd faults o (str "0\r\n\r\n")).2)
    else (.ok (), r.2)
  | none =>
    (.ok (), (writeAllFd faults o (response.head keepAlive ++ str "Content-Length: " ++
      digits 10 response.body.length ++ str "\r\n\r\n" ++ response.body)).2)

/-! ## One request -/

def jsonError (status : Int) (message : Bytes) : HttpResponse where
  status := status
  body   := str "\x7b\"error\":\"" ++ message ++ str "\"\x7d"

/-- Method and target: what stands before the first space, and between the first and the
    last. -/
def requestLine (line : Bytes) : Option (Bytes × Bytes) :=
  match cut ' '.toUInt8 line with
  | none => none
  | some (method, rest) =>
    match cut ' '.toUInt8 rest.reverse with
    | none => none
    | some (_, target) => some (method, target.reverse)

/-- The target without the query. -/
def pathOf (target : Bytes) : Bytes := target.takeWhile fun c => c ≠ '?'.toUInt8

def headerLine (headers : OrdMap Bytes Bytes) (line : Bytes) : OrdMap Bytes Bytes :=
  match cut ':'.toUInt8 line with
  | none => headers
  | some (name, value) => headers.insert (lowercase name) (trimSv value)

/-- The header loop; nothing if the connection is to be closed.  Each turn counts at least
    one byte towards the limit, so that `fuel` turns above it are never used up. -/
def readHeaders : Nat → Nat → OrdMap Bytes Bytes → LineReader →
    Option (OrdMap Bytes Bytes) × LineReader
  | 0, _, _, r => (none, r)
  | fuel + 1, headerBytes, headers, r =>
    match r.readLine kMaxHeaderBytes with
    | (none, r) => (none, r)
    | (some line, r) =>
      if line = [] then (some headers, r)
      else if headerBytes + line.length > kMaxHeaderBytes then (none, r)
      else readHeaders fuel (headerBytes + line.length) (headerLine headers line) r

def keepAlive (headers : OrdMap Bytes Bytes) : Bool :=
  match headers[str "connection"]? with
  | some value => lowercase value ≠ str "close"
  | none => true

/-- What `handle_one` has read. -/
inductive Received where
  /-- The connection is to be closed. -/
  | closed
  /-- It is to be closed after a response with status 400. -/
  | refused (error : Bytes)
  | request (request : HttpRequest) (keepAlive : Bool)

/-- The body, if the headers announce one. -/
def readBody (r : LineReader) (request : HttpRequest) : Received × LineReader :=
  match request.headers[str "content-length"]? with
  | none => (.request request (keepAlive request.headers), r)
  | some value =>
    match stoull value with
    | none => (.closed, r)
    | some length =>
      if length > kMaxBodyBytes then (.refused (str "body too large"), r)
      else
        match r.readExact length with
        | (none, r) => (.closed, r)
        | (some body, r) => (.request { request with body } (keepAlive request.headers), r)

def readRequest (r : LineReader) : Received × LineReader :=
  match r.readLine kMaxHeaderBytes with
  | (none, r) => (.closed, r)
  | (some line, r) =>
    if line = [] then (.closed, r)
    else
      match requestLine line with
      | none => (.refused (str "bad request"), r)
      | some (method, target) =>
        match readHeaders (kMaxHeaderBytes + 1) 0 ∅ r with
        | (none, r) => (.closed, r)
        | (some headers, r) => readBody r { method, target, path := pathOf target, headers }

/-- The response of the route; an exception of the handler becomes a response, too. -/
def respond (routes : Routes) (call : Nat) (request : HttpRequest) : HttpResponse :=
  match routes[request.method ++ str " " ++ request.path]? with
  | none =>
    let pathExists := routes.toList.any fun r =>
      ((cut ' '.toUInt8 r.1).map (·.2)).getD r.1 = request.path
    let status : Int := if pathExists then 405 else 404
    jsonError status (statusText status)
  | some handler =>
    match handler call request with
    | .ok response => response
    | .error _ => jsonError 500 (str "internal server error")

/-- `handle_one`: whether to go on with the connection, or the exception that leaves it. -/
def handleOne (routes : Routes) (faults : Faults) (call : Nat) (r : LineReader) (o : Output) :
    Except Bytes Bool × LineReader × Output :=
  match readRequest r with
  | (.closed, r) => (.ok false, r, o)
  | (.refused error, r) =>
    let w := writeResponse faults o (jsonError 400 error) false
    (w.1.map fun _ => false, r, w.2)
  | (.request request keepAlive, r) =>
    let w := writeResponse faults o (respond routes call request) keepAlive
    (w.1.map fun _ => keepAlive, r, w.2)

/-! ## A connection -/

/-- The loop of `serve_connection`; nothing if it has not ended after so many turns. -/
def serveLoop (routes : Routes) (faults : Faults) (stopping : Nat → Bool) :
    Nat → Nat → LineReader → Output → Option (Except Bytes Unit × Output)
  | 0, _, _, _ => none
  | fuel + 1, turn, r, o =>
    if stopping turn then some (.ok (), o)
    else
      match handleOne routes faults turn r o with
      | (.error what, _, o) => some (.error what, o)
      | (.ok false, _, o) => some (.ok (), o)
      | (.ok true, r, o) => serveLoop routes faults stopping fuel (turn + 1) r o

/-- `live_fds`: the sockets of the connections that are served. -/
abbrev LiveFds : Type := OrdMap Nat Int

/-- `serve_connection`: how it ends, and `live_fds` afterwards. -/
def serveConnection (routes : Routes) (faults : Faults) (stopping : Nat → Bool)
    (r : LineReader) (connId : Nat) (live : LiveFds) : Option (Except Bytes Unit × LiveFds) :=
  match serveLoop routes faults stopping (r.bytes.length + 1) 0 r {} with
  | none => none
  | some (.ok _, _) => some (.ok (), live.erase connId)
  -- the exception leaves before the lock is taken
  | some (.error what, _) => some (.error what, live)

end DynamoCpp.Llm.Http
