import Muduo.Net.HttpContext

namespace Muduo.Net.Http
open Muduo.Lib

inductive HttpStatusCode
  | kUnknown
  | k200Ok
  | k301MovedPermanently
  | k400BadRequest
  | k404NotFound
  deriving DecidableEq, Repr

def HttpStatusCode.code : HttpStatusCode → Nat
  | .kUnknown => 0
  | .k200Ok => 200
  | .k301MovedPermanently => 301
  | .k400BadRequest => 400
  | .k404NotFound => 404

/-- The order of `std::string`. -/
def before : Bytes → Bytes → Bool
  | _, [] => false
  | [], _ :: _ => true
  | a :: as, b :: bs => a < b || (a = b && before as bs)

/-- `headers_[key] = value` on a map kept in order. -/
def setHeader (key value : Bytes) : List (Bytes × Bytes) → List (Bytes × Bytes)
  | [] => [(key, value)]
  | (k, v) :: rest =>
    if before key k then (key, value) :: (k, v) :: rest
    else if key = k then (key, value) :: rest
    else (k, v) :: setHeader key value rest

structure HttpResponse where
  headers : List (Bytes × Bytes)
  statusCode : HttpStatusCode
  statusMessage : Bytes
  closeConnection : Bool
  body : Bytes
  deriving DecidableEq, Repr

namespace HttpResponse

def new (close : Bool) : HttpResponse := ⟨[], .kUnknown, [], close, []⟩

variable (r : HttpResponse)

def addHeader (key value : Bytes) : HttpResponse := { r with headers := setHeader key value r.headers }

/-- The strings that `appendToBuffer` appends. -/
def texts : List Bytes := r.statusMessage :: r.body :: r.headers.flatMap fun h => [h.1, h.2]

/-- The bytes of `appendToBuffer`, each string being one that a `StringPiece` holds whole. -/
def bytes : Bytes :=
  ascii "HTTP/1.1 " ++ decimal r.statusCode.code ++ ascii " " ++ r.statusMessage ++ ascii "\r\n" ++
    (if r.closeConnection then ascii "Connection: close\r\n"
      else ascii "Content-Length: " ++ decimal r.body.length ++ ascii "\r\n" ++
        ascii "Connection: Keep-Alive\r\n") ++
    (r.headers.flatMap fun h => h.1 ++ ascii ": " ++ h.2 ++ ascii "\r\n") ++
    ascii "\r\n" ++ r.body

end HttpResponse

/-- `httpCallback_`, which may look at the requests it was called with before. -/
abbrev HttpCallback := List HttpRequest → HttpRequest → HttpResponse → HttpResponse

/-- `defaultHttpCallback`. -/
def defaultHttpCallback : HttpCallback := fun _ _ resp =>
  { resp with
    statusCode := .k404NotFound, statusMessage := ascii "Not Found", closeConnection := true }

/-- A connection of the server: its context and input buffer, and the history of the calls of
`httpCallback_` and of what was sent. -/
structure HttpServer where
  context : HttpContext
  inputBuffer : Bytes
  requests : List HttpRequest
  sent : List Bytes
  shutdown : Bool

namespace HttpServer

variable (httpCallback : HttpCallback) (s : HttpServer)

/-- After `onConnection`. -/
def new : HttpServer := ⟨.new, [], [], [], false⟩

/-- The response that `onRequest` sends. -/
def respond (past : List HttpRequest) (req : HttpRequest) : HttpResponse :=
  let connection := req.getHeader (ascii "Connection")
  let close := connection = ascii "close" ∨
    (req.version = .kHttp10 ∧ connection ≠ ascii "Keep-Alive")
  httpCallback past req (.new close)

def onRequest (req : HttpRequest) : HttpServer :=
  let response := respond httpCallback s.requests req
  { s with
    requests := s.requests ++ [req]
    sent := s.sent ++ [response.bytes]
    shutdown := s.shutdown || response.closeConnection }

def badRequest : Bytes := ascii "HTTP/1.1 400 Bad Request\r\n\r\n"

def onMessage (buf : Bytes) (receiveTime : Int) : Except ParseFault HttpServer := do
  let (ok, context, buf) ← s.context.parseRequest buf receiveTime
  let s := { s with context := context, inputBuffer := buf }
  let s := if ok then s else { s with sent := s.sent ++ [badRequest], shutdown := true }
  if s.context.gotAll then
    .ok { s.onRequest httpCallback s.context.request with context := .new }
  else .ok s

/-- A chunk is read into the input buffer. -/
def receive (chunk : Bytes × Int) : Except ParseFault HttpServer :=
  s.onMessage httpCallback (s.inputBuffer ++ chunk.1) chunk.2

def run (chunks : List (Bytes × Int)) : Except ParseFault HttpServer :=
  chunks.foldlM (receive httpCallback) s

end HttpServer

end Muduo.Net.Http
