import Muduo.Lib.Format
import Muduo.Net.TcpConnection
import Muduo.Web.ContextParse

/-!
# `web_server`: `Response` and `Server`

`Server::onMessage` on one connection.  `http_callback_` is an arbitrary function of the request and
of the response it is given to fill in.  Of the connection there are the input buffer, the parse
context, `state_`, which gates `send` and `shutdown`, and the messages handed to `sendInLoop` so
far; the idle timer does not touch any of these.

* `Response.appendToBuffer` — the text as the source prints it;
* `onMessage`, `onRequest` — one call of the message callback; `none` if the parser does not return;
* `deliver`, `responses` — a stream cut into chunks, each appended to the input buffer and followed
  by one call of `onMessage`.
-/

namespace Muduo.Web

open Muduo.Lib Muduo.Net

inductive StatusCode where
  | Unknow
  | S200Ok
  | S301MovedPermanently
  | S400BadRequest
  | S404NotFound
  deriving DecidableEq

def StatusCode.toNat : StatusCode → ℕ
  | .Unknow => 0
  | .S200Ok => 200
  | .S301MovedPermanently => 301
  | .S400BadRequest => 400
  | .S404NotFound => 404

/-- `headers_` in the order in which the `unordered_map` is traversed. -/
structure Response where
  headers_ : List (List Byte × List Byte)
  status_code_ : StatusCode
  status_message_ : List Byte
  close_connection_ : Bool
  body_ : List Byte
  deriving DecidableEq

namespace Response

def new (close : Bool) : Response := ⟨[], .Unknow, [], close, []⟩

def statusLine (r : Response) : List Byte :=
  charBytes (snprintf 32 ("HTTP/1.1 ".toList ++ formatNat r.status_code_.toNat)) ++
  r.status_message_ ++
    literal "\r\n"

def connectionLines (r : Response) : List Byte :=
  if r.close_connection_ then literal "Connection: close\r\n"
  else charBytes
    (snprintf 32 ("Content-Lenght: ".toList ++ formatNat r.body_.length ++ "\r\n".toList)) ++
    literal "Connection: Keep-Alive\r\n"

def headerLine (header : List Byte × List Byte) : List Byte :=
  header.1 ++ literal ": " ++ header.2 ++ literal "\r\n"

def text (r : Response) : List Byte :=
  r.statusLine ++ r.connectionLines ++ (r.headers_.map headerLine).flatten ++ literal
    "\r\n" ++ r.body_

def appendToBuffer (r : Response) (output : Buffer) : Buffer :=
  let output₁ := (output.append r.statusLine).append r.connectionLines
  let output₂ := r.headers_.foldl (fun o h => o.append (headerLine h)) output₁
  (output₂.append (literal "\r\n")).append r.body_

theorem readable_appendToBuffer (r : Response) (output : Buffer) :
    (r.appendToBuffer output).readable = output.readable ++ r.text := by
  have hfold : ∀ (hs : List (List Byte × List Byte)) (o : Buffer),
      (hs.foldl (fun o h => o.append (headerLine h)) o).readable =
        o.readable ++ (hs.map headerLine).flatten := by
    intro hs
    induction hs with
    | nil => intro o; simp
    | cons h hs ih =>
        intro o
        rw [List.foldl_cons, ih, Buffer.readable_append, List.map_cons, List.flatten_cons,
          List.append_assoc]
  simp only [appendToBuffer, Buffer.readable_append, hfold, text, List.append_assoc]

end Response

/-- What `http_callback_` does to the response. -/
abbrev HttpCallback := Request → Response → Response

namespace Server

structure Connection where
  inputBuffer_ : Buffer
  context : ContextParse
  state_ : StateE
  /-- The messages passed to `sendInLoop`. -/
  sent : List (List Byte)
  deriving DecidableEq

/-- The connection after `onConnection`. -/
def established : Connection := ⟨.ofSize kInitialSize, .new, .kConnected, []⟩

def send (conn : Connection) (message : List Byte) : Connection :=
  if conn.state_ = .kConnected then { conn with sent := conn.sent ++ [message] } else conn

def shutdown (conn : Connection) : Connection :=
  if conn.state_ = .kConnected then { conn with state_ := .kDisconnecting } else conn

def badRequest : List Byte := literal "HTTP/1.1 400 Bad Request\r\n\r\n"

def isShortLink (req : Request) : Bool :=
  let connection := req.getHeader (literal "Connection")
  connection = literal "close" ∨ (req.version_ = .Http10 ∧ connection ≠ literal "Keep-Alive")

variable (http_callback_ : HttpCallback)

/-- The response to a request. -/
def respond (req : Request) : Response := http_callback_ req (.new (isShortLink req))

def onRequest (conn : Connection) (req : Request) : Connection :=
  let response := respond http_callback_ req
  let buf := response.appendToBuffer (.ofSize kInitialSize)
  let conn₁ := send conn buf.readable
  if response.close_connection_ then shutdown conn₁ else conn₁

def onMessage (conn : Connection) : Option Connection :=
  match conn.context.parseRequest conn.inputBuffer_ with
  | none => none
  | some (ok, ctx, buf) =>
      let conn₁ := { conn with context := ctx, inputBuffer_ := buf }
      let conn₂ := if ok then conn₁ else shutdown (send conn₁ badRequest)
      if ctx.gotAll then
        some { onRequest http_callback_ conn₂ ctx.request_ with context := ctx.reset }
      else some conn₂

/-- A chunk arrives: `handleRead` appends it and calls the message callback. -/
def deliver (conn : Connection) (chunk : List Byte) : Option Connection :=
  onMessage http_callback_ { conn with inputBuffer_ := conn.inputBuffer_.append chunk }

def serve (chunks : List (List Byte)) : Option Connection :=
  chunks.foldlM (deliver http_callback_) established

/-- The responses sent once all chunks have been delivered. -/
def responses (chunks : List (List Byte)) : Option (List (List Byte)) :=
  (serve http_callback_ chunks).map Connection.sent

end Server

end Muduo.Web
