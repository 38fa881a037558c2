import Muduo.Lib.Format
import Muduo.Net.Buffer

/-!
# `web_server`: `Request` and `ContextParse`

The incremental parser of a connection.  `parseRequest` takes lines out of the input buffer until a
request is complete, a request line is malformed, or no complete line is left; what it has learned
stays in the context for the next call.

* a line is given to the member functions as the bytes between their two pointers;
* a malformed request line is not taken out of the buffer, and the fields it had set stay
  set, so that the `assert` of `setMethod` can fail later: this is recorded in `failed`
  and execution goes on;
* the loop of `parseRequest` has a step bound; running into it is `none`.  `turn` is the body of the
  loop, `parseRequest_returns` says that the bound is enough from every state but `GotAll`.

`headers_` lists the fields in the order of their first assignment, which is all that an
`unordered_map`, filled from empty, depends on.  `receive_time_` is written and never read.
-/

namespace Muduo.Web

open Muduo.Lib Muduo.Net

inductive Method where
  | Invalid
  | Get
  | Post
  | Head
  | Put
  | Delete
  deriving DecidableEq

inductive Version where
  | Unknow
  | Http10
  | Http11
  deriving DecidableEq

structure Request where
  method_ : Method
  version_ : Version
  path_ : List Byte
  query_ : List Byte
  headers_ : List (List Byte × List Byte)
  deriving DecidableEq

/-- `isspace` in the C locale. -/
def isspace (b : Byte) : Bool := b = 32 ∨ (9 ≤ b ∧ b ≤ 13)

namespace Request

def new : Request := ⟨.Invalid, .Unknow, [], [], []⟩

/-- The new value of `method_`; the result of `setMethod` is whether it is valid. -/
def parseMethod (method : List Byte) : Method :=
  if method = literal "GET" then .Get
  else if method = literal "POST" then .Post
  else if method = literal "HEAD" then .Head
  else if method = literal "PUT" then .Put
  else if method = literal "DELETE" then .Delete
  else .Invalid

def methodString : Method → List Byte
  | .Get => literal "GET"
  | .Post => literal "POST"
  | .Head => literal "HEAD"
  | .Put => literal "PUT"
  | .Delete => literal "DELETE"
  | .Invalid => literal "UNKNOW"

/-- `headers_[field] = value`. -/
def assign : List (List Byte × List Byte) → List Byte → List Byte → List (List Byte × List Byte)
  | [], field, value => [(field, value)]
  | (f, v) :: rest, field, value =>
      if f = field then (field, value) :: rest else (f, v) :: assign rest field value

/-- `addHeader(start, colon, end)`, with `colon` given by its offset in the line. -/
def addHeader (r : Request) (line : List Byte) (colon : ℕ) : Request :=
  let value := ((line.drop (colon + 1)).dropWhile isspace).rdropWhile isspace
  { r with headers_ := assign r.headers_ (line.take colon) value }

def getHeader (r : Request) (field : List Byte) : List Byte := (r.headers_.lookup field).getD []

end Request

inductive ContextParseState where
  | ExceptRequestLine
  | ExceptHeader
  | ExceptBody
  | GotAll
  deriving DecidableEq

structure ContextParse where
  state_ : ContextParseState
  request_ : Request
  /-- The `assert` of `setMethod` has failed. -/
  failed : Bool
  deriving DecidableEq

namespace ContextParse

def new : ContextParse := ⟨.ExceptRequestLine, .new, false⟩

def gotAll (ctx : ContextParse) : Bool := ctx.state_ = .GotAll

def reset (ctx : ContextParse) : ContextParse :=
  { ctx with state_ := .ExceptRequestLine, request_ := .new }

/-- `request_.setMethod`. -/
def setMethod (ctx : ContextParse) (method : List Byte) : Bool × ContextParse :=
  let m := Request.parseMethod method
  (m ≠ .Invalid, { ctx with
    request_ := { ctx.request_ with method_ := m }
    failed := ctx.failed || ctx.request_.method_ ≠ .Invalid })

/-- `setPath` and `setQuery`; the query keeps its question mark. -/
def setTarget (ctx : ContextParse) (target : List Byte) : ContextParse :=
  let question := target.idxOf 63
  if question ≠ target.length then
    { ctx with
      request_ :=
        { ctx.request_ with path_ := target.take question, query_ := target.drop question } }
  else { ctx with request_ := { ctx.request_ with path_ := target } }

/-- The last part of the request line. -/
def setVersion (ctx : ContextParse) (version : List Byte) : Bool × ContextParse :=
  if version.length = 8 ∧ version.take 7 = literal "HTTP/1." then
    if version[7]? = some 49 then
      (true, { ctx with request_ := { ctx.request_ with version_ := .Http11 } })
    else if version[7]? = some 48 then
      (true, { ctx with request_ := { ctx.request_ with version_ := .Http10 } })
    else (false, ctx)
  else (false, ctx)

def processRequestLine (ctx : ContextParse) (line : List Byte) : Bool × ContextParse :=
  let space := line.idxOf 32
  if space = line.length then (false, ctx)
  else
    let (valid, ctx₁) := ctx.setMethod (line.take space)
    if !valid then (false, ctx₁)
    else
      let rest := line.drop (space + 1)
      let space₂ := rest.idxOf 32
      if space₂ = rest.length then (false, ctx₁)
      else (ctx₁.setTarget (rest.take space₂)).setVersion (rest.drop (space₂ + 1))

/-- The loop of `parseRequest`: the result, the context and the buffer, or `none` out of steps. -/
def parseLoop : ℕ → ContextParse → Buffer → Option (Bool × ContextParse × Buffer)
  | 0, _, _ => none
  | n + 1, ctx, buf =>
      match ctx.state_ with
      | .ExceptRequestLine =>
          match buf.findCRLF with
          | some crlf =>
              let (ok, ctx₁) := ctx.processRequestLine (buf.readable.take crlf)
              if ok then parseLoop n { ctx₁ with state_ := .ExceptHeader }
                (buf.retrieveUntil (crlf + 2))
              else some (false, ctx₁, buf)
          | none => some (true, ctx, buf)
      | .ExceptHeader =>
          match buf.findCRLF with
          | some crlf =>
              let line := buf.readable.take crlf
              let colon := line.idxOf 58
              if colon ≠ line.length then
                parseLoop n { ctx with request_ := ctx.request_.addHeader line colon }
                  (buf.retrieveUntil (crlf + 2))
              else some (true, { ctx with state_ := .GotAll }, buf.retrieveUntil (crlf + 2))
          | none => some (true, ctx, buf)
      | .ExceptBody => some (true, { ctx with state_ := .GotAll }, buf)
      | .GotAll => parseLoop n ctx buf

/-- Every turn of the loop but the last one takes a line out of the buffer. -/
def parseRequest (ctx : ContextParse) (buf : Buffer) : Option (Bool × ContextParse × Buffer) :=
  parseLoop (buf.readableBytes + 1) ctx buf

/-! ### The loop by its turns -/

/-- One turn of the loop: `has_more` stays set, or the function returns. -/
inductive Turn where
  | again (ctx : ContextParse) (buf : Buffer)
  | done (ok : Bool) (ctx : ContextParse) (buf : Buffer)

/-- The body of the loop of `parseRequest`. -/
def turn (ctx : ContextParse) (buf : Buffer) : Turn :=
  match ctx.state_ with
  | .ExceptRequestLine =>
      match buf.findCRLF with
      | some crlf =>
          let (ok, ctx₁) := ctx.processRequestLine (buf.readable.take crlf)
          if ok then .again { ctx₁ with state_ := .ExceptHeader } (buf.retrieveUntil (crlf + 2))
          else .done false ctx₁ buf
      | none => .done true ctx buf
  | .ExceptHeader =>
      match buf.findCRLF with
      | some crlf =>
          let line := buf.readable.take crlf
          let colon := line.idxOf 58
          if colon ≠ line.length then
            .again { ctx with request_ := ctx.request_.addHeader line colon }
              (buf.retrieveUntil (crlf + 2))
          else .done true { ctx with state_ := .GotAll } (buf.retrieveUntil (crlf + 2))
      | none => .done true ctx buf
  | .ExceptBody => .done true { ctx with state_ := .GotAll } buf
  | .GotAll => .again ctx buf

section Turn

variable {ctx ctx₁ : ContextParse} {buf buf₁ : Buffer}

/-- The loop is its body, repeated. -/
theorem parseLoop_succ (n : ℕ) (ctx : ContextParse) (buf : Buffer) :
    ctx.parseLoop (n + 1) buf =
      match ctx.turn buf with
      | .again ctx₁ buf₁ => ctx₁.parseLoop n buf₁
      | .done ok ctx₁ buf₁ => some (ok, ctx₁, buf₁) := by
  cases hstate : ctx.state_ with
  | GotAll => simp only [parseLoop, turn, hstate]
  | ExceptBody => simp only [parseLoop, turn, hstate]
  | ExceptRequestLine =>
      cases hfind : buf.findCRLF with
      | none => simp only [parseLoop, turn, hstate, hfind]
      | some crlf =>
          simp only [parseLoop, turn, hstate, hfind]
          cases (ctx.processRequestLine (buf.readable.take crlf)).1 <;> rfl
  | ExceptHeader =>
      cases hfind : buf.findCRLF with
      | none => simp only [parseLoop, turn, hstate, hfind]
      | some crlf =>
          simp only [parseLoop, turn, hstate, hfind]
          by_cases hcolon : (buf.readable.take crlf).idxOf 58 = (buf.readable.take crlf).length
          · rw [if_neg (not_not.mpr hcolon), if_neg (not_not.mpr hcolon)]
          · rw [if_pos hcolon, if_pos hcolon]

/-- What a turn that goes on has done: it took a line, and stands in the headers afterwards. -/
theorem turn_again (hstate : ctx.state_ ≠ .GotAll) (h : ctx.turn buf = .again ctx₁ buf₁) :
    ∃ crlf, buf.findCRLF = some crlf ∧ buf₁ = buf.retrieveUntil (crlf + 2) ∧
      ctx₁.state_ = .ExceptHeader ∧
      ((ctx.state_ = .ExceptRequestLine ∧ (ctx.processRequestLine (buf.readable.take crlf)).1 =
        true ∧
          ctx₁ = { (ctx.processRequestLine (buf.readable.take crlf)).2 with
            state_ := .ExceptHeader }) ∨
        (ctx.state_ = .ExceptHeader ∧
          (buf.readable.take crlf).idxOf 58 ≠ (buf.readable.take crlf).length ∧
          ctx₁ = { ctx with
            request_ := ctx.request_.addHeader (buf.readable.take crlf)
              ((buf.readable.take crlf).idxOf 58) })) := by
  cases hs : ctx.state_ with
  | GotAll => exact absurd hs hstate
  | ExceptBody => simp [turn, hs] at h
  | ExceptRequestLine =>
      cases hfind : buf.findCRLF with
      | none => simp [turn, hs, hfind] at h
      | some crlf =>
          simp only [turn, hs, hfind] at h
          split at h
          · rename_i hok
            cases h
            exact ⟨crlf, rfl, rfl, rfl, Or.inl ⟨rfl, hok, rfl⟩⟩
          · cases h
  | ExceptHeader =>
      cases hfind : buf.findCRLF with
      | none => simp [turn, hs, hfind] at h
      | some crlf =>
          simp only [turn, hs, hfind] at h
          split at h
          · rename_i hcolon
            cases h
            exact ⟨crlf, rfl, rfl, rfl, Or.inr ⟨rfl, hcolon, rfl⟩⟩
          · cases h

/-- **A turn that goes on removes at least two bytes.** -/
theorem turn_shrinks (hstate : ctx.state_ ≠ .GotAll) (h : ctx.turn buf = .again ctx₁ buf₁) :
    ctx₁.state_ ≠ .GotAll ∧ buf₁.readableBytes + 2 ≤ buf.readableBytes := by
  obtain ⟨crlf, hfind, rfl, hnext, -⟩ := turn_again hstate h
  have hbound : crlf + 2 ≤ buf.readable.length := search_bound hfind
  rw [Buffer.readableBytes_eq, Buffer.readableBytes_eq, Buffer.readable_retrieveUntil,
    List.length_drop]
  exact ⟨by simp [hnext], by omega⟩

/-- **A call returns**: from any other state half as many steps as there are bytes are enough. -/
theorem parseLoop_terminates {n : ℕ} (hstate : ctx.state_ ≠ .GotAll)
    (hn : buf.readableBytes < 2 * n) :
    ∃ r, ctx.parseLoop n buf = some r := by
  induction n generalizing ctx buf with
  | zero => omega
  | succ n ih =>
      rw [parseLoop_succ]
      cases hturn : ctx.turn buf with
      | done ok ctx₁ buf₁ => exact ⟨_, rfl⟩
      | again ctx₁ buf₁ =>
          obtain ⟨hnext, hless⟩ := turn_shrinks hstate hturn
          exact ih hnext (by omega)

theorem parseRequest_returns (hstate : ctx.state_ ≠ .GotAll) (buf : Buffer) :
    ∃ r, ctx.parseRequest buf = some r :=
  parseLoop_terminates hstate (by omega)

end Turn

end ContextParse

end Muduo.Web
