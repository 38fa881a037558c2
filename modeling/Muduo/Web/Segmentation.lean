import Muduo.Lib.Lines
import Muduo.Web.Server

/-!
# HTTP responses and TCP segmentation

What is due to a client depends on the stream alone: `due` reads the stream as lines and answers one
request after the other, up to the first response that closes the connection or the first malformed
request line.  `onMessage` handles at most one request per call, so a chunk that completes two of
them leaves the second one unanswered until the next chunk arrives.

* `consume` — the lines of one request; `parseLoop_spec` — `parseRequest` returns and does just
  that, whatever part of the request earlier calls have seen;
* `deliver_step` — one chunk: the first response that is due, if any, is sent;
* `Served`, `exists_served` — all chunks: what was sent is a prefix of what is due, its length is
  the least of `due so far + calls still to come`;
* `segmentation_iff` — when the responses do not depend on the segmentation.
-/

namespace Muduo.Web

open Muduo.Lib Muduo.Net

namespace Server

/-! ### What is due -/

/-- The request that a request line starts, unless it is malformed. -/
def requestLine (line : List Byte) : Option Request :=
  let (ok, ctx) := ContextParse.new.processRequestLine line
  if ok then some ctx.request_ else none

/-- What one call of the parser can come to. -/
inductive Outcome where
  | waiting (progress : Option Request)
  | malformed
  | complete (req : Request) (rest : List (List Byte))

/-- The lines up to the end of a request; `progress` is the request whose headers are being read. -/
def consume : Option Request → List (List Byte) → Outcome
  | progress, [] => .waiting progress
  | none, line :: rest =>
      match requestLine line with
      | none => .malformed
      | some req => consume (some req) rest
  | some req, line :: rest =>
      if line.idxOf 58 ≠ line.length then consume (some (req.addHeader line (line.idxOf 58))) rest
      else .complete req rest

variable (http_callback_ : HttpCallback)

def dueLines : Option Request → List (List Byte) → List (List Byte)
  | _, [] => []
  | none, line :: rest =>
      match requestLine line with
      | none => [badRequest]
      | some req => dueLines (some req) rest
  | some req, line :: rest =>
      if line.idxOf 58 ≠ line.length then dueLines (some (req.addHeader line (line.idxOf 58))) rest
      else (respond http_callback_ req).text ::
        if (respond http_callback_ req).close_connection_ then [] else dueLines none rest

/-- The responses due for a stream. -/
def due (stream : List Byte) : List (List Byte) :=
  dueLines http_callback_ none (lines Buffer.kCRLF stream)

/-- What is due when lines follow those already consumed. -/
def Outcome.due (later : List (List Byte)) : Outcome → List (List Byte)
  | .waiting progress => dueLines http_callback_ progress later
  | .malformed => [badRequest]
  | .complete req rest => (respond http_callback_ req).text ::
      if (respond http_callback_ req).close_connection_ then []
      else dueLines http_callback_ none (rest ++ later)

variable {http_callback_}

@[simp] theorem consume_nil (p : Option Request) : consume p [] = .waiting p := by
  cases p <;> rfl

@[simp] theorem dueLines_nil (p : Option Request) : dueLines http_callback_ p [] = [] := by
  cases p <;> rfl

/-- The lines of the first request, and what follows it. -/
theorem dueLines_append (p : Option Request) (ls ms : List (List Byte)) :
    dueLines http_callback_ p (ls ++ ms) = (consume p ls).due http_callback_ ms := by
  induction ls generalizing p with
  | nil => rw [consume_nil, List.nil_append, Outcome.due]
  | cons line ls ih =>
      cases p with
      | none =>
          rw [List.cons_append, dueLines, consume]
          cases requestLine line with
          | none => rfl
          | some req => exact ih (some req)
      | some req =>
          rw [List.cons_append, dueLines, consume]
          split
          · exact ih _
          · rfl

/-- A line is answered by at most one response. -/
theorem length_dueLines_append (p : Option Request) (ls ms : List (List Byte)) :
    (dueLines http_callback_ p (ls ++ ms)).length ≤
      (dueLines http_callback_ p ls).length + ms.length := by
  induction ls generalizing p with
  | nil =>
      rw [List.nil_append, dueLines_nil, List.length_nil, Nat.zero_add]
      induction ms generalizing p with
      | nil => cases p <;> exact le_rfl
      | cons line ms ih =>
          cases p with
          | none =>
              rw [dueLines, List.length_cons]
              cases requestLine line with
              | none => exact Nat.succ_le_succ (Nat.zero_le _)
              | some req => exact (ih (some req)).trans (Nat.le_succ _)
          | some req =>
              rw [dueLines, List.length_cons]
              split
              · exact (ih _).trans (Nat.le_succ _)
              · split
                · exact Nat.succ_le_succ (Nat.zero_le _)
                · exact Nat.succ_le_succ (ih none)
  | cons line ls ih =>
      cases p with
      | none =>
          rw [List.cons_append, dueLines, dueLines]
          cases requestLine line with
          | none => exact Nat.le_add_right _ _
          | some req => exact ih (some req)
      | some req =>
          rw [List.cons_append, dueLines, dueLines]
          split
          · exact ih _
          · split
            · exact Nat.le_add_right _ _
            · rw [List.length_cons, List.length_cons, Nat.add_right_comm]
              exact Nat.succ_le_succ (ih none)

theorem kCRLF_ne_nil : Buffer.kCRLF ≠ [] := by decide

variable (http_callback_) in
/-- **A byte makes at most one more response due.** -/
theorem length_due_append (stream more : List Byte) :
    (due http_callback_ (stream ++ more)).length ≤ (due http_callback_ stream).length +
    more.length := by
  induction more using List.reverseRecOn with
  | nil => simp
  | append_singleton more x ih =>
      have hone := length_lines_concat kCRLF_ne_nil
        (search_leftover kCRLF_ne_nil (stream ++ more)) x
      have hstep : (due http_callback_ (stream ++ more ++ [x])).length ≤
          (due http_callback_ (stream ++ more)).length + 1 := by
        rw [due, lines_append kCRLF_ne_nil]
        exact (length_dueLines_append none _ _).trans (Nat.add_le_add_left hone _)
      rw [← List.append_assoc, List.length_append, List.length_singleton]
      omega

/-! ### The parser -/

/-- The context has seen the lines of the request in progress. -/
def Tracks (ctx : ContextParse) : Option Request → Prop
  | none => ctx.state_ = .ExceptRequestLine ∧ ctx.request_ = .new
  | some req => ctx.state_ = .ExceptHeader ∧ ctx.request_ = req

theorem Tracks.state_ne {ctx : ContextParse} {p : Option Request} (h : Tracks ctx p) :
    ctx.state_ ≠ .GotAll := by
  cases p with
  | none => rw [h.1]; simp
  | some req => rw [h.1]; simp

section RequestLine

variable {ctx ctx' : ContextParse}

theorem setTarget_congr (h : ctx.request_ = ctx'.request_) (target : List Byte) :
    (ctx.setTarget target).request_ = (ctx'.setTarget target).request_ := by
  simp only [ContextParse.setTarget, h]
  split <;> rfl

theorem setVersion_congr (h : ctx.request_ = ctx'.request_) (version : List Byte) :
    (ctx.setVersion version).1 = (ctx'.setVersion version).1 ∧
    (ctx.setVersion version).2.request_ = (ctx'.setVersion version).2.request_ := by
  simp only [ContextParse.setVersion, h]
  split
  · split
    · exact ⟨rfl, rfl⟩
    · split
      · exact ⟨rfl, rfl⟩
      · exact ⟨rfl, h⟩
  · exact ⟨rfl, h⟩

/-- How a request line is judged depends on the request only. -/
theorem processRequestLine_congr (h : ctx.request_ = ctx'.request_) (line : List Byte) :
    (ctx.processRequestLine line).1 = (ctx'.processRequestLine line).1 ∧
    (ctx.processRequestLine line).2.request_ = (ctx'.processRequestLine line).2.request_ := by
  simp only [ContextParse.processRequestLine, ContextParse.setMethod, h]
  by_cases h₁ : line.idxOf 32 = line.length
  · rw [if_pos h₁, if_pos h₁]
    exact ⟨rfl, h⟩
  · rw [if_neg h₁, if_neg h₁]
    by_cases h₂ : Request.parseMethod (line.take (line.idxOf 32)) = .Invalid
    · simp [h₂]
    · by_cases h₃ : (line.drop (line.idxOf 32 + 1)).idxOf 32 =
        (line.drop (line.idxOf 32 + 1)).length
      · simp [h₂, h₃]
      · simp only [h₂, h₃, ne_eq, not_false_eq_true, decide_true, Bool.not_true, Bool.false_eq_true,
          if_false]
        refine setVersion_congr (setTarget_congr ?_ _) _
        rfl

theorem setTarget_state (ctx : ContextParse) (target : List Byte) :
    (ctx.setTarget target).state_ = ctx.state_ := by
  simp only [ContextParse.setTarget]
  split <;> rfl

theorem setVersion_state (ctx : ContextParse) (version : List Byte) :
    (ctx.setVersion version).2.state_ = ctx.state_ := by
  simp only [ContextParse.setVersion]
  split
  · split
    · rfl
    · split <;> rfl
  · rfl

theorem processRequestLine_state (ctx : ContextParse) (line : List Byte) :
    (ctx.processRequestLine line).2.state_ = ctx.state_ := by
  simp only [ContextParse.processRequestLine, ContextParse.setMethod]
  by_cases h₁ : line.idxOf 32 = line.length
  · rw [if_pos h₁]
  · rw [if_neg h₁]
    by_cases h₂ : Request.parseMethod (line.take (line.idxOf 32)) = .Invalid
    · simp [h₂]
    · by_cases h₃ : (line.drop (line.idxOf 32 + 1)).idxOf 32 =
        (line.drop (line.idxOf 32 + 1)).length
      · simp [h₂, h₃]
      · simp only [h₂, h₃, ne_eq, not_false_eq_true, decide_true, Bool.not_true, Bool.false_eq_true,
          if_false]
        rw [setVersion_state, setTarget_state]

end RequestLine

/-- What `parseRequest` leaves behind. -/
def Parsed (outcome : Outcome) (text : List Byte) (ok : Bool) (ctx : ContextParse) (buf : Buffer) :
    Prop :=
  match outcome with
  | .waiting p => ok = true ∧ Tracks ctx p ∧ buf.readable = leftover Buffer.kCRLF text
  | .malformed => ok = false ∧ ctx.state_ = .ExceptRequestLine
  | .complete req rest => ok = true ∧ ctx.state_ = .GotAll ∧ ctx.request_ = req ∧
      lines Buffer.kCRLF buf.readable = rest ∧
      leftover Buffer.kCRLF buf.readable = leftover Buffer.kCRLF text

section Loop

variable {ctx : ContextParse} {buf : Buffer}

theorem readable_retrieveLine (buf : Buffer) (crlf : ℕ) :
    (buf.retrieveUntil (crlf + 2)).readable = buf.readable.drop (crlf + Buffer.kCRLF.length) :=
  buf.readable_retrieveUntil (crlf + 2)

theorem parseLoop_wait (n : ℕ) (hstate : ctx.state_ = .ExceptRequestLine ∨
    ctx.state_ = .ExceptHeader)
    (hfind : buf.findCRLF = none) : ctx.parseLoop (n + 1) buf = some (true, ctx, buf) := by
  rcases hstate with hstate | hstate
  · simp only [ContextParse.parseLoop, hstate, hfind]
  · simp only [ContextParse.parseLoop, hstate, hfind]

theorem parseLoop_requestLine (n : ℕ) {crlf : ℕ} (hstate : ctx.state_ = .ExceptRequestLine)
    (hfind : buf.findCRLF = some crlf) : ctx.parseLoop (n + 1) buf =
      if (ctx.processRequestLine (buf.readable.take crlf)).1 then
        ContextParse.parseLoop n { (ctx.processRequestLine (buf.readable.take crlf)).2 with
          state_ := .ExceptHeader } (buf.retrieveUntil (crlf + 2))
      else some (false, (ctx.processRequestLine (buf.readable.take crlf)).2, buf) := by
  simp only [ContextParse.parseLoop, hstate, hfind]

theorem parseLoop_header (n : ℕ) {crlf : ℕ} (hstate : ctx.state_ = .ExceptHeader)
    (hfind : buf.findCRLF = some crlf) : ctx.parseLoop (n + 1) buf =
      if (buf.readable.take crlf).idxOf 58 ≠ (buf.readable.take crlf).length then
        ContextParse.parseLoop n { ctx with
          request_ := ctx.request_.addHeader (buf.readable.take crlf)
            ((buf.readable.take crlf).idxOf 58) } (buf.retrieveUntil (crlf + 2))
      else some (true, { ctx with state_ := .GotAll }, buf.retrieveUntil (crlf + 2)) := by
  simp only [ContextParse.parseLoop, hstate, hfind]

/-- **`parseRequest` reads the lines of one request.**  With more steps than lines it returns; the
lines it has not used stay in the buffer. -/
theorem parseLoop_spec {n : ℕ} {p : Option Request} (hctx : Tracks ctx p)
    (hn : (lines Buffer.kCRLF buf.readable).length < n) :
    ∃ ok ctx' buf', ctx.parseLoop n buf = some (ok, ctx', buf') ∧
      Parsed (consume p (lines Buffer.kCRLF buf.readable)) buf.readable ok ctx' buf' := by
  induction n generalizing ctx buf p with
  | zero => exact absurd hn (Nat.not_lt_zero _)
  | succ n ih =>
      cases hcrlf : search Buffer.kCRLF buf.readable with
      | none =>
          have hstate : ctx.state_ = .ExceptRequestLine ∨ ctx.state_ = .ExceptHeader := by
            cases p with
            | none => exact Or.inl hctx.1
            | some req => exact Or.inr hctx.1
          refine ⟨true, ctx, buf, parseLoop_wait n hstate hcrlf, ?_⟩
          rw [lines_of_none hcrlf, consume_nil]
          exact ⟨rfl, hctx, (leftover_of_none hcrlf).symm⟩
      | some crlf =>
          have hleft := leftover_of_some kCRLF_ne_nil hcrlf
          have hnext : (lines Buffer.kCRLF (buf.retrieveUntil (crlf + 2)).readable).length < n := by
            rw [lines_of_some kCRLF_ne_nil hcrlf, List.length_cons] at hn
            rw [readable_retrieveLine]
            omega
          -- after a line that is not the last one, the rest of the loop is the rest of `consume`
          have hgo : ∀ (ctx₁ : ContextParse) (p₁ : Option Request), Tracks ctx₁ p₁ →
              ∃ ok ctx' buf', ctx₁.parseLoop n (buf.retrieveUntil (crlf + 2)) = some
                (ok, ctx', buf') ∧
                Parsed (consume p₁
                  (lines Buffer.kCRLF (buf.readable.drop (crlf + Buffer.kCRLF.length))))
                  buf.readable ok ctx' buf' := by
            intro ctx₁ p₁ hctx₁
            obtain ⟨ok, ctx', buf', hrun, hparsed⟩ := ih hctx₁ hnext
            refine ⟨ok, ctx', buf', hrun, ?_⟩
            rw [readable_retrieveLine] at hparsed
            unfold Parsed at hparsed ⊢
            rwa [hleft]
          rw [lines_of_some kCRLF_ne_nil hcrlf]
          cases p with
          | none =>
              obtain ⟨hok, hreq⟩ := processRequestLine_congr
                (show ctx.request_ = ContextParse.new.request_ from hctx.2) (buf.readable.take crlf)
              rw [parseLoop_requestLine n hctx.1 hcrlf, hok, consume]
              cases hline : (ContextParse.new.processRequestLine (buf.readable.take crlf)).1 with
              | false =>
                  rw [show requestLine (buf.readable.take crlf) = none by simp [requestLine, hline]]
                  exact ⟨_, _, _, if_neg (by simp), rfl, (processRequestLine_state ..).trans hctx.1⟩
              | true =>
                  rw [show requestLine (buf.readable.take crlf) = some
                    (ContextParse.new.processRequestLine (buf.readable.take crlf)).2.request_ by
                      simp [requestLine, hline], if_pos rfl]
                  exact hgo _ (some _) ⟨rfl, hreq⟩
          | some req =>
              rw [parseLoop_header n hctx.1 hcrlf, consume]
              by_cases hcolon : (buf.readable.take crlf).idxOf 58 ≠ (buf.readable.take crlf).length
              · rw [if_pos hcolon, if_pos hcolon]
                exact hgo _ (some _) ⟨hctx.1, by rw [hctx.2]⟩
              · rw [if_neg hcolon, if_neg hcolon]
                refine ⟨_, _, _, rfl, rfl, rfl, hctx.2, ?_, ?_⟩
                · rw [readable_retrieveLine]
                · rw [readable_retrieveLine, hleft]

theorem lines_lt_steps (buf : Buffer) :
    (lines Buffer.kCRLF buf.readable).length < buf.readableBytes + 1 := by
  rw [buf.readableBytes_eq]
  exact Nat.lt_succ_of_le (length_lines_le _ _)

end Loop

/-! ### One chunk -/

section Deliver

variable {conn : Connection}

theorem send_closed (h : conn.state_ ≠ .kConnected) (message : List Byte) :
    send conn message = conn :=
  if_neg h

theorem shutdown_closed (h : conn.state_ ≠ .kConnected) : shutdown conn = conn := if_neg h

theorem onRequest_closed (h : conn.state_ ≠ .kConnected) (req : Request) :
    onRequest http_callback_ conn req = conn := by
  simp only [onRequest, send_closed h, shutdown_closed h, ite_self]

theorem onRequest_open (h : conn.state_ = .kConnected) (req : Request) :
    onRequest http_callback_ conn req = { conn with
      sent := conn.sent ++ [(respond http_callback_ req).text]
      state_ := if (respond http_callback_ req).close_connection_ then .kDisconnecting
        else .kConnected } := by
  have htext : ((respond http_callback_ req).appendToBuffer (.ofSize kInitialSize)).readable =
      (respond http_callback_ req).text := by
    rw [Response.readable_appendToBuffer, Buffer.readable_ofSize, List.nil_append]
  obtain ⟨buf, ctx, state, sent⟩ := conn
  obtain rfl : state = .kConnected := h
  simp only [onRequest, htext, send, shutdown, if_true]
  split <;> rfl

/-- The parser cannot hang. -/
theorem reset_state (ctx : ContextParse) : ctx.reset.state_ ≠ .GotAll := by
  simp [ContextParse.reset]

variable (http_callback_) in
/-- Nothing is sent on a connection that was shut down. -/
theorem deliver_closed (hclosed : conn.state_ ≠ .kConnected) (hctx : conn.context.state_ ≠ .GotAll)
    (chunk : List Byte) :
    ∃ conn', deliver http_callback_ conn chunk = some conn' ∧ conn'.state_ ≠ .kConnected ∧
      conn'.context.state_ ≠ .GotAll ∧ conn'.sent = conn.sent := by
  obtain ⟨⟨ok, ctx, buf⟩, hparse⟩ :=
    ContextParse.parseRequest_returns hctx (conn.inputBuffer_.append chunk)
  have hclosed₁ :
      ({ conn with context := ctx, inputBuffer_ := buf } : Connection).state_ ≠ .kConnected :=
    hclosed
  have hbad : (if ok = true then ({ conn with context := ctx, inputBuffer_ := buf } : Connection)
      else shutdown (send { conn with context := ctx, inputBuffer_ := buf } badRequest)) =
      { conn with context := ctx, inputBuffer_ := buf } := by
    rw [send_closed hclosed₁, shutdown_closed hclosed₁, ite_self]
  simp only [deliver, onMessage, hparse, hbad, onRequest_closed hclosed₁]
  cases hgot : ctx.gotAll with
  | true => exact ⟨_, if_pos rfl, hclosed, reset_state ctx, rfl⟩
  | false => exact ⟨_, if_neg (by simp), hclosed, by simpa [ContextParse.gotAll] using hgot, rfl⟩

/-- What a chunk does to a connection that is up. -/
def Delivered (http_callback_ : HttpCallback) (outcome : Outcome) (text : List Byte)
    (conn conn' : Connection) : Prop :=
  match outcome with
  | .waiting p => conn'.state_ = .kConnected ∧ Tracks conn'.context p ∧
      conn'.inputBuffer_.readable = leftover Buffer.kCRLF text ∧ conn'.sent = conn.sent
  | .malformed => conn'.state_ ≠ .kConnected ∧ conn'.context.state_ ≠ .GotAll ∧
      conn'.sent = conn.sent ++ [badRequest]
  | .complete req rest => conn'.sent = conn.sent ++ [(respond http_callback_ req).text] ∧
      Tracks conn'.context none ∧
      conn'.state_ = (if (respond http_callback_ req).close_connection_ then .kDisconnecting
        else .kConnected) ∧
      lines Buffer.kCRLF conn'.inputBuffer_.readable = rest ∧
      leftover Buffer.kCRLF conn'.inputBuffer_.readable = leftover Buffer.kCRLF text

variable (http_callback_) in
theorem deliver_open {p : Option Request} (hopen : conn.state_ = .kConnected)
    (hctx : Tracks conn.context p) (chunk : List Byte) :
    ∃ conn', deliver http_callback_ conn chunk = some conn' ∧
      Delivered http_callback_
        (consume p (lines Buffer.kCRLF (conn.inputBuffer_.readable ++ chunk)))
        (conn.inputBuffer_.readable ++ chunk) conn conn' := by
  obtain ⟨ok, ctx, buf, hparse, hparsed⟩ := parseLoop_spec hctx
    (lines_lt_steps (conn.inputBuffer_.append chunk))
  rw [Buffer.readable_append] at hparsed
  have hparse' : conn.context.parseRequest (conn.inputBuffer_.append chunk) = some (ok, ctx, buf) :=
    hparse
  have hopen₁ :
      ({ conn with context := ctx, inputBuffer_ := buf } : Connection).state_ = .kConnected :=
    hopen
  simp only [deliver, onMessage, hparse']
  cases hout : consume p (lines Buffer.kCRLF (conn.inputBuffer_.readable ++ chunk)) with
  | waiting p' =>
      rw [hout] at hparsed
      obtain ⟨rfl, htracks, hbuf⟩ := hparsed
      have hgot : ctx.gotAll = false := by simpa [ContextParse.gotAll] using htracks.state_ne
      refine ⟨{ conn with context := ctx, inputBuffer_ := buf }, ?_, hopen, htracks, hbuf, rfl⟩
      simp [hgot]
  | malformed =>
      rw [hout] at hparsed
      obtain ⟨rfl, hstate⟩ := hparsed
      have hgot : ctx.gotAll = false := by simp [ContextParse.gotAll, hstate]
      refine ⟨{ conn with
        context := ctx, inputBuffer_ := buf, sent := conn.sent ++ [badRequest]
        state_ := .kDisconnecting }, ?_, by simp, by simp [hstate], rfl⟩
      simp [hgot, send, shutdown, hopen]
  | complete req rest =>
      rw [hout] at hparsed
      obtain ⟨rfl, hstate, rfl, hlines, hleft⟩ := hparsed
      have hgot : ctx.gotAll = true := by simp [ContextParse.gotAll, hstate]
      refine ⟨{
        onRequest http_callback_ { conn with context := ctx, inputBuffer_ := buf } ctx.request_ with
        context := ctx.reset }, ?_, ?_⟩
      · simp [hgot]
      · rw [onRequest_open hopen₁]
        exact ⟨rfl, ⟨rfl, rfl⟩, rfl, hlines, hleft⟩

/-- The responses still to come, as a function of the bytes still to come. -/
def Awaits (http_callback_ : HttpCallback) (conn : Connection)
    (future : List Byte → List (List Byte)) : Prop :=
  (conn.state_ = .kConnected ∧ ∃ p, Tracks conn.context p ∧ ∀ more, future more =
    dueLines http_callback_ p (lines Buffer.kCRLF (conn.inputBuffer_.readable ++ more))) ∨
  (conn.state_ ≠ .kConnected ∧ conn.context.state_ ≠ .GotAll ∧ ∀ more, future more = [])

/-- What was sent for an outcome, and what is still to come. -/
theorem Delivered.awaits {outcome : Outcome} {text : List Byte} {conn' : Connection}
    (h : Delivered http_callback_ outcome text conn conn') :
    ∃ new future, Awaits http_callback_ conn' future ∧ conn'.sent = conn.sent ++ new ∧
      new.length ≤ 1 ∧ (new = [] → future [] = []) ∧
      ∀ more, outcome.due http_callback_
        (lines Buffer.kCRLF (leftover Buffer.kCRLF text ++ more)) = new ++ future more := by
  cases outcome with
  | waiting p =>
      obtain ⟨hstate, htracks, hbuf, hsent⟩ := h
      refine ⟨[], fun more => dueLines http_callback_ p (lines Buffer.kCRLF
        (conn'.inputBuffer_.readable ++ more)), Or.inl ⟨hstate, p, htracks, fun _ => rfl⟩,
        by rw [hsent, List.append_nil], Nat.zero_le 1, fun _ => ?_, fun more => ?_⟩
      · dsimp only
        rw [hbuf, List.append_nil, lines_of_none (search_leftover kCRLF_ne_nil text), dueLines_nil]
      · rw [hbuf]
        rfl
  | malformed =>
      obtain ⟨hstate, hgot, hsent⟩ := h
      exact ⟨[badRequest], fun _ => [], Or.inr ⟨hstate, hgot, fun _ => rfl⟩, hsent, le_rfl,
        fun _ => rfl, fun _ => rfl⟩
  | complete req rest =>
      obtain ⟨hsent, htracks, hstate, hlines, hleft⟩ := h
      by_cases hclose : (respond http_callback_ req).close_connection_ = true
      · rw [if_pos hclose] at hstate
        refine ⟨_, fun _ => [], Or.inr ⟨by rw [hstate]; simp, htracks.state_ne, fun _ => rfl⟩,
          hsent, le_rfl, fun _ => rfl, fun more => ?_⟩
        rw [Outcome.due, if_pos hclose]
        rfl
      · rw [if_neg hclose] at hstate
        refine ⟨_, fun more => dueLines http_callback_ none (lines Buffer.kCRLF
          (conn'.inputBuffer_.readable ++ more)), Or.inl ⟨hstate, none, htracks, fun _ => rfl⟩,
          hsent, le_rfl, by simp, fun more => ?_⟩
        dsimp only
        rw [Outcome.due, if_neg hclose, lines_append kCRLF_ne_nil conn'.inputBuffer_.readable,
          hlines, hleft]
        rfl

/-- **One chunk sends the first response that is due**, and no more than that. -/
theorem deliver_step {future : List Byte → List (List Byte)} (h : Awaits http_callback_ conn future)
    (chunk : List Byte) :
    ∃ conn' future', deliver http_callback_ conn chunk = some conn' ∧
      Awaits http_callback_ conn' future' ∧ conn'.sent = conn.sent ++ (future chunk).take 1 ∧
      ∀ more, future (chunk ++ more) = (future chunk).take 1 ++ future' more := by
  rcases h with ⟨hopen, p, hctx, hfuture⟩ | ⟨hclosed, hctx, hfuture⟩
  · obtain ⟨conn', hdeliver, hdone⟩ := deliver_open http_callback_ hopen hctx chunk
    obtain ⟨new, future', hawaits, hsent, hone, hnone, hdue⟩ := hdone.awaits
    -- the lines of the stream so far, and those that later bytes complete
    have hsplit : ∀ more, future (chunk ++ more) = new ++ future' more := by
      intro more
      rw [hfuture, ← List.append_assoc, lines_append kCRLF_ne_nil, dueLines_append, hdue]
    have hnow : (future chunk).take 1 = new := by
      rw [← List.append_nil chunk, hsplit]
      match new, hone with
      | [], _ => rw [hnone rfl]; rfl
      | [r], _ => rfl
    exact ⟨conn', future', hdeliver, hawaits, hnow ▸ hsent, hnow ▸ hsplit⟩
  · obtain ⟨conn', hdeliver, hstate, hgot, hsent⟩ :=
      deliver_closed http_callback_ hclosed hctx chunk
    refine ⟨conn', fun _ => [], hdeliver, Or.inr ⟨hstate, hgot, fun _ => rfl⟩, ?_, fun more => ?_⟩
    · rw [hfuture, hsent, List.take_nil, List.append_nil]
    · rw [hfuture, hfuture]
      rfl

end Deliver

/-! ### All chunks -/

/-- What has been sent after some chunks.  Each call sends at most one response, so the number of
responses is bounded by what was due after any of the chunks and the calls made since then. -/
structure Served (http_callback_ : HttpCallback) (chunks : List (List Byte)) (conn : Connection)
    (future : List Byte → List (List Byte)) : Prop where
  serve : serve http_callback_ chunks = some conn
  awaits : Awaits http_callback_ conn future
  due_eq : ∀ more, due http_callback_ (chunks.flatten ++ more) = conn.sent ++ future more
  bound : ∀ j ≤ chunks.length, conn.sent.length ≤
    (due http_callback_ (chunks.take j).flatten).length + (chunks.length - j)
  attained : ∃ j ≤ chunks.length, conn.sent.length =
    (due http_callback_ (chunks.take j).flatten).length + (chunks.length - j)

theorem served_nil : Served http_callback_ [] established
    fun more => dueLines http_callback_ none (lines Buffer.kCRLF more) where
  serve := rfl
  awaits := by
    refine Or.inl ⟨rfl, none, ⟨rfl, rfl⟩, fun more => ?_⟩
    rw [established, Buffer.readable_ofSize, List.nil_append]
  due_eq more := rfl
  bound j _ := Nat.zero_le _
  attained := ⟨0, le_rfl, rfl⟩

/-- One more chunk. -/
theorem Served.concat {chunks : List (List Byte)} {conn : Connection}
    {future : List Byte → List (List Byte)} (h : Served http_callback_ chunks conn future)
    (chunk : List Byte) :
    ∃ conn' future', Served http_callback_ (chunks ++ [chunk]) conn' future' := by
  obtain ⟨conn', future', hdeliver, hawaits, hsent, hfuture⟩ := deliver_step h.awaits chunk
  have hflat : (chunks ++ [chunk]).flatten = chunks.flatten ++ chunk := by simp
  have hnow : due http_callback_ (chunks.flatten ++ chunk) = conn.sent ++ future chunk :=
    h.due_eq chunk
  have hlen : (chunks ++ [chunk]).length = chunks.length + 1 := List.length_append
  -- the new count is `min (old count + 1) (due now)`
  have hcount : conn'.sent.length = min (conn.sent.length + 1)
      (due http_callback_ (chunks.flatten ++ chunk)).length := by
    rw [hsent, hnow, List.length_append, List.length_append, List.length_take]
    omega
  have htake : ∀ j ≤ chunks.length, (chunks ++ [chunk]).take j = chunks.take j := fun j hj =>
    List.take_append_of_le_length hj
  have hall : ((chunks ++ [chunk]).take (chunks.length + 1)).flatten = chunks.flatten ++ chunk := by
    rw [List.take_of_length_le hlen.le, hflat]
  refine ⟨conn', future', ?_, hawaits, ?_, ?_, ?_⟩
  · rw [Server.serve, List.foldlM_append]
    show (Server.serve http_callback_ chunks).bind _ = _
    rw [h.serve]
    show (deliver http_callback_ conn chunk).bind some = _
    rw [hdeliver]
    rfl
  · intro more
    rw [hflat, List.append_assoc, h.due_eq, hfuture, hsent, List.append_assoc]
  · intro j hj
    rw [hlen] at hj ⊢
    rcases Nat.lt_or_ge j (chunks.length + 1) with hlt | hge
    · have hold := h.bound j (Nat.lt_succ_iff.mp hlt)
      rw [htake j (Nat.lt_succ_iff.mp hlt)]
      omega
    · obtain rfl : j = chunks.length + 1 := le_antisymm hj hge
      rw [hall]
      omega
  · rcases Nat.le_total (conn.sent.length + 1)
      (due http_callback_ (chunks.flatten ++ chunk)).length with hle | hle
    · obtain ⟨j, hj, hold⟩ := h.attained
      refine ⟨j, by omega, ?_⟩
      rw [htake j hj, hlen]
      omega
    · refine ⟨chunks.length + 1, hlen.ge, ?_⟩
      rw [hall, hlen]
      omega

/-- **Every segmentation is served**: the parser returns each time. -/
theorem exists_served (http_callback_ : HttpCallback) (chunks : List (List Byte)) :
    ∃ conn future, Served http_callback_ chunks conn future := by
  induction chunks using List.reverseRecOn with
  | nil => exact ⟨_, _, served_nil⟩
  | append_singleton chunks chunk ih =>
      obtain ⟨conn, future, h⟩ := ih
      exact h.concat chunk

/-- **When a segmentation gets all its responses.** -/
theorem responses_eq_due_iff (http_callback_ : HttpCallback) (chunks : List (List Byte)) :
    responses http_callback_ chunks = some (due http_callback_ chunks.flatten) ↔
      ∀ j ≤ chunks.length, (due http_callback_ chunks.flatten).length ≤
        (due http_callback_ (chunks.take j).flatten).length + (chunks.length - j) := by
  obtain ⟨conn, future, h⟩ := exists_served http_callback_ chunks
  have hdue : due http_callback_ chunks.flatten = conn.sent ++ future [] := by
    rw [← h.due_eq, List.append_nil]
  rw [responses, h.serve, Option.map_some, Option.some.injEq]
  constructor
  · intro heq j hj
    rw [← heq]
    exact h.bound j hj
  · intro hall
    obtain ⟨j, hj, hcount⟩ := h.attained
    have hle := hall j hj
    rw [← hcount, hdue, List.length_append] at hle
    have hnil : future [] = [] := List.length_eq_zero_iff.mp (by omega)
    rw [hdue, hnil, List.append_nil]

/-- A stream cut into consecutive non-empty chunks. -/
def IsCut (stream : List Byte) (chunks : List (List Byte)) : Prop :=
  chunks.flatten = stream ∧ ∀ chunk ∈ chunks, chunk ≠ []

/-- Byte by byte, every request is answered. -/
theorem responses_bytes (http_callback_ : HttpCallback) (stream : List Byte) :
    responses http_callback_ (stream.map fun b => [b]) = some (due http_callback_ stream) := by
  have hflat : ∀ l : List Byte, (l.map fun b => [b]).flatten = l := by
    intro l
    induction l with
    | nil => rfl
    | cons b l ih => rw [List.map_cons, List.flatten_cons, ih, List.singleton_append]
  have hall := (responses_eq_due_iff http_callback_ (stream.map fun b => [b])).mpr
  rw [hflat] at hall
  refine hall fun j hj => ?_
  rw [← List.map_take, hflat, List.length_map]
  have hgrow := length_due_append http_callback_ (stream.take j) (stream.drop j)
  rwa [List.take_append_drop, List.length_drop] at hgrow

/-- A stream delivered in one chunk gets at most one response. -/
theorem responses_whole (http_callback_ : HttpCallback) (stream : List Byte) :
    ∃ sent, responses http_callback_ [stream] = some sent ∧ sent.length ≤ 1 := by
  obtain ⟨conn, future, h⟩ := exists_served http_callback_ [stream]
  refine ⟨conn.sent, by rw [responses, h.serve]; rfl, ?_⟩
  exact (h.bound 0 (Nat.zero_le _)).trans (by simp [due, lines, splitLines])

/-- **Responses and segmentation.**  For every callback and every stream: the responses are the
same for all cuts if and only if at most one response is due; and a given cut gets every response
that is due if and only if, from each of its points on, no more responses become due than there
are chunks to come. -/
theorem segmentation_iff (http_callback_ : HttpCallback) (stream : List Byte) :
    ((∀ cs cs', IsCut stream cs → IsCut stream cs' →
        responses http_callback_ cs = responses http_callback_ cs') ↔
      (due http_callback_ stream).length ≤ 1) ∧
    ∀ cs, IsCut stream cs → (responses http_callback_ cs = some (due http_callback_ stream) ↔
      ∀ j ≤ cs.length, (due http_callback_ stream).length ≤
        (due http_callback_ (cs.take j).flatten).length + (cs.length - j)) := by
  have hcut :
      ∀ cs, IsCut stream cs → (responses http_callback_ cs = some (due http_callback_ stream) ↔
        ∀ j ≤ cs.length, (due http_callback_ stream).length ≤
          (due http_callback_ (cs.take j).flatten).length + (cs.length - j)) := by
    rintro cs ⟨rfl, -⟩
    exact responses_eq_due_iff http_callback_ cs
  refine ⟨⟨fun hsame => ?_, fun hone => ?_⟩, hcut⟩
  · cases stream with
    | nil => simp [due, lines, splitLines]
    | cons b stream =>
        -- compare the stream in one piece with the stream byte by byte
        obtain ⟨sent, hwhole, hle⟩ := responses_whole http_callback_ (b :: stream)
        have heq := hsame [b :: stream] ((b :: stream).map fun b => [b]) ⟨by simp, by simp⟩
          ⟨by simp [← List.flatMap_def], by simp⟩
        rw [hwhole, responses_bytes, Option.some.injEq] at heq
        rwa [← heq]
  · have hdue :
        ∀ cs, IsCut stream cs → responses http_callback_ cs = some (due http_callback_ stream) := by
      intro cs hcs
      refine (hcut cs hcs).mpr fun j hj => ?_
      rcases Nat.lt_or_ge j cs.length with hlt | hge
      · omega
      · rw [List.take_of_length_le hge, hcs.1]
        exact Nat.le_add_right _ _
    intro cs cs' hcs hcs'
    rw [hdue cs hcs, hdue cs' hcs']

/-- A request for `/`. -/
def getRoot : List Byte := literal "GET / HTTP/1.1\r\n\r\n"

/-- Two requests in one chunk get one response, in two chunks two. -/
theorem pipelined_unanswered :
    responses (fun _ r => { r with status_code_ := .S200Ok }) [getRoot ++ getRoot] =
      some [literal "HTTP/1.1 200\r\nContent-Lenght: 0\r\nConnection: Keep-Alive\r\n\r\n"] ∧
    responses (fun _ r => { r with status_code_ := .S200Ok }) [getRoot, getRoot] =
      some [literal "HTTP/1.1 200\r\nContent-Lenght: 0\r\nConnection: Keep-Alive\r\n\r\n",
        literal "HTTP/1.1 200\r\nContent-Lenght: 0\r\nConnection: Keep-Alive\r\n\r\n"] := by
  decide +kernel

end Server

end Muduo.Web
