import Muduo.Web.Segmentation

/-!
# The parser from call to call

A turn of the loop of `parseRequest` that goes on has taken a line out of the buffer, so
that the loop ends; a turn that waits has changed nothing, so that it can be repeated
when more bytes are there.

* `turn_append`, `turn_wait` — what a turn does on a longer text;
* `parseLoop_append` — a call that waits is the beginning of a longer call;
* `serve_terminates` — no call is entered in `GotAll`, so every call returns;
* `Spoiled` — a malformed line with a valid method stays in the buffer and its method in the
  request; `assert_iff` — this is the only way to the `assert` of `setMethod`.
-/

namespace Muduo.Web

open Muduo.Lib Muduo.Net

namespace ContextParse

/-- The context and the buffer at the start of turn `k` of a call, if the call gets there. -/
def atTurn : ℕ → ContextParse → Buffer → Option (ContextParse × Buffer)
  | 0, ctx, buf => some (ctx, buf)
  | k + 1, ctx, buf =>
      match ctx.turn buf with
      | .again ctx₁ buf₁ => atTurn k ctx₁ buf₁
      | .done _ _ _ => none

/-! ### One turn -/

section Turn

variable {ctx ctx₁ : ContextParse} {buf buf₁ : Buffer}

/-- A turn that ends in a waiting state has changed nothing. -/
theorem turn_wait (h : ctx.turn buf = .done true ctx₁ buf₁) (hwait : ctx₁.state_ ≠ .GotAll) :
    ctx₁ = ctx ∧ buf₁ = buf := by
  cases hs : ctx.state_ with
  | GotAll => simp [turn, hs] at h
  | ExceptBody =>
      simp only [turn, hs, Turn.done.injEq] at h
      rw [← h.2.1] at hwait
      exact absurd rfl hwait
  | ExceptRequestLine =>
      cases hfind : buf.findCRLF with
      | none =>
          simp only [turn, hs, hfind, Turn.done.injEq] at h
          exact ⟨h.2.1.symm, h.2.2.symm⟩
      | some crlf =>
          simp only [turn, hs, hfind] at h
          split at h <;> simp at h
  | ExceptHeader =>
      cases hfind : buf.findCRLF with
      | none =>
          simp only [turn, hs, hfind, Turn.done.injEq] at h
          exact ⟨h.2.1.symm, h.2.2.symm⟩
      | some crlf =>
          simp only [turn, hs, hfind] at h
          split at h
          · cases h
          · rw [Turn.done.injEq] at h
            rw [← h.2.1] at hwait
            exact absurd rfl hwait

/-- A line that is found is found in a longer text. -/
theorem turn_append {whole : Buffer} {more : List Byte} (hstate : ctx.state_ ≠ .GotAll)
    (hwhole : whole.readable = buf.readable ++ more) (h : ctx.turn buf = .again ctx₁ buf₁) :
    ∃ whole₁, ctx.turn whole = .again ctx₁ whole₁ ∧ whole₁.readable = buf₁.readable ++ more := by
  obtain ⟨crlf, hfind, rfl, -, hcase⟩ := turn_again hstate h
  have hfind' : whole.findCRLF = some crlf := by
    rw [Buffer.findCRLF, hwhole]
    exact search_append hfind more
  have htake : whole.readable.take crlf = buf.readable.take crlf := by
    rw [hwhole]
    exact take_append_of_search hfind more
  refine ⟨whole.retrieveUntil (crlf + 2), ?_, ?_⟩
  · rcases hcase with ⟨hs, hok, rfl⟩ | ⟨hs, hcolon, rfl⟩
    · simp only [turn, hs, hfind', htake, hok, if_true]
    · simp only [turn, hs, hfind', htake]
      rw [if_pos hcolon]
  · rw [Buffer.readable_retrieveUntil, Buffer.readable_retrieveUntil, hwhole]
    exact drop_append_of_search hfind more

end Turn

/-! ### One call -/

section Call

variable {ctx ctx₁ : ContextParse} {buf buf₁ : Buffer}

/-- What a call shows to its caller: the storage behind the readable bytes is not part of it. -/
def observe (r : Bool × ContextParse × Buffer) : Bool × ContextParse × List Byte :=
  (r.1, r.2.1, r.2.2.readable)

/-- The outcome of a turn, up to the storage behind the readable bytes. -/
def Turn.Same : Turn → Turn → Prop
  | .again ctx buf, .again ctx' buf' => ctx = ctx' ∧ buf.readable = buf'.readable
  | .done ok ctx buf, .done ok' ctx' buf' => ok = ok' ∧ ctx = ctx' ∧ buf.readable = buf'.readable
  | _, _ => False

theorem turn_congr {buf' : Buffer} (h : buf.readable = buf'.readable) (ctx : ContextParse) :
    (ctx.turn buf).Same (ctx.turn buf') := by
  have hfind : buf'.findCRLF = buf.findCRLF := by
    rw [Buffer.findCRLF, Buffer.findCRLF, h]
  have hrest : ∀ off, (buf.retrieveUntil off).readable = (buf'.retrieveUntil off).readable := by
    intro off
    rw [Buffer.readable_retrieveUntil, Buffer.readable_retrieveUntil, h]
  cases hs : ctx.state_ with
  | GotAll => simp only [turn, hs]; exact ⟨rfl, h⟩
  | ExceptBody => simp only [turn, hs]; exact ⟨rfl, rfl, h⟩
  | ExceptRequestLine =>
      simp only [turn, hs, hfind, h]
      cases buf.findCRLF with
      | none => exact ⟨rfl, rfl, h⟩
      | some crlf =>
          dsimp only
          split
          · exact ⟨rfl, hrest _⟩
          · exact ⟨rfl, rfl, h⟩
  | ExceptHeader =>
      simp only [turn, hs, hfind, h]
      cases buf.findCRLF with
      | none => exact ⟨rfl, rfl, h⟩
      | some crlf =>
          dsimp only
          split
          · exact ⟨rfl, hrest _⟩
          · exact ⟨rfl, rfl, hrest _⟩

/-- A call depends on the readable bytes only. -/
theorem parseLoop_congr {buf' : Buffer} (h : buf.readable = buf'.readable) (n : ℕ)
    (ctx : ContextParse) :
    (ctx.parseLoop n buf).map observe = (ctx.parseLoop n buf').map observe := by
  induction n generalizing ctx buf buf' with
  | zero => rfl
  | succ n ih =>
      have hturn := turn_congr h ctx
      rw [parseLoop_succ, parseLoop_succ]
      cases h₁ : ctx.turn buf with
      | again ctx₁ buf₁ =>
          cases h₂ : ctx.turn buf' with
          | again ctx₂ buf₂ =>
              rw [h₁, h₂] at hturn
              obtain ⟨rfl, hbuf⟩ := hturn
              exact ih hbuf ctx₁
          | done ok ctx₂ buf₂ =>
              rw [h₁, h₂] at hturn
              exact hturn.elim
      | done ok ctx₁ buf₁ =>
          cases h₂ : ctx.turn buf' with
          | again ctx₂ buf₂ =>
              rw [h₁, h₂] at hturn
              exact hturn.elim
          | done ok' ctx₂ buf₂ =>
              rw [h₁, h₂] at hturn
              obtain ⟨rfl, rfl, hbuf⟩ := hturn
              simp only [Option.map_some, observe, hbuf]

/-- More steps do not change a result. -/
theorem parseLoop_mono {n m : ℕ} (hnm : n ≤ m) {r : Bool × ContextParse × Buffer}
    (h : ctx.parseLoop n buf = some r) : ctx.parseLoop m buf = some r := by
  induction n generalizing m ctx buf with
  | zero => cases h
  | succ n ih =>
      obtain ⟨m, rfl⟩ := Nat.exists_eq_add_of_le' (Nat.lt_of_lt_of_le (Nat.succ_pos n) hnm)
      rw [parseLoop_succ] at h ⊢
      cases hturn : ctx.turn buf with
      | again ctx₁ buf₁ =>
          rw [hturn] at h
          exact ih (Nat.succ_le_succ_iff.mp hnm) h
      | done ok ctx₁ buf₁ =>
          rw [hturn] at h
          exact h

/-- The number of steps does not matter. -/
theorem parseLoop_unique {n m : ℕ} {r r' : Bool × ContextParse × Buffer}
    (h : ctx.parseLoop n buf = some r) (h' : ctx.parseLoop m buf = some r') : r = r' := by
  have hn := parseLoop_mono (Nat.le_max_left n m) h
  have hm := parseLoop_mono (Nat.le_max_right n m) h'
  exact Option.some.inj (hn.symm.trans hm)

/-- From `GotAll` the loop does not return. -/
theorem parseLoop_gotAll (hstate : ctx.state_ = .GotAll) (n : ℕ) (buf : Buffer) :
    ctx.parseLoop n buf = none := by
  induction n with
  | zero => rfl
  | succ n ih =>
      rw [parseLoop_succ, show ctx.turn buf = .again ctx buf by simp only [turn, hstate]]
      exact ih

/-- Along a call the state is never `GotAll` at the start of a turn. -/
theorem atTurn_state {k : ℕ} (hstate : ctx.state_ ≠ .GotAll)
    (h : atTurn k ctx buf = some (ctx₁, buf₁)) : ctx₁.state_ ≠ .GotAll := by
  induction k generalizing ctx buf with
  | zero =>
      cases h
      exact hstate
  | succ k ih =>
      rw [atTurn] at h
      cases hturn : ctx.turn buf with
      | again ctx₂ buf₂ =>
          rw [hturn] at h
          exact ih (turn_shrinks hstate hturn).1 h
      | done ok ctx₂ buf₂ =>
          rw [hturn] at h
          cases h

/-- **A call that waits is the beginning of a longer call.**  Its turns are the first turns on the
longer text; the turn that waits is repeated. -/
theorem parseLoop_append {n : ℕ} {whole : Buffer} {more : List Byte}
    (hwhole : whole.readable = buf.readable ++ more)
    (h : ctx.parseLoop n buf = some (true, ctx₁, buf₁)) (hwait : ctx₁.state_ ≠ .GotAll) (m : ℕ) :
    ∃ k, (ctx.parseLoop (m + k) whole).map observe =
      (ctx₁.parseLoop m (buf₁.append more)).map observe := by
  induction n generalizing ctx buf whole with
  | zero => cases h
  | succ n ih =>
      have hstate : ctx.state_ ≠ .GotAll := by
        intro hgot
        rw [parseLoop_gotAll hgot] at h
        cases h
      rw [parseLoop_succ] at h
      cases hturn : ctx.turn buf with
      | again ctx₂ buf₂ =>
          rw [hturn] at h
          obtain ⟨whole₂, hturn', hwhole₂⟩ := turn_append hstate hwhole hturn
          obtain ⟨k, hk⟩ := ih hwhole₂ h
          refine ⟨k + 1, ?_⟩
          rw [← Nat.add_assoc, parseLoop_succ, hturn']
          exact hk
      | done ok ctx₂ buf₂ =>
          rw [hturn] at h
          cases h
          obtain ⟨rfl, rfl⟩ := turn_wait hturn hwait
          refine ⟨0, parseLoop_congr ?_ m ctx₁⟩
          rw [hwhole, Buffer.readable_append]

end Call

/-- **Incremental parsing is one-shot parsing.**  From any context: when `parseRequest` on `a`
returns true without having got all, then appending `b` and calling it again shows what one call on
`a ++ b` shows, the return value, the whole context and the bytes left. -/
theorem parseRequest_incremental (a b : List Byte) (ctx ctx₁ : ContextParse)
    (buf buf₁ whole : Buffer) (hbuf : buf.readable = a) (hwhole : whole.readable = a ++ b)
    (hfirst : ctx.parseRequest buf = some (true, ctx₁, buf₁)) (hwait : ctx₁.gotAll = false) :
    ∃ ok ctx₂ rest, (ctx₁.parseRequest (buf₁.append b)).map observe = some (ok, ctx₂, rest) ∧
      (ctx.parseRequest whole).map observe = some (ok, ctx₂, rest) := by
  have hwait' : ctx₁.state_ ≠ .GotAll := by simpa [gotAll] using hwait
  have hstate : ctx.state_ ≠ .GotAll := by
    intro hgot
    rw [parseRequest, parseLoop_gotAll hgot] at hfirst
    cases hfirst
  obtain ⟨r, hr⟩ := parseRequest_returns hwait' (buf₁.append b)
  obtain ⟨r', hr'⟩ := parseRequest_returns hstate whole
  obtain ⟨k, hk⟩ := parseLoop_append (hbuf.symm ▸ hwhole) hfirst hwait'
    ((buf₁.append b).readableBytes + 1)
  -- both calls have their result, and the result does not depend on the number of steps
  rw [show ctx₁.parseLoop ((buf₁.append b).readableBytes + 1) (buf₁.append b) =
    some r from hr] at hk
  obtain ⟨r'', hlong, hsame⟩ := Option.map_eq_some_iff.mp hk
  obtain rfl : r'' = r' := parseLoop_unique hlong hr'
  refine ⟨(observe r).1, (observe r).2.1, (observe r).2.2, ?_, ?_⟩
  · rw [hr]
    rfl
  · rw [hr', Option.map_some, hsame]

/-- `GET / HTTP/1.1`, cut between the CR and the LF of its line. -/
theorem parseRequest_incremental_cr :
    ∃ ok ctx₂ rest,
      (ContextParse.new.parseRequest
        (((Buffer.ofSize 64).append (literal "GET / HTTP/1.1\r")).append
          (literal "\nA:b\r\n\r\nx"))).map observe = some (ok, ctx₂, rest) ∧
      (ContextParse.new.parseRequest
        ((Buffer.ofSize 64).append (literal "GET / HTTP/1.1\r" ++ literal "\nA:b\r\n\r\nx"))).map
        observe =
          some (ok, ctx₂, rest) :=
  parseRequest_incremental (literal "GET / HTTP/1.1\r") (literal "\nA:b\r\n\r\nx") .new .new
    ((Buffer.ofSize 64).append (literal "GET / HTTP/1.1\r")) _ _
    (by rw [Buffer.readable_append, Buffer.readable_ofSize, List.nil_append])
    (by rw [Buffer.readable_append, Buffer.readable_ofSize, List.nil_append])
    (by decide +kernel) (by decide)

end ContextParse

namespace Server

/-! ### The calls of `onMessage` -/

section Calls

variable {http_callback_ : HttpCallback} {conn : Connection}

theorem serve_concat (chunks : List (List Byte)) (chunk : List Byte) :
    serve http_callback_ (chunks ++ [chunk]) =
      (serve http_callback_ chunks).bind fun conn => deliver http_callback_ conn chunk := by
  rw [serve, List.foldlM_append]
  show (serve http_callback_ chunks).bind
    (fun conn => (deliver http_callback_ conn chunk).bind some) = _
  congr 1
  funext conn
  cases deliver http_callback_ conn chunk <;> rfl

theorem onRequest_inputBuffer (conn : Connection) (req : Request) :
    (onRequest http_callback_ conn req).inputBuffer_ = conn.inputBuffer_ := by
  simp only [onRequest, send, shutdown]
  split_ifs <;> rfl

variable (http_callback_) in
/-- What a chunk does to the buffer and the context of a connection. -/
theorem deliver_parse {chunk : List Byte} {ok : Bool} {ctx : ContextParse} {buf : Buffer}
    (h : conn.context.parseRequest (conn.inputBuffer_.append chunk) = some (ok, ctx, buf)) :
    ∃ conn', deliver http_callback_ conn chunk = some conn' ∧ conn'.inputBuffer_ = buf ∧
      conn'.context = if ctx.gotAll then ctx.reset else ctx := by
  obtain ⟨conn₂, hconn₂, hbuf, hctx⟩ : ∃ conn₂ : Connection,
      (if ok then { conn with context := ctx, inputBuffer_ := buf }
        else shutdown (send { conn with context := ctx, inputBuffer_ := buf } badRequest)) = conn₂ ∧
      conn₂.inputBuffer_ = buf ∧ conn₂.context = ctx := by
    refine ⟨_, rfl, ?_⟩
    simp only [send, shutdown]
    split_ifs <;> exact ⟨rfl, rfl⟩
  simp only [deliver, onMessage, h, hconn₂]
  cases ctx.gotAll with
  | true => exact ⟨_, if_pos rfl, (onRequest_inputBuffer _ _).trans hbuf, rfl⟩
  | false => exact ⟨_, if_neg Bool.false_ne_true, hbuf, hctx⟩

theorem state_after (ctx : ContextParse) :
    (if ctx.gotAll then ctx.reset else ctx).state_ ≠ .GotAll := by
  split
  · exact reset_state ctx
  · rename_i hgot
    simpa [ContextParse.gotAll] using hgot

variable (http_callback_) in
/-- The context is never left in `GotAll`, and so every chunk is delivered. -/
theorem exists_serve (chunks : List (List Byte)) :
    ∃ conn, serve http_callback_ chunks = some conn ∧ conn.context.state_ ≠ .GotAll := by
  induction chunks using List.reverseRecOn with
  | nil => exact ⟨established, rfl, by simp [established, ContextParse.new]⟩
  | append_singleton chunks chunk ih =>
      obtain ⟨conn, hserve, hstate⟩ := ih
      obtain ⟨⟨ok, ctx, buf⟩, hparse⟩ :=
        ContextParse.parseRequest_returns hstate (conn.inputBuffer_.append chunk)
      obtain ⟨conn', hdeliver, -, hctx⟩ := deliver_parse http_callback_ hparse
      refine ⟨conn', ?_, hctx ▸ state_after ctx⟩
      rw [serve_concat, hserve]
      exact hdeliver

end Calls

/-- **The parse loop terminates in service.**  After any chunks the context is not in
`GotAll`; in the call made for the next chunk no turn starts in `GotAll`, every turn that goes
on removes at least two readable bytes, and the call returns, with a result that no bound on
the number of turns influences. -/
theorem serve_terminates (http_callback_ : HttpCallback) (chunks : List (List Byte)) :
    ∃ conn, serve http_callback_ chunks = some conn ∧ conn.context.state_ ≠ .GotAll ∧
      ∀ chunk, (∀ k ctx buf,
          ContextParse.atTurn k conn.context (conn.inputBuffer_.append chunk) = some (ctx, buf) →
          ctx.state_ ≠ .GotAll ∧
          ∀ ctx' buf', ctx.turn buf = .again ctx' buf' →
          buf'.readableBytes + 2 ≤ buf.readableBytes) ∧
        ∃ r, ∀ n, (conn.inputBuffer_.append chunk).readableBytes < 2 * n →
          conn.context.parseLoop n (conn.inputBuffer_.append chunk) = some r := by
  obtain ⟨conn, hserve, hstate⟩ := exists_serve http_callback_ chunks
  refine ⟨conn, hserve, hstate, fun chunk => ⟨fun k ctx buf hat => ?_, ?_⟩⟩
  · have hctx := ContextParse.atTurn_state hstate hat
    exact ⟨hctx, fun ctx' buf' hturn => (ContextParse.turn_shrinks hctx hturn).2⟩
  · obtain ⟨r, hr⟩ := ContextParse.parseRequest_returns hstate (conn.inputBuffer_.append chunk)
    refine ⟨r, fun n hn => ?_⟩
    obtain ⟨r', hr'⟩ := ContextParse.parseLoop_terminates hstate hn
    rwa [ContextParse.parseLoop_unique hr hr']

/-! ### The assertion of `setMethod` -/

/-- A request line that `setMethod` accepts the beginning of. -/
def NamesMethod (line : List Byte) : Prop :=
  line.idxOf 32 ≠ line.length ∧ Request.parseMethod (line.take (line.idxOf 32)) ≠ .Invalid

/-- The request line was malformed, but its method is in the request. -/
def Spoiled (conn : Connection) : Prop :=
  conn.context.state_ = .ExceptRequestLine ∧ conn.context.request_.method_ ≠ .Invalid

section RequestLineEffect

variable (ctx : ContextParse)

theorem setTarget_failed (target : List Byte) :
    (ctx.setTarget target).failed = ctx.failed ∧
    (ctx.setTarget target).request_.method_ = ctx.request_.method_ := by
  simp only [ContextParse.setTarget]
  split <;> exact ⟨rfl, rfl⟩

theorem setVersion_failed (version : List Byte) :
    (ctx.setVersion version).2.failed = ctx.failed ∧
    (ctx.setVersion version).2.request_.method_ = ctx.request_.method_ := by
  simp only [ContextParse.setVersion]
  split
  · split
    · exact ⟨rfl, rfl⟩
    · split <;> exact ⟨rfl, rfl⟩
  · exact ⟨rfl, rfl⟩

/-- A line without a space does not reach `setMethod`. -/
theorem processRequestLine_noSpace {line : List Byte} (h : line.idxOf 32 = line.length) :
    ctx.processRequestLine line = (false, ctx) := by
  simp only [ContextParse.processRequestLine]
  rw [if_pos h]

/-- A line with a space does: the method is set, after the assertion. -/
theorem processRequestLine_space {line : List Byte} (h : line.idxOf 32 ≠ line.length) :
    (ctx.processRequestLine line).2.failed =
      (ctx.failed || decide (ctx.request_.method_ ≠ .Invalid)) ∧
    (ctx.processRequestLine line).2.request_.method_ =
      Request.parseMethod (line.take (line.idxOf 32)) := by
  simp only [ContextParse.processRequestLine, ContextParse.setMethod]
  rw [if_neg h]
  by_cases hvalid : Request.parseMethod (line.take (line.idxOf 32)) = .Invalid
  · simp [hvalid]
  · by_cases hspace : (line.drop (line.idxOf 32 + 1)).idxOf 32 =
      (line.drop (line.idxOf 32 + 1)).length
    · simp [hvalid, hspace]
    · simp only [hvalid, hspace, ne_eq, not_false_eq_true, decide_true, Bool.not_true,
        Bool.false_eq_true, if_false]
      rw [(setVersion_failed _ _).1, (setVersion_failed _ _).2, (setTarget_failed _ _).1,
        (setTarget_failed _ _).2]
      exact ⟨rfl, rfl⟩

variable {ctx}

/-- On a clean request the assertion holds, and a method that is there afterwards is the line's. -/
theorem processRequestLine_clean (hclean : ctx.request_.method_ = .Invalid) (line : List Byte) :
    (ctx.processRequestLine line).2.failed = ctx.failed ∧
    ((ctx.processRequestLine line).2.request_.method_ ≠ .Invalid → NamesMethod line) := by
  by_cases hspace : line.idxOf 32 = line.length
  · rw [processRequestLine_noSpace ctx hspace]
    exact ⟨rfl, fun hm => absurd hclean hm⟩
  · obtain ⟨hfailed, hmethod⟩ := processRequestLine_space ctx hspace
    rw [hfailed, hmethod, hclean]
    exact ⟨by simp, fun hm => ⟨hspace, hm⟩⟩

end RequestLineEffect

section Assertion

variable {ctx ctx' : ContextParse} {buf buf' : Buffer} {ok : Bool}

/-- In the headers `setMethod` is not called any more. -/
theorem parseLoop_header_failed {n : ℕ} (hstate : ctx.state_ ≠ .ExceptRequestLine)
    (h : ctx.parseLoop n buf = some (ok, ctx', buf')) :
    ctx'.failed = ctx.failed ∧ ctx'.state_ ≠ .ExceptRequestLine := by
  induction n generalizing ctx buf with
  | zero => cases h
  | succ n ih =>
      cases hs : ctx.state_ with
      | ExceptRequestLine => exact absurd hs hstate
      | GotAll =>
          rw [ContextParse.parseLoop_gotAll hs] at h
          cases h
      | ExceptBody =>
          simp only [ContextParse.parseLoop, hs, Option.some.injEq, Prod.mk.injEq] at h
          rw [← h.2.1]
          exact ⟨rfl, by simp⟩
      | ExceptHeader =>
          cases hfind : buf.findCRLF with
          | none =>
              rw [parseLoop_wait n (Or.inr hs) hfind] at h
              cases h
              exact ⟨rfl, hstate⟩
          | some crlf =>
              rw [parseLoop_header n hs hfind] at h
              split at h
              · obtain ⟨hfailed, hnext⟩ := ih (by simp [hs]) h
                exact ⟨hfailed, hnext⟩
              · cases h
                exact ⟨rfl, by simp⟩

/-- A call that starts at a request line: no line yet, or the first line decides. -/
theorem parseLoop_requestLine_failed {n : ℕ} (hstate : ctx.state_ = .ExceptRequestLine)
    (h : ctx.parseLoop (n + 1) buf = some (ok, ctx', buf')) :
    (buf.findCRLF = none ∧ ctx' = ctx ∧ buf' = buf) ∨
    ∃ crlf, buf.findCRLF = some crlf ∧
      ctx'.failed = (ctx.processRequestLine (buf.readable.take crlf)).2.failed ∧
      (ctx'.state_ = .ExceptRequestLine →
        ctx' = (ctx.processRequestLine (buf.readable.take crlf)).2 ∧ buf' = buf) := by
  cases hfind : buf.findCRLF with
  | none =>
      rw [parseLoop_wait n (Or.inl hstate) hfind] at h
      cases h
      exact Or.inl ⟨rfl, rfl, rfl⟩
  | some crlf =>
      rw [parseLoop_requestLine n hstate hfind] at h
      refine Or.inr ⟨crlf, rfl, ?_⟩
      split at h
      · obtain ⟨hfailed, hnext⟩ := parseLoop_header_failed (by simp) h
        exact ⟨hfailed, fun hs => absurd hs hnext⟩
      · cases h
        exact ⟨rfl, fun _ => ⟨rfl, rfl⟩⟩

/-- Between two calls: a spoiled context has its line at the front of the buffer. -/
structure Ready (conn : Connection) : Prop where
  state : conn.context.state_ ≠ .GotAll
  line : Spoiled conn → ∃ crlf, conn.inputBuffer_.findCRLF = some crlf ∧
    NamesMethod (conn.inputBuffer_.readable.take crlf)

theorem ready_established : Ready established where
  state := by simp [established, ContextParse.new]
  line h := absurd rfl h.2

variable {http_callback_ : HttpCallback} {conn : Connection}

/-- The line stays at the front when a chunk arrives. -/
theorem Ready.front (h : Ready conn) (hsp : Spoiled conn) (chunk : List Byte) :
    ∃ crlf, (conn.inputBuffer_.append chunk).findCRLF = some crlf ∧
      NamesMethod ((conn.inputBuffer_.append chunk).readable.take crlf) := by
  obtain ⟨crlf, hfind, hnames⟩ := h.line hsp
  rw [Buffer.findCRLF, Buffer.readable_append]
  refine ⟨crlf, search_append hfind chunk, ?_⟩
  rwa [take_append_of_search hfind chunk]

/-- A call in a spoiled context fails the assertion, and a call in a clean one does not; a context
that is spoiled afterwards was left so by the line at the front. -/
theorem parseRequest_ready (h : Ready conn) (chunk : List Byte)
    (hparse : conn.context.parseRequest (conn.inputBuffer_.append chunk) = some (ok, ctx', buf')) :
    (ctx'.failed = false ↔ conn.context.failed = false ∧ ¬ Spoiled conn) ∧
    (ctx'.state_ = .ExceptRequestLine → ctx'.request_.method_ ≠ .Invalid →
      ∃ crlf, buf'.findCRLF = some crlf ∧ NamesMethod (buf'.readable.take crlf)) := by
  by_cases hstate : conn.context.state_ = .ExceptRequestLine
  · by_cases hsp : Spoiled conn
    · obtain ⟨crlf, hfind, hnames⟩ := h.front hsp chunk
      rcases parseLoop_requestLine_failed hstate hparse with ⟨hnone, -⟩ | ⟨crlf', hfind', hfailed,
        hback⟩
      · cases hfind.symm.trans hnone
      · obtain rfl : crlf = crlf' := Option.some.inj (hfind.symm.trans hfind')
        constructor
        · rw [hfailed, (processRequestLine_space _ hnames.1).1]
          simp [hsp, hsp.2]
        · intro hs _
          rw [(hback hs).2]
          exact ⟨crlf, hfind, hnames⟩
    · have hclean : conn.context.request_.method_ = .Invalid := by
        by_contra hm
        exact hsp ⟨hstate, hm⟩
      rcases parseLoop_requestLine_failed hstate hparse with ⟨-, rfl, -⟩ | ⟨crlf,
        hfind, hfailed, hback⟩
      · exact ⟨by simp [hsp], fun _ hm => absurd hclean hm⟩
      · obtain ⟨hsame, hnames⟩ := processRequestLine_clean hclean
          ((conn.inputBuffer_.append chunk).readable.take crlf)
        constructor
        · rw [hfailed, hsame]
          simp [hsp]
        · intro hs hm
          obtain ⟨hctx, hbuf⟩ := hback hs
          rw [hctx] at hm
          rw [hbuf]
          exact ⟨crlf, hfind, hnames hm⟩
  · have hsp : ¬ Spoiled conn := fun hsp => hstate hsp.1
    obtain ⟨hsame, hnext⟩ := parseLoop_header_failed hstate hparse
    exact ⟨by simp [hsame, hsp], fun hs => absurd hs hnext⟩

variable (http_callback_) in
/-- **One chunk.**  The assertion fails if and only if the context was spoiled. -/
theorem deliver_ready (h : Ready conn) (chunk : List Byte) :
    ∃ conn', deliver http_callback_ conn chunk = some conn' ∧ Ready conn' ∧
      (conn'.context.failed = false ↔ conn.context.failed = false ∧ ¬ Spoiled conn) := by
  obtain ⟨⟨ok, ctx, buf⟩, hparse⟩ :=
    ContextParse.parseRequest_returns h.state (conn.inputBuffer_.append chunk)
  obtain ⟨conn', hdeliver, hbuf, hctx⟩ := deliver_parse http_callback_ hparse
  obtain ⟨hfailed, hline⟩ := parseRequest_ready h chunk hparse
  refine ⟨conn', hdeliver, ⟨hctx ▸ state_after ctx, fun hsp => ?_⟩, ?_⟩
  · rw [Spoiled, hctx] at hsp
    rw [hbuf]
    split at hsp
    · exact absurd rfl hsp.2
    · exact hline hsp.1 hsp.2
  · rw [← hfailed, hctx]
    split <;> rfl

variable (http_callback_) in
/-- All chunks: the assertion holds as long as no chunk finds the context spoiled. -/
theorem serve_ready (chunks : List (List Byte)) :
    ∃ conn, serve http_callback_ chunks = some conn ∧ Ready conn ∧
      (conn.context.failed = false ↔ ∀ j < chunks.length, ∀ conn₀,
        serve http_callback_ (chunks.take j) = some conn₀ → ¬ Spoiled conn₀) := by
  induction chunks using List.reverseRecOn with
  | nil =>
      exact ⟨established, rfl, ready_established, fun _ j hj => absurd hj (Nat.not_lt_zero j),
        fun _ => rfl⟩
  | append_singleton chunks chunk ih =>
      obtain ⟨conn, hserve, hready, hiff⟩ := ih
      obtain ⟨conn', hdeliver, hready', hstep⟩ := deliver_ready http_callback_ hready chunk
      have hlen : (chunks ++ [chunk]).length = chunks.length + 1 := List.length_append
      have htake : ∀ j ≤ chunks.length, (chunks ++ [chunk]).take j = chunks.take j := fun j hj =>
        List.take_append_of_le_length hj
      refine ⟨conn', by rw [serve_concat, hserve]; exact hdeliver, hready', ?_⟩
      rw [hstep, hiff, hlen]
      constructor
      · rintro ⟨hbefore, hnow⟩ j hj conn₀ h₀
        rw [htake j (Nat.lt_succ_iff.mp hj)] at h₀
        rcases Nat.lt_succ_iff_lt_or_eq.mp hj with hlt | rfl
        · exact hbefore j hlt conn₀ h₀
        · rw [List.take_length, hserve] at h₀
          cases h₀
          exact hnow
      · intro hall
        refine ⟨fun j hj conn₀ h₀ => hall j (Nat.lt_succ_of_lt hj) conn₀ ?_,
          hall chunks.length (Nat.lt_succ_self _) conn ?_⟩
        · rwa [htake j hj.le]
        · rw [htake _ le_rfl, List.take_length, hserve]

end Assertion

/-- **When the assertion of `setMethod` holds.**  For every sequence of chunks: it has not
failed if and only if no chunk was delivered to a connection whose last request line was
malformed after a valid method. -/
theorem assert_iff (http_callback_ : HttpCallback) (chunks : List (List Byte)) :
    ∃ conn, serve http_callback_ chunks = some conn ∧
      (conn.context.failed = false ↔ ∀ j < chunks.length, ∀ conn₀,
        serve http_callback_ (chunks.take j) = some conn₀ → ¬ Spoiled conn₀) := by
  obtain ⟨conn, hserve, -, hiff⟩ := serve_ready http_callback_ chunks
  exact ⟨conn, hserve, hiff⟩

/-- A line that breaks off after its method, and then any byte. -/
theorem assert_fails :
    (serve (fun _ r => r) [literal "GET x\r\n", literal "y"]).map
    (fun conn => conn.context.failed) =
      some true := by
  decide +kernel

end Server

end Muduo.Web
