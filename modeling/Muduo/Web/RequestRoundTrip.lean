import Muduo.Web.Segmentation

/-!
# Decoding a request undoes encoding it

A request is written as its request line, one line per header and an empty line, each ended by CRLF.
Nothing in a line contains a CR, nothing before a separator contains the separator, so every search
of the parser stops where the encoder put the mark.

* `WireRequest` — the requests that can be written, with these conditions as fields;
* `encode` — the bytes; `headerValue` — the last line of a name wins, stripped of white space;
* `processRequestLine_encode`, `parseLoop_headers` — the two states of the parse loop;
* `parseRequest_encode` — the whole request, followed by any bytes.
-/

namespace Muduo.Web

open Muduo.Lib Muduo.Net

/-- A line with its two spaces: the method is looked at first. -/
theorem ContextParse.processRequestLine_parts (ctx : ContextParse) {method target : List Byte}
    (hmethod : (32 : Byte) ∉ method) (htarget : (32 : Byte) ∉ target) (version : List Byte) :
    ctx.processRequestLine (method ++ 32 :: (target ++ 32 :: version)) =
      if Request.parseMethod method = .Invalid then (false, (ctx.setMethod method).2)
      else ((ctx.setMethod method).2.setTarget target).setVersion version := by
  simp only [ContextParse.processRequestLine, idxOf_append_cons hmethod, drop_append_cons,
    idxOf_append_cons htarget, length_ne_append_cons, List.take_left, if_false]
  by_cases hvalid : Request.parseMethod method = .Invalid
  · rw [if_pos hvalid, if_pos (by simp [ContextParse.setMethod, hvalid])]
  · rw [if_neg hvalid, if_neg (by simp [ContextParse.setMethod, hvalid])]

/-- A header line `name:value`. -/
structure WireHeader where
  name : List Byte
  value : List Byte
  name_colon : (58 : Byte) ∉ name
  name_cr : (13 : Byte) ∉ name
  name_lf : (10 : Byte) ∉ name
  value_cr : (13 : Byte) ∉ value
  value_lf : (10 : Byte) ∉ value

structure WireRequest where
  method : Method
  path : List Byte
  query : List Byte
  version : Version
  headers : List WireHeader
  method_valid : method ≠ .Invalid
  version_valid : version ≠ .Unknow
  path_space : (32 : Byte) ∉ path
  path_question : (63 : Byte) ∉ path
  path_cr : (13 : Byte) ∉ path
  path_lf : (10 : Byte) ∉ path
  query_question : query = [] ∨ query.head? = some 63
  query_space : (32 : Byte) ∉ query
  query_cr : (13 : Byte) ∉ query
  query_lf : (10 : Byte) ∉ query

/-- A text without leading and trailing white space. -/
def strip (text : List Byte) : List Byte := (text.dropWhile isspace).rdropWhile isspace

def versionString : Version → List Byte
  | .Http11 => literal "HTTP/1.1"
  | .Http10 => literal "HTTP/1.0"
  | .Unknow => []

def WireHeader.line (h : WireHeader) : List Byte := h.name ++ 58 :: h.value

namespace WireRequest

def requestLine (w : WireRequest) : List Byte :=
  Request.methodString w.method ++ 32 :: ((w.path ++ w.query) ++ 32 :: versionString w.version)

def encode (w : WireRequest) : List Byte :=
  w.requestLine ++
  (Buffer.kCRLF ++ ((w.headers.map fun h => h.line ++ Buffer.kCRLF).flatten ++ Buffer.kCRLF))

/-- The value of the last header line with this name; empty if there is none. -/
def headerValue (w : WireRequest) (name : List Byte) : List Byte :=
  match (w.headers.filter fun h => h.name = name).getLast? with
  | some h => strip h.value
  | none => []

/-! ### The request line -/

variable (w : WireRequest)

theorem parseMethod_methodString :
    Request.parseMethod (Request.methodString w.method) = w.method := by
  have hvalid := w.method_valid
  cases hm : w.method <;> first | exact absurd hm hvalid | decide

theorem methodString_space : (32 : Byte) ∉ Request.methodString w.method := by
  cases w.method <;> decide

/-- The target is cut at its question mark. -/
theorem setTarget_encode {ctx : ContextParse} (hquery : ctx.request_.query_ = []) :
    ctx.setTarget (w.path ++ w.query) =
      { ctx with request_ := { ctx.request_ with path_ := w.path, query_ := w.query } } := by
  rcases w.query_question with hq | hq
  · have hidx : (w.path ++ w.query).idxOf 63 = (w.path ++ w.query).length := by
      rw [hq, List.append_nil, List.idxOf_eq_length w.path_question]
    rw [ContextParse.setTarget, if_neg (not_not.mpr hidx), hq, List.append_nil, ← hquery]
  · obtain ⟨q, hcons⟩ : ∃ q, w.query = 63 :: q := by
      cases hw : w.query with
      | nil => simp [hw] at hq
      | cons x q =>
          rw [hw, List.head?_cons, Option.some.injEq] at hq
          exact ⟨q, by rw [hq]⟩
    have hidx : (w.path ++ w.query).idxOf 63 = w.path.length := by
      rw [hcons, idxOf_append_cons w.path_question]
    have hne : w.path.length ≠ (w.path ++ w.query).length := by
      rw [hcons]
      exact length_ne_append_cons _ _ _
    simp only [ContextParse.setTarget, hidx]
    rw [if_pos hne, List.take_left, List.drop_left]

theorem setVersion_encode (ctx : ContextParse) : ctx.setVersion (versionString w.version) =
    (true, { ctx with request_ := { ctx.request_ with version_ := w.version } }) := by
  have hvalid := w.version_valid
  cases hv : w.version with
  | Unknow => exact absurd hv hvalid
  | Http10 => rfl
  | Http11 => rfl

/-- The request a request line stands for, before its headers. -/
def bare : Request := ⟨w.method, w.version, w.path, w.query, []⟩

theorem processRequestLine_encode :
    ContextParse.new.processRequestLine w.requestLine =
    (true, ⟨.ExceptRequestLine, w.bare, false⟩) := by
  have hspace : (32 : Byte) ∉ w.path ++ w.query := by
    rw [List.mem_append, not_or]
    exact ⟨w.path_space, w.query_space⟩
  rw [requestLine, ContextParse.processRequestLine_parts _ w.methodString_space hspace,
    w.parseMethod_methodString, if_neg w.method_valid, ContextParse.setMethod,
    w.parseMethod_methodString, setTarget_encode w rfl, setVersion_encode]
  rfl

/-! ### The headers -/

theorem addHeader_line (r : Request) (h : WireHeader) :
    r.addHeader h.line h.name.length =
      { r with headers_ := Request.assign r.headers_ h.name (strip h.value) } := by
  have htake : h.line.take h.name.length = h.name := List.take_left
  have hdrop : h.line.drop (h.name.length + 1) = h.value := drop_append_cons _ _ _
  simp only [Request.addHeader, htake, hdrop, strip]

/-- The request after some header lines. -/
def withHeaders (r : Request) (hs : List WireHeader) : Request :=
  hs.foldl (fun r h => { r with headers_ := Request.assign r.headers_ h.name (strip h.value) }) r

theorem cr_notMem_line (h : WireHeader) : (13 : Byte) ∉ h.line := by
  rw [WireHeader.line, List.mem_append, List.mem_cons, not_or, not_or]
  exact ⟨h.name_cr, by decide, h.value_cr⟩

/-- A line in the buffer is found whole. -/
theorem findCRLF_line {buf : Buffer} {line more : List Byte} (hcr : (13 : Byte) ∉ line)
    (h : buf.readable = line ++ (Buffer.kCRLF ++ more)) :
    buf.findCRLF = some line.length ∧ buf.readable.take line.length = line ∧
      (buf.retrieveUntil (line.length + 2)).readable = more := by
  rw [Buffer.findCRLF, Buffer.readable_retrieveUntil, h]
  exact search_line hcr more

/-- **The header state of the parse loop** reads the header lines and the empty line, and
leaves what follows. -/
theorem parseLoop_headers (hs : List WireHeader) (rest : List Byte) {n : ℕ} {ctx : ContextParse}
    {buf : Buffer} (hstate : ctx.state_ = .ExceptHeader) (hn : hs.length < n)
    (h : buf.readable = (hs.map fun h => h.line ++ Buffer.kCRLF).flatten ++
      (Buffer.kCRLF ++ rest)) :
    ∃ buf', ctx.parseLoop n buf =
        some (true, { ctx with state_ := .GotAll, request_ := withHeaders ctx.request_ hs }, buf') ∧
      buf'.readable = rest := by
  induction hs generalizing n ctx buf with
  | nil =>
      obtain ⟨n, rfl⟩ := Nat.exists_eq_succ_of_ne_zero (Nat.ne_of_gt (Nat.zero_lt_of_lt hn))
      obtain ⟨hfind, htake, hrest⟩ := findCRLF_line List.not_mem_nil
        (show buf.readable = [] ++ (Buffer.kCRLF ++ rest) from h)
      refine ⟨buf.retrieveUntil 2, ?_, hrest⟩
      rw [Server.parseLoop_header n hstate hfind, htake, if_neg (by simp)]
      rfl
  | cons hd hs ih =>
      obtain ⟨n, rfl⟩ := Nat.exists_eq_succ_of_ne_zero (Nat.ne_of_gt (Nat.zero_lt_of_lt hn))
      rw [List.map_cons, List.flatten_cons, List.append_assoc, List.append_assoc] at h
      obtain ⟨hfind, htake, hrest⟩ := findCRLF_line (cr_notMem_line hd) h
      have hcolon : hd.line.idxOf 58 = hd.name.length := idxOf_append_cons hd.name_colon _
      have hne : hd.name.length ≠ hd.line.length := length_ne_append_cons _ _ _
      rw [Server.parseLoop_header n hstate hfind, htake, hcolon, if_pos hne, addHeader_line]
      exact ih hstate (by rw [List.length_cons] at hn; omega) hrest

/-! ### Looking a header up -/

theorem lookup_assign (hs : List (List Byte × List Byte)) (field value name : List Byte) :
    (Request.assign hs field value).lookup name =
      if name = field then some value else hs.lookup name := by
  induction hs with
  | nil =>
      rw [Request.assign, List.lookup_cons]
      by_cases hf : name = field
      · simp [hf]
      · simp [hf, beq_eq_false_iff_ne.mpr hf]
  | cons p hs ih =>
      obtain ⟨f, v⟩ := p
      rw [Request.assign]
      by_cases hf : f = field
      · subst hf
        rw [if_pos rfl, List.lookup_cons, List.lookup_cons]
        by_cases hn : name = f
        · simp [hn]
        · simp [hn, beq_eq_false_iff_ne.mpr hn]
      · rw [if_neg hf, List.lookup_cons, List.lookup_cons, ih]
        by_cases hn : name = f
        · subst hn
          simp [hf]
        · simp [beq_eq_false_iff_ne.mpr hn]

/-- The last line of a name wins. -/
theorem lookup_withHeaders (r : Request) (hs : List WireHeader) (name : List Byte) :
    (withHeaders r hs).headers_.lookup name =
      match (hs.filter fun h => h.name = name).getLast? with
      | some h => some (strip h.value)
      | none => r.headers_.lookup name := by
  induction hs using List.reverseRecOn with
  | nil => rfl
  | append_singleton hs h ih =>
      rw [withHeaders, List.foldl_append, List.foldl_cons, List.foldl_nil]
      show (Request.assign (withHeaders r hs).headers_ h.name (strip h.value)).lookup name = _
      rw [lookup_assign, List.filter_append, ih]
      by_cases hn : name = h.name
      · subst hn
        simp
      · have hne : ¬ h.name = name := fun heq => hn heq.symm
        simp [hn, hne]

theorem cr_notMem_requestLine : (13 : Byte) ∉ w.requestLine := by
  have hm : (13 : Byte) ∉ Request.methodString w.method := by
    cases w.method <;> decide
  have hv : (13 : Byte) ∉ versionString w.version := by
    cases w.version <;> decide
  have hne : ¬ (13 : Byte) = 32 := by decide
  simp only [requestLine, List.mem_append, List.mem_cons, hm, hv, w.path_cr, w.query_cr, hne,
    or_self, not_false_eq_true]

end WireRequest

/-- **Decoding undoes encoding.**  A fresh parser, given a buffer that holds an encoded request and
any bytes after it, returns true with the whole request and leaves just those bytes. -/
theorem parseRequest_encode (w : WireRequest) (rest : List Byte) (buf : Buffer)
    (hbuf : buf.readable = w.encode ++ rest) :
    ∃ ctx buf', ContextParse.new.parseRequest buf = some (true, ctx, buf') ∧
      ctx.state_ = .GotAll ∧ buf'.readable = rest ∧ ctx.failed = false ∧
      ctx.request_.method_ = w.method ∧ ctx.request_.path_ = w.path ∧
      ctx.request_.query_ = w.query ∧
      ctx.request_.version_ = w.version ∧
      ∀ name, ctx.request_.getHeader name = w.headerValue name := by
  rw [WireRequest.encode, List.append_assoc, List.append_assoc, List.append_assoc] at hbuf
  obtain ⟨hfind, htake, hrest⟩ := WireRequest.findCRLF_line w.cr_notMem_requestLine hbuf
  have hfuel : w.headers.length < buf.readableBytes := by
    have hlen := length_le_flatten_map (f := fun h : WireHeader => h.line ++ Buffer.kCRLF)
      (fun h => List.append_ne_nil_of_right_ne_nil _ (List.cons_ne_nil _ _)) w.headers
    have hcrlf : Buffer.kCRLF.length = 2 := rfl
    rw [Buffer.readableBytes_eq, hbuf, List.length_append, List.length_append, List.length_append,
      List.length_append]
    omega
  obtain ⟨buf', hloop, hleft⟩ := WireRequest.parseLoop_headers w.headers rest
    (show ContextParse.state_ ⟨.ExceptHeader, w.bare, false⟩ = .ExceptHeader from rfl) hfuel hrest
  have hkeep : ∀ hs : List WireHeader, (WireRequest.withHeaders w.bare hs).method_ = w.method ∧
      (WireRequest.withHeaders w.bare hs).path_ = w.path ∧
      (WireRequest.withHeaders w.bare hs).query_ = w.query ∧
      (WireRequest.withHeaders w.bare hs).version_ = w.version := by
    intro hs
    induction hs using List.reverseRecOn with
    | nil => exact ⟨rfl, rfl, rfl, rfl⟩
    | append_singleton hs h ih =>
        rw [WireRequest.withHeaders, List.foldl_append]
        exact ih
  obtain ⟨hmethod, hpath, hquery, hversion⟩ := hkeep w.headers
  refine ⟨⟨.GotAll, WireRequest.withHeaders w.bare w.headers, false⟩, buf', ?_, rfl,
    hleft, rfl, hmethod, hpath, hquery, hversion, fun name => ?_⟩
  · rw [ContextParse.parseRequest, Server.parseLoop_requestLine _ rfl hfind, htake,
      w.processRequestLine_encode, if_pos rfl]
    exact hloop
  · rw [Request.getHeader, WireRequest.lookup_withHeaders, WireRequest.headerValue]
    cases (w.headers.filter fun h => h.name = name).getLast? <;> rfl

/-- `GET /a?b HTTP/1.1` with a header given twice. -/
def twoHosts : WireRequest where
  method := .Get
  path := literal "/a"
  query := literal "?b"
  version := .Http11
  headers :=
    [⟨literal "Host", literal "x", by decide, by decide, by decide, by decide, by decide⟩,
      ⟨literal "Host", literal " y ", by decide, by decide, by decide, by decide, by decide⟩]
  method_valid := by decide
  version_valid := by decide
  path_space := by decide
  path_question := by decide
  path_cr := by decide
  path_lf := by decide
  query_question := by decide
  query_space := by decide
  query_cr := by decide
  query_lf := by decide

theorem parseRequest_encode_twoHosts :
    ∃ ctx buf',
    ContextParse.new.parseRequest ((Buffer.ofSize 0).append (twoHosts.encode ++ [1, 2])) =
        some (true, ctx, buf') ∧
      buf'.readable = [1, 2] ∧ ctx.request_.path_ = literal "/a" ∧
      ctx.request_.getHeader (literal "Host") = literal "y" := by
  have hbuf : ((Buffer.ofSize 0).append (twoHosts.encode ++ [1, 2])).readable =
      twoHosts.encode ++ [1, 2] := by
    rw [Buffer.readable_append, Buffer.readable_ofSize, List.nil_append]
  obtain ⟨ctx, buf', hrun, -, hrest, -, -, hpath, -, -, hhost⟩ :=
    parseRequest_encode twoHosts [1, 2] _ hbuf
  exact ⟨ctx, buf', hrun, hrest, hpath, (hhost _).trans (by decide)⟩

end Muduo.Web
