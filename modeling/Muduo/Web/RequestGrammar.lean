import Muduo.Web.ParseTurns
import Muduo.Web.RequestRoundTrip

/-!
# What the request parser accepts

A request is a request line, header lines with a colon and an empty line, each ended by CRLF.
The parser does not look for the empty line: it stops at the first line without a colon,
whatever else it holds.

* `IsRequestLine`, `IsRequest` — the grammar; `processRequestLine_fst_iff` — the request line is
  read exactly; `request_line_exact` — and its parts can be put together again;
* `Loose` — the lines the parser takes for a request: the last one is only free of colons;
  `endsAfter_iff_loose` — this is what it accepts, for every text;
* `EndsBlank`, `grammar_iff` — the parser accepts exactly the grammar if and only if the first line
  without a colon is empty.
-/

namespace Muduo.Web

open Muduo.Lib Muduo.Net

def methods : List (List Byte) :=
    [literal "GET", literal "POST", literal "HEAD", literal "PUT", literal "DELETE"]

def versions : List (List Byte) := [literal "HTTP/1.0", literal "HTTP/1.1"]

/-- `METHOD SP target SP HTTP/1.0|HTTP/1.1`. -/
def IsRequestLine (line : List Byte) : Prop :=
  ∃ method ∈ methods, ∃ target, (32 : Byte) ∉ target ∧ ∃ version ∈ versions,
    line = method ++ 32 :: (target ++ 32 :: version)

/-- A request line, header lines and an empty line. -/
def IsRequest (bytes : List Byte) : Prop :=
  ∃ (line : List Byte) (headers : List (List Byte)), IsRequestLine line ∧ ¬ Buffer.kCRLF <:+: line ∧
    (∀ h ∈ headers, (58 : Byte) ∈ h ∧ ¬ Buffer.kCRLF <:+: h) ∧
    bytes = line ++ (Buffer.kCRLF ++ ((headers.map (· ++ Buffer.kCRLF)).flatten ++ Buffer.kCRLF))

/-- `parseRequest` of a fresh parser ends in `GotAll` and has consumed `n` bytes. -/
def EndsAfter (buf : Buffer) (n : ℕ) : Prop :=
  ∃ ok ctx buf', ContextParse.new.parseRequest buf = some (ok, ctx, buf') ∧ ctx.gotAll = true ∧
    n ≤ buf.readableBytes ∧ buf'.readable = buf.readable.drop n

/-- Behind a request line, the first line without a colon is empty. -/
def EndsBlank (text : List Byte) : Prop :=
  ∀ line headers last rest, lines Buffer.kCRLF text = line :: (headers ++ last :: rest) →
    IsRequestLine line → (∀ h ∈ headers, (58 : Byte) ∈ h) → (58 : Byte) ∉ last → last = []

/-! ### The request line -/

theorem parseMethod_ne_invalid_iff (method : List Byte) :
    Request.parseMethod method ≠ .Invalid ↔ method ∈ methods := by
  simp only [Request.parseMethod, methods, List.mem_cons, List.not_mem_nil, or_false]
  split_ifs <;> simp_all

theorem setVersion_fst_iff (ctx : ContextParse) (version : List Byte) :
    (ctx.setVersion version).1 = true ↔ version ∈ versions := by
  constructor
  · intro h
    simp only [ContextParse.setVersion] at h
    split at h
    · rename_i hhead
      -- eight bytes: the first seven are given, the last one is looked at
      have hsplit : version = literal "HTTP/1." ++ version.drop 7 := by
        rw [← hhead.2, List.take_append_drop]
      have hlast : ∀ b, version[7]? = some b → version = literal "HTTP/1." ++ [b] := by
        intro b hb
        have hdrop : version.drop 7 = [b] := by
          rw [List.drop_eq_getElem_cons (by omega : 7 < version.length),
            List.drop_eq_nil_of_le (by omega)]
          rw [List.getElem?_eq_getElem (by omega)] at hb
          rw [Option.some.inj hb]
        rwa [hdrop] at hsplit
      split at h
      · rename_i hone
        rw [hlast 49 hone]
        decide
      · split at h
        · rename_i hzero
          rw [hlast 48 hzero]
          decide
        · cases h
    · cases h
  · intro h
    simp only [versions, List.mem_cons, List.not_mem_nil, or_false] at h
    rcases h with rfl | rfl <;> rfl

theorem space_notMem_of_mem_methods {method : List Byte} (h : method ∈ methods) :
    (32 : Byte) ∉ method := by
  revert method
  decide

/-- **The request line is read exactly**, whatever the context holds. -/
theorem processRequestLine_fst_iff (ctx : ContextParse) (line : List Byte) :
    (ctx.processRequestLine line).1 = true ↔ IsRequestLine line := by
  constructor
  · intro h
    by_cases hspace : (32 : Byte) ∈ line
    · obtain ⟨method, rest, rfl, hmethod⟩ := List.eq_append_cons_of_mem hspace
      by_cases hspace₂ : (32 : Byte) ∈ rest
      · obtain ⟨target, version, rfl, htarget⟩ := List.eq_append_cons_of_mem hspace₂
        rw [ContextParse.processRequestLine_parts _ hmethod htarget] at h
        split at h
        · cases h
        · rename_i hvalid
          exact ⟨method, (parseMethod_ne_invalid_iff method).mp hvalid, target, htarget, version,
            (setVersion_fst_iff _ version).mp h, rfl⟩
      · -- one space only: the target does not end
        have hidx := List.idxOf_eq_length hspace₂
        simp only [ContextParse.processRequestLine, idxOf_append_cons hmethod, drop_append_cons,
          length_ne_append_cons, hidx, if_false, if_true] at h
        split at h <;> cases h
    · rw [Server.processRequestLine_noSpace _ (List.idxOf_eq_length hspace)] at h
      cases h
  · rintro ⟨method, hmethod, target, htarget, version, hversion, rfl⟩
    rw [ContextParse.processRequestLine_parts _ (space_notMem_of_mem_methods hmethod) htarget,
      if_neg ((parseMethod_ne_invalid_iff method).mpr hmethod)]
    exact (setVersion_fst_iff _ version).mpr hversion

theorem requestLine_isSome_iff (line : List Byte) :
    (Server.requestLine line).isSome ↔ IsRequestLine line := by
  have hjudge : (Server.requestLine line).isSome ↔
      (ContextParse.new.processRequestLine line).1 = true := by
    simp only [Server.requestLine]
    cases (ContextParse.new.processRequestLine line).1 <;> simp
  rw [hjudge, processRequestLine_fst_iff]

theorem methodString_parseMethod {method : List Byte} (h : method ∈ methods) :
    Request.methodString (Request.parseMethod method) = method := by
  revert method
  decide

/-- The version is kept as it was written. -/
theorem setVersion_of_mem (ctx : ContextParse) {version : List Byte} (h : version ∈ versions) :
    ∃ v, versionString v = version ∧
      ctx.setVersion version =
      (true, { ctx with request_ := { ctx.request_ with version_ := v } }) := by
  simp only [versions, List.mem_cons, List.not_mem_nil, or_false] at h
  rcases h with rfl | rfl
  · exact ⟨.Http10, rfl, rfl⟩
  · exact ⟨.Http11, rfl, rfl⟩

/-- The target is split at its question mark; without one the query stays as it was. -/
theorem setTarget_cases (ctx : ContextParse) (target : List Byte) :
    (∃ path rest, target = path ++ 63 :: rest ∧ (63 : Byte) ∉ path ∧
      ctx.setTarget target =
        { ctx with request_ := { ctx.request_ with path_ := path, query_ := 63 :: rest } }) ∨
    ((63 : Byte) ∉ target ∧
      ctx.setTarget target = { ctx with request_ := { ctx.request_ with path_ := target } }) := by
  by_cases hmem : (63 : Byte) ∈ target
  · obtain ⟨path, rest, rfl, hpath⟩ := List.eq_append_cons_of_mem hmem
    refine .inl ⟨path, rest, rfl, hpath, ?_⟩
    simp only [ContextParse.setTarget, idxOf_append_cons hpath,
      if_pos (length_ne_append_cons _ _ _), List.take_left, List.drop_left]
  · refine .inr ⟨hmem, ?_⟩
    simp only [ContextParse.setTarget, List.idxOf_eq_length hmem, ne_eq, not_true_eq_false,
      if_false]

/-- The path has no question mark. -/
theorem setTarget_path (ctx : ContextParse) (target : List Byte) :
    (63 : Byte) ∉ (ctx.setTarget target).request_.path_ := by
  obtain ⟨path, rest, -, hpath, hset⟩ | ⟨hmem, hset⟩ := setTarget_cases ctx target
  · rw [hset]
    exact hpath
  · rw [hset]
    exact hmem

/-- The target is the path and the query, if and only if the query is set or was empty. -/
theorem setTarget_lossless_iff (ctx : ContextParse) (target : List Byte) :
    (ctx.setTarget target).request_.path_ ++ (ctx.setTarget target).request_.query_ = target ↔
      (63 : Byte) ∈ target ∨ ctx.request_.query_ = [] := by
  obtain ⟨path, rest, rfl, -, hset⟩ | ⟨hmem, hset⟩ := setTarget_cases ctx target
  · rw [hset]
    simp
  · rw [hset]
    show target ++ ctx.request_.query_ = target ↔ _
    rw [List.append_right_eq_self]
    exact ⟨.inr, fun h => h.resolve_left hmem⟩

/-- The query is one, if and only if it is set or was one. -/
theorem setTarget_query_iff (ctx : ContextParse) (target : List Byte) :
    ((ctx.setTarget target).request_.query_ = [] ∨
      (ctx.setTarget target).request_.query_.head? = some 63) ↔
      (63 : Byte) ∈ target ∨ ctx.request_.query_ = [] ∨ ctx.request_.query_.head? = some 63 := by
  obtain ⟨path, rest, rfl, -, hset⟩ | ⟨hmem, hset⟩ := setTarget_cases ctx target
  · rw [hset]
    simp
  · rw [hset]
    exact ⟨.inr, fun h => h.resolve_left hmem⟩

/-- **Request lines are read exactly, and without loss unless an older query is left over.**  A line
is accepted exactly if it is in the grammar, and then the method, the version and a path without
question mark are those of the line.  The query is assigned only for a target with a question mark:
the parts give the line again if and only if there is one or the query was empty before, and the
query has the form of one if and only if there is one or it had that form before. -/
theorem request_line_exact (ctx : ContextParse) (hinvalid : ctx.request_.method_ = .Invalid)
    (line : List Byte) :
    ((ctx.processRequestLine line).1 = true ↔ IsRequestLine line) ∧
    (ctx.processRequestLine line).2.failed = ctx.failed ∧
    ∀ method ∈ methods, ∀ target, (32 : Byte) ∉ target → ∀ version ∈ versions,
      line = method ++ 32 :: (target ++ 32 :: version) →
      let request := (ctx.processRequestLine line).2.request_
      Request.methodString request.method_ = method ∧ (63 : Byte) ∉ request.path_ ∧
        versionString request.version_ = version ∧
        (Request.methodString request.method_ ++ 32 ::
            (request.path_ ++ request.query_ ++ 32 :: version) = line ↔
          (63 : Byte) ∈ target ∨ ctx.request_.query_ = []) ∧
        ((request.query_ = [] ∨ request.query_.head? = some 63) ↔
          (63 : Byte) ∈ target ∨ ctx.request_.query_ = [] ∨
          ctx.request_.query_.head? = some 63) := by
  refine ⟨processRequestLine_fst_iff ctx line, (Server.processRequestLine_clean hinvalid line).1,
    ?_⟩
  rintro method hmethod target htarget version hversion rfl
  rw [ContextParse.processRequestLine_parts _ (space_notMem_of_mem_methods hmethod) htarget,
    if_neg ((parseMethod_ne_invalid_iff method).mpr hmethod)]
  obtain ⟨v, hv, hset⟩ := setVersion_of_mem ((ctx.setMethod method).2.setTarget target) hversion
  have hm : Request.methodString ((ctx.setMethod method).2.setTarget target).request_.method_ =
      method := by
    rw [(Server.setTarget_failed _ target).2]
    exact methodString_parseMethod hmethod
  rw [hset]
  refine ⟨hm, setTarget_path _ target, hv, ?_, setTarget_query_iff (ctx.setMethod method).2 target⟩
  dsimp only
  rw [hm, List.append_cancel_left_eq, List.cons.injEq, List.append_cancel_right_eq,
    setTarget_lossless_iff]
  exact ⟨fun h => h.2, fun h => ⟨rfl, h⟩⟩

theorem request_line_exact_get :
    (ContextParse.new.processRequestLine (literal "GET /a?b HTTP/1.1")).1 = true ∧
      versionString
        (ContextParse.new.processRequestLine (literal "GET /a?b HTTP/1.1")).2.request_.version_ =
        literal "HTTP/1.1" ∧
      (63 : Byte) ∉
        (ContextParse.new.processRequestLine (literal "GET /a?b HTTP/1.1")).2.request_.path_ := by
  have h := request_line_exact ContextParse.new rfl (literal "GET /a?b HTTP/1.1")
  obtain ⟨-, hpath, hversion, -⟩ := h.2.2 (literal "GET") (by decide) (literal "/a?b") (by decide)
    (literal "HTTP/1.1") (by decide) (by decide)
  exact ⟨h.1.mpr ⟨literal "GET", by decide, literal "/a?b", by decide,
    literal "HTTP/1.1", by decide, by decide⟩, hversion, hpath⟩

/-- A context whose request has a query and no method. -/
def staleQuery : ContextParse :=
  { ContextParse.new with request_ := { Request.new with query_ := literal "?q" } }

/-- The older query is taken for that of a target without one. -/
theorem staleQuery_kept :
    staleQuery.request_.method_ = .Invalid ∧
      (staleQuery.processRequestLine (literal "GET / HTTP/1.1")).1 = true ∧
      Request.methodString
        (staleQuery.processRequestLine (literal "GET / HTTP/1.1")).2.request_.method_ ++ 32 ::
          ((staleQuery.processRequestLine (literal "GET / HTTP/1.1")).2.request_.path_ ++
            (staleQuery.processRequestLine (literal "GET / HTTP/1.1")).2.request_.query_ ++
            32 :: literal "HTTP/1.1") ≠ literal "GET / HTTP/1.1" := by
  decide

/-! ### The lines of a request -/

/-- The first lines of a text that the parser takes for a request, and their length. -/
def Loose (text : List Byte) (n : ℕ) (last : List Byte) : Prop :=
  ∃ line headers rest, lines Buffer.kCRLF text = line :: (headers ++ last :: rest) ∧
    IsRequestLine line ∧ (∀ h ∈ headers, (58 : Byte) ∈ h) ∧ (58 : Byte) ∉ last ∧
    n = (unlines Buffer.kCRLF (line :: (headers ++ [last]))).length

theorem idxOf_ne_length_iff (line : List Byte) :
    line.idxOf 58 ≠ line.length ↔ (58 : Byte) ∈ line := by
  rw [ne_eq, List.idxOf_eq_length_iff, not_not]

section Consume

open Server

/-- The header lines are read up to the first one without a colon. -/
theorem consume_headers {headers : List (List Byte)} (hcolon : ∀ h ∈ headers, (58 : Byte) ∈ h)
    {last : List Byte} (hlast : (58 : Byte) ∉ last) (rest : List (List Byte)) (req : Request) :
    ∃ req', consume (some req) (headers ++ last :: rest) = .complete req' rest := by
  induction headers generalizing req with
  | nil =>
      rw [List.nil_append, consume, if_neg (mt (idxOf_ne_length_iff last).mp hlast)]
      exact ⟨req, rfl⟩
  | cons h headers ih =>
      rw [List.cons_append, consume,
        if_pos ((idxOf_ne_length_iff h).mpr (hcolon h List.mem_cons_self))]
      exact ih (fun h' hh' => hcolon h' (List.mem_cons_of_mem h hh')) _

theorem headers_of_consume {ls rest : List (List Byte)} {req req' : Request}
    (h : consume (some req) ls = .complete req' rest) :
    ∃ headers last, ls = headers ++ last :: rest ∧ (∀ h ∈ headers, (58 : Byte) ∈ h) ∧
      (58 : Byte) ∉ last := by
  induction ls generalizing req with
  | nil => cases h
  | cons line ls ih =>
      rw [consume] at h
      split at h
      · rename_i hcolon
        obtain ⟨headers, last, rfl, hheaders, hlast⟩ := ih h
        refine ⟨line :: headers, last, rfl, ?_, hlast⟩
        rw [List.forall_mem_cons]
        exact ⟨(idxOf_ne_length_iff line).mp hcolon, hheaders⟩
      · rename_i hcolon
        cases h
        exact ⟨[], line, rfl, by simp, mt (idxOf_ne_length_iff line).mpr hcolon⟩

/-- **One request, as lines.** -/
theorem consume_complete_iff (ls rest : List (List Byte)) :
    (∃ req, consume none ls = .complete req rest) ↔
      ∃ line headers last, ls = line :: (headers ++ last :: rest) ∧ IsRequestLine line ∧
        (∀ h ∈ headers, (58 : Byte) ∈ h) ∧ (58 : Byte) ∉ last := by
  constructor
  · rintro ⟨req, h⟩
    cases ls with
    | nil => cases h
    | cons line ls =>
        rw [consume] at h
        cases hline : requestLine line with
        | none =>
            rw [hline] at h
            cases h
        | some req₀ =>
            rw [hline] at h
            obtain ⟨headers, last, rfl, hcolon, hlast⟩ := headers_of_consume h
            exact ⟨line, headers, last, rfl, (requestLine_isSome_iff line).mp (by rw [hline]; rfl),
              hcolon, hlast⟩
  · rintro ⟨line, headers, last, rfl, hline, hcolon, hlast⟩
    obtain ⟨req, hreq⟩ := Option.isSome_iff_exists.mp ((requestLine_isSome_iff line).mpr hline)
    rw [consume, hreq]
    exact consume_headers hcolon hlast rest req

end Consume

/-! ### What the parser accepts -/

/-- What is left of a text behind some of its lines. -/
theorem drop_lines {text : List Byte} {ls rest : List (List Byte)}
    (h : lines Buffer.kCRLF text = ls ++ rest) :
    text.drop (unlines Buffer.kCRLF ls).length =
        unlines Buffer.kCRLF rest ++ leftover Buffer.kCRLF text ∧
      (unlines Buffer.kCRLF ls).length ≤ text.length := by
  have htext := unlines_lines Server.kCRLF_ne_nil text
  rw [h, unlines_append, List.append_assoc] at htext
  constructor
  · conv_lhs => rw [← htext, List.drop_left]
  · rw [← htext, List.length_append]
    exact Nat.le_add_right _ _

theorem cons_headers_cons (line last : List Byte) (headers rest : List (List Byte)) :
    line :: (headers ++ last :: rest) = (line :: (headers ++ [last])) ++ rest := by
  simp

/-- **The parser stops at the first line without a colon.** -/
theorem endsAfter_iff_loose (buf : Buffer) (n : ℕ) :
    EndsAfter buf n ↔ ∃ last, Loose buf.readable n last := by
  obtain ⟨ok, ctx, buf', hrun, hparsed⟩ := Server.parseLoop_spec
    (show Server.Tracks ContextParse.new none from ⟨rfl, rfl⟩) (Server.lines_lt_steps buf)
  have hparse : ContextParse.new.parseRequest buf = some (ok, ctx, buf') := hrun
  -- the result is unique, so `EndsAfter` speaks about this one
  have hends : EndsAfter buf n ↔ ctx.gotAll = true ∧ n ≤ buf.readable.length ∧
      buf'.readable = buf.readable.drop n := by
    rw [EndsAfter, hparse, Buffer.readableBytes_eq]
    constructor
    · rintro ⟨ok₁, ctx₁, buf₁, heq, hrest⟩
      cases heq
      exact hrest
    · exact fun hrest => ⟨ok, ctx, buf', rfl, hrest⟩
  rw [hends]
  constructor
  · rintro ⟨hgot, hn, hdrop⟩
    have hstate : ctx.state_ = .GotAll := by simpa [ContextParse.gotAll] using hgot
    cases hout : Server.consume none (lines Buffer.kCRLF buf.readable) with
    | waiting p =>
        rw [hout] at hparsed
        exact absurd hstate hparsed.2.1.state_ne
    | malformed =>
        rw [hout] at hparsed
        cases hstate.symm.trans hparsed.2
    | complete req rest =>
        rw [hout] at hparsed
        obtain ⟨-, -, -, hlines, hleft⟩ := hparsed
        obtain ⟨line, headers, last, hall, hline, hcolon, hlast⟩ :=
          (consume_complete_iff _ rest).mp ⟨req, hout⟩
        refine ⟨last, line, headers, rest, hall, hline, hcolon, hlast, ?_⟩
        obtain ⟨hbehind, hle⟩ := drop_lines (hall.trans (cons_headers_cons line last headers rest))
        have hleftover := unlines_lines Server.kCRLF_ne_nil buf'.readable
        rw [hlines, hleft, ← hbehind, hdrop] at hleftover
        have hlen := congrArg List.length hleftover
        rw [List.length_drop, List.length_drop] at hlen
        omega
  · rintro ⟨last, line, headers, rest, hall, hline, hcolon, hlast, rfl⟩
    obtain ⟨req, hout⟩ := (consume_complete_iff _ rest).mpr
      ⟨line, headers, last, hall, hline, hcolon, hlast⟩
    rw [hout] at hparsed
    obtain ⟨-, hstate, -, hlines, hleft⟩ := hparsed
    obtain ⟨hbehind, hle⟩ := drop_lines (hall.trans (cons_headers_cons line last headers rest))
    refine ⟨by simp [ContextParse.gotAll, hstate], hle, ?_⟩
    rw [hbehind, ← hlines, ← hleft]
    exact (unlines_lines Server.kCRLF_ne_nil buf'.readable).symm

/-- The grammar asks for the same lines, with an empty one at the end. -/
theorem isRequest_take_iff (text : List Byte) (n : ℕ) :
    (n ≤ text.length ∧ IsRequest (text.take n)) ↔ Loose text n [] := by
  have hunlines : ∀ (line : List Byte) (headers : List (List Byte)),
      line ++ (Buffer.kCRLF ++ ((headers.map (· ++ Buffer.kCRLF)).flatten ++ Buffer.kCRLF)) =
        unlines Buffer.kCRLF (line :: (headers ++ [[]])) := by
    intro line headers
    rw [unlines_cons, unlines_append, unlines_cons, unlines_nil, List.append_nil, List.nil_append]
    rfl
  constructor
  · rintro ⟨hn, line, headers, hline, hfree, hheaders, htake⟩
    rw [hunlines] at htake
    have hblank : ¬ Buffer.kCRLF <:+: ([] : List Byte) := by decide
    have hlines : lines Buffer.kCRLF text = (line :: (headers ++ [[]])) ++
        lines Buffer.kCRLF (text.drop n) := by
      conv_lhs => rw [← List.take_append_drop n text, htake]
      refine lines_unlines_append (by decide) (fun l hl => ?_) _
      rw [List.mem_cons, List.mem_append, List.mem_singleton] at hl
      rcases hl with rfl | hl | rfl
      · exact hfree
      · exact (hheaders l hl).2
      · exact hblank
    refine ⟨line, headers, lines Buffer.kCRLF (text.drop n), ?_, hline,
      fun h hh => (hheaders h hh).1, List.not_mem_nil, ?_⟩
    · rw [hlines, ← cons_headers_cons]
    · rw [← htake, List.length_take, Nat.min_eq_left hn]
  · rintro ⟨line, headers, rest, hall, hline, hcolon, -, rfl⟩
    have hfree : ∀ l ∈ line :: headers, ¬ Buffer.kCRLF <:+: l := by
      intro l hl
      refine not_infix_of_mem_lines Server.kCRLF_ne_nil (?_ : l ∈ lines Buffer.kCRLF text)
      rw [hall, ← List.cons_append]
      exact List.mem_append_left _ hl
    rw [cons_headers_cons] at hall
    refine ⟨(drop_lines hall).2, line, headers, hline, hfree line List.mem_cons_self,
      fun h hh => ⟨hcolon h hh, hfree h (List.mem_cons_of_mem line hh)⟩, ?_⟩
    have htext := unlines_lines Server.kCRLF_ne_nil text
    rw [hall, unlines_append, List.append_assoc] at htext
    rw [hunlines]
    conv_lhs => rw [← htext, List.take_left]

/-- The request that begins a text is the only one. -/
theorem Loose.unique {text : List Byte} {n m : ℕ} {last last' : List Byte} (h : Loose text n last)
    (h' : Loose text m last') : n = m ∧ last = last' := by
  obtain ⟨line, headers, rest, hall, -, hcolon, hlast, rfl⟩ := h
  obtain ⟨line', headers', rest', hall', -, hcolon', hlast', rfl⟩ := h'
  rw [hall, List.cons.injEq] at hall'
  obtain ⟨rfl, hsame⟩ := hall'
  obtain ⟨rfl, rfl, -⟩ := append_cons_inj_of_first hcolon hcolon' hlast hlast' hsame
  exact ⟨rfl, rfl⟩

/-- **The parser and its grammar.**  For every text: `parseRequest` ends in `GotAll` having consumed
`n` bytes exactly when the first `n` bytes are a request, if and only if the first line without a
colon behind a request line is empty. -/
theorem grammar_iff (buf : Buffer) :
    (∀ n, EndsAfter buf n ↔ n ≤ buf.readableBytes ∧ IsRequest (buf.readable.take n)) ↔
      EndsBlank buf.readable := by
  rw [Buffer.readableBytes_eq]
  simp only [endsAfter_iff_loose, isRequest_take_iff]
  constructor
  · intro h line headers last rest hall hline hcolon hlast
    have hloose : Loose buf.readable _ last :=
      ⟨line, headers, rest, hall, hline, hcolon, hlast, rfl⟩
    exact (hloose.unique ((h _).mp ⟨last, hloose⟩)).2
  · intro hblank n
    constructor
    · rintro ⟨last, line, headers, rest, hall, hline, hcolon, hlast, hn⟩
      obtain rfl := hblank line headers last rest hall hline hcolon hlast
      exact ⟨line, headers, rest, hall, hline, hcolon, hlast, hn⟩
    · exact fun h => ⟨[], h⟩

/-- A header section that ends at a line `foo`. -/
def fooEnds : Buffer := (Buffer.ofSize 64).append (literal "GET / HTTP/1.1\r\nfoo\r\nA:b\r\n\r\n")

theorem fooEnds_accepted : EndsAfter fooEnds 21 ∧ ¬ IsRequest (fooEnds.readable.take 21) := by
  have htext : fooEnds.readable = literal "GET / HTTP/1.1\r\nfoo\r\nA:b\r\n\r\n" := by
    rw [fooEnds, Buffer.readable_append, Buffer.readable_ofSize, List.nil_append]
  have hlines : lines Buffer.kCRLF fooEnds.readable = [literal "GET / HTTP/1.1", literal "foo",
      literal "A:b", []] := by
    rw [htext]
    decide +kernel
  have hloose : Loose fooEnds.readable 21 (literal "foo") := by
    refine ⟨literal "GET / HTTP/1.1", [], [literal "A:b", []], hlines,
      ?_, by simp, by decide, by decide⟩
    exact ⟨literal "GET", by decide, literal "/", by decide,
      literal "HTTP/1.1", by decide, by decide⟩
  refine ⟨(endsAfter_iff_loose fooEnds 21).mpr ⟨_, hloose⟩, fun hreq => ?_⟩
  have hstrict := (isRequest_take_iff fooEnds.readable 21).mp ⟨by rw [htext]; decide, hreq⟩
  exact absurd (hloose.unique hstrict).2 (by decide)

end Muduo.Web
