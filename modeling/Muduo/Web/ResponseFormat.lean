import Muduo.Lib.Lines
import Muduo.Web.Server

/-!
# The format of a response

An HTTP/1.1 response is a status line `HTTP/1.1 SP 3DIGIT SP reason`, header lines `name: value`,
an empty line and the body.  `decode` reads that grammar.  `appendToBuffer` prints the status
message right behind the code, with no space between them, and misspells the field that would give
the length of the body.

* `decode`, `headerSection` — a decoder of the grammar, written from the grammar alone;
* `Printable` — the responses whose parts contain no separator of their own;
* `decode_text` — what the decoder makes of a printed response;
* `response_not_decodable` — the message is never recovered, and the length of the body is given
  only by a header the user set.
-/

namespace Muduo.Web

open Muduo.Lib Muduo.Net

/-! ### A decoder of the grammar -/

structure HttpMessage where
  code : ℕ
  reason : List Byte
  headers : List (List Byte × List Byte)
  body : List Byte
  deriving DecidableEq

namespace HttpMessage

def isDigit (b : Byte) : Bool := 48 ≤ b ∧ b ≤ 57

/-- `HTTP/1.1 SP 3DIGIT SP reason`. -/
def decodeStatusLine (text : List Byte) : Option (ℕ × List Byte) :=
  let digits := (text.drop 9).take 3
  if text.take 9 = literal "HTTP/1.1 " ∧ digits.length = 3 ∧ digits.all isDigit ∧
    text[12]? = some 32 then
    some (digits.foldl (fun n b => 10 * n + (b.toNat - 48)) 0, text.drop 13)
  else none

/-- `name: value`. -/
def decodeHeaderLine (text : List Byte) : Option (List Byte × List Byte) :=
  let colon := text.idxOf 58
  if text[colon + 1]? = some 32 then some (text.take colon, text.drop (colon + 2)) else none

/-- Header lines up to the empty line, and what follows it. -/
def decodeHeaders : ℕ → List Byte → Option (List (List Byte × List Byte) × List Byte)
  | 0, _ => none
  | n + 1, text =>
      match search Buffer.kCRLF text with
      | none => none
      | some i =>
          if text.take i = [] then some ([], text.drop (i + 2))
          else
            match decodeHeaderLine (text.take i), decodeHeaders n (text.drop (i + 2)) with
            | some h, some (hs, body) => some (h :: hs, body)
            | _, _ => none

/-- The header section and the body of a message: what follows its first line. -/
def headerSection (text : List Byte) : Option (List (List Byte × List Byte) × List Byte) :=
  match search Buffer.kCRLF text with
  | none => none
  | some i => decodeHeaders text.length (text.drop (i + 2))

def decode (text : List Byte) : Option HttpMessage :=
  match search Buffer.kCRLF text with
  | none => none
  | some i =>
      match decodeStatusLine (text.take i), headerSection text with
      | some (code, reason), some (headers, body) => some ⟨code, reason, headers, body⟩
      | _, _ => none

end HttpMessage

open HttpMessage

/-! ### What a client should recover -/

/-- Field names do not distinguish upper and lower case. -/
def lower (b : Byte) : Byte := if 65 ≤ b ∧ b ≤ 90 then b + 32 else b

def sameName (name name' : List Byte) : Bool := name.map lower = name'.map lower

/-- A field that gives the length of the body. -/
def isContentLength (body : List Byte) (header : List Byte × List Byte) : Bool :=
  sameName header.1 (literal "Content-Length") && header.2 = charBytes (formatNat body.length)

namespace Response

/-- The bytes `appendToBuffer` adds to a buffer. -/
def appended (r : Response) (output : Buffer) : List Byte :=
  (r.appendToBuffer output).readable.drop output.readable.length

/-- The decoder recovers the status code, the message, every header and the body. -/
def recovered (r : Response) (bytes : List Byte) : Bool :=
  match decode bytes with
  | none => false
  | some m => m.code = r.status_code_.toNat && m.reason = r.status_message_ &&
      r.headers_.all (· ∈ m.headers) && m.body = r.body_

/-- On a connection that is kept the header section gives the length of the body. -/
def lengthGiven (r : Response) (bytes : List Byte) : Bool :=
  r.close_connection_ ||
    match headerSection bytes with
    | none => false
    | some (headers, _) => headers.any (isContentLength r.body_)

structure Printable (r : Response) : Prop where
  code : 100 ≤ r.status_code_.toNat ∧ r.status_code_.toNat ≤ 999
  message_cr : (13 : Byte) ∉ r.status_message_
  message_lf : (10 : Byte) ∉ r.status_message_
  name_colon : ∀ h ∈ r.headers_, (58 : Byte) ∉ h.1
  name_cr : ∀ h ∈ r.headers_, (13 : Byte) ∉ h.1
  name_lf : ∀ h ∈ r.headers_, (10 : Byte) ∉ h.1
  value_cr : ∀ h ∈ r.headers_, (13 : Byte) ∉ h.2
  value_lf : ∀ h ∈ r.headers_, (10 : Byte) ∉ h.2
  body : r.body_.length < 10 ^ 12

variable {r : Response}

theorem appended_eq (r : Response) (output : Buffer) : r.appended output = r.text := by
  rw [appended, readable_appendToBuffer, List.drop_left]

/-! ### Decoding header lines -/

theorem digit_notMem {b : Byte} (h : ∀ c : Char, c.isDigit → b ≠ UInt8.ofNat c.toNat) (n : ℕ) :
    b ∉ charBytes (formatNat n) := by
  intro hm
  obtain ⟨c, hc, hb⟩ := List.mem_map.mp hm
  exact h c (Nat.isDigit_of_mem_toDigits (by decide) (by decide) hc) hb.symm

/-- The fields `appendToBuffer` prints before the headers of the user. -/
def fixedHeaders (r : Response) : List (List Byte × List Byte) :=
  if r.close_connection_ then [(literal "Connection", literal "close")]
  else [(literal "Content-Lenght", charBytes (formatNat r.body_.length)),
    (literal "Connection", literal "Keep-Alive")]

/-- The array of 32 characters holds the length of any body that fits in memory. -/
theorem connectionLines_eq (h : r.body_.length < 10 ^ 12) :
    r.connectionLines = (r.fixedHeaders.map headerLine).flatten := by
  have hlen : (formatNat r.body_.length).length ≤ 12 := formatNat_length (by decide) h
  unfold connectionLines fixedHeaders
  split
  · rfl
  · rw [snprintf, List.take_of_length_le]
    · simp only [List.map_cons, List.map_nil, List.flatten_cons, List.flatten_nil,
        headerLine, charBytes, List.map_append, List.append_assoc, List.append_nil]
      rfl
    · simp only [List.length_append]
      have h₁ : "Content-Lenght: ".toList.length = 16 := rfl
      have h₂ : "\r\n".toList.length = 2 := rfl
      omega

theorem decodeHeaderLine_eq {h : List Byte × List Byte} (hcolon : (58 : Byte) ∉ h.1) :
    decodeHeaderLine (h.1 ++ 58 :: 32 :: h.2) = some h := by
  have hidx : (h.1 ++ 58 :: 32 :: h.2).idxOf 58 = h.1.length := idxOf_append_cons hcolon _
  have hget : (h.1 ++ 58 :: 32 :: h.2)[h.1.length + 1]? = some 32 := by
    rw [← List.head?_drop, drop_append_cons, List.head?_cons]
  have hdrop : (h.1 ++ 58 :: 32 :: h.2).drop (h.1.length + 2) = h.2 := by
    rw [show h.1.length + 2 = h.1.length + 1 + 1 from rfl, ← List.drop_drop, drop_append_cons,
      List.drop_succ_cons, List.drop_zero]
  rw [decodeHeaderLine, hidx, if_pos hget, List.take_left, hdrop]

/-- **Printed header lines are decoded.** -/
theorem decodeHeaders_eq (hs : List (List Byte × List Byte)) (body : List Byte) {n : ℕ}
    (hcolon : ∀ h ∈ hs, (58 : Byte) ∉ h.1) (hname : ∀ h ∈ hs, (13 : Byte) ∉ h.1)
    (hvalue : ∀ h ∈ hs, (13 : Byte) ∉ h.2) (hn : hs.length < n) :
    decodeHeaders n ((hs.map headerLine).flatten ++ ([13, 10] ++ body)) = some (hs, body) := by
  induction hs generalizing n with
  | nil =>
      obtain ⟨n, rfl⟩ := Nat.exists_eq_succ_of_ne_zero (Nat.ne_of_gt (Nat.zero_lt_of_lt hn))
      obtain ⟨hfind, htake, hdrop⟩ :=
        search_line (q := (10 : Byte)) (List.not_mem_nil (a := (13 : Byte))) body
      show decodeHeaders (n + 1) ([] ++ ([13, 10] ++ body)) = _
      simp only [decodeHeaders, Buffer.kCRLF, hfind, htake, hdrop, if_true]
  | cons h hs ih =>
      obtain ⟨n, rfl⟩ := Nat.exists_eq_succ_of_ne_zero (Nat.ne_of_gt (Nat.zero_lt_of_lt hn))
      have hcr : (13 : Byte) ∉ h.1 ++ 58 :: 32 :: h.2 := by
        have h₁ : ¬ (13 : Byte) = 58 := by decide
        have h₂ : ¬ (13 : Byte) = 32 := by decide
        simp only [List.mem_append, List.mem_cons, hname h List.mem_cons_self,
          hvalue h List.mem_cons_self, h₁, h₂, or_self, not_false_eq_true]
      obtain ⟨hfind, htake, hdrop⟩ := search_line (q := 10) hcr
        ((hs.map headerLine).flatten ++ ([13, 10] ++ body))
      have htext : ((h :: hs).map headerLine).flatten ++ ([13, 10] ++ body) =
          (h.1 ++ 58 :: 32 :: h.2) ++ ([13, 10] ++
            ((hs.map headerLine).flatten ++ ([13, 10] ++ body))) := by
        rw [List.map_cons, List.flatten_cons, headerLine]
        simp only [List.append_assoc]
        rfl
      have hrest := ih (fun x hx => hcolon x (List.mem_cons_of_mem _ hx))
        (fun x hx => hname x (List.mem_cons_of_mem _ hx))
        (fun x hx => hvalue x (List.mem_cons_of_mem _ hx)) (Nat.lt_of_succ_lt_succ hn)
      rw [htext]
      simp only [decodeHeaders, Buffer.kCRLF, hfind, htake, hdrop, hrest,
        decodeHeaderLine_eq (hcolon h List.mem_cons_self)]
      exact if_neg (by simp)

/-! ### Decoding a printed response -/

/-- The first line without its CRLF. -/
def firstLine (r : Response) : List Byte :=
  literal "HTTP/1.1 " ++ charBytes (formatNat r.status_code_.toNat) ++ r.status_message_

theorem statusLine_eq (r : Response) : r.statusLine = r.firstLine ++ literal "\r\n" := by
  have hcode : r.status_code_.toNat < 10 ^ 3 := by cases r.status_code_ <;> decide
  have hlen : (formatNat r.status_code_.toNat).length ≤ 3 := formatNat_length (by decide) hcode
  have hfit : ("HTTP/1.1 ".toList ++ formatNat r.status_code_.toNat).length ≤ 32 - 1 := by
    have h₁ : "HTTP/1.1 ".toList.length = 9 := rfl
    rw [List.length_append]
    omega
  rw [statusLine, firstLine, snprintf, List.take_of_length_le hfit, charBytes, List.map_append]
  rfl

theorem firstLine_cr (h : Printable r) : (13 : Byte) ∉ r.firstLine := by
  have hcode : (13 : Byte) ∉ charBytes (formatNat r.status_code_.toNat) := by
    cases r.status_code_ <;> decide
  have hfix : (13 : Byte) ∉ literal "HTTP/1.1 " := by decide
  simp only [firstLine, List.mem_append, hcode, hfix, h.message_cr, or_self, not_false_eq_true]

/-- What follows a leading space. -/
def afterSpace : List Byte → Option (List Byte)
  | 32 :: reason => some reason
  | _ => none

theorem afterSpace_of_ne {b : Byte} (h : b ≠ 32) (message : List Byte) :
    afterSpace (b :: message) = none := by
  unfold afterSpace
  split
  · rename_i heq
    exact absurd (List.cons.inj heq).1 h
  · rfl

/-- The message itself is not what follows its leading space. -/
theorem afterSpace_ne_self (message : List Byte) : afterSpace message ≠ some message := by
  intro h
  cases message with
  | nil => cases h
  | cons b message =>
      by_cases hb : b = 32
      · subst hb
        have := congrArg List.length (Option.some.inj h)
        rw [List.length_cons] at this
        omega
      · rw [afterSpace_of_ne hb] at h
        cases h

/-- The status line is in the grammar exactly when the message starts with a space, which the
decoder takes for the separator. -/
theorem decodeStatusLine_firstLine (h : Printable r) : decodeStatusLine r.firstLine =
    (afterSpace r.status_message_).map fun reason => (r.status_code_.toNat, reason) := by
  have hcode := h.code.1
  unfold firstLine
  cases hc : r.status_code_ with
  | Unknow =>
      rw [hc] at hcode
      exact absurd hcode (by decide)
  | S200Ok | S301MovedPermanently | S400BadRequest | S404NotFound =>
      cases r.status_message_ with
      | nil => rfl
      | cons b reason =>
          by_cases hb : b = 32
          · subst hb
            rfl
          · have hget : ∀ l : List Byte, l.length = 12 → (l ++ b :: reason)[12]? = some b := by
              intro l hl
              rw [List.getElem?_append_right (by omega), hl]
              rfl
            rw [afterSpace_of_ne hb, decodeStatusLine, if_neg]
            · rfl
            · rw [hget _ rfl]
              simp [hb]

theorem printed_fixedHeaders (r : Response) : ∀ h ∈ r.fixedHeaders,
    (58 : Byte) ∉ h.1 ∧ (13 : Byte) ∉ h.1 ∧ (13 : Byte) ∉ h.2 := by
  have hdigits : (13 : Byte) ∉ charBytes (formatNat r.body_.length) := by
    refine digit_notMem (fun c hc heq => ?_) _
    have := congrArg UInt8.toNat heq
    simp only [Char.isDigit, Bool.and_eq_true, decide_eq_true_eq] at hc
    have hle : c.toNat ≤ 57 := hc.2
    have hge : 48 ≤ c.toNat := hc.1
    rw [UInt8.toNat_ofNat', Nat.mod_eq_of_lt (by omega)] at this
    have h13 : (13 : Byte).toNat = 13 := rfl
    omega
  intro h hm
  unfold fixedHeaders at hm
  split at hm
  · obtain rfl := List.mem_singleton.mp hm
    decide
  · rcases List.mem_cons.mp hm with rfl | hm
    · exact ⟨show (58 : Byte) ∉ literal "Content-Lenght" by decide,
        show (13 : Byte) ∉ literal "Content-Lenght" by decide, hdigits⟩
    · obtain rfl := List.mem_singleton.mp hm
      decide

theorem text_eq (h : Printable r) : r.text = r.firstLine ++ ([13, 10] ++
    (((r.fixedHeaders ++ r.headers_).map headerLine).flatten ++ ([13, 10] ++ r.body_))) := by
  rw [text, statusLine_eq, connectionLines_eq h.body, List.map_append, List.flatten_append]
  simp only [List.append_assoc]
  rfl

theorem headerSection_text (h : Printable r) :
    headerSection r.text = some (r.fixedHeaders ++ r.headers_, r.body_) := by
  obtain ⟨hfind, -, hdrop⟩ := search_line (q := 10) (firstLine_cr h)
    (((r.fixedHeaders ++ r.headers_).map headerLine).flatten ++ ([13, 10] ++ r.body_))
  have hfix := printed_fixedHeaders r
  have hlen : (r.fixedHeaders ++ r.headers_).length < r.text.length := by
    refine lt_of_le_of_lt (length_le_flatten_map (f := headerLine) (fun x => ?_) _) ?_
    · exact List.append_ne_nil_of_right_ne_nil _ (by decide)
    · rw [text_eq h]
      simp only [List.length_append, List.length_cons]
      omega
  rw [headerSection, text_eq h, Buffer.kCRLF, hfind]
  show decodeHeaders _ (List.drop _ _) = _
  rw [hdrop, ← text_eq h]
  refine decodeHeaders_eq _ _ (fun x hx => ?_) (fun x hx => ?_) (fun x hx => ?_) hlen
  · exact (List.mem_append.mp hx).elim (fun hx => (hfix x hx).1) (h.name_colon x)
  · exact (List.mem_append.mp hx).elim (fun hx => (hfix x hx).2.1) (h.name_cr x)
  · exact (List.mem_append.mp hx).elim (fun hx => (hfix x hx).2.2) (h.value_cr x)

/-- **What the decoder makes of a printed response.** -/
theorem decode_text (h : Printable r) : decode r.text =
    (afterSpace r.status_message_).map fun reason =>
      ⟨r.status_code_.toNat, reason, r.fixedHeaders ++ r.headers_, r.body_⟩ := by
  obtain ⟨hfind, htake, -⟩ := search_line (q := 10) (firstLine_cr h)
    (((r.fixedHeaders ++ r.headers_).map headerLine).flatten ++ ([13, 10] ++ r.body_))
  rw [← text_eq h] at hfind htake
  simp only [decode, Buffer.kCRLF, hfind, htake, decodeStatusLine_firstLine h, headerSection_text h]
  cases afterSpace r.status_message_ with
  | none => rfl
  | some reason => rfl

/-- The misspelt field is not a length. -/
theorem any_fixedHeaders (r : Response) (body : List Byte) :
    r.fixedHeaders.any (isContentLength body) = false := by
  have hname : ∀ value, isContentLength body (literal "Content-Lenght", value) = false ∧
      isContentLength body (literal "Connection", value) = false := by
    intro value
    have h₁ : sameName (literal "Content-Lenght") (literal "Content-Length") = false := by decide
    have h₂ : sameName (literal "Connection") (literal "Content-Length") = false := by decide
    simp only [isContentLength, h₁, h₂, Bool.false_and, and_self]
  unfold fixedHeaders
  split
  · simp [hname]
  · simp [hname]

end Response

/-- **A printed response is not the message it stands for.**  Whatever the response and the buffer
it is printed into, the decoder does not recover the status message: it accepts the bytes only when
the message starts with a space, and takes that space away.  On a connection that is kept, the
header section gives the length of the body only if the user set such a header. -/
theorem response_not_decodable (r : Response) (h : r.Printable) (output : Buffer) :
    r.recovered (r.appended output) = false ∧
    decode (r.appended output) = (Response.afterSpace r.status_message_).map (fun reason =>
      ⟨r.status_code_.toNat, reason, r.fixedHeaders ++ r.headers_, r.body_⟩) ∧
    (r.lengthGiven (r.appended output) = true ↔
      r.close_connection_ = true ∨ r.headers_.any (isContentLength r.body_) = true) := by
  rw [Response.appended_eq]
  refine ⟨?_, Response.decode_text h, ?_⟩
  · have hself := Response.afterSpace_ne_self r.status_message_
    rw [Response.recovered, Response.decode_text h]
    cases hm : Response.afterSpace r.status_message_ with
    | none => rfl
    | some reason =>
        have hne : reason ≠ r.status_message_ := fun heq => hself (heq ▸ hm)
        simp [hne]
  · rw [Response.lengthGiven, Response.headerSection_text h, Bool.or_eq_true]
    show _ ∨ (r.fixedHeaders ++ r.headers_).any _ = true ↔ _
    rw [List.any_append, Response.any_fixedHeaders, Bool.false_or]

/-- `200 OK` with a body, on a connection that is kept. -/
def okResponse : Response where
  headers_ := [(literal "Server", literal "Naive Server")]
  status_code_ := .S200Ok
  status_message_ := literal "OK"
  close_connection_ := false
  body_ := literal "Hello, world!"

theorem okResponse_printable : okResponse.Printable := by
  constructor <;> decide

/-- The first line reads `HTTP/1.1 200OK`, and no field gives the length of the body. -/
theorem okResponse_misprinted :
    okResponse.recovered (okResponse.appended (.ofSize 0)) = false ∧
    okResponse.lengthGiven (okResponse.appended (.ofSize 0)) = false ∧
    (okResponse.appended (.ofSize 0)).take 14 = literal "HTTP/1.1 200OK" := by
  decide +kernel

theorem okResponse_not_decodable : okResponse.recovered (okResponse.appended (.ofSize 0)) = false :=
  (response_not_decodable okResponse okResponse_printable (.ofSize 0)).1

end Muduo.Web
