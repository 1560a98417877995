import Mathlib.Data.List.DropRight
import Mathlib.Logic.Function.Basic
import Muduo.Net.Basic

namespace Muduo.Net.Http
open Muduo.Lib

inductive Method
  | kInvalid
  | kGet
  | kPost
  | kHead
  | kPut
  | kDelete
  deriving DecidableEq, Repr

inductive Version
  | kUnknown
  | kHttp10
  | kHttp11
  deriving DecidableEq, Repr

/-- `methodString`. -/
def Method.string : Method → Bytes
  | .kInvalid => ascii "UNKNOWN"
  | .kGet => ascii "GET"
  | .kPost => ascii "POST"
  | .kHead => ascii "HEAD"
  | .kPut => ascii "PUT"
  | .kDelete => ascii "DELETE"

/-- How `parseRequest` ends other than by returning: a failed assertion, or its loop never
ends. -/
inductive ParseFault
  | assertion
  | endless
  deriving DecidableEq, Repr

/-- `headers` is looked up by name; a time is in microseconds. -/
structure HttpRequest where
  method : Method
  version : Version
  path : Bytes
  query : Bytes
  receiveTime : Int
  headers : Bytes → Option Bytes

namespace HttpRequest

def new : HttpRequest := ⟨.kInvalid, .kUnknown, [], [], 0, fun _ => none⟩

variable (r : HttpRequest)

/-- `setMethod`, whose result is whether the method is valid. -/
def setMethod (m : Bytes) : Except ParseFault HttpRequest :=
  if r.method = .kInvalid then
    .ok { r with
      method :=
        if m = ascii "GET" then .kGet
        else if m = ascii "POST" then .kPost
        else if m = ascii "HEAD" then .kHead
        else if m = ascii "PUT" then .kPut
        else if m = ascii "DELETE" then .kDelete
        else .kInvalid }
  else .error .assertion

/-- `setPath` and `setQuery` on the two sides of the question mark. -/
def setTarget (target : Bytes) : HttpRequest :=
  let question := target.idxOf 63
  if question ≠ target.length then
    { r with path := target.take question, query := target.drop question }
  else { r with path := target }

def isspace (b : UInt8) : Bool := b = 32 ∨ (9 ≤ b ∧ b ≤ 13)

/-- `addHeader` on a line whose colon is at `colon`. -/
def addHeader (line : Bytes) (colon : Nat) : HttpRequest :=
  let field := line.take colon
  let value := ((line.drop (colon + 1)).dropWhile isspace).rdropWhile isspace
  { r with headers := Function.update r.headers field (some value) }

def getHeader (field : Bytes) : Bytes := (r.headers field).getD []

end HttpRequest

inductive HttpRequestParseState
  | kExpectRequestLine
  | kExpectHeaders
  | kExpectBody
  | kGotAll
  deriving DecidableEq, Repr

structure HttpContext where
  state : HttpRequestParseState
  request : HttpRequest

/-- `Buffer::findCRLF`. -/
def findCRLF : Bytes → Option Nat
  | [] => none
  | b :: rest =>
    if b = 13 ∧ rest.head? = some 10 then some 0 else (findCRLF rest).map (· + 1)

theorem findCRLF_le {buf : Bytes} {crlf : Nat} (h : findCRLF buf = some crlf) :
    crlf + 2 ≤ buf.length := by
  induction buf generalizing crlf with
  | nil => exact nomatch h
  | cons b rest ih =>
    rw [findCRLF] at h
    split at h
    · rename_i hb
      obtain rfl := Option.some.inj h
      cases rest with
      | nil => exact nomatch hb.2
      | cons b' rest =>
        rw [List.length_cons, List.length_cons]
        omega
    · obtain ⟨n, hn, rfl⟩ := Option.map_eq_some_iff.mp h
      have := ih hn
      rw [List.length_cons]
      omega

theorem findCRLF_append {buf : Bytes} {crlf : Nat} (h : findCRLF buf = some crlf) (more : Bytes) :
    findCRLF (buf ++ more) = some crlf := by
  induction buf generalizing crlf with
  | nil => exact nomatch h
  | cons b rest ih =>
    rw [findCRLF] at h
    rw [List.cons_append, findCRLF]
    split at h
    · rename_i hb
      cases rest with
      | nil => exact nomatch hb.2
      | cons b' rest => rw [if_pos ⟨hb.1, hb.2⟩, h]
    · rename_i hb
      obtain ⟨n, hn, rfl⟩ := Option.map_eq_some_iff.mp h
      cases rest with
      | nil => exact nomatch hn
      | cons b' rest =>
        have hb' : ¬(b = 13 ∧ (b' :: rest ++ more).head? = some 10) := hb
        rw [if_neg hb', ih hn, Option.map_some]

theorem findCRLF_prefix {buf part : Bytes} (h : findCRLF buf = none) (hp : part <+: buf) :
    findCRLF part = none := by
  obtain ⟨more, rfl⟩ := hp
  cases hpart : findCRLF part with
  | none => rfl
  | some crlf => cases (findCRLF_append hpart more).symm.trans h

/-- The end of a text is found behind it. -/
theorem findCRLF_text {text : Bytes} (h : findCRLF text = none) (rest : Bytes) :
    findCRLF (text ++ 13 :: 10 :: rest) = some text.length := by
  induction text with
  | nil => rfl
  | cons b text ih =>
    rw [findCRLF] at h
    split at h
    · cases h
    · rename_i hb
      have hhead : ¬(b = 13 ∧ (text ++ 13 :: 10 :: rest).head? = some 10) := by
        rintro ⟨h13, h10⟩
        cases text with
        | nil => simp at h10
        | cons b' text => exact hb ⟨h13, h10⟩
      rw [List.cons_append, findCRLF, if_neg hhead, ih (Option.map_eq_none_iff.mp h)]
      rfl

theorem findCRLF_cr {text : Bytes} (h : findCRLF text = none) :
    findCRLF (text ++ [13]) = none := by
  induction text with
  | nil => rfl
  | cons b text ih =>
    rw [findCRLF] at h
    split at h
    · cases h
    · rename_i hb
      have hhead : ¬(b = 13 ∧ (text ++ [13]).head? = some 10) := by
        rintro ⟨h13, h10⟩
        cases text with
        | nil => simp at h10
        | cons b' text => exact hb ⟨h13, h10⟩
      rw [List.cons_append, findCRLF, if_neg hhead, ih (Option.map_eq_none_iff.mp h)]
      rfl

/-- A text whose end has not come is not found. -/
theorem findCRLF_unended {text part : Bytes} (h : findCRLF text = none)
    (hp : part <+: text ++ [13, 10]) (hlen : part.length < text.length + 2) :
    findCRLF part = none := by
  have happ : text ++ [13, 10] = (text ++ [13]) ++ [10] := by simp
  have hcr : part <+: text ++ [13] := by
    refine List.prefix_of_prefix_length_le hp (happ ▸ List.prefix_append _ _) ?_
    simp only [List.length_append, List.length_singleton]
    omega
  exact findCRLF_prefix (findCRLF_cr h) hcr

/-- What is found is the first end of a line. -/
theorem findCRLF_split {buf : Bytes} {crlf : Nat} (h : findCRLF buf = some crlf) :
    findCRLF (buf.take crlf) = none ∧ buf.take (crlf + 2) = buf.take crlf ++ [13, 10] := by
  induction buf generalizing crlf with
  | nil => exact nomatch h
  | cons b rest ih =>
    rw [findCRLF] at h
    split at h
    · rename_i hb
      obtain rfl := Option.some.inj h
      cases rest with
      | nil => exact nomatch hb.2
      | cons b' rest =>
        obtain rfl := hb.1
        obtain rfl := Option.some.inj hb.2
        exact ⟨rfl, rfl⟩
    · rename_i hb
      obtain ⟨n, hn, rfl⟩ := Option.map_eq_some_iff.mp h
      obtain ⟨hnone, htake⟩ := ih hn
      have hhead : ¬(b = 13 ∧ (rest.take n).head? = some 10) := by
        rintro ⟨h13, h10⟩
        cases rest with
        | nil => simp at h10
        | cons b' rest =>
          cases n with
          | zero => simp at h10
          | succ n => exact hb ⟨h13, h10⟩
      refine ⟨?_, ?_⟩
      · rw [List.take_succ_cons, findCRLF, if_neg hhead, hnone, Option.map_none]
      · rw [Nat.add_right_comm, List.take_succ_cons, htake, List.take_succ_cons, List.cons_append]


namespace HttpContext

def new : HttpContext := ⟨.kExpectRequestLine, .new⟩

def gotAll (c : HttpContext) : Bool := c.state = .kGotAll

def processRequestLine (request : HttpRequest) (line : Bytes) :
    Except ParseFault (Bool × HttpRequest) :=
  let space := line.idxOf 32
  if space ≠ line.length then do
    let request ← request.setMethod (line.take space)
    if request.method ≠ .kInvalid then
      let start := space + 1
      let space := start + (line.drop start).idxOf 32
      if space ≠ line.length then
        let request := request.setTarget ((line.drop start).take (space - start))
        let version := line.drop (space + 1)
        if version.length = 8 ∧ version.take 7 = ascii "HTTP/1." then
          if version.getD 7 0 = 49 then .ok (true, { request with version := .kHttp11 })
          else if version.getD 7 0 = 48 then .ok (true, { request with version := .kHttp10 })
          else .ok (false, request)
        else .ok (false, request)
      else .ok (false, request)
    else .ok (false, request)
  else .ok (false, request)

/-- `parseRequest` on the readable bytes of `buf`: what it returns, the context, and the bytes
it leaves. In the last two states nothing lets the loop end. -/
def parseRequest (c : HttpContext) (buf : Bytes) (receiveTime : Int) :
    Except ParseFault (Bool × HttpContext × Bytes) :=
  match c.state with
  | .kExpectRequestLine =>
    match h : findCRLF buf with
    | some crlf =>
      match processRequestLine c.request (buf.take crlf) with
      | .error fault => .error fault
      | .ok (true, request) =>
        have := findCRLF_le h
        parseRequest ⟨.kExpectHeaders, { request with receiveTime := receiveTime }⟩
          (buf.drop (crlf + 2)) receiveTime
      | .ok (false, request) => .ok (false, { c with request := request }, buf)
    | none => .ok (true, c, buf)
  | .kExpectHeaders =>
    match h : findCRLF buf with
    | some crlf =>
      let line := buf.take crlf
      let colon := line.idxOf 58
      if colon ≠ crlf then
        have := findCRLF_le h
        parseRequest { c with request := c.request.addHeader line colon } (buf.drop (crlf + 2))
          receiveTime
      else .ok (true, { c with state := .kGotAll }, buf.drop (crlf + 2))
    | none => .ok (true, c, buf)
  | .kExpectBody | .kGotAll => .error .endless
termination_by buf.length
decreasing_by all_goals (simp only [List.length_drop]; omega)

end HttpContext

end Muduo.Net.Http
