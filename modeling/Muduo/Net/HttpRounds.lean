import Muduo.Net.HttpRequestLine

namespace Muduo.Net.Http
open Muduo.Lib

def crlf : Bytes := [13, 10]

variable {c : HttpContext} {r : HttpRequest} {b buf : Bytes} {n : Nat} (receiveTime : Int)

/-- The last byte but the line end belongs to the line. -/
theorem split_line (h : findCRLF buf = some n) :
    buf = buf.take n ++ crlf ++ buf.drop (n + 2) := by
  have hsplit := (findCRLF_split h).2
  calc buf = buf.take (n + 2) ++ buf.drop (n + 2) := (List.take_append_drop _ _).symm
    _ = buf.take n ++ crlf ++ buf.drop (n + 2) := by rw [hsplit]; rfl

theorem take_length (h : findCRLF buf = some n) : (buf.take n).length = n := by
  have := findCRLF_le h
  rw [List.length_take]
  omega

/-- A line without a colon is one where the search for it comes to the end. -/
theorem colon_iff (h : findCRLF buf = some n) : (buf.take n).idxOf 58 ≠ n ↔ 58 ∈ buf.take n := by
  have hlen := take_length h
  rw [← not_iff_not, not_not]
  constructor
  · intro he
    exact List.idxOf_eq_length_iff.mp (he.trans hlen.symm)
  · intro hno
    exact (List.idxOf_eq_length_iff.mpr hno).trans hlen

/-- With no whole line there is nothing to do yet. -/
theorem parse_wait (hst : c.state = .kExpectRequestLine ∨ c.state = .kExpectHeaders)
    (hb : findCRLF b = none) : c.parseRequest b receiveTime = .ok (true, c, b) := by
  rw [HttpContext.parseRequest.eq_def]
  rcases hst with hst | hst <;> rw [hst] <;> simp only <;> split
  · rename_i hsome
    exact absurd (hb.symm.trans hsome) (by simp)
  · rfl
  · rename_i hsome
    exact absurd (hb.symm.trans hsome) (by simp)
  · rfl

theorem parse_request_line (h : findCRLF buf = some n) {l : RequestLine} (hl : buf.take n = l.bytes) :
    HttpContext.parseRequest .new buf receiveTime =
      HttpContext.parseRequest ⟨.kExpectHeaders, { l.request with receiveTime := receiveTime }⟩
        (buf.drop (n + 2)) receiveTime := by
  have hprocess := HttpContext.processRequestLine_bytes l
  rw [← hl] at hprocess
  rw [HttpContext.parseRequest.eq_def]
  simp only [HttpContext.new]
  split
  · rename_i n' hsome
    obtain rfl := Option.some.inj (h.symm.trans hsome)
    rw [hprocess]
  · rename_i hnone
    cases h.symm.trans hnone

theorem parse_refused (h : findCRLF buf = some n) {r r' : HttpRequest}
    (hline : HttpContext.processRequestLine r (buf.take n) = .ok (false, r')) :
    HttpContext.parseRequest ⟨.kExpectRequestLine, r⟩ buf receiveTime =
      .ok (false, ⟨.kExpectRequestLine, r'⟩, buf) := by
  rw [HttpContext.parseRequest.eq_def]
  simp only
  split
  · rename_i n' hsome
    obtain rfl := Option.some.inj (h.symm.trans hsome)
    rw [hline]
  · rename_i hnone
    cases h.symm.trans hnone

theorem parse_header_line (h : findCRLF buf = some n) (hcolon : 58 ∈ buf.take n) :
    HttpContext.parseRequest ⟨.kExpectHeaders, r⟩ buf receiveTime =
      HttpContext.parseRequest
        ⟨.kExpectHeaders, r.addHeader (buf.take n) ((buf.take n).idxOf 58)⟩ (buf.drop (n + 2))
        receiveTime := by
  rw [HttpContext.parseRequest.eq_def]
  simp only
  split
  · rename_i n' hsome
    obtain rfl := Option.some.inj (h.symm.trans hsome)
    rw [if_pos ((colon_iff h).mpr hcolon)]
  · rename_i hnone
    cases h.symm.trans hnone

theorem parse_last_line (h : findCRLF buf = some n) (hcolon : 58 ∉ buf.take n) :
    HttpContext.parseRequest ⟨.kExpectHeaders, r⟩ buf receiveTime =
      .ok (true, ⟨.kGotAll, r⟩, buf.drop (n + 2)) := by
  rw [HttpContext.parseRequest.eq_def]
  simp only
  split
  · rename_i n' hsome
    obtain rfl := Option.some.inj (h.symm.trans hsome)
    rw [if_neg fun hne => hcolon ((colon_iff h).mp hne)]
  · rename_i hnone
    cases h.symm.trans hnone

end Muduo.Net.Http
