import Muduo.Net.HttpSurvival

namespace Muduo.Net.Http
open Muduo.Lib

/-- Behind the header lines with a colon comes a whole line that has none and is not empty. -/
inductive Colonless : Bytes → Prop
  | here (buf : Bytes) (n : Nat) : findCRLF buf = some n → n ≠ 0 → 58 ∉ buf.take n → Colonless buf
  | behind (buf : Bytes) (n : Nat) : findCRLF buf = some n → 58 ∈ buf.take n →
    Colonless (buf.drop (n + 2)) → Colonless buf

/-- The parser gets to such a line in `buf`, which it reads from `c` on. -/
inductive MeetsColonless (c : HttpContext) (buf : Bytes) : Prop
  | headers : c.state = .kExpectHeaders → Colonless buf → MeetsColonless c buf
  | line (n : Nat) (l : RequestLine) : c.state = .kExpectRequestLine → c.request.method = .kInvalid →
    findCRLF buf = some n → buf.take n = l.bytes → Colonless (buf.drop (n + 2)) →
    MeetsColonless c buf

/-- The next line of the headers is whole, has no colon, and is not empty. -/
def AtColonless (s : Parsing) : Prop :=
  s.context.state = .kExpectHeaders ∧ ∃ n, findCRLF s.buf = some n ∧ n ≠ 0 ∧ 58 ∉ s.buf.take n

/-- What is asked of a call: among its rounds the headers end only by an empty line, and if it
gets to another line without a colon, it returns `false` and the request is not complete. -/
structure EndsOnlyEmpty (receiveTime : Int) (c : HttpContext) (buf : Bytes) : Prop where
  moves : ∀ s t, Heads (Parsing.round receiveTime) ⟨true, c, buf⟩ s →
    s.context.state = .kExpectHeaders →
    Parsing.round receiveTime s = .ok (.done t) ∨ Parsing.round receiveTime s = .ok (.again t) →
    t.context.gotAll = true → s.buf = crlf ++ t.buf
  refuses : ∀ s, Heads (Parsing.round receiveTime) ⟨true, c, buf⟩ s → AtColonless s →
    ∃ c' rest, c.parseRequest buf receiveTime = .ok (false, c', rest) ∧ c'.gotAll = false

variable {receiveTime : Int} {c : HttpContext} {r : HttpRequest} {buf part b : Bytes} {n : Nat}
  {s t : Parsing}

theorem round_header (hst : s.context.state = .kExpectHeaders) (h : findCRLF s.buf = some n)
    (hcolon : 58 ∈ s.buf.take n) : Parsing.round receiveTime s = .ok (.again { s with
      context := { s.context with
        request := s.context.request.addHeader (s.buf.take n) ((s.buf.take n).idxOf 58) }
      buf := s.buf.drop (n + 2) }) := by
  simp only [Parsing.round, hst, h]
  exact if_pos ((colon_iff h).mpr hcolon)

theorem round_last (hst : s.context.state = .kExpectHeaders) (h : findCRLF s.buf = some n)
    (hcolon : 58 ∉ s.buf.take n) : Parsing.round receiveTime s = .ok (.done { s with
      context := { s.context with state := .kGotAll }, buf := s.buf.drop (n + 2) }) := by
  simp only [Parsing.round, hst, h]
  exact if_neg fun hne => hcolon ((colon_iff h).mp hne)

theorem round_wait (hst : s.context.state = .kExpectHeaders) (h : findCRLF s.buf = none) :
    Parsing.round receiveTime s = .ok (.done s) := by
  simp only [Parsing.round, hst, h]

/-- A round that goes on from the headers took a line with a colon. -/
theorem round_again (hst : s.context.state = .kExpectHeaders)
    (h : Parsing.round receiveTime s = .ok (.again t)) :
    t.context.state = .kExpectHeaders ∧
      ∃ n, findCRLF s.buf = some n ∧ 58 ∈ s.buf.take n ∧ t.buf = s.buf.drop (n + 2) := by
  cases hn : findCRLF s.buf with
  | none => cases (round_wait hst hn).symm.trans h
  | some n =>
    by_cases hcolon : 58 ∈ s.buf.take n
    · cases (round_header hst hn hcolon).symm.trans h
      exact ⟨hst, n, rfl, hcolon, rfl⟩
    · cases (round_last hst hn hcolon).symm.trans h

/-- From the headers on, a line without a colon that a round gets to is one of the buffer. -/
theorem heads_headers (h : Heads (Parsing.round receiveTime) s t)
    (hst : s.context.state = .kExpectHeaders) :
    t.context.state = .kExpectHeaders ∧ (Colonless t.buf → Colonless s.buf) := by
  induction h with
  | start => exact ⟨hst, id⟩
  | next _ hround ih =>
    obtain ⟨ht, hback⟩ := ih
    obtain ⟨hu, n, hn, hcolon, hbuf⟩ := round_again ht hround
    exact ⟨hu, fun hless => hback (.behind _ n hn hcolon (hbuf ▸ hless))⟩

/-- Where the headers end in a line without a colon, the request is taken to be complete. -/
theorem colonless_ends (receiveTime : Int) (h : Colonless buf) (ok : Bool) (r : HttpRequest) :
    (∃ s, Heads (Parsing.round receiveTime) ⟨ok, ⟨.kExpectHeaders, r⟩, buf⟩ s ∧ AtColonless s) ∧
      ∃ c' rest, HttpContext.parseRequest ⟨.kExpectHeaders, r⟩ buf receiveTime =
        .ok (true, c', rest) := by
  induction h generalizing r with
  | here buf n hn hne hcolon =>
    exact ⟨⟨_, .start, rfl, n, hn, hne, hcolon⟩, _, _, parse_last_line receiveTime hn hcolon⟩
  | behind buf n hn hcolon _ ih =>
    obtain ⟨⟨s, hheads, hs⟩, c', rest, hparse⟩ :=
      ih (r.addHeader (buf.take n) ((buf.take n).idxOf 58))
    exact ⟨⟨s, hheads.head (round_header (s := ⟨ok, ⟨.kExpectHeaders, r⟩, buf⟩) rfl hn hcolon), hs⟩,
      c', rest, (parse_header_line receiveTime hn hcolon).trans hparse⟩

/-- A call in which no round gets to such a line ends the headers rightly. -/
theorem ends_of_heads (h : ∀ s, Heads (Parsing.round receiveTime) ⟨true, c, buf⟩ s →
    ¬AtColonless s) : EndsOnlyEmpty receiveTime c buf := by
  refine ⟨fun s t hheads hst hround hgot => ?_, fun s hheads hs => absurd hs (h s hheads)⟩
  cases hn : findCRLF s.buf with
  | none =>
    rw [round_wait hst hn] at hround
    rcases hround with hdone | hagain
    · cases hdone
      simp [HttpContext.gotAll, hst] at hgot
    · cases hagain
  | some n =>
    by_cases hcolon : 58 ∈ s.buf.take n
    · rw [round_header hst hn hcolon] at hround
      rcases hround with hdone | hagain
      · cases hdone
      · cases hagain
        simp [HttpContext.gotAll, hst] at hgot
    · have hzero : n = 0 := by
        by_contra hne
        exact h s hheads ⟨hst, n, hn, hne, hcolon⟩
      subst hzero
      rw [round_last hst hn hcolon] at hround
      rcases hround with hdone | hagain
      · cases hdone
        exact split_line hn
      · cases hagain

/-- A call that gets to such a line and returns `true` all the same does not. -/
theorem not_ends (hs : Heads (Parsing.round receiveTime) ⟨true, c, buf⟩ s) (hat : AtColonless s)
    {c' : HttpContext} {rest : Bytes} (h : c.parseRequest buf receiveTime = .ok (true, c', rest)) :
    ¬EndsOnlyEmpty receiveTime c buf := by
  intro hends
  obtain ⟨_, _, hfalse, _⟩ := hends.refuses s hs hat
  cases h.symm.trans hfalse

theorem headers_end_iff (r : HttpRequest) (buf : Bytes) :
    EndsOnlyEmpty receiveTime ⟨.kExpectHeaders, r⟩ buf ↔ ¬Colonless buf := by
  constructor
  · intro h hless
    obtain ⟨⟨s, hheads, hs⟩, _, _, hparse⟩ := colonless_ends receiveTime hless true r
    exact not_ends hheads hs hparse h
  · intro h
    refine ends_of_heads ?_
    rintro s hheads ⟨_, n, hn, hne, hcolon⟩
    exact h ((heads_headers hheads rfl).2 (.here _ n hn hne hcolon))

/-- A fresh context goes on to the headers behind a good request line only. -/
theorem round_fresh (h : Parsing.round receiveTime ⟨true, .new, buf⟩ = .ok (.again t)) :
    ∃ n l, findCRLF buf = some n ∧ buf.take n = RequestLine.bytes l ∧
      t = ⟨true, ⟨.kExpectHeaders, { l.request with receiveTime := receiveTime }⟩,
        buf.drop (n + 2)⟩ := by
  cases hn : findCRLF buf with
  | none =>
    simp only [Parsing.round, HttpContext.new, hn] at h
    cases h
  | some n =>
    rcases HttpContext.processRequestLine_cases (buf.take n) with ⟨l, hl⟩ | ⟨_, r, _, _, hline⟩ |
      ⟨_, _, hline⟩
    · have hline := HttpContext.processRequestLine_bytes l
      rw [← hl] at hline
      simp only [Parsing.round, HttpContext.new, hn, hline, ok_bind, if_true] at h
      cases h
      exact ⟨n, l, rfl, hl, rfl⟩
    · simp only [Parsing.round, HttpContext.new, hn, hline, ok_bind, Bool.false_eq_true,
        if_false] at h
      cases h
    · simp only [Parsing.round, HttpContext.new, hn, hline, ok_bind, Bool.false_eq_true,
        if_false] at h
      cases h

theorem round_line {l : RequestLine} (hn : findCRLF buf = some n) (hl : buf.take n = l.bytes) :
    Parsing.round receiveTime ⟨true, .new, buf⟩ = .ok (.again
      ⟨true, ⟨.kExpectHeaders, { l.request with receiveTime := receiveTime }⟩,
        buf.drop (n + 2)⟩) := by
  have hline := HttpContext.processRequestLine_bytes l
  rw [← hl] at hline
  simp only [Parsing.round, HttpContext.new, hn, hline, ok_bind, if_true]

theorem fresh_end_iff (buf : Bytes) :
    EndsOnlyEmpty receiveTime .new buf ↔ ¬MeetsColonless .new buf := by
  constructor
  · rintro h (⟨hst, _⟩ | ⟨n, l, _, _, hn, hl, hless⟩)
    · cases hst
    · obtain ⟨⟨s, hheads, hs⟩, _, _, hparse⟩ := colonless_ends receiveTime hless true
        { l.request with receiveTime := receiveTime }
      exact not_ends (hheads.head (round_line hn hl)) hs
        ((parse_request_line receiveTime hn hl).trans hparse) h
  · intro h
    refine ends_of_heads ?_
    rintro s hheads ⟨hst, n, hn, hne, hcolon⟩
    rcases hheads.cases_head with rfl | ⟨t, hround, hlater⟩
    · cases hst
    · obtain ⟨n', l, hn', hl, rfl⟩ := round_fresh hround
      exact h (.line n' l rfl rfl hn' hl ((heads_headers hlater rfl).2 (.here _ n hn hne hcolon)))

/-- Wherever a context can stand, a call ends the headers rightly exactly when it does not get to
a line without a colon that is not empty. -/
theorem Stands.end_iff (h : Stands c part b) (chunk : Bytes) :
    EndsOnlyEmpty receiveTime c (b ++ chunk) ↔ ¬MeetsColonless c (b ++ chunk) := by
  cases h with
  | line => exact fresh_end_iff _
  | headers l hs time =>
    rw [headers_end_iff, not_iff_not]
    constructor
    · exact .headers rfl
    · rintro (⟨_, hless⟩ | ⟨_, _, hst⟩)
      · exact hless
      · cases hst
  | spoilt r n _ hn hspoiled =>
    have hvalid := hspoiled.method_valid
    refine iff_of_true (ends_of_heads ?_) ?_
    · rintro s hheads ⟨hst, -⟩
      rcases hheads.cases_head with rfl | ⟨t, hround, _⟩
      · cases hst
      · have hle := findCRLF_le hn
        have htake : (b ++ chunk).take n = b.take n := List.take_append_of_le_length (by omega)
        have hline := processRequestLine_asserts (htake ▸ hspoiled.space) hvalid
        simp only [Parsing.round, findCRLF_append hn chunk, hline, error_bind] at hround
        cases hround
    · rintro (⟨hst, _⟩ | ⟨_, _, _, hm, _⟩)
      · cases hst
      · exact hvalid hm

/-- In a run of the server every call ends the headers rightly exactly when none gets to a line
without a colon that is not empty. -/
theorem header_end_iff (callback : HttpCallback) (chunks : List (Bytes × Int)) :
    (∀ s chunk, Calls callback chunks s chunk →
      EndsOnlyEmpty chunk.2 s.context (s.inputBuffer ++ chunk.1)) ↔
    ∀ s chunk, Calls callback chunks s chunk →
      ¬MeetsColonless s.context (s.inputBuffer ++ chunk.1) := by
  have hcall : ∀ s chunk, Calls callback chunks s chunk →
      (EndsOnlyEmpty chunk.2 s.context (s.inputBuffer ++ chunk.1) ↔
        ¬MeetsColonless s.context (s.inputBuffer ++ chunk.1)) := by
    rintro s chunk ⟨before, later, _, hrun⟩
    obtain ⟨_, _, _, _, hstands⟩ := (run_reading hrun).pieces
    exact hstands.end_iff chunk.1
  exact ⟨fun h s chunk hs => (hcall s chunk hs).mp (h s chunk hs),
    fun h s chunk hs => (hcall s chunk hs).mpr (h s chunk hs)⟩

/-- A good request line, and a line that is neither empty nor a header. -/
def strayLine : Bytes := ascii "GET / HTTP/1.0\r\nabc\r\n"

theorem colonless_accepted : Calls defaultHttpCallback [(strayLine, 0)] .new (strayLine, 0) ∧
    ¬EndsOnlyEmpty 0 HttpServer.new.context (HttpServer.new.inputBuffer ++ strayLine) := by
  refine ⟨⟨[], [], rfl, rfl⟩, fun h => ?_⟩
  let l : RequestLine := ⟨.kGet, ascii "/", false, by simp, by decide⟩
  exact (fresh_end_iff strayLine).mp h (.line 14 l rfl rfl rfl rfl
    (.here _ 3 rfl (by decide) (by decide)))

end Muduo.Net.Http
