import Muduo.Lib.Loop
import Muduo.Net.HttpRounds

namespace Muduo.Net.Http
open Muduo.Lib

/-- `parseRequest` where a round of its loop begins. -/
structure Parsing where
  ok : Bool
  context : HttpContext
  buf : Bytes

namespace Parsing

/-- The body of the loop of `parseRequest`; `hasMore` is cleared where the round is the last. -/
def round (receiveTime : Int) (s : Parsing) : Except ParseFault (Turn Parsing) :=
  match s.context.state with
  | .kExpectRequestLine =>
    match findCRLF s.buf with
    | some crlf => do
      let (ok, request) ← HttpContext.processRequestLine s.context.request (s.buf.take crlf)
      if ok then
        .ok (.again ⟨ok, ⟨.kExpectHeaders, { request with receiveTime := receiveTime }⟩,
          s.buf.drop (crlf + 2)⟩)
      else .ok (.done ⟨ok, { s.context with request := request }, s.buf⟩)
    | none => .ok (.done s)
  | .kExpectHeaders =>
    match findCRLF s.buf with
    | some crlf =>
      let line := s.buf.take crlf
      let colon := line.idxOf 58
      if colon ≠ crlf then
        .ok (.again { s with
          context := { s.context with request := s.context.request.addHeader line colon }
          buf := s.buf.drop (crlf + 2) })
      else
        .ok (.done { s with
          context := { s.context with state := .kGotAll }, buf := s.buf.drop (crlf + 2) })
    | none => .ok (.done s)
  | .kExpectBody | .kGotAll => .ok (.again s)

end Parsing

/-- The loop ends as `parseRequest` says. -/
def EndsAs (receiveTime : Int) (s : Parsing) :
    Except ParseFault (Bool × HttpContext × Bytes) → Prop
  | .ok (ok, c, buf) => ∃ fuel, loop (Parsing.round receiveTime) fuel s = some (.ok ⟨ok, c, buf⟩)
  | .error .assertion =>
    ∃ fuel, loop (Parsing.round receiveTime) fuel s = some (.error .assertion)
  | .error .endless => ∀ fuel, loop (Parsing.round receiveTime) fuel s = none

variable {c : HttpContext} {buf line : Bytes} {n : Nat} (receiveTime : Int)

theorem EndsAs.again {s t : Parsing} {r : Except ParseFault (Bool × HttpContext × Bytes)}
    (h : Parsing.round receiveTime s = .ok (.again t)) (ht : EndsAs receiveTime t r) :
    EndsAs receiveTime s r := by
  cases r with
  | ok r =>
    obtain ⟨fuel, hfuel⟩ := ht
    exact ⟨fuel + 1, (loop_again h).trans hfuel⟩
  | error f =>
    cases f with
    | assertion =>
      obtain ⟨fuel, hfuel⟩ := ht
      exact ⟨fuel + 1, (loop_again h).trans hfuel⟩
    | endless =>
      intro fuel
      cases fuel with
      | zero => rfl
      | succ fuel => exact (loop_again h).trans (ht fuel)

theorem EndsAs.done {s : Parsing} {ok : Bool}
    (h : Parsing.round receiveTime s = .ok (.done ⟨ok, c, buf⟩)) :
    EndsAs receiveTime s (.ok (ok, c, buf)) := ⟨1, loop_done h⟩

theorem processRequestLine_fault {r : HttpRequest} {f : ParseFault}
    (h : HttpContext.processRequestLine r line = .error f) : f = .assertion := by
  unfold HttpContext.processRequestLine at h
  simp only at h
  split at h
  · cases hset : r.setMethod (line.take (line.idxOf 32)) with
    | error g =>
      rw [hset, error_bind] at h
      obtain rfl := Except.error.inj h
      unfold HttpRequest.setMethod at hset
      split at hset
      · cases hset
      · exact (Except.error.inj hset).symm
    | ok r =>
      rw [hset, ok_bind] at h
      repeat' split at h
      all_goals cases h
  · cases h

/-- `parseRequest` is its loop: it faults as endless exactly where no number of rounds suffices. -/
theorem loop_parseRequest (c : HttpContext) (buf : Bytes) :
    EndsAs receiveTime ⟨true, c, buf⟩ (c.parseRequest buf receiveTime) := by
  fun_induction HttpContext.parseRequest c buf receiveTime with
  | case1 c buf hst n hn f hline =>
    obtain rfl := processRequestLine_fault hline
    refine ⟨1, loop_error ?_⟩
    simp only [Parsing.round, hst, hn, hline, error_bind]
  | case2 c buf hst n hn request hline _ ih =>
    refine EndsAs.again receiveTime ?_ ih
    simp only [Parsing.round, hst, hn, hline, ok_bind, if_true]
  | case3 c buf hst n hn request hline =>
    refine EndsAs.done receiveTime ?_
    simp only [Parsing.round, hst, hn, hline, ok_bind, Bool.false_eq_true, if_false]
  | case4 c buf hst hn =>
    refine EndsAs.done receiveTime ?_
    simp only [Parsing.round, hst, hn]
  | case5 c buf hst n hn line colon hcolon _ ih =>
    refine EndsAs.again receiveTime ?_ ih
    simp only [Parsing.round, hst, hn]
    exact if_pos hcolon
  | case6 c buf hst n hn line colon hcolon =>
    refine EndsAs.done receiveTime ?_
    simp only [Parsing.round, hst, hn]
    exact if_neg hcolon
  | case7 c buf hst hn =>
    refine EndsAs.done receiveTime ?_
    simp only [Parsing.round, hst, hn]
  | case8 c buf hst | case9 c buf hst =>
    refine fun fuel => loop_never (I := fun s => s.context.state = c.state) ?_ rfl fuel
    intro s hs
    exact ⟨s, by simp only [Parsing.round, hs, hst], hs⟩

end Muduo.Net.Http
