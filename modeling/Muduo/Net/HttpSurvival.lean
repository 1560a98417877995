import Mathlib.Data.List.Forall2
import Muduo.Net.HttpLoop
import Muduo.Net.HttpParsing
import Muduo.Net.HttpServer

namespace Muduo.Net.Http
open Muduo.Lib

/-- Header lines with their colons, as they stand in a stream. -/
def GoodHeaders (hs : List (Bytes × Bytes)) : Prop :=
  ∀ h ∈ hs, 58 ∉ h.1 ∧ findCRLF (headerLine h) = none

/-- The line behind the headers, which has no colon. -/
structure LastLine (last : Bytes) : Prop where
  whole : findCRLF last = none
  no_colon : 58 ∉ last

variable {r : HttpRequest} {buf rest line : Bytes} {n : Nat} {hs : List (Bytes × Bytes)}
  (receiveTime : Int)

theorem Spoiled.space {m : Method} (h : Spoiled line m) : 32 ∈ line :=
  h.begins.subset (List.mem_append_right _ List.mem_cons_self)

/-- A method that is set already makes `setMethod` fail, as long as the line has a space. -/
theorem processRequestLine_asserts (hspace : 32 ∈ line) (hr : r.method ≠ .kInvalid) :
    HttpContext.processRequestLine r line = .error .assertion := by
  have hne : line.idxOf 32 ≠ line.length := fun he => List.idxOf_eq_length_iff.mp he hspace
  rw [HttpContext.processRequestLine]
  simp only
  rw [if_pos hne, HttpRequest.setMethod, if_neg hr, error_bind]

theorem parse_asserts (h : findCRLF buf = some n) (hspace : 32 ∈ buf.take n)
    (hr : r.method ≠ .kInvalid) :
    HttpContext.parseRequest ⟨.kExpectRequestLine, r⟩ buf receiveTime = .error .assertion := by
  rw [HttpContext.parseRequest.eq_def]
  simp only
  split
  · rename_i n' hsome
    obtain rfl := Option.some.inj (h.symm.trans hsome)
    rw [processRequestLine_asserts hspace hr]
  · rename_i hnone
    cases h.symm.trans hnone

/-- A line with a colon is a header line. -/
theorem header_split (h : 58 ∈ line) :
    ∃ header : Bytes × Bytes, line = headerLine header ∧ 58 ∉ header.1 ∧
      line.idxOf 58 = header.1.length := by
  obtain ⟨name, value, rfl, hno⟩ := List.eq_append_cons_of_mem h
  exact ⟨(name, value), rfl, hno, idxOf_first hno⟩

/-- From among the headers, a call takes the header lines that are there, and the line behind
them when it is there too. -/
theorem parse_section (r : HttpRequest) (buf : Bytes) :
    ∃ hs rest, buf = headerBytes hs ++ rest ∧ GoodHeaders hs ∧
      ((findCRLF rest = none ∧ HttpContext.parseRequest ⟨.kExpectHeaders, r⟩ buf receiveTime =
          .ok (true, ⟨.kExpectHeaders, foldHeaders r hs⟩, rest)) ∨
        ∃ last more, rest = last ++ crlf ++ more ∧ LastLine last ∧
          HttpContext.parseRequest ⟨.kExpectHeaders, r⟩ buf receiveTime =
            .ok (true, ⟨.kGotAll, foldHeaders r hs⟩, more)) := by
  induction hl : buf.length using Nat.strongRecOn generalizing r buf with
  | ind l ih =>
    cases hn : findCRLF buf with
    | none =>
      exact ⟨[], buf, rfl, nofun, .inl ⟨hn, parse_wait receiveTime (.inr rfl) hn⟩⟩
    | some n =>
      have hle := findCRLF_le hn
      have hwhole := (findCRLF_split hn).1
      have hsplit := split_line hn
      by_cases hcolon : 58 ∈ buf.take n
      · obtain ⟨header, hheader, hname, hidx⟩ := header_split hcolon
        have hparse := parse_header_line (r := r) receiveTime hn hcolon
        rw [hidx, hheader] at hparse
        obtain ⟨hs, rest, hrest, hgood, hcases⟩ := ih (buf.drop (n + 2)).length
          (by rw [List.length_drop]; omega) (r.addHeader (headerLine header) header.1.length)
          (buf.drop (n + 2)) rfl
        refine ⟨header :: hs, rest, ?_, ?_, ?_⟩
        · rw [hrest, hheader] at hsplit
          rw [hsplit]
          simp only [headerBytes, List.flatMap_cons, List.append_assoc]
        · rintro h (_ | ⟨_, hmem⟩)
          · exact ⟨hname, hheader ▸ hwhole⟩
          · exact hgood h hmem
        · rcases hcases with ⟨hnone, hmore⟩ | ⟨last, more, hlast, hline, hmore⟩
          · exact .inl ⟨hnone, hparse.trans hmore⟩
          · exact .inr ⟨last, more, hlast, hline, hparse.trans hmore⟩
      · exact ⟨[], buf, rfl, nofun, .inr ⟨buf.take n, buf.drop (n + 2), hsplit, ⟨hwhole, hcolon⟩,
          parse_last_line receiveTime hn hcolon⟩⟩

/-- The piece of the stream is one request, read from its own request line on. -/
def Complete (piece : Bytes) (req : HttpRequest) : Prop :=
  ∃ (l : RequestLine) (hs : List (Bytes × Bytes)) (last : Bytes) (time : Int),
    findCRLF l.bytes = none ∧ GoodHeaders hs ∧ LastLine last ∧
    piece = l.bytes ++ crlf ++ headerBytes hs ++ (last ++ crlf) ∧
    req = foldHeaders { l.request with receiveTime := time } hs

/-- A refused request line has left its method in the context. -/
structure Spoilt (c : HttpContext) : Prop where
  state : c.state = .kExpectRequestLine
  method : c.request.method ≠ .kInvalid

/-- What the context has been made of (the second argument), between two calls. -/
inductive Stands : HttpContext → Bytes → Bytes → Prop
  | line (b : Bytes) : Stands .new [] b
  | headers (l : RequestLine) (hs : List (Bytes × Bytes)) (time : Int) (b : Bytes) :
    findCRLF l.bytes = none → GoodHeaders hs →
    Stands ⟨.kExpectHeaders, foldHeaders { l.request with receiveTime := time } hs⟩
      (l.bytes ++ crlf ++ headerBytes hs) b
  | spoilt (r : HttpRequest) (n : Nat) (b : Bytes) :
    findCRLF b = some n → Spoiled (b.take n) r.method → Stands ⟨.kExpectRequestLine, r⟩ [] b

variable {c : HttpContext} {part b chunk : Bytes}

/-- What a call leaves behind: more of the request, or all of it. -/
def Leaves (part : Bytes) (buf : Bytes) (result : Bool × HttpContext × Bytes) : Prop :=
  (result.2.1.gotAll = false ∧ ∃ part', Stands result.2.1 part' result.2.2 ∧
    part ++ buf = part' ++ result.2.2) ∨
  (result.1 = true ∧ result.2.1.gotAll = true ∧
    ∃ piece, Complete piece result.2.1.request ∧ part ++ buf = piece ++ result.2.2)

theorem GoodHeaders.append {hs hs' : List (Bytes × Bytes)} (h : GoodHeaders hs)
    (h' : GoodHeaders hs') : GoodHeaders (hs ++ hs') := by
  intro header hmem
  rcases List.mem_append.mp hmem with hm | hm
  · exact h header hm
  · exact h' header hm

theorem parse_headers_leaves (l : RequestLine) (hs : List (Bytes × Bytes)) (time : Int)
    (hl : findCRLF l.bytes = none) (hgood : GoodHeaders hs) (buf : Bytes) :
    ∃ result, HttpContext.parseRequest
        ⟨.kExpectHeaders, foldHeaders { l.request with receiveTime := time } hs⟩ buf receiveTime =
        .ok result ∧ Leaves (l.bytes ++ crlf ++ headerBytes hs) buf result := by
  obtain ⟨hs', rest, rfl, hgood', ⟨_, hparse⟩ | ⟨last, more, rfl, hlast, hparse⟩⟩ :=
    parse_section receiveTime (foldHeaders { l.request with receiveTime := time } hs) buf
  · rw [← foldHeaders_append] at hparse
    refine ⟨_, hparse, .inl ⟨rfl, _, .headers l (hs ++ hs') time rest hl (hgood.append hgood'), ?_⟩⟩
    simp only [headerBytes_append, List.append_assoc]
  · rw [← foldHeaders_append] at hparse
    refine ⟨_, hparse, .inr ⟨rfl, rfl, _, ⟨l, hs ++ hs', last, time, hl, hgood.append hgood', hlast,
      rfl, rfl⟩, ?_⟩⟩
    simp only [headerBytes_append, List.append_assoc]

/-- Unless a method was left behind, a call returns. -/
theorem parse_leaves (h : Stands c part b) (hc : ¬Spoilt c) (chunk : Bytes) :
    ∃ result, c.parseRequest (b ++ chunk) receiveTime = .ok result ∧
      Leaves part (b ++ chunk) result := by
  cases h with
  | line =>
    generalize b ++ chunk = buf
    cases hn : findCRLF buf with
    | none => exact ⟨_, parse_wait receiveTime (.inl rfl) hn, .inl ⟨rfl, [], .line buf, rfl⟩⟩
    | some n =>
      rcases HttpContext.processRequestLine_cases (buf.take n) with ⟨l, hl⟩ |
        ⟨m, r, hspoiled, rfl, hprocess⟩ | ⟨-, -, hprocess⟩
      · have hwhole := (findCRLF_split hn).1
        rw [hl] at hwhole
        obtain ⟨result, hparse, hleaves⟩ := parse_headers_leaves receiveTime l [] receiveTime hwhole
          nofun (buf.drop (n + 2))
        refine ⟨result, (parse_request_line receiveTime hn hl).trans hparse, ?_⟩
        have hsplit : (l.bytes ++ crlf ++ headerBytes []) ++ buf.drop (n + 2) = [] ++ buf := by
          rw [List.nil_append, ← hl]
          exact (congrArg (· ++ buf.drop (n + 2)) (List.append_nil _)).trans (split_line hn).symm
        unfold Leaves at hleaves ⊢
        rw [hsplit] at hleaves
        exact hleaves
      · exact ⟨_, parse_refused receiveTime hn hprocess,
          .inl ⟨rfl, [], .spoilt r n buf hn hspoiled, rfl⟩⟩
      · exact ⟨_, parse_refused receiveTime hn hprocess, .inl ⟨rfl, [], .line buf, rfl⟩⟩
  | headers l hs time _ hl hgood => exact parse_headers_leaves receiveTime l hs time hl hgood _
  | spoilt r n _ _ hspoiled => exact absurd ⟨rfl, hspoiled.method_valid⟩ hc

/-- With a method left behind, the next call fails, whatever it brings. -/
theorem parse_spoilt (h : Stands c part b) (hc : Spoilt c) (chunk : Bytes) :
    c.parseRequest (b ++ chunk) receiveTime = .error .assertion := by
  cases h with
  | line => exact absurd rfl hc.method
  | headers => exact nomatch hc.state
  | spoilt r n _ hn hspoiled =>
    have hle := findCRLF_le hn
    have htake : (b ++ chunk).take n = b.take n := List.take_append_of_le_length (by omega)
    exact parse_asserts receiveTime (findCRLF_append hn chunk) (htake ▸ hspoiled.space)
      hspoiled.method_valid

/-- The server has called back for the requests in the stream, and is reading the next one. -/
structure Reading (received : Bytes) (s : HttpServer) : Prop where
  pieces : ∃ pieces part, received = pieces.flatten ++ (part ++ s.inputBuffer) ∧
    List.Forall₂ Complete pieces s.requests ∧ Stands s.context part s.inputBuffer

/-- `onMessage` is called for `chunk` when the server is in the state `s`. -/
def Calls (callback : HttpCallback) (chunks : List (Bytes × Int)) (s : HttpServer)
    (chunk : Bytes × Int) : Prop :=
  ∃ before later, chunks = before ++ chunk :: later ∧ HttpServer.run callback .new before = .ok s

/-- Every call of `parseRequest` ends, no assertion fails, and each request that `httpCallback_`
was called with is a piece of the stream of its own. -/
structure ServerSurvives (callback : HttpCallback) (chunks : List (Bytes × Int)) : Prop where
  terminates : ∀ s chunk, Calls callback chunks s chunk → ∃ fuel r,
    loop (Parsing.round chunk.2) fuel ⟨true, s.context, s.inputBuffer ++ chunk.1⟩ = some r
  asserts : ∀ before, before <+: chunks → ∃ s, HttpServer.run callback .new before = .ok s
  own : ∀ before s, before <+: chunks → HttpServer.run callback .new before = .ok s →
    ∃ pieces rest, Reader.received before = pieces.flatten ++ rest ∧
      List.Forall₂ Complete pieces s.requests

variable {callback : HttpCallback} {s s' : HttpServer} {received : Bytes}
  {chunks before : List (Bytes × Int)}

theorem new_reading : Reading [] .new := ⟨[], [], rfl, .nil, .line []⟩

theorem receive_reading (h : Reading received s) (hc : ¬Spoilt s.context) (chunk : Bytes × Int) :
    ∃ s', s.receive callback chunk = .ok s' ∧ Reading (received ++ chunk.1) s' := by
  obtain ⟨pieces, part, rfl, hpieces, hstands⟩ := h.pieces
  obtain ⟨⟨ok, c, buf⟩, hparse, hleaves⟩ := parse_leaves chunk.2 hstands hc chunk.1
  rcases hleaves with ⟨hgot, part', hstands', hsplit⟩ | ⟨rfl, hgot, piece, hpiece, hsplit⟩
  · have hreceive : s.receive callback chunk = .ok (if ok then
        { s with context := c, inputBuffer := buf }
      else
        { s with context := c, inputBuffer := buf, sent := s.sent ++ [HttpServer.badRequest],
                 shutdown := true }) := by
      rw [HttpServer.receive, HttpServer.onMessage, hparse, ok_bind]
      cases ok with
      | true => exact if_neg (by simp [hgot])
      | false => exact if_neg (by simp [hgot])
    refine ⟨_, hreceive, ?_⟩
    rw [List.append_assoc, List.append_assoc, hsplit]
    cases ok with
    | true => exact ⟨pieces, part', rfl, hpieces, hstands'⟩
    | false => exact ⟨pieces, part', rfl, hpieces, hstands'⟩
  · have hreceive : s.receive callback chunk = .ok
        { ({ s with context := c, inputBuffer := buf } : HttpServer).onRequest callback c.request with
          context := .new } := by
      rw [HttpServer.receive, HttpServer.onMessage, hparse, ok_bind]
      exact if_pos hgot
    refine ⟨_, hreceive, pieces ++ [piece], [], ?_, ?_, .line buf⟩
    · rw [List.append_assoc, List.append_assoc, hsplit, List.flatten_append, List.flatten_singleton,
        List.append_assoc]
      rfl
    · exact List.rel_append hpieces (.cons hpiece .nil)

theorem receive_spoilt (h : Reading received s) (hc : Spoilt s.context) (chunk : Bytes × Int) :
    s.receive callback chunk = .error .assertion := by
  obtain ⟨_, _, _, _, hstands⟩ := h.pieces
  rw [HttpServer.receive, HttpServer.onMessage, parse_spoilt chunk.2 hstands hc, error_bind]

theorem run_snoc (before : List (Bytes × Int)) (chunk : Bytes × Int) :
    HttpServer.run callback .new (before ++ [chunk]) =
      HttpServer.run callback .new before >>= fun s => s.receive callback chunk := by
  rw [HttpServer.run, HttpServer.run, List.foldlM_append]
  simp only [List.foldlM_cons, List.foldlM_nil, bind_pure]

theorem received_snoc (before : List (Bytes × Int)) (chunk : Bytes × Int) :
    Reader.received (before ++ [chunk]) = Reader.received before ++ chunk.1 := by
  rw [Reader.received, Reader.received, List.flatMap_append, List.flatMap_singleton]

/-- However the server got there, it stands in its stream. -/
theorem run_reading (h : HttpServer.run callback .new before = .ok s) :
    Reading (Reader.received before) s := by
  induction before using List.reverseRecOn generalizing s with
  | nil =>
    cases h
    exact new_reading
  | append_singleton before chunk ih =>
    rw [run_snoc] at h
    obtain ⟨u, hu, hs⟩ := bind_ok h
    have hread := ih hu
    by_cases hc : Spoilt u.context
    · cases (receive_spoilt hread hc chunk).symm.trans hs
    · obtain ⟨s', hs', hread'⟩ := receive_reading hread hc chunk
      cases hs'.symm.trans hs
      rw [received_snoc]
      exact hread'

/-- The server survives a stream exactly when no message comes after a request line that was
refused with its method already set. -/
theorem server_survives_iff (callback : HttpCallback) (chunks : List (Bytes × Int)) :
    ServerSurvives callback chunks ↔ ∀ s chunk, Calls callback chunks s chunk → ¬Spoilt s.context := by
  constructor
  · rintro h s chunk ⟨before, later, rfl, hrun⟩ hc
    obtain ⟨s', hs'⟩ := h.asserts (before ++ [chunk]) ⟨later, by simp⟩
    rw [run_snoc, hrun, ok_bind, receive_spoilt (run_reading hrun) hc chunk] at hs'
    cases hs'
  · intro h
    have hruns : ∀ before, before <+: chunks → ∃ s, HttpServer.run callback .new before = .ok s := by
      intro before hp
      induction before using List.reverseRecOn with
      | nil => exact ⟨_, rfl⟩
      | append_singleton before chunk ih =>
        obtain ⟨later, rfl⟩ := hp
        obtain ⟨s, hs⟩ := ih ⟨chunk :: later, by simp⟩
        have hc := h s chunk ⟨before, later, by simp, hs⟩
        obtain ⟨s', hs', _⟩ : ∃ s', s.receive callback chunk = .ok s' ∧ _ :=
          receive_reading (run_reading hs) hc chunk
        exact ⟨s', by rw [run_snoc, hs, ok_bind, hs']⟩
    refine ⟨?_, hruns, ?_⟩
    · rintro s chunk ⟨before, later, hchunks, hrun⟩
      obtain ⟨_, part, _, _, hstands⟩ := (run_reading hrun).pieces
      obtain ⟨⟨ok, c, buf⟩, hparse, _⟩ :=
        parse_leaves chunk.2 hstands (h s chunk ⟨before, later, hchunks, hrun⟩) chunk.1
      have hloop := loop_parseRequest chunk.2 s.context (s.inputBuffer ++ chunk.1)
      rw [hparse] at hloop
      obtain ⟨fuel, hfuel⟩ := hloop
      exact ⟨fuel, _, hfuel⟩
    · intro before s _ hrun
      obtain ⟨pieces, part, hreceived, hpieces, _⟩ := (run_reading hrun).pieces
      exact ⟨pieces, part ++ s.inputBuffer, hreceived, hpieces⟩

/-- A request line without a version, and one more byte. -/
def shortLine : List (Bytes × Int) := [(ascii "GET x\r\n", 0), (ascii "y", 0)]

/-- The second message meets the assertion. -/
theorem assertion_fails : HttpServer.run defaultHttpCallback .new shortLine = .error .assertion ∧
    ¬ServerSurvives defaultHttpCallback shortLine := by
  have hline : HttpContext.processRequestLine .new ((ascii "GET x\r\n").take 5) =
      .ok (false, { HttpRequest.new with method := .kGet }) := rfl
  have hparse : HttpContext.parseRequest .new (ascii "GET x\r\n") 0 = _ :=
    parse_refused 0 rfl hline
  have hfirst : HttpServer.run defaultHttpCallback .new [(ascii "GET x\r\n", 0)] =
      .ok { HttpServer.new with
        context := ⟨.kExpectRequestLine, { HttpRequest.new with method := .kGet }⟩
        inputBuffer := ascii "GET x\r\n"
        sent := [HttpServer.badRequest]
        shutdown := true } := by
    have hnew : HttpServer.new.context.parseRequest (HttpServer.new.inputBuffer ++ ascii "GET x\r\n")
        0 = _ := hparse
    rw [HttpServer.run, List.foldlM_cons, HttpServer.receive, HttpServer.onMessage, hnew]
    rfl
  have hrun : HttpServer.run defaultHttpCallback .new shortLine = .error .assertion := by
    have hread := run_reading hfirst
    rw [shortLine, show [(ascii "GET x\r\n", (0 : Int)), (ascii "y", 0)] =
      [(ascii "GET x\r\n", 0)] ++ [(ascii "y", 0)] from rfl, run_snoc, hfirst, ok_bind]
    exact receive_spoilt hread ⟨rfl, nofun⟩ _
  refine ⟨hrun, fun h => ?_⟩
  obtain ⟨s, hs⟩ := h.asserts shortLine (List.prefix_refl _)
  cases hrun.symm.trans hs

end Muduo.Net.Http
