import Muduo.Lib.Prefix
import Muduo.Net.HttpRounds

namespace Muduo.Net.Http
open Muduo.Lib

/-- The text of a request; `headers` are its header lines in order. -/
structure RequestText where
  method : Method
  target : Bytes
  http11 : Bool
  headers : List (Bytes × Bytes)
  method_valid : method ≠ .kInvalid
  target_plain : ∀ b ∈ target, b ≠ 32 ∧ b ≠ 13 ∧ b ≠ 10
  name_plain : ∀ h ∈ headers, ∀ b ∈ h.1, b ≠ 58 ∧ b ≠ 13 ∧ b ≠ 10
  value_plain : ∀ h ∈ headers, ∀ b ∈ h.2, b ≠ 13 ∧ b ≠ 10

namespace RequestText

variable (t : RequestText)

def version : Version := if t.http11 then .kHttp11 else .kHttp10

def requestLine : Bytes :=
  t.method.string ++ 32 :: (t.target ++ 32 :: (ascii "HTTP/1." ++ [if t.http11 then 49 else 48]))

end RequestText

def headerLine (h : Bytes × Bytes) : Bytes := h.1 ++ 58 :: h.2

/-- The header lines, each with its end. -/
def headerBytes (hs : List (Bytes × Bytes)) : Bytes := hs.flatMap fun h => headerLine h ++ crlf

def RequestText.bytes (t : RequestText) : Bytes :=
  t.requestLine ++ crlf ++ (headerBytes t.headers ++ crlf)

/-- `value` without the white space around it. -/
structure Trimmed (value trimmed : Bytes) : Prop where
  around : ∃ left right, value = left ++ trimmed ++ right ∧
    (∀ b ∈ left, HttpRequest.isspace b = true) ∧ ∀ b ∈ right, HttpRequest.isspace b = true
  head : ∀ b, trimmed.head? = some b → HttpRequest.isspace b = false
  last : ∀ b, trimmed.getLast? = some b → HttpRequest.isspace b = false

/-- A header map holds what the last line for each name says. -/
def Holds (hs : List (Bytes × Bytes)) (headers : Bytes → Option Bytes) : Prop :=
  ∀ name, match hs.reverse.find? (·.1 = name) with
    | none => headers name = none
    | some h => ∃ trimmed, headers name = some trimmed ∧ Trimmed h.2 trimmed

/-- The request is what the text says. -/
structure Describes (t : RequestText) (r : HttpRequest) : Prop where
  method : r.method = t.method
  version : r.version = t.version
  path : r.path = t.target.takeWhile (· ≠ 63)
  query : r.query = t.target.dropWhile (· ≠ 63)
  headers : Holds t.headers r.headers

variable {line rest b : Bytes} {t : RequestText} {r : HttpRequest} {c : HttpContext}
  (receiveTime : Int)

theorem findCRLF_plain (h : ∀ b ∈ line, b ≠ 13) : findCRLF line = none := by
  induction line with
  | nil => rfl
  | cons a line ih =>
    rw [findCRLF, if_neg fun hc => h a List.mem_cons_self hc.1,
      ih fun b hb => h b (List.mem_cons_of_mem a hb), Option.map_none]

theorem findCRLF_line (h : ∀ b ∈ line, b ≠ 13) :
    findCRLF (line ++ (crlf ++ rest)) = some line.length := findCRLF_text (findCRLF_plain h) rest

theorem findCRLF_partial (h : ∀ b ∈ line, b ≠ 13) (hb : b <+: line ++ crlf)
    (hlen : b.length < line.length + 2) : findCRLF b = none :=
  findCRLF_unended (findCRLF_plain h) hb hlen

/-- The context once the request line has been read. -/
def RequestText.started (t : RequestText) (receiveTime : Int) : HttpRequest :=
  { HttpRequest.new with
    method := t.method
    version := t.version
    path := t.target.takeWhile (· ≠ 63)
    query := t.target.dropWhile (· ≠ 63)
    receiveTime := receiveTime }

theorem requestLine_plain : ∀ b ∈ t.requestLine, b ≠ 13 := by
  intro b hb
  have hversion : ∀ b ∈ ascii "HTTP/1." ++ [if t.http11 then 49 else 48], b ≠ 13 := by
    cases t.http11 <;> decide +kernel
  simp only [RequestText.requestLine, List.mem_append, List.mem_cons] at hb hversion
  rcases hb with hb | rfl | hb | rfl | hb
  · exact (method_plain _ b hb).2
  · decide
  · exact (t.target_plain b hb).2.1
  · decide
  · exact hversion b hb

/-- The request after some header lines. -/
def foldHeaders (r : HttpRequest) (hs : List (Bytes × Bytes)) : HttpRequest :=
  hs.foldl (fun r h => r.addHeader (headerLine h) h.1.length) r

/-- What a request text has of its header lines. -/
def PlainHeaders (hs : List (Bytes × Bytes)) : Prop :=
  ∀ h ∈ hs, (∀ b ∈ h.1, b ≠ 58 ∧ b ≠ 13 ∧ b ≠ 10) ∧ ∀ b ∈ h.2, b ≠ 13 ∧ b ≠ 10

theorem headerLine_plain {h : Bytes × Bytes} {hs : List (Bytes × Bytes)} (hp : PlainHeaders hs)
    (hm : h ∈ hs) : ∀ b ∈ headerLine h, b ≠ 13 := by
  intro b hb
  simp only [headerLine, List.mem_append, List.mem_cons] at hb
  rcases hb with hb | rfl | hb
  · exact ((hp h hm).1 b hb).2.1
  · decide
  · exact ((hp h hm).2 b hb).1

theorem take_line : (line ++ (crlf ++ rest)).take line.length = line := List.take_left

theorem drop_line : (line ++ (crlf ++ rest)).drop (line.length + 2) = rest := by
  rw [← List.drop_drop, List.drop_left]
  rfl

/-- What the parser takes its first line for. -/
def RequestText.firstLine (t : RequestText) : RequestLine where
  method := t.method
  target := t.target
  http11 := t.http11
  method_valid := t.method_valid
  no_space := fun h => (t.target_plain 32 h).1 rfl

theorem parse_requestLine :
    HttpContext.parseRequest .new (t.requestLine ++ (crlf ++ rest)) receiveTime =
      HttpContext.parseRequest ⟨.kExpectHeaders, t.started receiveTime⟩ rest receiveTime := by
  have hfind : findCRLF (t.requestLine ++ (crlf ++ rest)) = some t.requestLine.length :=
    findCRLF_line requestLine_plain
  have hparse := parse_request_line receiveTime hfind (l := t.firstLine) take_line
  rw [drop_line] at hparse
  exact hparse

theorem parse_header {h : Bytes × Bytes} {hs : List (Bytes × Bytes)} (hp : PlainHeaders hs)
    (hm : h ∈ hs) (hst : c.state = .kExpectHeaders) :
    c.parseRequest (headerLine h ++ (crlf ++ rest)) receiveTime =
      HttpContext.parseRequest
        { c with request := c.request.addHeader (headerLine h) h.1.length } rest receiveTime := by
  obtain ⟨state, r⟩ := c
  obtain rfl : state = .kExpectHeaders := hst
  have hfind : findCRLF (headerLine h ++ (crlf ++ rest)) = some (headerLine h).length :=
    findCRLF_line (headerLine_plain hp hm)
  have hcolon : (headerLine h).idxOf 58 = h.1.length :=
    idxOf_first fun hmem => ((hp h hm).1 58 hmem).1 rfl
  have hmem : 58 ∈ headerLine h := List.mem_append_right h.1 List.mem_cons_self
  have hparse := parse_header_line (r := r) receiveTime hfind (by rwa [take_line])
  rwa [take_line, drop_line, hcolon] at hparse

theorem parse_end (hst : c.state = .kExpectHeaders) :
    c.parseRequest (crlf ++ rest) receiveTime = .ok (true, { c with state := .kGotAll }, rest) := by
  obtain ⟨state, r⟩ := c
  obtain rfl : state = .kExpectHeaders := hst
  have hfind : findCRLF (crlf ++ rest) = some 0 := rfl
  exact parse_last_line receiveTime hfind nofun

/-- The header lines that are there are taken; when the empty line is there too, the request is
complete. -/
theorem parse_headers {hs : List (Bytes × Bytes)} (hp : PlainHeaders hs)
    (hst : c.state = .kExpectHeaders) (hb : b <+: headerBytes hs ++ crlf ++ rest) :
    (∃ done todo b', hs = done ++ todo ∧ b = headerBytes done ++ b' ∧
      b'.length < (headerBytes todo ++ crlf).length ∧
      c.parseRequest b receiveTime =
        .ok (true, { c with request := foldHeaders c.request done }, b')) ∨
    ∃ b', b = headerBytes hs ++ crlf ++ b' ∧ c.parseRequest b receiveTime =
      .ok (true, ⟨.kGotAll, foldHeaders c.request hs⟩, b') := by
  induction hs generalizing c b with
  | nil =>
    rcases prefix_split (x := crlf) hb with ⟨hpart, hlen⟩ | ⟨b', rfl, -⟩
    · have hnone := findCRLF_partial (List.forall_mem_nil _) hpart hlen
      exact .inl ⟨[], [], b, rfl, rfl, hlen, parse_wait receiveTime (.inr hst) hnone⟩
    · exact .inr ⟨b', rfl, parse_end receiveTime hst⟩
  | cons h hs ih =>
    have hcons : headerBytes (h :: hs) = headerLine h ++ crlf ++ headerBytes hs := rfl
    have hplain : PlainHeaders hs := fun h' hm => hp h' (List.mem_cons_of_mem h hm)
    rw [hcons, List.append_assoc (headerLine h ++ crlf), List.append_assoc (headerLine h ++ crlf)]
      at hb
    rcases prefix_split hb with ⟨hpart, hlen⟩ | ⟨b', rfl, hb'⟩
    · have hnone := findCRLF_partial (headerLine_plain hp List.mem_cons_self) hpart (by
        rw [List.length_append] at hlen
        exact hlen)
      refine .inl ⟨[], h :: hs, b, rfl, rfl, ?_, parse_wait receiveTime (.inr hst) hnone⟩
      rw [hcons, List.length_append, List.length_append]
      omega
    · have hline : c.parseRequest (headerLine h ++ (crlf ++ b')) receiveTime = _ :=
        parse_header receiveTime hp List.mem_cons_self hst
      rw [← List.append_assoc] at hline
      rcases ih (c := { c with request := c.request.addHeader (headerLine h) h.1.length }) hplain hst
        hb' with ⟨done, todo, b'', rfl, rfl, hlen, hparse⟩ | ⟨b'', rfl, hparse⟩
      · refine .inl ⟨h :: done, todo, b'', rfl, ?_, hlen, hline.trans hparse⟩
        rw [← List.append_assoc]
        rfl
      · refine .inr ⟨b'', ?_, hline.trans hparse⟩
        rw [hcons]
        simp only [List.append_assoc]

/-- How far the parser is in the text, and what it has used of it. -/
inductive Stage (t : RequestText) : HttpContext → Bytes → Prop
  | line : Stage t .new []
  | headers (done todo : List (Bytes × Bytes)) (receiveTime : Int) : t.headers = done ++ todo →
    Stage t ⟨.kExpectHeaders, foldHeaders (t.started receiveTime) done⟩
      (t.requestLine ++ crlf ++ headerBytes done)
  | all (receiveTime : Int) :
    Stage t ⟨.kGotAll, foldHeaders (t.started receiveTime) t.headers⟩ t.bytes

theorem RequestText.plain (t : RequestText) : PlainHeaders t.headers :=
  fun h hm => ⟨t.name_plain h hm, t.value_plain h hm⟩

theorem foldHeaders_append (r : HttpRequest) (hs hs' : List (Bytes × Bytes)) :
    foldHeaders r (hs ++ hs') = foldHeaders (foldHeaders r hs) hs' := List.foldl_append

theorem headerBytes_append (hs hs' : List (Bytes × Bytes)) :
    headerBytes (hs ++ hs') = headerBytes hs ++ headerBytes hs' := List.flatMap_append

theorem RequestText.bytes_split {done todo : List (Bytes × Bytes)} (h : t.headers = done ++ todo) :
    t.bytes = t.requestLine ++ crlf ++ headerBytes done ++ (headerBytes todo ++ crlf) := by
  rw [RequestText.bytes, h, headerBytes_append]
  simp only [List.append_assoc]

/-- From among the header lines, one call goes as far as the bytes go. -/
theorem parse_stage_headers {done todo : List (Bytes × Bytes)} {time : Int}
    (h : t.headers = done ++ todo)
    (hb : t.requestLine ++ crlf ++ headerBytes done ++ b <+: t.bytes ++ rest) :
    ∃ c' used' b', HttpContext.parseRequest
        ⟨.kExpectHeaders, foldHeaders (t.started time) done⟩ b receiveTime = .ok (true, c', b') ∧
      Stage t c' used' ∧ t.requestLine ++ crlf ++ headerBytes done ++ b = used' ++ b' ∧
      (c'.gotAll = true ↔
        t.bytes.length ≤ (t.requestLine ++ crlf ++ headerBytes done ++ b).length) := by
  have hplain : PlainHeaders todo := fun x hx => t.plain x (h ▸ List.mem_append_right done hx)
  have hsplit := t.bytes_split h
  rw [hsplit, List.append_assoc _ (headerBytes todo ++ crlf),
    List.prefix_append_right_inj] at hb
  rcases parse_headers receiveTime
    (c := ⟨.kExpectHeaders, foldHeaders (t.started time) done⟩) hplain rfl hb with
    ⟨done', todo', b', rfl, rfl, hlen, hparse⟩ | ⟨b', rfl, hparse⟩
  · rw [← foldHeaders_append] at hparse
    refine ⟨_, _, _, hparse, .headers (done ++ done') todo' time (by rw [h, List.append_assoc]), ?_,
      iff_of_false nofun ?_⟩
    · rw [headerBytes_append]
      simp only [List.append_assoc]
    · rw [hsplit, headerBytes_append]
      simp only [List.length_append] at hlen ⊢
      omega
  · rw [← foldHeaders_append, ← h] at hparse
    refine ⟨_, _, _, hparse, .all time, ?_, iff_of_true rfl ?_⟩
    · rw [hsplit]
      simp only [List.append_assoc]
    · rw [hsplit]
      simp only [List.length_append]
      omega

/-- One call of `parseRequest` on a text that has come up to some byte. -/
theorem parse_stage {used : Bytes} (hs : Stage t c used) (hg : c.gotAll = false)
    (hb : used ++ b <+: t.bytes ++ rest) :
    ∃ c' used' b', c.parseRequest b receiveTime = .ok (true, c', b') ∧ Stage t c' used' ∧
      used ++ b = used' ++ b' ∧ (c'.gotAll = true ↔ t.bytes.length ≤ (used ++ b).length) := by
  cases hs with
  | line =>
    rw [List.nil_append] at hb ⊢
    have hbytes : t.bytes ++ rest =
        t.requestLine ++ crlf ++ (headerBytes t.headers ++ crlf ++ rest) := by
      rw [RequestText.bytes, List.append_assoc _ _ rest]
    rcases prefix_split (hbytes ▸ hb) with ⟨hpart, hlen⟩ | ⟨b', rfl, hb'⟩
    · have hnone := findCRLF_partial requestLine_plain hpart (by
        rw [List.length_append] at hlen
        exact hlen)
      refine ⟨.new, [], b, parse_wait receiveTime (.inl rfl) hnone, .line, rfl, iff_of_false nofun ?_⟩
      simp only [RequestText.bytes, List.length_append] at hlen ⊢
      omega
    · have hline : HttpContext.parseRequest .new (t.requestLine ++ (crlf ++ b')) receiveTime = _ :=
        parse_requestLine receiveTime
      rw [← List.append_assoc] at hline
      have hnil : t.requestLine ++ crlf ++ headerBytes [] = t.requestLine ++ crlf :=
        List.append_nil _
      have hheaders : t.headers = [] ++ t.headers := rfl
      have hrest := @parse_stage_headers rest b' t receiveTime [] t.headers receiveTime hheaders
        (by rw [hnil]; exact hb)
      rw [hnil] at hrest
      rw [hline]
      exact hrest
  | headers done todo time h => exact parse_stage_headers receiveTime h hb
  | all => exact nomatch hg

theorem trimmed_trim (value : Bytes) :
    Trimmed value ((value.dropWhile HttpRequest.isspace).rdropWhile HttpRequest.isspace) := by
  refine ⟨⟨value.takeWhile HttpRequest.isspace,
    (value.dropWhile HttpRequest.isspace).rtakeWhile HttpRequest.isspace, ?_, ?_, ?_⟩,
    fun b hb => ?_, fun b hb => ?_⟩
  · rw [List.append_assoc, List.rdropWhile_append_rtakeWhile, List.takeWhile_append_dropWhile]
  · exact fun b hb => List.mem_takeWhile_imp hb
  · exact fun b hb => List.mem_rtakeWhile_imp hb
  · obtain ⟨more, hmore⟩ := List.rdropWhile_prefix HttpRequest.isspace
      (l := value.dropWhile HttpRequest.isspace)
    have hhead := List.head?_dropWhile_not HttpRequest.isspace value
    rw [← hmore, List.head?_append, hb] at hhead
    exact hhead
  · have hne : (value.dropWhile HttpRequest.isspace).rdropWhile HttpRequest.isspace ≠ [] := by
      intro hnil
      rw [hnil] at hb
      exact nomatch hb
    have hlast := List.rdropWhile_last_not HttpRequest.isspace _ hne
    rw [List.getLast?_eq_some_getLast hne, Option.some.injEq] at hb
    rw [← hb]
    simpa using hlast

/-- The fold keeps the last line for each name. -/
theorem foldHeaders_holds (hr : r.headers = fun _ => none) (hs : List (Bytes × Bytes)) :
    Holds hs (foldHeaders r hs).headers := by
  induction hs using List.reverseRecOn with
  | nil =>
    intro name
    exact congrFun hr name
  | append_singleton hs h ih =>
    intro name
    have hadd : (foldHeaders r (hs ++ [h])).headers =
        Function.update (foldHeaders r hs).headers h.1
          (some ((h.2.dropWhile HttpRequest.isspace).rdropWhile HttpRequest.isspace)) := by
      have hdrop : (headerLine h).drop (h.1.length + 1) = h.2 := by
        rw [headerLine, ← List.drop_drop, List.drop_left]
        rfl
      have htake : (headerLine h).take h.1.length = h.1 := List.take_left
      rw [foldHeaders_append]
      simp only [foldHeaders, List.foldl_cons, List.foldl_nil, HttpRequest.addHeader, hdrop, htake]
    rw [hadd, List.reverse_append, List.reverse_singleton, List.singleton_append, List.find?_cons]
    by_cases hname : h.1 = name
    · subst hname
      simp only [decide_true, Function.update_self]
      exact ⟨_, rfl, trimmed_trim h.2⟩
    · simp only [hname, decide_false, Function.update_of_ne (Ne.symm hname)]
      exact ih name

theorem foldHeaders_keeps (r : HttpRequest) (hs : List (Bytes × Bytes)) :
    (foldHeaders r hs).method = r.method ∧ (foldHeaders r hs).version = r.version ∧
      (foldHeaders r hs).path = r.path ∧ (foldHeaders r hs).query = r.query := by
  induction hs generalizing r with
  | nil => exact ⟨rfl, rfl, rfl, rfl⟩
  | cons h hs ih => exact ih _

theorem Stage.describes {used : Bytes} (hs : Stage t c used) (hg : c.gotAll = true) :
    used = t.bytes ∧ Describes t c.request := by
  cases hs with
  | line => exact nomatch hg
  | headers => exact nomatch hg
  | all time =>
    obtain ⟨hm, hv, hp, hq⟩ := foldHeaders_keeps (t.started time) t.headers
    exact ⟨rfl, hm, hv, hp, hq, foldHeaders_holds rfl t.headers⟩

/-- A buffer that a request is read from, and whether every call returned `true`. -/
structure Reader where
  context : HttpContext
  buffer : Bytes
  ok : Bool

namespace Reader

def new : Reader := ⟨.new, [], true⟩

/-- A chunk is appended, and parsed unless the request is complete already. -/
def append (s : Reader) (chunk : Bytes × Int) : Except ParseFault Reader :=
  if s.context.gotAll then .ok { s with buffer := s.buffer ++ chunk.1 }
  else do
    let (ok, context, buffer) ← s.context.parseRequest (s.buffer ++ chunk.1) chunk.2
    .ok ⟨context, buffer, s.ok && ok⟩

def run (s : Reader) (chunks : List (Bytes × Int)) : Except ParseFault Reader :=
  chunks.foldlM append s

/-- The bytes of the chunks. -/
def received (chunks : List (Bytes × Int)) : Bytes := chunks.flatMap (·.1)

/-- A reader in step with the text: the request is complete once its last byte has come, and
then exactly its bytes have been used. -/
structure InStep (t : RequestText) (received : Bytes) (s : Reader) : Prop where
  ok : s.ok = true
  gotAll : s.context.gotAll = true ↔ t.bytes.length ≤ received.length
  request : s.context.gotAll = true → Describes t s.context.request
  used : s.context.gotAll = true → received = t.bytes ++ s.buffer

/-- The invariant behind it. -/
structure Staged (t : RequestText) (received : Bytes) (s : Reader) : Prop where
  ok : s.ok = true
  gotAll : s.context.gotAll = true ↔ t.bytes.length ≤ received.length
  stage : ∃ used, Stage t s.context used ∧ received = used ++ s.buffer

theorem Staged.inStep {received : Bytes} {s : Reader} (h : s.Staged t received) :
    s.InStep t received := by
  obtain ⟨used, hstage, hused⟩ := h.stage
  refine ⟨h.ok, h.gotAll, fun hg => (hstage.describes hg).2, fun hg => ?_⟩
  rw [hused, (hstage.describes hg).1]

theorem new_staged : new.Staged t [] := by
  refine ⟨rfl, iff_of_false nofun ?_, [], .line, rfl⟩
  simp only [RequestText.bytes, List.length_append, List.length_nil, crlf, List.length_cons]
  omega

theorem append_staged {received : Bytes} {s : Reader} (h : s.Staged t received)
    (chunk : Bytes × Int) (hb : received ++ chunk.1 <+: t.bytes ++ rest) :
    Yields (Staged t (received ++ chunk.1)) (fun _ => False) (s.append chunk) := by
  obtain ⟨used, hstage, rfl⟩ := h.stage
  unfold append
  by_cases hg : s.context.gotAll = true
  · rw [if_pos hg]
    refine ⟨h.ok, iff_of_true hg ?_, used, hstage, List.append_assoc ..⟩
    have := h.gotAll.mp hg
    rw [List.length_append]
    omega
  · rw [List.append_assoc] at hb ⊢
    obtain ⟨c', used', b', hparse, hstage', hused, hgot⟩ :=
      parse_stage chunk.2 hstage (by simpa using hg) hb
    rw [if_neg hg, hparse, ok_bind]
    exact ⟨by simp [h.ok], hgot, used', hstage', hused⟩

end Reader

/-- However the bytes are cut, every call returns `true`, the request is complete in the call
that brings its last byte, it is what the text says, and what follows it is left alone. -/
theorem request_parsed {chunks : List (Bytes × Int)} {rest : Bytes}
    (h : Reader.received chunks <+: t.bytes ++ rest) :
    Yields (Reader.InStep t (Reader.received chunks)) (fun _ => False)
      (Reader.run .new chunks) := by
  have hrun : ∀ (chunks : List (Bytes × Int)) (s : Reader) (received : Bytes),
      s.Staged t received → received ++ Reader.received chunks <+: t.bytes ++ rest →
      Yields (Reader.Staged t (received ++ Reader.received chunks)) (fun _ => False)
        (s.run chunks) := by
    intro chunks
    induction chunks with
    | nil =>
      intro s received hs _
      rw [Reader.received, List.flatMap_nil, List.append_nil]
      exact hs
    | cons chunk chunks ih =>
      intro s received hs hb
      rw [Reader.received, List.flatMap_cons, ← List.append_assoc] at hb ⊢
      refine (Reader.append_staged hs chunk ((List.prefix_append ..).trans hb)).bind fun s' hs' => ?_
      exact ih s' _ hs' hb
  exact (hrun chunks .new [] Reader.new_staged h).mono fun s hs => hs.inStep

/-- A request with a query and a header that comes twice. -/
def sampleText : RequestText where
  method := .kGet
  target := ascii "/a?b"
  http11 := true
  headers := [(ascii "Host", ascii " x "), (ascii "Host", ascii "y")]
  method_valid := nofun
  target_plain := by decide +kernel
  name_plain := by decide +kernel
  value_plain := by decide +kernel

/-- It is cut between the two bytes of a line end, and more follows it. -/
def sampleChunks : List (Bytes × Int) :=
  [(ascii "GET /a?b HTTP/1.1\r", 1), (ascii "\nHost: x \r\nHo", 2), (ascii "st:y\r\n\r\nPOST", 3)]

theorem request_parsed_sample :
    Yields (Reader.InStep sampleText (Reader.received sampleChunks)) (fun _ => False)
      (Reader.run .new sampleChunks) :=
  request_parsed (show _ <+: sampleText.bytes ++ ascii "POST" by decide +kernel)

end Muduo.Net.Http
