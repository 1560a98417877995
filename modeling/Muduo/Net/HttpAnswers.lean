import Muduo.Base.IntegerText
import Muduo.Lib.Parsing
import Muduo.Net.Pipelining

namespace Muduo.Net.Http
open Muduo.Lib Muduo.Base

/-- A response as its reader has it. -/
structure Answer where
  statusCode : Nat
  statusMessage : Bytes
  headers : List (Bytes × Bytes)
  body : Bytes
  deriving DecidableEq, Repr

/-- A line without its end. -/
def readLine : Parse Bytes UInt8 := fun buf =>
  (findCRLF buf).map fun n => (buf.take n, buf.drop (n + 2))

/-- `name: value`. -/
def field (line : Bytes) : Bytes × Bytes :=
  (line.take (line.idxOf 58), line.drop (line.idxOf 58 + 2))

/-- The header lines up to the empty line. -/
def readFields (buf : Bytes) : Option (List (Bytes × Bytes) × Bytes) :=
  match h : findCRLF buf with
  | none => none
  | some 0 => some ([], buf.drop 2)
  | some (n + 1) =>
    have := findCRLF_le h
    (readFields (buf.drop (n + 3))).map fun x => (field (buf.take (n + 1)) :: x.1, x.2)
termination_by buf.length
decreasing_by simp only [List.length_drop]; omega

def readStatus (line : Bytes) : Option (Nat × Bytes) :=
  if line.take 9 = ascii "HTTP/1.1 " then
    let code := (line.drop 9).takeWhile (· ≠ 32)
    (LogStream.readDecimal code).map fun n => (n.toNat, line.drop (9 + code.length + 1))
  else none

def contentLength (headers : List (Bytes × Bytes)) : Option Nat :=
  (headers.lookup (ascii "Content-Length")).bind fun value =>
    (LogStream.readDecimal value).map Int.toNat

/-- A response whose body is as long as its header says. -/
def readAnswer : Parse Answer UInt8 :=
  (Parse.sift readLine readStatus).andThen fun status =>
    (Parse.sift readFields fun headers =>
      (contentLength headers).map fun n => (headers, n)).andThen fun head =>
        (Parse.counted head.2).sift fun body => some ⟨status.1, status.2, head.1, body⟩

variable {line rest buf : Bytes} {r : HttpResponse} {callback : HttpCallback}

theorem readLine_final : Parse.Final readLine := by
  intro buf c rest more hread
  obtain ⟨n, hn, heq⟩ := Option.map_eq_some_iff.mp hread
  have hle := findCRLF_le hn
  cases heq
  rw [readLine, findCRLF_append hn, Option.map_some, List.take_append_of_le_length (by omega),
    List.drop_append_of_le_length hle]

theorem readLine_consumes : Parse.Consumes readLine := by
  intro buf c rest hread
  obtain ⟨n, hn, heq⟩ := Option.map_eq_some_iff.mp hread
  have hle := findCRLF_le hn
  cases heq
  rw [List.length_drop]
  omega

theorem readFields_end (h : findCRLF buf = some 0) : readFields buf = some ([], buf.drop 2) := by
  rw [readFields]
  split
  · rename_i hnone
    cases h.symm.trans hnone
  · rfl
  · rename_i n hsome
    cases h.symm.trans hsome

theorem readFields_line {n : Nat} (h : findCRLF buf = some (n + 1)) :
    readFields buf = (readFields (buf.drop (n + 3))).map fun x =>
      (field (buf.take (n + 1)) :: x.1, x.2) := by
  rw [readFields]
  split
  · rename_i hnone
    cases h.symm.trans hnone
  · rename_i hzero
    cases h.symm.trans hzero
  · rename_i m hsome
    cases h.symm.trans hsome
    rfl

/-- The section ends, or begins with a line. -/
theorem readFields_cases {hs : List (Bytes × Bytes)} (h : readFields buf = some (hs, rest)) :
    (findCRLF buf = some 0 ∧ hs = [] ∧ rest = buf.drop 2) ∨
      ∃ n hs', findCRLF buf = some (n + 1) ∧ hs = field (buf.take (n + 1)) :: hs' ∧
        readFields (buf.drop (n + 3)) = some (hs', rest) := by
  cases hn : findCRLF buf with
  | none =>
    rw [readFields] at h
    split at h
    · cases h
    · rename_i hsome
      cases hn.symm.trans hsome
    · rename_i hsome
      cases hn.symm.trans hsome
  | some n =>
    cases n with
    | zero =>
      rw [readFields_end hn] at h
      cases h
      exact .inl ⟨rfl, rfl, rfl⟩
    | succ n =>
      rw [readFields_line hn] at h
      obtain ⟨x, hx, heq⟩ := Option.map_eq_some_iff.mp h
      cases heq
      exact .inr ⟨n, x.1, rfl, rfl, hx⟩

theorem readFields_final : Parse.Final readFields := by
  intro buf hs rest more hread
  induction hs generalizing buf with
  | nil =>
    cases readFields_cases hread with
    | inl hend =>
      obtain ⟨hn, -, rfl⟩ := hend
      rw [readFields_end (findCRLF_append hn more),
        List.drop_append_of_le_length (findCRLF_le hn)]
    | inr hline =>
      obtain ⟨n, hs', -, heq, -⟩ := hline
      cases heq
  | cons h hs ih =>
    cases readFields_cases hread with
    | inl hend =>
      obtain ⟨-, heq, -⟩ := hend
      cases heq
    | inr hline =>
      obtain ⟨n, hs', hn, heq, hrest⟩ := hline
      cases heq
      have hle := findCRLF_le hn
      rw [readFields_line (findCRLF_append hn more), List.drop_append_of_le_length (by omega),
        ih _ hrest, List.take_append_of_le_length (by omega)]
      rfl

theorem readFields_bounded : Parse.Bounded readFields := by
  intro buf hs rest hread
  induction hs generalizing buf with
  | nil =>
    cases readFields_cases hread with
    | inl hend =>
      rw [hend.2.2, List.length_drop]
      omega
    | inr hline =>
      obtain ⟨n, hs', -, heq, -⟩ := hline
      cases heq
  | cons h hs ih =>
    cases readFields_cases hread with
    | inl hend =>
      obtain ⟨-, heq, -⟩ := hend
      cases heq
    | inr hline =>
      obtain ⟨n, hs', -, heq, hrest⟩ := hline
      cases heq
      have hle := ih _ hrest
      rw [List.length_drop] at hle
      omega

theorem readAnswer_final : Parse.Final readAnswer :=
  readLine_final.sift.andThen fun _ => readFields_final.sift.andThen fun _ =>
    (Parse.final_counted _).sift

theorem readAnswer_consumes : Parse.Consumes readAnswer :=
  readLine_consumes.sift.andThen fun _ => readFields_bounded.sift.andThen fun _ =>
    (Parse.bounded_counted _).sift

/-- What a reader makes of a response that leaves the connection open. -/
def HttpResponse.answer (r : HttpResponse) : Answer where
  statusCode := r.statusCode.code
  statusMessage := r.statusMessage
  headers := (ascii "Content-Length", decimal r.body.length) ::
    (ascii "Connection", ascii "Keep-Alive") :: r.headers
  body := r.body

/-- No text of the response ends a line, no name has a colon, and the lengths fit into an `int`, as
that of the body then does into `buf`. -/
structure Plain (r : HttpResponse) : Prop where
  message : ∀ b ∈ r.statusMessage, b ≠ 13
  name : ∀ h ∈ r.headers, ∀ b ∈ h.1, b ≠ 13 ∧ b ≠ 58
  value : ∀ h ∈ r.headers, ∀ b ∈ h.2, b ≠ 13
  fits : ∀ text ∈ r.texts, text.length < 2 ^ 31

/-- The lines of some headers, as `appendToBuffer` writes them. -/
def fieldBytes (hs : List (Bytes × Bytes)) : Bytes :=
  hs.flatMap fun h => h.1 ++ ascii ": " ++ h.2 ++ crlf

theorem field_line {name : Bytes} (h : ∀ b ∈ name, b ≠ 13 ∧ b ≠ 58) (value : Bytes) :
    field (name ++ 58 :: 32 :: value) = (name, value) := by
  have hcolon : 58 ∉ name := fun hmem => (h 58 hmem).2 rfl
  have hindex : (name ++ 58 :: 32 :: value).idxOf 58 = name.length := idxOf_first hcolon
  rw [field, hindex, List.take_left]
  simp

theorem readFields_plain (h : ∀ b ∈ line, b ≠ 13) (hne : line ≠ []) :
    readFields (line ++ (crlf ++ rest)) =
      (readFields rest).map fun x => (field line :: x.1, x.2) := by
  obtain ⟨n, hn⟩ := Nat.exists_eq_succ_of_ne_zero (mt List.eq_nil_of_length_eq_zero hne)
  have hfound : findCRLF (line ++ (crlf ++ rest)) = some line.length := findCRLF_line h
  have hdrop : (line ++ (crlf ++ rest)).drop (line.length + 2) = rest := drop_line
  have htake : (line ++ (crlf ++ rest)).take line.length = line := take_line
  rw [hn] at hfound hdrop htake
  rw [readFields_line hfound, hdrop, htake]

theorem readFields_bytes {hs : List (Bytes × Bytes)}
    (h : ∀ h ∈ hs, (∀ b ∈ h.1, b ≠ 13 ∧ b ≠ 58) ∧ ∀ b ∈ h.2, b ≠ 13) (rest : Bytes) :
    readFields (fieldBytes hs ++ (crlf ++ rest)) = some (hs, rest) := by
  induction hs with
  | nil => exact readFields_end rfl
  | cons x hs ih =>
    obtain ⟨name, value⟩ := x
    obtain ⟨hname, hvalue⟩ := h (name, value) List.mem_cons_self
    have hplain : ∀ b ∈ name ++ 58 :: 32 :: value, b ≠ 13 := by
      intro b hb
      simp only [List.mem_append, List.mem_cons] at hb
      cases hb with
      | inl hb => exact (hname b hb).1
      | inr hb =>
        cases hb with
        | inl hb => simp [hb]
        | inr hb =>
          cases hb with
          | inl hb => simp [hb]
          | inr hb => exact hvalue b hb
    have hsplit : fieldBytes ((name, value) :: hs) ++ (crlf ++ rest) =
        (name ++ 58 :: 32 :: value) ++ (crlf ++ (fieldBytes hs ++ (crlf ++ rest))) := by
      simp [fieldBytes, show ascii ": " = [58, 32] from rfl]
    rw [hsplit, readFields_plain hplain (by simp), ih fun x hx => h x (List.mem_cons_of_mem _ hx),
      field_line hname]
    rfl

/-- The status line of a response. -/
def statusLine (r : HttpResponse) : Bytes :=
  ascii "HTTP/1.1 " ++ decimal r.statusCode.code ++ 32 :: r.statusMessage

theorem readStatus_line (r : HttpResponse) :
    readStatus (statusLine r) = some (r.statusCode.code, r.statusMessage) := by
  unfold statusLine
  cases r.statusCode with
  | kUnknown | k200Ok | k301MovedPermanently | k400BadRequest | k404NotFound => rfl

theorem statusLine_plain (h : Plain r) : ∀ b ∈ statusLine r, b ≠ 13 := by
  have hcode : ∀ b ∈ ascii "HTTP/1.1 " ++ decimal r.statusCode.code, b ≠ 13 := by
    cases r.statusCode <;> decide +kernel
  intro b hb
  simp only [statusLine, List.mem_append, List.mem_cons] at hb
  cases hb with
  | inl hb => exact hcode b (List.mem_append.mpr hb)
  | inr hb =>
    cases hb with
    | inl hb => simp [hb]
    | inr hb => exact h.message b hb

theorem bytes_eq (h : r.closeConnection = false) : r.bytes =
    statusLine r ++ (crlf ++ (fieldBytes r.answer.headers ++ (crlf ++ r.body))) := by
  have hlength : ascii "Content-Length: " = ascii "Content-Length" ++ ascii ": " := rfl
  have hkeep : ascii "Connection: Keep-Alive\r\n" =
      ascii "Connection" ++ (ascii ": " ++ (ascii "Keep-Alive" ++ crlf)) := rfl
  simp [HttpResponse.bytes, h, statusLine, fieldBytes, HttpResponse.answer, hlength, hkeep,
    show ascii "\r\n" = crlf from rfl, show ascii " " = [32] from rfl]

theorem contentLength_answer (r : HttpResponse) :
    contentLength r.answer.headers = some r.body.length := by
  simp [contentLength, HttpResponse.answer, LogStream.readDecimal_decimal]

theorem decimal_plain (n : Nat) : ∀ b ∈ decimal n, b ≠ 13 := by
  intro b hb heq
  have hcanonical := LogStream.numeral_canonical (by decide) LogStream.decimalValue_sign rfl n
  rw [LogStream.decimal_eq, if_neg (by omega), List.nil_append, Int.natAbs_natCast] at hb
  apply hcanonical.digits b hb
  rw [heq]
  rfl

theorem answer_headers_plain (h : Plain r) :
    ∀ x ∈ r.answer.headers, (∀ b ∈ x.1, b ≠ 13 ∧ b ≠ 58) ∧ ∀ b ∈ x.2, b ≠ 13 := by
  intro x hx
  cases List.mem_cons.mp hx with
  | inl hx =>
    subst hx
    have hname : ∀ b ∈ ascii "Content-Length", b ≠ 13 ∧ b ≠ 58 := by decide +kernel
    exact ⟨hname, decimal_plain r.body.length⟩
  | inr hx =>
    cases List.mem_cons.mp hx with
    | inl hx =>
      subst hx
      decide +kernel
    | inr hx => exact ⟨h.name x hx, h.value x hx⟩

theorem readAnswer_bytes (h : Plain r) (hopen : r.closeConnection = false) :
    readAnswer r.bytes = some (r.answer, []) := by
  have hline : readLine r.bytes =
      some (statusLine r, fieldBytes r.answer.headers ++ (crlf ++ r.body)) := by
    rw [bytes_eq hopen, readLine, findCRLF_line (statusLine_plain h), Option.map_some, take_line,
      drop_line]
  have hstatus := readStatus_line r
  have hfields := readFields_bytes (answer_headers_plain h) r.body
  have hlength := contentLength_answer r
  simp [readAnswer, Parse.andThen, Parse.sift, Parse.counted, hline, hstatus, hfields, hlength]
  rfl

/-- Reading what arrives of some responses, one behind the other. -/
def answers : Receiver (List Answer) HttpResponse UInt8 Fault :=
  Parse.receiver readAnswer HttpResponse.bytes HttpResponse.answer fun read a => read ++ [a]

theorem answers_exact : answers.Exact fun r => Plain r ∧ r.closeConnection = false :=
  Parse.receiver_exact readAnswer_final readAnswer_consumes fun _ h => readAnswer_bytes h.1 h.2

theorem foldl_answers (read : List Answer) (rs : List HttpResponse) :
    rs.foldl answers.deliver read = read ++ rs.map HttpResponse.answer := by
  induction rs generalizing read with
  | nil => simp
  | cons r rs ih =>
    rw [List.foldl_cons, ih]
    simp [answers, Parse.receiver]

/-- The responses to requests that came behind `past`. -/
def responses (callback : HttpCallback) (past : List HttpRequest) :
    List HttpRequest → List HttpResponse
  | [] => []
  | req :: reqs => HttpServer.respond callback past req :: responses callback (past ++ [req]) reqs

theorem responses_append (past reqs : List HttpRequest) (req : HttpRequest) :
    responses callback past (reqs ++ [req]) =
      responses callback past reqs ++ [HttpServer.respond callback (past ++ reqs) req] := by
  induction reqs generalizing past with
  | nil => simp [responses]
  | cons first reqs ih => simp [responses, ih]

theorem mem_responses {past reqs : List HttpRequest} (h : r ∈ responses callback past reqs) :
    ∃ past req, r = HttpServer.respond callback past req := by
  induction reqs generalizing past with
  | nil => cases h
  | cons req reqs ih =>
    cases List.mem_cons.mp h with
    | inl heq => exact ⟨past, req, heq⟩
    | inr hmem => exact ih hmem

/-- A server whose connection is open has sent a response to each request, and nothing else. -/
def Answering (callback : HttpCallback) (s : HttpServer) : Prop :=
  s.shutdown = false → s.sent = (responses callback [] s.requests).map HttpResponse.bytes ∧
    ∀ r ∈ responses callback [] s.requests, r.closeConnection = false

theorem receive_answering {s t : HttpServer} {chunk : Bytes × Int} (h : Answering callback s)
    (hok : s.receive callback chunk = .ok t) : Answering callback t := by
  obtain ⟨⟨ok, context, buf⟩, -, hok⟩ := bind_ok hok
  intro hopen
  cases ok with
  | false =>
    -- a bad request ends the connection
    cases hg : context.gotAll with
    | false =>
      simp only [hg, Bool.false_eq_true, if_false, Except.ok.injEq] at hok
      subst hok
      cases hopen
    | true =>
      simp only [hg, Bool.false_eq_true, if_false, if_true, Except.ok.injEq] at hok
      subst hok
      simp [HttpServer.onRequest] at hopen
  | true =>
    cases hg : context.gotAll with
    | false =>
      simp only [hg, Bool.false_eq_true, if_false, if_true, Except.ok.injEq] at hok
      subst hok
      exact h hopen
    | true =>
      simp only [hg, if_true, Except.ok.injEq] at hok
      subst hok
      simp only [HttpServer.onRequest, Bool.or_eq_false_iff] at hopen ⊢
      obtain ⟨hsent, hclose⟩ := h hopen.1
      rw [responses_append]
      refine ⟨by simp [hsent], fun r hr => ?_⟩
      cases List.mem_append.mp hr with
      | inl hr => exact hclose r hr
      | inr hr =>
        rw [List.mem_singleton.mp hr]
        exact hopen.2

theorem run_answering {s : HttpServer} (h : Answering callback s) (chunks : List (Bytes × Int)) :
    Yields (Answering callback) (fun _ => True) (s.run callback chunks) := by
  induction chunks generalizing s with
  | nil => exact h
  | cons chunk chunks ih =>
    rw [HttpServer.run, List.foldlM_cons]
    cases hok : s.receive callback chunk with
    | error f => trivial
    | ok t => exact ih (receive_answering h hok)

/-- However the bytes sent on an open connection are cut, the client reads the responses to the
requests, in order, and all of them once it has all bytes. -/
def Readable (callback : HttpCallback) (s : HttpServer) : Prop :=
  s.shutdown = false → ∀ cuts : List Bytes, cuts.flatten <+: s.sent.flatten →
    ∃ read rest, answers.feed ([], []) cuts = .ok (read, rest) ∧
      read <+: (responses callback [] s.requests).map HttpResponse.answer ∧
      (cuts.flatten = s.sent.flatten →
        read = (responses callback [] s.requests).map HttpResponse.answer ∧ rest = [])

/-- The responses of a server are told apart by their length, whatever came in and however. -/
theorem answers_read (hplain : ∀ past req, Plain (HttpServer.respond callback past req))
    (chunks : List (Bytes × Int)) :
    Yields (Readable callback) (fun _ => True) (HttpServer.new.run callback chunks) := by
  have hnew : Answering callback .new := fun _ => ⟨rfl, fun r hr => absurd hr List.not_mem_nil⟩
  apply (run_answering hnew chunks).mono
  intro s hs hopen cuts hcuts
  obtain ⟨hsent, hclose⟩ := hs hopen
  have hgood : ∀ r ∈ responses callback [] s.requests, Plain r ∧ r.closeConnection = false := by
    intro r hr
    obtain ⟨past, req, heq⟩ := mem_responses hr
    exact ⟨heq ▸ hplain past req, hclose r hr⟩
  have hstream : s.sent.flatten = (responses callback [] s.requests).flatMap answers.encode := by
    rw [hsent, List.flatMap_def]
    rfl
  rw [hstream] at hcuts ⊢
  have hfeed := answers_exact.feed_frames hgood [] hcuts
  rw [foldl_answers, List.nil_append] at hfeed
  refine ⟨_, _, hfeed, (answers.completed_prefix _ _).map _, fun hall => ?_⟩
  rw [hall, answers.completed_all, answers.remainder_all]
  exact ⟨rfl, rfl⟩

/-- It says what was asked for. -/
def namingCallback : HttpCallback := fun _ req resp =>
  { resp with statusCode := .k200Ok, statusMessage := ascii "OK", body := req.path.take 80 }

theorem answers_read_sample : Yields (Readable namingCallback) (fun _ => True)
    (HttpServer.new.run namingCallback
      [(ascii "GET /a HTTP/1.1\r\n\r\nGE", 1), (ascii "T /b HTTP/1.1\r\n\r\n", 2)]) := by
  apply answers_read
  intro past req
  have hmessage : ∀ b ∈ ascii "OK", b ≠ 13 := by decide +kernel
  have hnone : (HttpServer.respond namingCallback past req).headers = [] := rfl
  have htexts : (HttpServer.respond namingCallback past req).texts =
      [ascii "OK", req.path.take 80] := rfl
  refine ⟨hmessage, by simp [hnone], by simp [hnone], ?_⟩
  intro text htext
  rw [htexts] at htext
  rcases List.mem_pair.mp htext with rfl | rfl
  · decide
  · exact Nat.lt_of_le_of_lt (List.length_take_le 80 req.path) (by decide)

end Muduo.Net.Http
