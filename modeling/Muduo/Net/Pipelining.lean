import Mathlib.Data.List.Forall2
import Muduo.Lib.Serving
import Muduo.Net.HttpParsing
import Muduo.Net.HttpServer

namespace Muduo.Net.Http
open Muduo.Lib

variable {texts : List RequestText} {t : RequestText} {callback : HttpCallback} {received : Bytes}
  {s : HttpServer} {served : Nat}

/-- The bytes of requests sent one behind the other. -/
def pipelined (texts : List RequestText) : Bytes := texts.flatMap (·.bytes)

/-- Where the request `j` ends. -/
def ends (texts : List RequestText) (j : Nat) : Nat := (pipelined (texts.take (j + 1))).length

/-- How many bytes have come after each chunk. -/
def arrivals : Nat → List (Bytes × Int) → List Nat
  | _, [] => []
  | n, chunk :: chunks => (n + chunk.1.length) :: arrivals (n + chunk.1.length) chunks

/-- From the chunk on that completes a request, there is a chunk for it and one for each request
behind it. -/
def Spread (texts : List RequestText) (chunks : List (Bytes × Int)) : Prop :=
  ∀ j, j < texts.length → texts.length - j ≤ (arrivals 0 chunks).countP (ends texts j ≤ ·)

instance (texts : List RequestText) (chunks : List (Bytes × Int)) :
    Decidable (Spread texts chunks) :=
  Nat.decidableBallLT _ _

/-- The callback answers such a request with a response that keeps the connection open. -/
def KeepsOpen (callback : HttpCallback) (t : RequestText) : Prop :=
  ∀ past req, Describes t req → (HttpServer.respond callback past req).closeConnection = false

/-- The callback was called once for each request, in order, and each was answered. -/
structure Answered (texts : List RequestText) (s : HttpServer) : Prop where
  requests : List.Forall₂ Describes texts s.requests
  sent : s.sent.length = texts.length
  kept : s.shutdown = false

/-- The server has answered `served` requests and is somewhere in the next one. -/
structure Serving (texts : List RequestText) (received : Bytes) (served : Nat) (s : HttpServer) :
    Prop where
  le : served ≤ texts.length
  answered : Answered (texts.take served) s
  reading : s.context.gotAll = false
  input : ∃ used, received = pipelined (texts.take served) ++ (used ++ s.inputBuffer) ∧
    (∀ t, texts[served]? = some t → Stage t s.context used) ∧
    (texts[served]? = none → s.context = .new ∧ used = [])

theorem pipelined_append (ts us : List RequestText) :
    pipelined (ts ++ us) = pipelined ts ++ pipelined us := List.flatMap_append

theorem pipelined_take (h : texts[served]? = some t) :
    pipelined (texts.take (served + 1)) = pipelined (texts.take served) ++ t.bytes := by
  rw [List.take_add_one, h, pipelined_append]
  simp [pipelined]

theorem pipelined_split (h : texts[served]? = some t) : pipelined texts =
    pipelined (texts.take served) ++ (t.bytes ++ pipelined (texts.drop (served + 1))) := by
  rw [← List.append_assoc, ← pipelined_take h, ← pipelined_append, List.take_append_drop]

theorem ends_mono (texts : List RequestText) : Monotone (ends texts) := by
  intro i j hij
  obtain ⟨us, hus⟩ := List.take_prefix_take_left (l := texts) (Nat.add_le_add_right hij 1)
  rw [ends, ends, ← hus, pipelined_append, List.length_append]
  omega

theorem arrivals_sorted (n : Nat) (chunks : List (Bytes × Int)) :
    (arrivals n chunks).Pairwise (· ≤ ·) ∧ ∀ m ∈ arrivals n chunks, n ≤ m := by
  induction chunks generalizing n with
  | nil => exact ⟨.nil, nofun⟩
  | cons chunk chunks ih =>
    obtain ⟨hs, hn⟩ := ih (n + chunk.1.length)
    refine ⟨List.pairwise_cons.mpr ⟨hn, hs⟩, fun m hm => ?_⟩
    rcases List.mem_cons.mp hm with rfl | hm
    · omega
    · have := hn m hm
      omega

theorem receive_parsed {chunk : Bytes × Int} {c : HttpContext} {b : Bytes}
    (h : s.context.parseRequest (s.inputBuffer ++ chunk.1) chunk.2 = .ok (true, c, b)) :
    s.receive callback chunk = .ok
      (if c.gotAll then
        { ({ s with context := c, inputBuffer := b } : HttpServer).onRequest callback c.request with
          context := .new }
      else { s with context := c, inputBuffer := b }) := by
  rw [HttpServer.receive, HttpServer.onMessage, h, ok_bind]
  cases hg : c.gotAll <;> simp [hg]

/-- One message moves the server on by at most one request. -/
theorem receive_serving (hk : ∀ t ∈ texts, KeepsOpen callback t)
    (h : Serving texts received served s) (chunk : Bytes × Int)
    (hb : received ++ chunk.1 <+: pipelined texts) :
    Yields (Serving texts (received ++ chunk.1)
        (if served < texts.length ∧ ends texts served ≤ (received ++ chunk.1).length then served + 1
          else served)) (fun _ => False) (s.receive callback chunk) := by
  obtain ⟨used, rfl, hstage, hidle⟩ := h.input
  rw [List.append_assoc, List.append_assoc] at hb ⊢
  cases ht : texts[served]? with
  | none =>
    have hlen : texts.length ≤ served := List.getElem?_eq_none_iff.mp ht
    obtain ⟨hnew, rfl⟩ := hidle ht
    rw [List.take_of_length_le hlen] at hb
    have hnil : s.inputBuffer ++ chunk.1 = [] := by
      obtain ⟨more, hmore⟩ := hb
      have := congrArg List.length hmore
      simp only [List.length_append, List.nil_append] at this
      exact List.length_eq_zero_iff.mp (by rw [List.length_append]; omega)
    have hparse := @parse_wait s.context [] chunk.2
      (.inl (by rw [hnew]; rfl)) rfl
    rw [if_neg fun hc => by omega]
    rw [receive_parsed (by rw [hnil]; exact hparse), if_neg (by rw [h.reading]; exact nofun)]
    obtain ⟨hrequests, hsent, hkept⟩ := h.answered
    exact ⟨h.le, ⟨hrequests, hsent, hkept⟩, h.reading, [], by rw [hnil],
      fun t' ht' => absurd (ht.symm.trans ht') nofun, fun _ => ⟨hnew, rfl⟩⟩
  | some t =>
    obtain ⟨hlt, -⟩ := List.getElem?_eq_some_iff.mp ht
    rw [pipelined_split ht, List.prefix_append_right_inj] at hb
    obtain ⟨c', used', b', hparse, hstage', hused, hgot⟩ :=
      parse_stage chunk.2 (hstage t ht) h.reading hb
    have hdue : ends texts served ≤
        (pipelined (texts.take served) ++ (used ++ (s.inputBuffer ++ chunk.1))).length ↔
          c'.gotAll = true := by
      simp only [hgot, ends, pipelined_take ht, List.length_append]
      omega
    rw [receive_parsed hparse]
    simp only [hdue]
    by_cases hdone : c'.gotAll = true
    · obtain ⟨rfl, hdescribes⟩ := hstage'.describes hdone
      have hkeep := hk t (List.mem_of_getElem? ht) s.requests c'.request hdescribes
      rw [if_pos hdone, if_pos ⟨hlt, hdone⟩]
      refine ⟨hlt, ⟨?_, ?_, ?_⟩, rfl, [], ?_, fun _ _ => .line, fun _ => ⟨rfl, rfl⟩⟩
      · rw [List.take_add_one, ht]
        exact List.rel_append h.answered.requests (.cons hdescribes .nil)
      · have := h.answered.sent
        simp only [List.length_take] at this ⊢
        change (s.sent ++ [_]).length = _
        rw [List.length_append, List.length_singleton]
        omega
      · change (s.shutdown || _) = false
        rw [h.answered.kept]
        exact hkeep
      · change pipelined (texts.take served) ++ (used ++ (s.inputBuffer ++ chunk.1)) =
          pipelined (texts.take (served + 1)) ++ ([] ++ b')
        rw [hused, pipelined_take ht, List.append_assoc, List.nil_append]
    · rw [if_neg hdone, if_neg fun hc => hdone hc.2]
      obtain ⟨hrequests, hsent, hkept⟩ := h.answered
      refine ⟨h.le, ⟨hrequests, hsent, hkept⟩, by simpa using hdone, used', ?_,
        fun t' ht' => ?_, fun hn => ?_⟩
      · change pipelined (texts.take served) ++ (used ++ (s.inputBuffer ++ chunk.1)) =
          pipelined (texts.take served) ++ (used' ++ b')
        rw [hused]
      · obtain rfl : t = t' := Option.some.inj (ht.symm.trans ht')
        exact hstage'
      · exact absurd (ht.symm.trans hn) nofun

theorem new_serving : Serving texts [] 0 .new :=
  ⟨Nat.zero_le _, ⟨.nil, rfl, rfl⟩, rfl, [], rfl, fun _ _ => .line, fun _ => ⟨rfl, rfl⟩⟩

theorem run_serving (hk : ∀ t ∈ texts, KeepsOpen callback t) {chunks : List (Bytes × Int)}
    (h : Serving texts received served s)
    (hb : received ++ Reader.received chunks <+: pipelined texts) :
    Yields (Serving texts (received ++ Reader.received chunks)
      (serve (ends texts) texts.length served (arrivals received.length chunks)))
      (fun _ => False) (s.run callback chunks) := by
  induction chunks generalizing s received served with
  | nil =>
    rw [Reader.received, List.flatMap_nil, List.append_nil]
    exact h
  | cons chunk chunks ih =>
    rw [Reader.received, List.flatMap_cons, ← List.append_assoc] at hb ⊢
    refine (receive_serving hk h chunk ((List.prefix_append ..).trans hb)).bind fun s' hs' => ?_
    have hlater := ih hs' hb
    rw [arrivals, serve, ← List.length_append]
    split
    · rename_i hnow
      rwa [if_pos hnow] at hlater
    · rename_i hnow
      rwa [if_neg hnow] at hlater

/-- All requests of a pipeline are answered exactly when the chunks leave one message for each
of them. -/
theorem pipeline_answered (hk : ∀ t ∈ texts, KeepsOpen callback t) {chunks : List (Bytes × Int)}
    (hall : Reader.received chunks = pipelined texts) :
    Yields (Answered texts) (fun _ => False) (HttpServer.new.run callback chunks) ↔
      Spread texts chunks := by
  have hrun := run_serving hk new_serving (by
    rw [List.nil_append, hall])
  have hserve := serve_all (ends_mono texts) (Nat.zero_le texts.length) (arrivals_sorted 0 chunks).1
  have hspread : serve (ends texts) texts.length 0 (arrivals 0 chunks) = texts.length ↔
      Spread texts chunks := by
    rw [hserve]
    exact forall_congr' fun j => ⟨fun h => h (Nat.zero_le j), fun h _ => h⟩
  rw [← hspread]
  constructor
  · intro h
    obtain ⟨s, hs, ha⟩ := h.returns
    have hserving := hrun.of_ok hs
    have hsent := hserving.answered.sent
    rw [ha.sent, List.length_take] at hsent
    have hle := hserving.le
    change serve (ends texts) texts.length 0 (arrivals 0 chunks) ≤ _ at hle
    change _ = min (serve (ends texts) texts.length 0 (arrivals 0 chunks)) _ at hsent
    omega
  · intro h
    refine hrun.mono fun s hs => ?_
    have ha := hs.answered
    change Answered (texts.take (serve (ends texts) texts.length 0 (arrivals 0 chunks))) s at ha
    rwa [h, List.take_length] at ha

/-- The shortest request for `/`. -/
def rootText : RequestText where
  method := .kGet
  target := ascii "/"
  http11 := true
  headers := []
  method_valid := sampleText.method_valid
  target_plain := by decide +kernel
  name_plain := nofun
  value_plain := nofun

/-- It answers what it was asked, and closes nothing. -/
def sampleCallback : HttpCallback := fun _ req resp =>
  { resp with statusCode := .k200Ok, body := req.path, closeConnection := false }

theorem pipeline_answered_sample :
    Yields (Answered [rootText, rootText]) (fun _ => False) (HttpServer.new.run sampleCallback
      [(ascii "GET / HTTP/1.1\r\n\r\nGET", 1), (ascii " / HTTP/1.1\r\n\r\n", 2)]) :=
  (pipeline_answered (show ∀ t ∈ [rootText, rootText], KeepsOpen sampleCallback t from
    fun _ _ _ _ _ => rfl) (by decide)).mpr
    (by decide +kernel)

/-- The second of two requests that come in one chunk gets no answer. -/
theorem second_request_waits : ¬∀ (callback : HttpCallback) (texts : List RequestText)
    (chunks : List (Bytes × Int)), (∀ t ∈ texts, KeepsOpen callback t) →
    Reader.received chunks = pipelined texts →
    Yields (Answered texts) (fun _ => False) (HttpServer.new.run callback chunks) := by
  intro h
  obtain ⟨s, hs, ha⟩ := (h sampleCallback [rootText, rootText]
    [(ascii "GET / HTTP/1.1\r\n\r\nGET / HTTP/1.1\r\n\r\n", 1)] (fun _ _ _ _ _ => rfl)
    (by decide)).returns
  have hone : ((HttpServer.new.run sampleCallback
      [(ascii "GET / HTTP/1.1\r\n\r\nGET / HTTP/1.1\r\n\r\n", 1)]).map
        (·.sent.length)).toOption = some 1 := by
    decide +kernel
  rw [hs] at hone
  exact absurd (ha.sent.symm.trans (Option.some.inj hone)) nofun

end Muduo.Net.Http
