import Muduo.Examples.TransparentPipe

namespace Muduo.Examples
open Muduo.Lib Muduo.Net

/-- A client's connection with what is sent to the client. `relayed` is the history of what its
destinations sent, and `refused` says that a request has been turned down. -/
structure ClientStream where
  server : Sock4aServer
  refused : Bool
  sent : Bytes
  relayed : Bytes

namespace ClientStream
open Sock4aServer

inductive Event
  | server (e : Sock4aServer.Event)
  | destination (client : Nat) (chunk : Bytes)

def initial : ClientStream where
  server := Sock4aServer.initial
  refused := false
  sent := []
  relayed := []

/-- `serverConn->send`, which does nothing once the connection is no longer `kConnected`. -/
def send (s : ClientStream) (data : Bytes) : ClientStream :=
  if s.server.shutdown then s else { s with sent := s.sent ++ data }

section

variable (resolve : Bytes → Option Bytes)

/-- The bytes are a whole request that is not granted. -/
def refuses (s : Sock4aServer) : Sock4aServer.Event → Bool
  | .message chunk => s.context.isNone && parse resolve (s.inputBuffer ++ chunk) == .reject
  | .up _ => false

/-- `onClientMessage`; the context was set when the outbound connection came up. -/
def onClientMessage (s : ClientStream) (buff : Bytes) : ClientStream :=
  { s.send buff with relayed := s.relayed ++ buff }

def enabled (stream : Bytes) (s : ClientStream) : Event → Prop
  | .server e => Sock4aServer.enabled stream s.server e
  | .destination client _ => client ∈ s.server.established

def step (s : ClientStream) : Event → Except Fault ClientStream
  | .server e => do
    let server ← Sock4aServer.step resolve s.server e
    let s' := s.send (server.replies.drop s.server.replies.length).flatten
    .ok { s' with server := server, refused := s.refused || refuses resolve s.server e }
  | .destination _ chunk => .ok (s.onClientMessage chunk)

def machine (stream : Bytes) : Machine ClientStream Event Fault where
  enabled := enabled stream
  step := step resolve

end

/-- The reply for a granted request: VN, CD, port and address. -/
def grantedReply (address : InetAddress) : Bytes := [0, 90] ++ address.port ++ address.ip

/-- The client has seen that an outbound connection is up, and then what came through it. -/
def SeesGranted (s : ClientStream) (client : Nat) : Prop :=
  ∃ address, s.server.clients[client]? = some address ∧
    s.sent = grantedReply address ++ s.relayed

/-- The client has seen that its request was refused, and nothing else. -/
def SeesRefused (s : ClientStream) : Prop :=
  ∃ ignored : Bytes, ignored.length = 6 ∧ s.sent = [0, 91] ++ ignored ∧ s.server.shutdown = true

/-- The client is sent what its request has come to, and nothing else. -/
def SeesReply (s : ClientStream) : Prop :=
  (∀ client ∈ s.server.established, SeesGranted s client) ∧
    (s.refused = true → SeesRefused s)

variable {resolve : Bytes → Option Bytes} {stream : Bytes} {s : ClientStream}

/-- The result code of whatever is sent is 0. -/
structure Coded (s : ClientStream) : Prop where
  sent : s.sent = [] ∨ [0, 0] <+: s.sent
  up : s.server.established ≠ [] → s.server.shutdown = true ∨ s.sent ≠ []

theorem initial_coded : Coded initial where
  sent := .inl rfl
  up h := absurd rfl h

/-- A step of the server adds one reply or none. -/
theorem step_replies {a b : Sock4aServer} {e : Sock4aServer.Event}
    (h : Sock4aServer.step resolve a e = .ok b) : ∃ new, b.replies = a.replies ++ new ∧
      (new = [] ∨ ∃ reply, new = [reply] ∧ [0, 0] <+: reply) ∧
      (a.shutdown = true → b.shutdown = true) ∧
      (b.established ≠ [] → a.established ≠ [] ∨ new ≠ []) := by
  cases e with
  | message chunk =>
    cases h
    simp only [onServerMessage]
    split
    · split
      · exact ⟨[], by simp, .inl rfl, fun _ => rfl, .inl⟩
      · exact ⟨[], by simp, .inl rfl, id, .inl⟩
      · exact ⟨[], by simp [setupClientConnection], .inl rfl, id, .inl⟩
      · exact ⟨[rejection], rfl, .inr ⟨_, rfl, _, rfl⟩, fun _ => rfl, .inl⟩
    · exact ⟨[], by simp, .inl rfl, id, .inl⟩
  | up client =>
    simp only [Sock4aServer.step] at h
    split at h
    · cases h
      exact ⟨[granted _], rfl, .inr ⟨_, rfl, _, rfl⟩, id, fun _ => .inr (by simp)⟩
    · cases h

theorem send_down {data : Bytes} (h : s.server.shutdown = true) : s.send data = s := if_pos h

theorem send_sent {data : Bytes} (h : ¬s.server.shutdown = true) :
    (s.send data).sent = s.sent ++ data := by
  rw [send, if_neg h]

theorem send_server {data : Bytes} : (s.send data).server = s.server := by
  unfold send
  split <;> rfl

theorem Coded.send (hs : Coded s) {data : Bytes} (hd : s.server.shutdown = true ∨
    s.sent ≠ [] ∨ data = [] ∨ [0, 0] <+: data) :
    (s.send data).sent = [] ∨ [0, 0] <+: (s.send data).sent := by
  by_cases hdown : s.server.shutdown = true
  · rw [send_down hdown]
    exact hs.sent
  rw [send_sent hdown]
  cases hs.sent with
  | inr hseen => exact .inr (hseen.trans (List.prefix_append _ _))
  | inl hnil =>
    rw [hnil, List.nil_append]
    exact (hd.resolve_left hdown).resolve_left fun hne => hne hnil

/-- What has been sent stays. -/
theorem send_ne_nil {data : Bytes} (h : s.server.shutdown = true ∨ s.sent ≠ []) :
    s.server.shutdown = true ∨ (s.send data).sent ≠ [] := by
  by_cases hdown : s.server.shutdown = true
  · exact .inl hdown
  · rw [send_sent hdown]
    exact .inr fun hnil => h.resolve_left hdown (List.append_eq_nil_iff.mp hnil).1

theorem Coded.step (hs : Coded s) {e : Event} (he : enabled stream s e) {t : ClientStream}
    (h : ClientStream.step resolve s e = .ok t) : Coded t := by
  cases e with
  | server e =>
    obtain ⟨b, hb, ht⟩ := bind_ok h
    cases ht
    obtain ⟨new, hnew, hcases, hdown, hup⟩ := step_replies hb
    have hflat : (b.replies.drop s.server.replies.length).flatten = new.flatten := by
      rw [hnew, List.drop_left]
    have hdata : new.flatten = [] ∨ [0, 0] <+: new.flatten := by
      cases hcases with
      | inl hnil => exact .inl (by rw [hnil, List.flatten_nil])
      | inr hone =>
        obtain ⟨reply, rfl, hreply⟩ := hone
        rw [List.flatten_singleton]
        exact .inr hreply
    simp only [hflat]
    refine ⟨hs.send (.inr (.inr hdata)), fun hest => ?_⟩
    cases hup hest with
    | inl hold => exact (send_ne_nil (hs.up hold)).imp_left hdown
    | inr hone =>
      obtain ⟨reply, rfl, rest, rfl⟩ := hcases.resolve_left hone
      by_cases hsd : s.server.shutdown = true
      · exact .inl (hdown hsd)
      · refine .inr ?_
        change (s.send _).sent ≠ []
        rw [send_sent hsd]
        simp
  | destination client chunk =>
    cases h
    have hup := hs.up (List.ne_nil_of_mem he)
    refine ⟨hs.send (hup.imp_right .inl), fun _ => ?_⟩
    change (s.send chunk).server.shutdown = true ∨ (s.send chunk).sent ≠ []
    rw [send_server]
    exact send_ne_nil hup

/-- Whatever the request and the destination's bytes, the client never sees the reply that is
due: the escapes in the two literals are octal, so the result code sent is 0. -/
theorem reply_never_seen {es : List Event}
    (hl : (machine resolve stream).Legal (fun _ _ => True) initial es)
    (hr : (machine resolve stream).run initial es = .ok s)
    (ho : s.server.established ≠ [] ∨ s.refused = true) : ¬SeesReply s := by
  have hcoded : Coded s := by
    have hrun : Yields Coded (fun _ => True) ((machine resolve stream).run initial es) := by
      refine Machine.run_keeps (fun s e hs he _ => ?_) initial_coded hl
      cases hstep : (machine resolve stream).step s e with
      | ok t => exact hs.step he hstep
      | error f => trivial
    exact hrun.of_ok hr
  have hcode : ∀ (code : UInt8) (rest : Bytes), s.sent = [0, code] ++ rest → code = 0 := by
    intro code rest hsent
    cases hcoded.sent with
    | inl hnil => exact nomatch hsent.symm.trans hnil
    | inr hprefix =>
      obtain ⟨more, hmore⟩ := hprefix
      have hboth := hmore.trans hsent
      simp only [List.cons_append, List.nil_append, List.cons.injEq, true_and] at hboth
      exact hboth.1.symm
  intro hsees
  cases ho with
  | inl hest =>
    obtain ⟨client, hclient⟩ := List.exists_mem_of_ne_nil _ hest
    obtain ⟨address, -, hsent⟩ := hsees.1 client hclient
    rw [grantedReply, List.append_assoc, List.append_assoc] at hsent
    exact absurd (hcode 90 _ hsent) (by decide)
  | inr hrefused =>
    obtain ⟨ignored, -, hsent, -⟩ := hsees.2 hrefused
    exact absurd (hcode 91 _ hsent) (by decide)

instance (s : ClientStream) : ∀ e, Decidable ((machine resolve stream).enabled s e)
  | .server e => inferInstanceAs (Decidable (Sock4aServer.enabled stream s.server e))
  | .destination client _ => inferInstanceAs (Decidable (client ∈ s.server.established))

/-- A request, its destination's bytes, and what the client has seen of both. -/
def sampleRun : List Event :=
  [.server (.message sampleRequest.wire), .server (.up 0), .destination 0 [7, 8]]

theorem reply_never_seen_sample :
    ¬SeesReply {
      server := {
        inputBuffer := []
        context := some 0
        clients := [⟨[0, 80], [10, 0, 0, 7]⟩]
        established := [0]
        sent := fun _ => []
        replies := [granted ⟨[0, 80], [10, 0, 0, 7]⟩]
        shutdown := false
        received := sampleRequest.wire }
      refused := false
      sent := granted ⟨[0, 80], [10, 0, 0, 7]⟩ ++ [7, 8]
      relayed := [7, 8] } :=
  @reply_never_seen sampleResolve sampleRequest.wire _ sampleRun (by decide +kernel) (by rfl)
    (.inl nofun)

/-- Twelve bytes with the result code 0 come in front of the destination's. -/
theorem granted_reply_shifted : ¬∀ (resolve : Bytes → Option Bytes) (stream : Bytes)
    (es : List Event) (s : ClientStream),
    (machine resolve stream).Legal (fun _ _ => True) initial es →
    (machine resolve stream).run initial es = .ok s → SeesReply s := by
  intro h
  have hsees := h sampleResolve sampleRequest.wire sampleRun _ (by decide +kernel) rfl
  obtain ⟨address, haddress, hsent⟩ := hsees.1 0 (by decide)
  cases haddress
  exact absurd hsent (by decide)

end ClientStream

end Muduo.Examples
