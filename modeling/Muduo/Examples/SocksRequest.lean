import Muduo.Examples.TransparentPipe

namespace Muduo.Examples
open Muduo.Lib Muduo.Net

namespace Sock4aServer

variable {resolve : Bytes → Option Bytes} {r : Request} {address : InetAddress}
  {s : Sock4aServer} {b chunk : Bytes}

/-- Nothing happens before the call that brings the last byte of a request, and then the request
is taken out of the buffer for one outbound connection. -/
structure Recognized (r : Request) (address : InetAddress) (s : Sock4aServer) : Prop where
  clients : s.clients = if s.received = r.wire then [address] else []
  inputBuffer : s.inputBuffer = if s.received = r.wire then [] else s.received
  replies : s.replies = []
  kept : s.shutdown = false

/-- The server has the whole request, and takes it for one. -/
def Taken (r : Request) (s : Sock4aServer) : Prop :=
  s.received = r.wire ∧ r.ip ≠ (0, 0, 0, 0)

instance (r : Request) (s : Sock4aServer) : Decidable (Taken r s) :=
  inferInstanceAs (Decidable (_ ∧ _))

/-- The server waits for what it takes for the request. -/
structure Receiving (r : Request) (address : InetAddress) (s : Sock4aServer) : Prop where
  context : s.context = none
  stream : s.received <+: r.wire
  clients : s.clients = if Taken r s then [address] else []
  inputBuffer : s.inputBuffer = if Taken r s then [] else s.received
  replies : s.replies = []
  kept : s.shutdown = false

theorem initial_receiving : Receiving r address initial := by
  have hne : ¬Taken r initial := by
    intro h
    have := congrArg List.length h.1
    rw [r.wire_length, initial, List.length_nil] at this
    omega
  exact ⟨rfl, List.nil_prefix, (if_neg hne).symm, (if_neg hne).symm, rfl, rfl⟩

/-- Bytes of a request that the server does not take for it yet are kept. -/
theorem parse_untaken (hp : b <+: r.wire) (hlen : r.wire.length ≤ 512)
    (hne : ¬(b = r.wire ∧ r.ip ≠ (0, 0, 0, 0))) : parse resolve b = .wait := by
  by_cases hall : b = r.wire
  · have hzero : r.ip = (0, 0, 0, 0) := by
      by_contra hip
      exact hne ⟨hall, hip⟩
    rw [hall]
    exact parse_zero_alone hzero hlen
  · have hshort : b.length < r.wire.length :=
      Nat.lt_of_le_of_ne hp.length_le fun he => hall (hp.eq_of_length he)
    apply parse_wait (hp.length_le.trans hlen)
    rw [List.prefix_iff_eq_take.mp hp]
    exact r.not_terminated hshort

/-- A chunk after which bytes are still missing, as far as the server knows. -/
theorem Receiving.more (h : Receiving r address s) (hlen : r.wire.length ≤ 512)
    (hp : s.received ++ chunk <+: r.wire) (hbefore : ¬Taken r s)
    (hne : ¬(s.received ++ chunk = r.wire ∧ r.ip ≠ (0, 0, 0, 0))) :
    Receiving r address (afterMessage resolve s chunk) := by
  have hbuffer : s.inputBuffer = s.received := by rw [h.inputBuffer, if_neg hbefore]
  have hwait : parse resolve (s.inputBuffer ++ chunk) = .wait := by
    rw [hbuffer]
    exact parse_untaken hp hlen hne
  rw [afterMessage_wait h.context hwait]
  refine ⟨h.context, hp, ?_, ?_, h.replies, h.kept⟩
  · exact (h.clients.trans (if_neg hbefore)).trans (if_neg hne).symm
  · exact (congrArg (· ++ chunk) hbuffer).trans (if_neg hne).symm

/-- The chunk with the last byte. -/
theorem Receiving.last (h : Receiving r address s) (hlen : r.wire.length ≤ 512)
    (ha : r.destination resolve = some address) (hp : s.received ++ chunk <+: r.wire)
    (hbefore : ¬Taken r s) (hip : r.ip ≠ (0, 0, 0, 0)) (he : s.received ++ chunk = r.wire) :
    Receiving r address (afterMessage resolve s chunk) := by
  have htaken : s.received ++ chunk = r.wire ∧ r.ip ≠ (0, 0, 0, 0) := ⟨he, hip⟩
  have hconnect : parse resolve (s.inputBuffer ++ chunk) = .connect address r.wire.length := by
    have hall := @parse_request resolve r [] address hip (by
      rw [List.append_nil]
      exact hlen) ha
    rw [List.append_nil] at hall
    rw [h.inputBuffer, if_neg hbefore, he]
    exact hall
  rw [afterMessage_connect h.context hconnect]
  refine ⟨h.context, hp, ?_, ?_, h.replies, h.kept⟩
  · refine Eq.trans ?_ (if_pos htaken).symm
    rw [h.clients, if_neg hbefore, List.nil_append]
  · refine Eq.trans ?_ (if_pos htaken).symm
    rw [h.inputBuffer, if_neg hbefore, he, List.drop_length]

/-- Nothing comes behind the request. -/
theorem Receiving.over (h : Receiving r address s) (hp : s.received ++ chunk <+: r.wire)
    (hbefore : Taken r s) : Receiving r address (afterMessage resolve s chunk) := by
  have hnil : chunk = [] := by
    have := hp.length_le
    rw [hbefore.1, List.length_append] at this
    exact List.length_eq_zero_iff.mp (by omega)
  have hwait : parse resolve (s.inputBuffer ++ chunk) = .wait := by
    rw [h.inputBuffer, if_pos hbefore, hnil]
    rfl
  rw [afterMessage_wait h.context hwait, hnil, List.append_nil, List.append_nil]
  exact ⟨h.context, h.stream, h.clients, h.inputBuffer, h.replies, h.kept⟩

theorem Receiving.message (h : Receiving r address s) (hlen : r.wire.length ≤ 512)
    (ha : r.destination resolve = some address) (hp : s.received ++ chunk <+: r.wire) :
    Receiving r address (afterMessage resolve s chunk) := by
  by_cases hbefore : Taken r s
  · exact h.over hp hbefore
  by_cases he : s.received ++ chunk = r.wire ∧ r.ip ≠ (0, 0, 0, 0)
  · exact h.last hlen ha hp hbefore he.2 he.1
  · exact h.more hlen hp hbefore he

/-- The calls that bring in some of the bytes. -/
theorem run_receiving (hlen : r.wire.length ≤ 512) (ha : r.destination resolve = some address)
    {chunks : List Bytes} (hs : Receiving r address s)
    (hp : s.received ++ chunks.flatten <+: r.wire) :
    ∃ t, (machine resolve r.wire).run s (chunks.map .message) = .ok t ∧ Receiving r address t ∧
      t.received = s.received ++ chunks.flatten := by
  induction chunks generalizing s with
  | nil => exact ⟨s, rfl, hs, by rw [List.flatten_nil, List.append_nil]⟩
  | cons chunk chunks ih =>
    rw [List.flatten_cons, ← List.append_assoc] at hp
    obtain ⟨t, ht, hrec, heq⟩ :=
      ih (hs.message hlen ha ((List.prefix_append _ _).trans hp)) hp
    refine ⟨t, ht, hrec, ?_⟩
    rw [heq, List.flatten_cons, ← List.append_assoc]
    rfl

/-- A well-formed request of at most 512 bytes is recognised, however it is cut into chunks,
exactly when its address is not 0.0.0.0. -/
theorem recognized_iff (hlen : r.wire.length ≤ 512) (hd : r.destination resolve = some address)
    {chunks : List Bytes} (hc : chunks.flatten = r.wire) :
    (∀ cs, cs <+: chunks → Yields (Recognized r address) (fun _ => False)
      ((machine resolve r.wire).run initial (cs.map .message))) ↔ r.ip ≠ (0, 0, 0, 0) := by
  have hrun : ∀ cs, cs <+: chunks → ∃ t,
      (machine resolve r.wire).run initial (cs.map .message) = .ok t ∧ Receiving r address t ∧
        t.received = cs.flatten := by
    rintro cs ⟨rest, rfl⟩
    apply run_receiving hlen hd initial_receiving
    rw [← hc, List.flatten_append]
    exact List.prefix_append _ _
  constructor
  · intro h hzero
    obtain ⟨t, ht, hrec, hall⟩ := hrun chunks List.prefix_rfl
    have hclients := ((h chunks List.prefix_rfl).of_ok ht).clients
    have hne : ¬Taken r t := fun htaken => htaken.2 hzero
    rw [hrec.clients, if_neg hne, if_pos (hall.trans hc)] at hclients
    simp at hclients
  · intro hip cs hcs
    obtain ⟨t, ht, hrec, -⟩ := hrun cs hcs
    have htaken : Taken r t ↔ t.received = r.wire := and_iff_left hip
    have hclients := hrec.clients
    have hbuffer := hrec.inputBuffer
    simp only [htaken] at hclients hbuffer
    rw [ht]
    exact ⟨hclients, hbuffer, hrec.replies, hrec.kept⟩

theorem recognized_iff_sample :
    (∀ cs, cs <+: [[4, 1, 0, 80, 0, 0, 0, 1, 109], [101, 0, 104, 111, 115, 116], [0]] →
      Yields (Recognized sampleRequest ⟨[0, 80], [10, 0, 0, 7]⟩) (fun _ => False)
        ((machine sampleResolve sampleRequest.wire).run initial (cs.map .message))) ↔
      sampleRequest.ip ≠ (0, 0, 0, 0) :=
  recognized_iff (by decide) (by decide) (by decide)

/-- A request to 0.0.0.0 with an empty user id. -/
def zeroRequest : Request where
  port := (0, 80)
  ip := (0, 0, 0, 0)
  userid := []
  hostname := []
  userid_terminated := nofun
  hostname_terminated := nofun

/-- The server waits for a host name that the request does not have. -/
theorem zero_not_recognized : ¬∀ (resolve : Bytes → Option Bytes) (r : Request)
    (address : InetAddress) (chunks : List Bytes), r.wire.length ≤ 512 →
    r.destination resolve = some address → chunks.flatten = r.wire →
    ∀ cs, cs <+: chunks → Yields (Recognized r address) (fun _ => False)
      ((machine resolve r.wire).run initial (cs.map .message)) := by
  intro h
  have hend := h sampleResolve zeroRequest ⟨[0, 80], [0, 0, 0, 0]⟩ [[4, 1, 0, 80, 0, 0, 0, 0, 0]]
    (by decide) (by decide) (by decide) _ List.prefix_rfl
  exact absurd hend.clients (by decide)

end Sock4aServer

end Muduo.Examples
