import Muduo.Lib.Prefix
import Muduo.Examples.Sock4aServer

namespace Muduo.Examples
open Muduo.Lib Muduo.Net

namespace Sock4aServer

variable {resolve : Bytes → Option Bytes} {r : Request} {address : InetAddress}
  {payload : Bytes} {s t : Sock4aServer}

/-- One outbound connection is set up when the request is complete, the client is not turned
away, and the destination gets the payload in order, all of it once the connection is up. What
of the payload has come is sent or kept for that. -/
structure Transparent (r : Request) (address : InetAddress) (payload : Bytes)
    (s : Sock4aServer) : Prop where
  clients : s.clients = if r.wire.length ≤ s.received.length then [address] else []
  kept : s.shutdown = false
  sent : s.sent 0 <+: payload
  held : r.wire.length ≤ s.received.length →
    s.sent 0 ++ s.inputBuffer = s.received.drop r.wire.length
  complete : s.established ≠ [] → s.sent 0 = s.received.drop r.wire.length

/-- The request that is being completed is not one to 0.0.0.0. Until the outbound connection is
up, what is buffered stays small and behind the request nothing ends like a request; and nothing
is buffered when the connection comes up. -/
def Quiet (r : Request) (s : Sock4aServer) : Event → Prop
  | .message chunk =>
    (r.wire.length ≤ (s.received ++ chunk).length → r.ip ≠ (0, 0, 0, 0)) ∧
      (s.context = none → (s.inputBuffer ++ chunk).length ≤ 512 ∧
        (s.clients ≠ [] → ¬Terminated (s.inputBuffer ++ chunk)))
  | .up _ => s.inputBuffer = []

/-- The request is coming in. -/
structure Parsing (r : Request) (s : Sock4aServer) : Prop where
  context : s.context = none
  clients : s.clients = []
  established : s.established = []
  sent : s.sent 0 = []
  inputBuffer : s.inputBuffer = s.received
  short : s.received.length < r.wire.length

/-- The outbound connection is being set up. -/
structure Connecting (r : Request) (address : InetAddress) (s : Sock4aServer) : Prop where
  ip : r.ip ≠ (0, 0, 0, 0)
  context : s.context = none
  clients : s.clients = [address]
  established : s.established = []
  sent : s.sent 0 = []
  received : s.received = r.wire ++ s.inputBuffer

/-- The outbound connection is up. -/
structure Relaying (r : Request) (address : InetAddress) (s : Sock4aServer) : Prop where
  ip : r.ip ≠ (0, 0, 0, 0)
  context : s.context = some 0
  clients : s.clients = [address]
  established : s.established = [0]
  inputBuffer : s.inputBuffer = []
  received : s.received = r.wire ++ s.sent 0

/-- The phases of a connection that is served as a pipe. -/
structure Phased (r : Request) (address : InetAddress) (payload : Bytes) (s : Sock4aServer) :
    Prop where
  stream : s.received <+: r.wire ++ payload
  kept : s.shutdown = false
  phase : Parsing r s ∨ Connecting r address s ∨ Relaying r address s

theorem Phased.transparent (h : Phased r address payload s) : Transparent r address payload s := by
  rcases h.phase with hp | hp | hp
  · refine ⟨?_, h.kept, ?_, fun hle => absurd hle (Nat.not_le.mpr hp.short),
      fun he => absurd hp.established he⟩
    · rw [if_neg (Nat.not_le.mpr hp.short)]
      exact hp.clients
    · rw [hp.sent]
      exact List.nil_prefix
  · refine ⟨?_, h.kept, ?_, fun _ => ?_, fun he => absurd hp.established he⟩
    · rw [hp.received, if_pos (by rw [List.length_append]; omega)]
      exact hp.clients
    · rw [hp.sent]
      exact List.nil_prefix
    · rw [hp.sent, hp.received, List.drop_left, List.nil_append]
  · refine ⟨?_, h.kept, ?_, fun _ => ?_, fun _ => ?_⟩
    · rw [hp.received, if_pos (by rw [List.length_append]; omega)]
      exact hp.clients
    · have := h.stream
      rw [hp.received, List.prefix_append_right_inj] at this
      exact this
    · rw [hp.inputBuffer, hp.received, List.drop_left, List.append_nil]
    · rw [hp.received, List.drop_left]

theorem initial_phased : Phased r address payload initial := by
  refine ⟨List.nil_prefix, rfl, .inl ⟨rfl, rfl, rfl, rfl, rfl, ?_⟩⟩
  have := r.wire_length
  change 0 < r.wire.length
  omega

/-- The state after a message. -/
def afterMessage (resolve : Bytes → Option Bytes) (s : Sock4aServer) (chunk : Bytes) :
    Sock4aServer :=
  { s.onServerMessage resolve (s.inputBuffer ++ chunk) with received := s.received ++ chunk }

theorem afterMessage_wait {chunk : Bytes} (hc : s.context = none)
    (hp : parse resolve (s.inputBuffer ++ chunk) = .wait) : afterMessage resolve s chunk =
      { s with inputBuffer := s.inputBuffer ++ chunk, received := s.received ++ chunk } := by
  simp only [afterMessage, onServerMessage, hc, hp]

theorem afterMessage_connect {chunk : Bytes} {n : Nat} {a : InetAddress} (hc : s.context = none)
    (hp : parse resolve (s.inputBuffer ++ chunk) = .connect a n) : afterMessage resolve s chunk =
      { s with
        clients := s.clients ++ [a]
        inputBuffer := (s.inputBuffer ++ chunk).drop n
        received := s.received ++ chunk } := by
  simp only [afterMessage, onServerMessage, setupClientConnection, hc, hp]

/-- Without a context, more than 512 bytes turn the client away. -/
theorem small_of_kept {chunk : Bytes} (hc : s.context = none)
    (hk : (afterMessage resolve s chunk).shutdown = false) :
    (s.inputBuffer ++ chunk).length ≤ 512 := by
  by_contra hlen
  have hp : parse resolve (s.inputBuffer ++ chunk) = .tooBig := if_pos (by omega)
  simp only [afterMessage, onServerMessage, hc, hp] at hk
  exact nomatch hk

theorem parsing_message {chunk : Bytes} (h : Parsing r s) (hk : s.shutdown = false)
    (ha : r.destination resolve = some address) (he : s.received ++ chunk <+: r.wire ++ payload)
    (hip : r.wire.length ≤ (s.received ++ chunk).length → r.ip ≠ (0, 0, 0, 0))
    (hlen : (s.inputBuffer ++ chunk).length ≤ 512) :
    Phased r address payload (afterMessage resolve s chunk) := by
  have hb : s.inputBuffer ++ chunk = s.received ++ chunk := by rw [h.inputBuffer]
  rcases prefix_split he with ⟨hpart, hshort⟩ | ⟨p, hp, -⟩
  · have hwait : parse resolve (s.inputBuffer ++ chunk) = .wait := by
      apply parse_wait hlen
      rw [hb, List.prefix_iff_eq_take.mp hpart]
      exact r.not_terminated hshort
    rw [afterMessage_wait h.context hwait]
    exact ⟨he, hk, .inl ⟨h.context, h.clients, h.established, h.sent, hb, hshort⟩⟩
  · have hip' := hip (by rw [hp, List.length_append]; omega)
    have hconnect : parse resolve (s.inputBuffer ++ chunk) = .connect address r.wire.length := by
      rw [hb, hp] at hlen ⊢
      exact parse_request hip' hlen ha
    rw [afterMessage_connect h.context hconnect, h.clients, List.nil_append]
    refine ⟨he, hk, .inr (.inl ⟨hip', h.context, rfl, h.established, h.sent, ?_⟩)⟩
    change s.received ++ chunk = r.wire ++ (s.inputBuffer ++ chunk).drop r.wire.length
    rw [hb, hp, List.drop_left]

theorem connecting_message {chunk : Bytes} (h : Connecting r address s) (hk : s.shutdown = false)
    (he : s.received ++ chunk <+: r.wire ++ payload)
    (hlen : (s.inputBuffer ++ chunk).length ≤ 512)
    (ht : ¬Terminated (s.inputBuffer ++ chunk)) :
    Phased r address payload (afterMessage resolve s chunk) := by
  rw [afterMessage_wait h.context (parse_wait hlen ht)]
  refine ⟨he, hk, .inr (.inl ⟨h.ip, h.context, h.clients, h.established, h.sent, ?_⟩)⟩
  change s.received ++ chunk = r.wire ++ (s.inputBuffer ++ chunk)
  rw [h.received, List.append_assoc]

/-- A client that asks for 0.0.0.0 is left waiting, or has its payload taken for a name. -/
theorem parsing_quiet {chunk : Bytes} (h : Parsing r s)
    (he : s.received ++ chunk <+: r.wire ++ payload)
    (ht : Transparent r address payload (afterMessage resolve s chunk))
    (hle : r.wire.length ≤ (s.received ++ chunk).length) : r.ip ≠ (0, 0, 0, 0) := by
  intro hzero
  have hlen := small_of_kept h.context ht.kept
  obtain ⟨p, hp⟩ : r.wire <+: s.received ++ chunk :=
    List.prefix_of_prefix_length_le (List.prefix_append _ _) he hle
  have hb : s.inputBuffer ++ chunk = r.wire ++ p := by rw [h.inputBuffer, hp]
  cases hv : parse resolve (s.inputBuffer ++ chunk) with
  | tooBig =>
    have hk := ht.kept
    simp [afterMessage, onServerMessage, h.context, hv] at hk
  | wait =>
    have hc := ht.clients
    rw [afterMessage_wait h.context hv, if_pos hle, h.clients] at hc
    simp at hc
  | reject =>
    have hk := ht.kept
    simp [afterMessage, onServerMessage, h.context, hv] at hk
  | connect a n =>
    have hheld := ht.held
    rw [afterMessage_connect h.context hv] at hheld
    have hlengths := congrArg List.length (hheld hle)
    simp only [h.sent, List.nil_append, hb, ← hp, List.length_drop] at hlengths
    rw [hb] at hlen hv
    obtain ⟨hlt, hn⟩ := parse_zero hzero hlen hv
    omega

/-- Payload that ends like a request is taken for one. -/
theorem connecting_quiet {chunk : Bytes} (h : Connecting r address s)
    (ht : Transparent r address payload (afterMessage resolve s chunk)) :
    ¬Terminated (s.inputBuffer ++ chunk) := by
  intro hterm
  have hlen := small_of_kept h.context ht.kept
  obtain ⟨ip, last, hp⟩ := @parse_terminated resolve _ hlen hterm
  cases hv : parse resolve (s.inputBuffer ++ chunk) with
  | tooBig =>
    have hk := ht.kept
    simp only [afterMessage, onServerMessage, h.context, hv] at hk
    exact nomatch hk
  | wait => exact accept_ne_wait (hp.symm.trans hv)
  | reject =>
    have hk := ht.kept
    simp only [afterMessage, onServerMessage, h.context, hv] at hk
    exact nomatch hk
  | connect a n =>
    have hc := ht.clients
    rw [afterMessage_connect h.context hv] at hc
    simp only [h.clients] at hc
    split at hc <;> simp at hc

theorem relaying_message {chunk : Bytes} (h : Relaying r address s) (hk : s.shutdown = false)
    (he : s.received ++ chunk <+: r.wire ++ payload) :
    Phased r address payload (afterMessage resolve s chunk) := by
  have hafter : afterMessage resolve s chunk = { s with
      inputBuffer := []
      sent := Function.update s.sent 0 (s.sent 0 ++ chunk)
      received := s.received ++ chunk } := by
    simp only [afterMessage, onServerMessage, h.context, h.inputBuffer, List.nil_append]
  rw [hafter]
  refine ⟨he, hk, .inr (.inr ⟨h.ip, h.context, h.clients, h.established, rfl, ?_⟩)⟩
  change s.received ++ chunk = r.wire ++ Function.update s.sent 0 (s.sent 0 ++ chunk) 0
  rw [Function.update_self, h.received, List.append_assoc]

theorem step_phased (hs : Phased r address payload s) (ha : r.destination resolve = some address)
    {e : Event} (he : enabled (r.wire ++ payload) s e) : ∃ t, step resolve s e = .ok t ∧
      (Quiet r s e → Phased r address payload t) ∧
      (Transparent r address payload t → Quiet r s e) := by
  cases e with
  | message chunk =>
    refine ⟨afterMessage resolve s chunk, rfl, fun hq => ?_, fun ht => ⟨fun hle => ?_, fun hc => ?_⟩⟩
    · rcases hs.phase with h | h | h
      · exact parsing_message h hs.kept ha he hq.1 (hq.2 h.context).1
      · obtain ⟨hlen, hterm⟩ := hq.2 h.context
        exact connecting_message h hs.kept he hlen (hterm (by rw [h.clients]; nofun))
      · exact relaying_message h hs.kept he
    · rcases hs.phase with h | h | h
      · exact parsing_quiet h he ht hle
      · exact h.ip
      · exact h.ip
    · refine ⟨small_of_kept hc ht.kept, fun hne => ?_⟩
      rcases hs.phase with h | h | h
      · exact absurd h.clients hne
      · exact connecting_quiet h ht
      · exact absurd (hc.symm.trans h.context) nofun
  | up client =>
    obtain ⟨hlt, hnew⟩ := he
    rcases hs.phase with h | h | h
    · rw [h.clients] at hlt
      exact absurd hlt (Nat.not_lt_zero _)
    · rw [h.clients] at hlt
      obtain rfl : client = 0 := by simpa using hlt
      refine ⟨s.onClientConnection 0 address, by simp only [step, h.clients]; rfl, fun hq => ?_,
        fun ht => ?_⟩
      · have hreceived := h.received
        rw [show s.inputBuffer = [] from hq, List.append_nil] at hreceived
        refine ⟨hs.stream, hs.kept, .inr (.inr ⟨h.ip, rfl, h.clients, ?_, hq, ?_⟩)⟩
        · rw [onClientConnection, h.established, List.nil_append]
        · change s.received = r.wire ++ s.sent 0
          rw [h.sent, List.append_nil, hreceived]
      · have hdone := ht.complete (by simp [onClientConnection])
        change s.sent 0 = s.received.drop r.wire.length at hdone
        rw [h.sent, h.received, List.drop_left] at hdone
        exact hdone.symm
    · rw [h.clients] at hlt
      rw [h.established] at hnew
      simp at hlt hnew
      omega

/-- A client's connection is a transparent pipe in every state of a run exactly when all the
steps are quiet. -/
theorem transparent_iff_quiet (ha : r.destination resolve = some address) {es : List Event}
    (hl : (machine resolve (r.wire ++ payload)).Legal (fun _ _ => True) initial es) :
    (∀ fs, fs <+: es → Yields (Transparent r address payload) (fun _ => False)
      ((machine resolve (r.wire ++ payload)).run initial fs)) ↔
      (machine resolve (r.wire ++ payload)).Legal (Quiet r) initial es := by
  constructor
  · intro h
    refine (Machine.Legal.iff_run (I := fun s => Transparent r address payload s →
      Phased r address payload s) (fun s e hi hg he => ?_) (fun _ => initial_phased)
      initial_phased.transparent hl).mpr fun fs t hf hr => (h fs hf).of_ok hr
    obtain ⟨t, ht, hquiet, hback⟩ := step_phased (hi hg) ha he
    refine ⟨fun u hu => ?_, fun f hf => absurd (ht.symm.trans hf) nofun⟩
    obtain rfl : t = u := Except.ok.inj (ht.symm.trans hu)
    exact ⟨fun h => hquiet (hback h), hback, fun h => (hquiet h).transparent⟩
  · rintro h fs ⟨gs, rfl⟩
    have hphased : Yields (Phased r address payload) (fun _ => False)
        ((machine resolve (r.wire ++ payload)).run initial fs) := by
      refine Machine.run_keeps (fun s e hs he hc => ?_) initial_phased h.left
      obtain ⟨t, ht, hquiet, -⟩ := step_phased hs ha he
      change Yields _ _ (step resolve s e)
      rw [ht]
      exact hquiet hc
    exact hphased.mono fun s hs => hs.transparent

instance (stream : Bytes) (s : Sock4aServer) : ∀ e, Decidable (enabled stream s e)
  | .message chunk => inferInstanceAs (Decidable (s.received ++ chunk <+: stream))
  | .up client => inferInstanceAs (Decidable (client < s.clients.length ∧ client ∉ s.established))

instance (stream : Bytes) (s : Sock4aServer) (e : Event) :
    Decidable ((machine resolve stream).enabled s e) := inferInstanceAs (Decidable (enabled _ s e))

/-- A name server that knows one host. -/
def sampleResolve (hostname : Bytes) : Option Bytes :=
  if hostname = [104, 111, 115, 116] then some [10, 0, 0, 7] else none

/-- A request by name. -/
def sampleRequest : Request where
  port := (0, 80)
  ip := (0, 0, 0, 1)
  userid := [109, 101]
  hostname := [104, 111, 115, 116]
  userid_terminated := by decide
  hostname_terminated := by decide

/-- The request comes in two parts, the payload once the outbound connection is up. -/
def sampleRun : List Event :=
  [.message [4, 1, 0, 80, 0, 0, 0, 1, 109], .message [101, 0, 104, 111, 115, 116, 0], .up 0,
    .message [1, 2], .message [3]]

theorem transparent_iff_quiet_sample :
    (∀ fs, fs <+: sampleRun → Yields (Transparent sampleRequest ⟨[0, 80], [10, 0, 0, 7]⟩ [1, 2, 3])
      (fun _ => False) ((machine sampleResolve (sampleRequest.wire ++ [1, 2, 3])).run initial fs)) ↔
      (machine sampleResolve (sampleRequest.wire ++ [1, 2, 3])).Legal (Quiet sampleRequest) initial
        sampleRun :=
  transparent_iff_quiet (by decide) (by decide +kernel)

/-- Payload in the same chunk as the request is still with the proxy when the outbound
connection comes up. -/
theorem early_payload_stays : ¬∀ (resolve : Bytes → Option Bytes) (r : Request)
    (address : InetAddress) (payload : Bytes) (es : List Event),
    r.destination resolve = some address →
    (machine resolve (r.wire ++ payload)).Legal (fun _ _ => True) initial es →
    ∀ fs, fs <+: es → Yields (Transparent r address payload) (fun _ => False)
      ((machine resolve (r.wire ++ payload)).run initial fs) := by
  intro h
  have hend := h sampleResolve sampleRequest ⟨[0, 80], [10, 0, 0, 7]⟩ [1, 2, 3]
    [.message (sampleRequest.wire ++ [1, 2, 3]), .up 0] (by decide) (by decide +kernel) _
    List.prefix_rfl
  exact absurd (hend.complete nofun) (by decide +kernel)

end Sock4aServer

end Muduo.Examples
