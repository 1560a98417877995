import Mathlib.Logic.Function.Basic
import Muduo.Net.Basic

namespace Muduo.Examples
open Muduo.Lib Muduo.Net

/-- `sockaddr_in`, in the byte order of the network. -/
structure InetAddress where
  port : Bytes
  ip : Bytes
  deriving DecidableEq, Repr

/-- A client's connection with the outbound connections that were set up for it. `sent` is the
history of what each was given to send, `received` that of the client's bytes. -/
structure Sock4aServer where
  inputBuffer : Bytes
  context : Option Nat
  clients : List InetAddress
  established : List Nat
  sent : Nat → Bytes
  replies : List Bytes
  shutdown : Bool
  received : Bytes

namespace Sock4aServer

/-- What the bytes before the outbound connection is up are taken for. -/
inductive Verdict
  | tooBig
  | wait
  | connect (address : InetAddress) (retrieved : Nat)
  | reject
  deriving DecidableEq, Repr

def sock4a (ip : Bytes) : Bool := BigEndian.decode ip < 256

/-- The end of a request has been found at `last`; `ip` is what `ok` and `addr` say. -/
def accept (buff : Bytes) (ip : Option Bytes) (last : Nat) : Verdict :=
  let ver := buff.getD 0 0
  let cmd := buff.getD 1 0
  let port := (buff.drop 2).take 2
  match ip with
  | some ip => if ver = 4 ∧ cmd = 1 then .connect ⟨port, ip⟩ (last + 1) else .reject
  | none => .reject

section

variable (resolve : Bytes → Option Bytes)

/-- `onServerMessage` with no context; `resolve` is `InetAddress::resolve`. -/
def parse (buff : Bytes) : Verdict :=
  if buff.length > 512 then .tooBig
  else if buff.length > 8 then
    let pos := 8 + (buff.drop 8).idxOf 0
    if pos ≠ buff.length then
      let dest := (buff.drop 4).take 4
      if sock4a dest then
        let endOfHostName := pos + 1 + (buff.drop (pos + 1)).idxOf 0
        if endOfHostName ≠ buff.length then
          let hostname := (buff.drop (pos + 1)).take (endOfHostName - (pos + 1))
          accept buff (resolve hostname) endOfHostName
        else .wait
      else accept buff (some dest) pos
    else .wait
  else .wait

/-- The bytes of `"\000\0x5bUVWXYZ"`, its terminator included. -/
def rejection : Bytes := [0, 0, 0x78, 0x35, 0x62, 0x55, 0x56, 0x57, 0x58, 0x59, 0x5a, 0]

/-- The bytes of `"\000\0x5aUVWXYZ"`, with port and address copied in. -/
def granted (address : InetAddress) : Bytes :=
  [0, 0] ++ address.port ++ address.ip ++ [0x58, 0x59, 0x5a, 0]

variable (s : Sock4aServer)

def setupClientConnection (address : InetAddress) : Sock4aServer :=
  { s with clients := s.clients ++ [address] }

def onServerMessage (buff : Bytes) : Sock4aServer :=
  match s.context with
  | none =>
    match parse resolve buff with
    | .tooBig => { s with inputBuffer := buff, shutdown := true }
    | .wait => { s with inputBuffer := buff }
    | .connect address retrieved =>
      { setupClientConnection s address with inputBuffer := buff.drop retrieved }
    | .reject =>
      { s with inputBuffer := buff, replies := s.replies ++ [rejection], shutdown := true }
  | some client =>
    { s with
      inputBuffer := []
      sent := Function.update s.sent client (s.sent client ++ buff) }

/-- `onClientConnection`, when the connection is up. -/
def onClientConnection (client : Nat) (address : InetAddress) : Sock4aServer :=
  { s with
    context := some client
    established := s.established ++ [client]
    replies := s.replies ++ [granted address] }

inductive Event
  | message (chunk : Bytes)
  | up (client : Nat)
  deriving DecidableEq, Repr

def initial : Sock4aServer where
  inputBuffer := []
  context := none
  clients := []
  established := []
  sent _ := []
  replies := []
  shutdown := false
  received := []

/-- The client's bytes come in order, and an outbound connection comes up once. -/
def enabled (stream : Bytes) (s : Sock4aServer) : Event → Prop
  | .message chunk => s.received ++ chunk <+: stream
  | .up client => client < s.clients.length ∧ client ∉ s.established

def step (s : Sock4aServer) : Event → Except Fault Sock4aServer
  | .message chunk =>
    .ok { s.onServerMessage resolve (s.inputBuffer ++ chunk) with received := s.received ++ chunk }
  | .up client =>
    match s.clients[client]? with
    | some address => .ok (s.onClientConnection client address)
    | none => .error .useAfterFree

def machine (stream : Bytes) : Machine Sock4aServer Event Fault where
  enabled := enabled stream
  step := step resolve

end

/-- A CONNECT request of SOCKS 4 and 4A. -/
structure Request where
  port : UInt8 × UInt8
  ip : UInt8 × UInt8 × UInt8 × UInt8
  userid : Bytes
  hostname : Bytes
  userid_terminated : 0 ∉ userid
  hostname_terminated : 0 ∉ hostname

namespace Request

variable (r : Request)

def portBytes : Bytes := [r.port.1, r.port.2]

def ipBytes : Bytes := [r.ip.1, r.ip.2.1, r.ip.2.2.1, r.ip.2.2.2]

def header : Bytes := [4, 1] ++ r.portBytes ++ r.ipBytes

/-- The address is 0.0.0.x with x non-zero. -/
def named : Prop := r.ip.1 = 0 ∧ r.ip.2.1 = 0 ∧ r.ip.2.2.1 = 0 ∧ r.ip.2.2.2 ≠ 0

instance : Decidable r.named := inferInstanceAs (Decidable (_ ∧ _))

/-- What follows the user id: a host name, if the address says that there is one. -/
def tail : Bytes := if r.named then r.hostname ++ [0] else []

/-- The bytes of the request. -/
def wire : Bytes := r.header ++ (r.userid ++ 0 :: r.tail)

/-- Where the request asks to be connected to, if the name can be resolved. -/
def destination (resolve : Bytes → Option Bytes) : Option InetAddress :=
  if r.named then (resolve r.hostname).map (⟨r.portBytes, ·⟩)
  else some ⟨r.portBytes, r.ipBytes⟩

end Request

/-- The bytes have the terminators that end a request. -/
def Terminated (b : Bytes) : Prop :=
  ∃ userid rest, b.drop 8 = userid ++ 0 :: rest ∧ 0 ∉ userid ∧
    (sock4a ((b.drop 4).take 4) = true → 0 ∈ rest)

variable {resolve : Bytes → Option Bytes} {b : Bytes}

theorem idxOf_split {u rest : Bytes} (h : 0 ∉ u) : (u ++ 0 :: rest).idxOf 0 = u.length := by
  rw [List.idxOf_append_of_notMem h, List.idxOf_cons_self, Nat.add_zero]

/-- The two searches, given where the user id ends. -/
theorem parse_eq {u rest : Bytes} (hlen : b.length ≤ 512) (hsplit : b.drop 8 = u ++ 0 :: rest)
    (hu : 0 ∉ u) : parse resolve b =
      if sock4a ((b.drop 4).take 4) then
        if rest.idxOf 0 ≠ rest.length then
          accept b (resolve (rest.take (rest.idxOf 0))) (8 + u.length + 1 + rest.idxOf 0)
        else .wait
      else accept b (some ((b.drop 4).take 4)) (8 + u.length) := by
  have hblen : b.length = 8 + u.length + 1 + rest.length := by
    have := congrArg List.length hsplit
    simp only [List.length_drop, List.length_append, List.length_cons] at this
    omega
  have hpos : 8 + (b.drop 8).idxOf 0 = 8 + u.length := by
    rw [hsplit, idxOf_split hu]
  have hrest : b.drop (8 + u.length + 1) = rest := by
    rw [Nat.add_assoc, ← List.drop_drop, hsplit, ← List.drop_drop, List.drop_left]
    rfl
  have hcount : 8 + u.length + 1 + rest.idxOf 0 - (8 + u.length + 1) = rest.idxOf 0 := by omega
  have hend : 8 + u.length + 1 + rest.idxOf 0 ≠ 8 + u.length + 1 + rest.length ↔
      rest.idxOf 0 ≠ rest.length := by omega
  rw [parse, if_neg (by omega), if_pos (by omega)]
  simp only [hpos, hrest, hcount]
  rw [if_pos (by omega), hblen]
  simp only [hend]

/-- Bytes without the terminators are kept for later. -/
theorem parse_wait (hlen : b.length ≤ 512) (ht : ¬Terminated b) : parse resolve b = .wait := by
  by_cases hmem : 0 ∈ b.drop 8
  · obtain ⟨u, rest, hsplit, hu⟩ := List.eq_append_cons_of_mem hmem
    rw [parse_eq hlen hsplit hu]
    by_cases hs : sock4a ((b.drop 4).take 4) = true
    · have hrest : 0 ∉ rest := fun h => ht ⟨u, rest, hsplit, hu, fun _ => h⟩
      rw [if_pos hs, if_neg (by rw [List.idxOf_eq_length hrest]; simp)]
    · exact absurd ⟨u, rest, hsplit, hu, fun h => absurd h hs⟩ ht
  · rw [parse, if_neg (by omega)]
    by_cases h8 : b.length > 8
    · have hpos : 8 + (b.drop 8).idxOf 0 = b.length := by
        rw [List.idxOf_eq_length hmem, List.length_drop]
        omega
      rw [if_pos h8]
      simp only [hpos]
      rw [if_neg (by simp)]
    · rw [if_neg h8]

theorem accept_ne_wait {ip : Option Bytes} {last : Nat} : accept b ip last ≠ .wait := by
  intro h
  cases ip with
  | none => exact nomatch h
  | some ip =>
    simp only [accept] at h
    split at h <;> exact nomatch h

theorem accept_connect {ip : Option Bytes} {last n : Nat} {address : InetAddress}
    (h : accept b ip last = .connect address n) : n = last + 1 := by
  cases ip with
  | none => cases h
  | some ip =>
    simp only [accept] at h
    split at h
    · cases h
      rfl
    · cases h

/-- Bytes with the terminators are taken for a request. -/
theorem parse_terminated (hlen : b.length ≤ 512) (ht : Terminated b) : ∃ ip last,
    parse resolve b = accept b ip last := by
  obtain ⟨u, rest, hsplit, hu, hrest⟩ := ht
  rw [parse_eq hlen hsplit hu]
  by_cases hs : sock4a ((b.drop 4).take 4) = true
  · rw [if_pos hs, if_pos (Nat.ne_of_lt (List.idxOf_lt_length_of_mem (hrest hs)))]
    exact ⟨_, _, rfl⟩
  · rw [if_neg hs]
    exact ⟨_, _, rfl⟩

variable {r : Request} {more : Bytes}

theorem Request.header_length : r.header.length = 8 := rfl

theorem Request.wire_length :
    r.wire.length = 8 + (r.userid.length + (r.tail.length + 1)) := by
  rw [Request.wire, List.length_append, r.header_length, List.length_append, List.length_cons]

theorem Request.drop_header : (r.wire ++ more).drop 8 = r.userid ++ 0 :: (r.tail ++ more) := by
  rw [Request.wire, List.append_assoc, List.drop_left' r.header_length, List.append_assoc,
    List.cons_append]

theorem Request.dest : ((r.wire ++ more).drop 4).take 4 = r.ipBytes := rfl

/-- The code asks for a name in the requests that have one, and for 0.0.0.0 too. -/
theorem sock4a_iff : sock4a r.ipBytes = true ↔ r.named ∨ r.ip = (0, 0, 0, 0) := by
  obtain ⟨port, ⟨a, b, c, d⟩, userid, hostname, hu, hh⟩ := r
  have hzero : ∀ u : UInt8, u = 0 ↔ u.toNat = 0 := fun u => UInt8.toNat_inj.symm
  have hd := d.toNat_lt
  have hsock : sock4a [a, b, c, d] = true ↔ BigEndian.decode [a, b, c, d] < 256 :=
    decide_eq_true_iff
  simp only [Request.ipBytes, Request.named, hsock, BigEndian.decode, Prod.mk.injEq,
    List.foldl_cons, List.foldl_nil, ne_eq, hzero]
  omega

theorem Request.named_ne_zero (h : r.named) : r.ip ≠ (0, 0, 0, 0) := by
  intro hzero
  exact h.2.2.2 (congrArg (·.2.2.2) hzero)

/-- A whole request is accepted, whatever follows it. -/
theorem parse_request {address : InetAddress} (hip : r.ip ≠ (0, 0, 0, 0))
    (hlen : (r.wire ++ more).length ≤ 512) (ha : r.destination resolve = some address) :
    parse resolve (r.wire ++ more) = .connect address r.wire.length := by
  have hport : ∀ ip last, accept (r.wire ++ more) (some ip) last =
      .connect ⟨r.portBytes, ip⟩ (last + 1) := fun ip last => rfl
  have hsock : sock4a r.ipBytes = true ↔ r.named := by simp [sock4a_iff, hip]
  rw [parse_eq hlen r.drop_header r.userid_terminated, r.dest]
  unfold Request.destination at ha
  by_cases hs : r.named
  · have htail : r.tail ++ more = r.hostname ++ 0 :: more := by
      rw [Request.tail, if_pos hs, List.append_assoc, List.singleton_append]
    have htlen : r.tail.length = r.hostname.length + 1 := by
      rw [Request.tail, if_pos hs, List.length_append, List.length_singleton]
    rw [if_pos hs] at ha
    obtain ⟨ip, hip, rfl⟩ := Option.map_eq_some_iff.mp ha
    rw [if_pos (hsock.mpr hs), htail, idxOf_split r.hostname_terminated, List.take_left, hip, hport,
      if_pos (by rw [List.length_append, List.length_cons]; omega), r.wire_length, htlen]
    exact congrArg _ (by omega)
  · have htlen : r.tail.length = 0 := by rw [Request.tail, if_neg hs, List.length_nil]
    rw [if_neg hs] at ha
    obtain rfl := Option.some.inj ha
    rw [if_neg (mt hsock.mp hs), hport, r.wire_length, htlen]
    exact congrArg _ (by omega)

theorem Request.tail_zero (h : r.ip = (0, 0, 0, 0)) : r.tail = [] :=
  if_neg fun hnamed => Request.named_ne_zero hnamed h

/-- Of a request to 0.0.0.0 the code wants more, and takes what follows for it. -/
theorem parse_zero {address : InetAddress} {n : Nat} (hzero : r.ip = (0, 0, 0, 0))
    (hlen : (r.wire ++ more).length ≤ 512)
    (h : parse resolve (r.wire ++ more) = .connect address n) :
    r.wire.length < n ∧ n ≤ (r.wire ++ more).length := by
  have hwire : r.wire.length = 8 + (r.userid.length + 1) := by
    rw [r.wire_length, Request.tail_zero hzero, List.length_nil]
  rw [parse_eq hlen r.drop_header r.userid_terminated, r.dest,
    if_pos (sock4a_iff.mpr (.inr hzero)), Request.tail_zero hzero, List.nil_append] at h
  split at h
  · rename_i hend
    have hlt := lt_of_le_of_ne List.idxOf_le_length hend
    have hn := accept_connect h
    rw [List.length_append]
    omega
  · cases h

theorem parse_zero_alone (hzero : r.ip = (0, 0, 0, 0)) (hlen : r.wire.length ≤ 512) :
    parse resolve r.wire = .wait := by
  have hdrop := @Request.drop_header r []
  rw [List.append_nil, List.append_nil, Request.tail_zero hzero] at hdrop
  have hdest : (r.wire.drop 4).take 4 = r.ipBytes := rfl
  rw [parse_eq hlen hdrop r.userid_terminated, hdest, if_pos (sock4a_iff.mpr (.inr hzero))]
  exact if_neg (by simp)

/-- The part of a request that has come is kept until the rest comes. -/
theorem Request.not_terminated {k : Nat} (hk : k < r.wire.length) :
    ¬Terminated (r.wire.take k) := by
  rintro ⟨u, rest, hsplit, hu, hrest⟩
  have hlen := r.wire_length
  rw [List.drop_take, ← List.append_nil r.wire, r.drop_header, List.append_nil] at hsplit
  have h8 : 8 < k := by
    by_contra h
    rw [show k - 8 = 0 by omega, List.take_zero] at hsplit
    simp at hsplit
  -- the first terminator can only be that of the user id
  have hmem : 0 ∈ (r.userid ++ 0 :: r.tail).take (k - 8) := by
    rw [hsplit]
    simp
  have hlong : r.userid.length < k - 8 := by
    by_contra h
    rw [List.take_append_of_le_length (by omega)] at hmem
    exact r.userid_terminated (List.mem_of_mem_take hmem)
  obtain ⟨m, hm⟩ : ∃ m, k - 8 = r.userid.length + (m + 1) := ⟨k - 8 - r.userid.length - 1, by omega⟩
  rw [hm, List.take_length_add_append, List.take_succ_cons] at hsplit
  have hdest : ((r.wire.take k).drop 4).take 4 = r.ipBytes := by
    rw [List.drop_take, List.take_take, Nat.min_eq_left (by omega)]
    rfl
  have hulen : r.userid.length = u.length := by
    rw [← @idxOf_split _ (r.tail.take m) r.userid_terminated, hsplit, idxOf_split hu]
  obtain ⟨-, htail⟩ := List.append_inj hsplit hulen
  rw [List.cons.injEq] at htail
  rw [hdest] at hrest
  by_cases hs : r.named
  · have hm' : m < r.tail.length := by omega
    have := hrest (sock4a_iff.mpr (.inl hs))
    rw [← htail.2, Request.tail, if_pos hs, List.take_append_of_le_length] at this
    · exact r.hostname_terminated (List.mem_of_mem_take this)
    · rw [Request.tail, if_pos hs, List.length_append, List.length_singleton] at hm'
      omega
  · rw [Request.tail, if_neg hs, List.length_nil] at hlen
    omega

end Sock4aServer

end Muduo.Examples
