import Muduo.Examples.Multiplexer
import Muduo.Lib.Framing

namespace Muduo.Examples
open Muduo.Lib Muduo.Net Multiplexer

/-- The backend: the packets it has handed to `onStringMessage`, and how often it told the
connection to shut down. -/
structure BackendServer where
  received : List Packet
  shutdowns : Nat
  deriving DecidableEq, Repr

namespace BackendServer

def onStringMessage (b : BackendServer) (id : Int) (type : UInt8) (text : Bytes) : BackendServer :=
  { b with received := b.received ++ [⟨id, type, text⟩] }

/-- `onMessage` on the readable bytes of `buff`; returns what it leaves of them. An invalid
length is reported and then used all the same. -/
def onMessage (b : BackendServer) (buff : Bytes) : Except Fault (BackendServer × Bytes) :=
  if headerLen + 1 < buff.length then do
    let len := peekInt32 buff
    let b := if len < 0 ∨ len > maxPacketLen then { b with shutdowns := b.shutdowns + 1 } else b
    let need ← intAdd (headerLen + 1) len
    if buff.length < sizeOfInt need then .ok (b, buff)
    -- `string(const char*, size_t)` with a negative length
    else if len < 0 then .error .lengthError
    else
      let id := peekInt32 (buff.drop 4)
      let type := (buff.drop headerLen).headD 0
      let text := (buff.drop (headerLen + 1)).take len.toNat
      onMessage (b.onStringMessage id type text) (buff.drop (headerLen + 1 + len.toNat))
  else .ok (b, buff)
termination_by buff.length
decreasing_by
  rename_i h _ _
  rw [List.length_drop]
  omega

/-- The bytes of a packet on the wire. -/
def encode (p : Packet) : Bytes :=
  BigEndian.encode 4 p.payload.length ++ BigEndian.encode 4 (Word.ofSigned 32 p.id) ++
    p.type :: p.payload

/-- Packets the backend is sent: with a payload, of a legal length. -/
structure Sendable (p : Packet) : Prop where
  nonempty : p.payload ≠ []
  short : p.payload.length ≤ maxPacketLen
  id : 0 ≤ p.id ∧ p.id < maxConns

def receiver : Receiver BackendServer Packet UInt8 Fault where
  encode := encode
  deliver b p := b.onStringMessage p.id p.type p.payload
  run := onMessage

variable {p : Packet}

theorem encode_length (p : Packet) : (encode p).length = headerLen + 1 + p.payload.length := by
  simp only [encode, List.length_append, BigEndian.encode_length, List.length_cons, headerLen]
  omega

theorem Sendable.length_lt (h : Sendable p) : p.payload.length ≤ 512 := h.short

/-- What the two `int32_t` of a header can say. -/
structure OnWire (p : Packet) : Prop where
  short : p.payload.length < 2 ^ 31
  id : -2 ^ 31 ≤ p.id ∧ p.id < 2 ^ 31

theorem Sendable.onWire (h : Sendable p) : OnWire p := by
  have hshort := h.length_lt
  have hid := h.id
  unfold maxConns at hid
  exact ⟨by omega, by omega, by omega⟩

theorem peek_length (h : OnWire p) (rest : Bytes) :
    peekInt32 (encode p ++ rest) = p.payload.length := by
  rw [encode, List.append_assoc, List.append_assoc]
  exact peekInt32_encode h.short _

theorem peek_id (h : OnWire p) (rest : Bytes) :
    peekInt32 ((encode p ++ rest).drop 4) = p.id := by
  have hd : (encode p ++ rest).drop 4 =
      BigEndian.encode 4 (Word.ofSigned 32 p.id) ++ (p.type :: p.payload ++ rest) := by
    rw [encode, List.append_assoc, List.append_assoc, List.drop_left' BigEndian.encode_length]
  rw [hd]
  exact peekInt32_int h.id.1 h.id.2 _

theorem drop_header (p : Packet) (rest : Bytes) :
    (encode p ++ rest).drop headerLen = p.type :: (p.payload ++ rest) := by
  rw [encode, List.append_assoc, List.drop_left' (by simp [headerLen]), List.cons_append]

/-- The sums over a legal length do not overflow. -/
theorem need_eq (h : Sendable p) :
    intAdd (headerLen + 1) p.payload.length = .ok ((encode p).length : Int) ∧
      sizeOfInt ((encode p).length : Int) = (encode p).length := by
  have hshort := h.length_lt
  have hlen := encode_length p
  unfold headerLen at hlen ⊢
  rw [intAdd_of_lt (by omega) (by omega)]
  refine ⟨?_, sizeOfInt_natCast (by omega)⟩
  rw [hlen]
  push_cast
  rfl

/-- A whole packet at the front is handed over and taken off. -/
theorem onMessage_frame (b : BackendServer) (h : Sendable p) (rest : Bytes) :
    b.onMessage (encode p ++ rest) =
      (b.onStringMessage p.id p.type p.payload).onMessage rest := by
  have hlen := encode_length p
  have hpos : 0 < p.payload.length := List.length_pos_iff.mpr h.nonempty
  have hshort := h.length_lt
  have hbuff : headerLen + 1 < (encode p ++ rest).length := by
    rw [List.length_append, hlen]
    omega
  have hvalid : ¬((p.payload.length : Int) < 0 ∨ (p.payload.length : Int) > maxPacketLen) := by
    unfold maxPacketLen
    omega
  obtain ⟨hneed, hsize⟩ := need_eq h
  rw [onMessage, if_pos hbuff]
  simp only [peek_length h.onWire, peek_id h.onWire, hvalid, if_false, hneed, ok_bind, hsize]
  rw [if_neg (by rw [List.length_append]; omega), if_neg (by omega), Int.toNat_natCast, ← hlen,
    List.drop_left, ← List.drop_drop, drop_header]
  simp

/-- A packet that is not complete waits. -/
theorem onMessage_incomplete (b : BackendServer) (h : Sendable p) {k : Nat}
    (hk : k < (encode p).length) :
    b.onMessage ((encode p).take k) = .ok (b, (encode p).take k) := by
  have hshort := h.length_lt
  have hk' : ((encode p).take k).length = k := by
    rw [List.length_take, Nat.min_eq_left (Nat.le_of_lt hk)]
  rw [onMessage]
  split
  · rename_i hbuff
    rw [hk'] at hbuff
    have hpeek : peekInt32 ((encode p).take k) = p.payload.length := by
      have h4 : 4 ≤ k := by
        unfold headerLen at hbuff
        omega
      rw [peekInt32_take _ h4, ← peek_length h.onWire [], List.append_nil]
    have hvalid : ¬((p.payload.length : Int) < 0 ∨ (p.payload.length : Int) > maxPacketLen) := by
      unfold maxPacketLen
      omega
    obtain ⟨hneed, hsize⟩ := need_eq h
    simp only [hpeek, hvalid, if_false, hneed, ok_bind, hsize, hk', if_pos hk]
  · rfl

theorem receiver_exact : receiver.Exact Sendable := by
  refine ⟨fun p _ => ?_, fun b p rest h => onMessage_frame b h rest,
    fun b p k h hk => onMessage_incomplete b h hk, fun b => ?_⟩
  · simp [receiver, encode]
  · simp [receiver, onMessage]

end BackendServer

end Muduo.Examples
