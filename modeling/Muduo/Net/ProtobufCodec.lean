import Muduo.Lib.Framing
import Muduo.Net.Basic

namespace Muduo.Net
open Muduo.Lib

/-- What the codec uses of protobuf and zlib. -/
structure ProtobufRuntime (M : Type) where
  serializeToArray : M → Bytes
  parseFromArray : Bytes → Option M
  adler32 : Bytes → Nat

/-- A codec with its tag; `rawCb` is the raw callback, if one is set. -/
structure ProtobufCodecLite (M : Type) where
  runtime : ProtobufRuntime M
  tag : Bytes
  rawCb : Option (Bytes → Bool)

inductive ErrorCode
  | kNoError
  | kInvalidLength
  | kCheckSumError
  | kInvalidNameLen
  | kUnknownMessageType
  | kParseError
  deriving DecidableEq, Repr

/-- What `messageCallback_` and `errorCallback_` were called with. -/
structure Received (M : Type) where
  messages : List M
  errors : List ErrorCode
  deriving DecidableEq

namespace ProtobufCodecLite

variable {M : Type} (c : ProtobufCodecLite M)

def kHeaderLen : Nat := 4
def kChecksumLen : Nat := 4
def kMaxMessageLen : Nat := 64 * 1024 * 1024
def kMinMessageLen : Nat := c.tag.length + kChecksumLen

/-- The `int32_t` that `adler32` returns. -/
def checksum (buf : Bytes) : Int := Word.toSigned 32 (c.runtime.adler32 buf)

def asInt32 (buf : Bytes) : Int := peekInt32 buf

/-- The last four bytes against the others. -/
def validateChecksum (buf : Bytes) : Bool :=
  let expectedCheckSum := asInt32 (buf.drop (buf.length - kChecksumLen))
  let checkSum := c.checksum (buf.take (buf.length - kChecksumLen))
  checkSum = expectedCheckSum

/-- `parse`, with the message it fills in when there is no error. -/
def parse (buf : Bytes) : Except ErrorCode M :=
  if c.validateChecksum buf then
    if buf.take c.tag.length = c.tag then
      let dataLen := buf.length - kChecksumLen - c.tag.length
      let data := (buf.drop c.tag.length).take dataLen
      match c.runtime.parseFromArray data with
      | some message => .ok message
      | none => .error .kParseError
    else .error .kUnknownMessageType
  else .error .kCheckSumError

/-- `appendInt32`. -/
def appendInt32 (buf : Bytes) (x : Int) : Bytes := buf ++ BigEndian.encode 4 (Word.ofSigned 32 x)

/-- The frame `fillEmptyBuffer` builds in an empty buffer. -/
def fillEmptyBuffer (message : M) : Except Fault Bytes := do
  let buf := c.tag
  let payload := c.runtime.serializeToArray message
  let buf := buf ++ payload
  let checkSum := c.checksum buf
  let buf := appendInt32 buf checkSum
  check (buf.length = c.tag.length + payload.length + kChecksumLen)
  .ok (BigEndian.encode 4 (Word.ofSigned 32 buf.length) ++ buf)

/-- `onMessage` on the readable bytes of `buf`; returns what it leaves of them. -/
def onMessage (s : Received M) (buf : Bytes) : Except Fault (Received M × Bytes) :=
  if c.kMinMessageLen + kHeaderLen ≤ buf.length then
    let len := peekInt32 buf
    if len > kMaxMessageLen ∨ len < c.kMinMessageLen then
      .ok ({ s with errors := s.errors ++ [.kInvalidLength] }, buf)
    else if kHeaderLen + len.toNat ≤ buf.length then
      if c.rawCb.any fun cb => !cb (buf.take (kHeaderLen + len.toNat)) then
        onMessage s (buf.drop (kHeaderLen + len.toNat))
      else
        match c.parse ((buf.drop kHeaderLen).take len.toNat) with
        | .ok message =>
          onMessage { s with messages := s.messages ++ [message] }
            (buf.drop (kHeaderLen + len.toNat))
        | .error errorCode => .ok ({ s with errors := s.errors ++ [errorCode] }, buf)
    else .ok (s, buf)
  else .ok (s, buf)
termination_by buf.length
decreasing_by
  all_goals
    simp only [List.length_drop]
    unfold kHeaderLen at *
    omega

/-- Behind the length field. -/
def body (m : M) : Bytes :=
  appendInt32 (c.tag ++ c.runtime.serializeToArray m)
    (c.checksum (c.tag ++ c.runtime.serializeToArray m))

def frame (m : M) : Bytes := BigEndian.encode 4 (Word.ofSigned 32 (c.body m).length) ++ c.body m

def deliver (s : Received M) (m : M) : Received M := { s with messages := s.messages ++ [m] }

def receiver : Receiver (Received M) M UInt8 Fault where
  encode := c.frame
  deliver := deliver
  run := c.onMessage

/-- The frame length is in the limit, and protobuf reads back what it wrote. -/
structure Sendable (m : M) : Prop where
  short : c.tag.length + (c.runtime.serializeToArray m).length + kChecksumLen ≤ kMaxMessageLen
  inverse : c.runtime.parseFromArray (c.runtime.serializeToArray m) = some m

variable {c} {m : M}

theorem body_length (m : M) : (c.body m).length =
    c.tag.length + (c.runtime.serializeToArray m).length + kChecksumLen := by
  simp [body, appendInt32, kChecksumLen, Nat.add_assoc]

theorem fillEmptyBuffer_eq (m : M) : c.fillEmptyBuffer m = .ok (c.frame m) := by
  have hlen := body_length (c := c) m
  unfold body at hlen
  simp only [fillEmptyBuffer, check_pos hlen, ok_bind]
  rfl

theorem frame_length (m : M) : (c.frame m).length = kHeaderLen + (c.body m).length := by
  simp [frame, kHeaderLen]

/-- The checksum, the tag and the payload are found where the encoder put them. -/
theorem parse_body (h : c.Sendable m) : c.parse (c.body m) = .ok m := by
  have hcut : (c.body m).length - kChecksumLen =
      (c.tag ++ c.runtime.serializeToArray m).length := by
    rw [body_length, List.length_append]
    omega
  have hcheck : c.validateChecksum (c.body m) = true := by
    rw [validateChecksum, hcut]
    simp only [body, appendInt32, List.take_left, List.drop_left, asInt32, checksum,
      decide_eq_true_eq]
    exact ((congrArg peekInt32 (List.append_nil _)).symm.trans (peekInt32_toSigned _ [])).symm
  have hbody : c.body m = c.tag ++ (c.runtime.serializeToArray m ++
      BigEndian.encode 4 (Word.ofSigned 32 (c.checksum (c.tag ++ c.runtime.serializeToArray m)))) := by
    rw [body, appendInt32, List.append_assoc]
  have htag : (c.body m).take c.tag.length = c.tag := by rw [hbody, List.take_left]
  have hdata : ((c.body m).drop c.tag.length).take
      ((c.body m).length - kChecksumLen - c.tag.length) = c.runtime.serializeToArray m := by
    rw [hcut, List.length_append, Nat.add_sub_cancel_left, hbody, List.drop_left, List.take_left]
  simp only [parse, hcheck, if_true, htag, hdata, h.inverse]

theorem peek_length (h : c.Sendable m) (rest : Bytes) :
    peekInt32 (c.frame m ++ rest) = (c.body m).length := by
  have hshort := h.short
  have hlen := body_length (c := c) m
  unfold kMaxMessageLen at hshort
  rw [frame, List.append_assoc, Word.ofSigned_natCast 32 (by omega)]
  exact peekInt32_encode (by omega) _

/-- What the decoder asks of a length field holds for the frames of the encoder. -/
theorem length_valid (h : c.Sendable m) : ¬(((c.body m).length : Int) > (kMaxMessageLen : Nat) ∨
    ((c.body m).length : Int) < (c.kMinMessageLen : Nat)) := by
  have hshort := h.short
  have hlen := body_length (c := c) m
  unfold kMinMessageLen
  omega

theorem onMessage_frame (hraw : c.rawCb = none) (s : Received M) (h : c.Sendable m)
    (rest : Bytes) : c.onMessage s (c.frame m ++ rest) = c.onMessage (deliver s m) rest := by
  have hframe := frame_length (c := c) m
  have hbody := body_length (c := c) m
  have htotal : (c.frame m ++ rest).length = kHeaderLen + (c.body m).length + rest.length := by
    rw [List.length_append, hframe]
  have hdrop : (c.frame m ++ rest).drop kHeaderLen = c.body m ++ rest := by
    rw [frame, List.append_assoc, List.drop_left' (by simp [kHeaderLen])]
  -- the loop guard never holds back a complete frame
  rw [onMessage, if_pos (by unfold kMinMessageLen; omega)]
  simp only [peek_length h]
  rw [if_neg (length_valid h), Int.toNat_natCast, if_pos (by omega),
    if_neg (by simp [hraw]), hdrop, List.take_left, parse_body h, ← List.drop_drop, hdrop,
    List.drop_left]
  rfl

theorem onMessage_incomplete (s : Received M) (h : c.Sendable m) {k : Nat}
    (hk : k < (c.frame m).length) :
    c.onMessage s ((c.frame m).take k) = .ok (s, (c.frame m).take k) := by
  have hframe := frame_length (c := c) m
  have htake : ((c.frame m).take k).length = k := by
    rw [List.length_take, Nat.min_eq_left (Nat.le_of_lt hk)]
  rw [onMessage]
  split
  · rename_i hmin
    rw [htake] at hmin
    have hpeek : peekInt32 ((c.frame m).take k) = (c.body m).length := by
      have h4 : ((c.frame m).take k).take 4 = (c.frame m ++ []).take 4 := by
        rw [List.take_take, List.append_nil, Nat.min_eq_left (by unfold kHeaderLen at hmin; omega)]
      rw [← peek_length h [], peekInt32, peekInt32, h4]
    simp only [hpeek]
    rw [if_neg (length_valid h), Int.toNat_natCast, if_neg (by rw [htake]; omega)]
  · rfl

theorem receiver_exact (hraw : c.rawCb = none) : c.receiver.Exact c.Sendable := by
  refine ⟨fun m _ hnil => ?_, fun s m rest h => onMessage_frame hraw s h rest,
    fun s m k h hk => onMessage_incomplete s h hk, fun s => ?_⟩
  · have hlen := frame_length (c := c) m
    rw [show c.frame m = [] from hnil, List.length_nil] at hlen
    unfold kHeaderLen at hlen
    omega
  · simp [receiver, onMessage, kHeaderLen]

theorem foldl_deliver (ms : List M) (s : Received M) :
    ms.foldl deliver s = ⟨s.messages ++ ms, s.errors⟩ := by
  induction ms generalizing s with
  | nil => rw [List.foldl_nil, List.append_nil]
  | cons m ms ih =>
    rw [List.foldl_cons, ih]
    simp [deliver]

/-- However the frames are cut, and after any part of them, exactly the complete messages have
been handed over, in order and with no error. -/
theorem decode_encode (hraw : c.rawCb = none)
    (hinverse : ∀ m, c.runtime.parseFromArray (c.runtime.serializeToArray m) = some m)
    {ms : List M}
    (hshort : ∀ m ∈ ms,
      c.tag.length + (c.runtime.serializeToArray m).length + kChecksumLen ≤ kMaxMessageLen) :
    ∃ frames, ms.mapM c.fillEmptyBuffer = .ok frames ∧
      (∀ chunks : List Bytes, chunks.flatten <+: frames.flatten →
        c.receiver.feed (⟨[], []⟩, []) chunks =
          .ok (⟨c.receiver.completed ms chunks.flatten.length, []⟩,
            c.receiver.remainder ms chunks.flatten.length)) ∧
      ∀ chunks : List Bytes, chunks.flatten = frames.flatten →
        c.receiver.feed (⟨[], []⟩, []) chunks = .ok (⟨ms, []⟩, []) := by
  have hgood : ∀ m ∈ ms, c.Sendable m := fun m hm => ⟨hshort m hm, hinverse m⟩
  have hframes : ms.mapM c.fillEmptyBuffer = .ok (ms.map c.frame) := by
    rw [funext (fillEmptyBuffer_eq (c := c))]
    exact List.mapM_pure ..
  have hpart : ∀ chunks : List Bytes, chunks.flatten <+: ms.flatMap c.frame →
      c.receiver.feed (⟨[], []⟩, []) chunks =
        .ok (⟨c.receiver.completed ms chunks.flatten.length, []⟩,
          c.receiver.remainder ms chunks.flatten.length) := by
    intro chunks hc
    have hfeed := (receiver_exact hraw).feed_frames hgood ⟨[], []⟩ hc
    rw [hfeed]
    exact congrArg Except.ok (congrArg (·, _) (foldl_deliver _ _))
  refine ⟨ms.map c.frame, hframes, fun chunks hc => hpart chunks ?_, fun chunks hc => ?_⟩
  · rwa [List.flatMap_def]
  · rw [← List.flatMap_def] at hc
    have hall := c.receiver.completed_all ms
    have hrest := c.receiver.remainder_all ms
    simp only [receiver] at hall hrest ⊢
    exact (hpart chunks (hc ▸ List.prefix_refl _)).trans (by simp only [hc, receiver, hall, hrest])

/-- `adler32` started at 1. -/
def adler (buf : Bytes) : Nat :=
  let (a, b) := buf.foldl (fun (a, b) x =>
    ((a + x.toNat) % 65521, (b + (a + x.toNat) % 65521) % 65521)) (1, 0)
  b * 65536 + a

/-- The wire format of a message with one small integer field, which is left out when 0. -/
def sampleRuntime : ProtobufRuntime (Fin 128) where
  serializeToArray n := if n = 0 then [] else [8, UInt8.ofNat n]
  parseFromArray
    | [] => some 0
    | [8, b] => if h : b.toNat < 128 then some ⟨b.toNat, h⟩ else none
    | _ => none
  adler32 := adler

/-- The tag is `RPC0`. -/
def sampleCodec : ProtobufCodecLite (Fin 128) := ⟨sampleRuntime, [82, 80, 67, 48], none⟩

theorem decode_encode_sample :
    ∃ frames, [5, 0].mapM sampleCodec.fillEmptyBuffer = .ok frames ∧
      (∀ chunks : List Bytes, chunks.flatten <+: frames.flatten →
        sampleCodec.receiver.feed (⟨[], []⟩, []) chunks =
          .ok (⟨sampleCodec.receiver.completed [5, 0] chunks.flatten.length, []⟩,
            sampleCodec.receiver.remainder [5, 0] chunks.flatten.length)) ∧
      ∀ chunks : List Bytes, chunks.flatten = frames.flatten →
        sampleCodec.receiver.feed (⟨[], []⟩, []) chunks = .ok (⟨[5, 0], []⟩, []) :=
  decode_encode rfl (by decide) (by decide)

end ProtobufCodecLite

end Muduo.Net
