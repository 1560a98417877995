import Muduo.Net.BufferQueue
import Muduo.Net.ProtobufCodec

namespace Muduo.Examples
open Muduo.Lib Muduo.Net

/-- What the codec uses of protobuf and zlib: `D` are the message types of the generated pool,
`M` their messages. -/
structure Protobuf (D M : Type) where
  findMessageTypeByName : Bytes → Option D
  getPrototype : D → Option M
  getTypeName : M → Bytes
  isInitialized : M → Bool
  byteSize : M → Nat
  serializeToArray : M → Bytes
  /-- `ParseFromArray` on a new message of the prototype's type. -/
  parseFromArray : M → Bytes → Option M
  adler32 : Bytes → Nat

namespace Codec

inductive ErrorCode
  | kNoError
  | kInvalidLength
  | kCheckSumError
  | kInvalidNameLen
  | kUnknowMessageType
  | kParseError
  deriving DecidableEq, Repr

/-- The constructor drops its second argument, so `errorCallback_` is empty and a call of it
throws `std::bad_function_call`. -/
inductive Thrown
  | badFunctionCall (errorCode : ErrorCode)
  deriving DecidableEq, Repr

variable {D M : Type} (p : Protobuf D M)

def kHeaderLen : Nat := 4
def kMinMessageLen : Nat := 2 * kHeaderLen + 2
def kMaxMessageLen : Nat := 64 * 1024 * 1024

def errorCallback {α : Type} (errorCode : ErrorCode) : Except Thrown α :=
  .error (.badFunctionCall errorCode)

/-- The `int32_t` made of `adler32`. -/
def checkSumOf (buf : Bytes) : Int := Word.toSigned 32 (p.adler32 buf)

def createMessage (typeName : Bytes) : Option M :=
  match p.findMessageTypeByName typeName with
  | some descriptor => p.getPrototype descriptor
  | none => none

/-- `parse` of the `len` bytes of `buf`. -/
def parse (buf : Bytes) : Except ErrorCode M :=
  let len := buf.length
  let expectCheckSum := peekInt32 (buf.drop (len - kHeaderLen))
  let checkSum := checkSumOf p (buf.take (len - kHeaderLen))
  if checkSum = expectCheckSum then
    let nameLen := peekInt32 buf
    if 2 ≤ nameLen ∧ nameLen ≤ (len : Int) - 2 * kHeaderLen then
      let typeName := (buf.drop kHeaderLen).take (nameLen - 1).toNat
      match createMessage p typeName with
      | some message =>
        let data := buf.drop (kHeaderLen + nameLen.toNat)
        let dataLen := (len : Int) - nameLen - 2 * kHeaderLen
        match p.parseFromArray message (data.take dataLen.toNat) with
        | some message => .ok message
        | none => .error .kParseError
      | none => .error .kUnknowMessageType
    else .error .kInvalidLength
  else .error .kCheckSumError

/-- `onMessage` on the readable bytes of `buff`, with the messages `messageCallback_` was given
so far; returns what it leaves of them. -/
def onMessage (received : List M) (buff : Bytes) : Except Thrown (List M × Bytes) :=
  if kMinMessageLen + kHeaderLen ≤ buff.length then
    let len := peekInt32 buff
    if len > kMaxMessageLen ∨ len < kMinMessageLen then
      errorCallback .kInvalidLength
    else if kHeaderLen + len.toNat ≤ buff.length then
      match parse p ((buff.drop kHeaderLen).take len.toNat) with
      | .ok message => onMessage (received ++ [message]) (buff.drop (kHeaderLen + len.toNat))
      | .error errorCode => errorCallback errorCode
    else .ok (received, buff)
  else .ok (received, buff)
termination_by buff.length
decreasing_by
  simp only [List.length_drop]
  unfold kMinMessageLen kHeaderLen at *
  omega

/-- `fillEmptyBuffer`; the length check in the middle ends in `ByteSizeConsistencyError`. -/
def fillEmptyBuffer (buff : Buffer) (message : M) : Except Fault Buffer := do
  let typeName := p.getTypeName message
  let nameLen := Word.toSigned 32 (typeName.length + 1)
  let buff ← buff.appendInt32 nameLen
  let buff ← buff.append ((typeName ++ [0]).take nameLen.toNat)
  check (p.isInitialized message)
  let byteSize := p.byteSize message
  let buff ← buff.ensureWritableBytes byteSize
  let payload := p.serializeToArray message
  if payload.length ≠ byteSize then .error .fatal
  else
    let buff ← buff.hasWritten payload
    let checked ← load buff.buffer buff.peek buff.readableBytes
    let buff ← buff.appendInt32 (checkSumOf p checked)
    buff.prepend (BigEndian.encode 4 buff.readableBytes)

/-- The buffer `send` hands to the connection. -/
def sent (message : M) : Except Fault Buffer := do
  let buff ← Buffer.new kInitialSize
  fillEmptyBuffer p buff message

/-- What protobuf documents of its messages, and of the type names it registers. -/
structure Documented : Prop where
  noEmptyName : p.findMessageTypeByName [] = none
  cachedSize : ∀ m, p.byteSize m = (p.serializeToArray m).length
  initialized : ∀ m data m', p.parseFromArray m data = some m' → p.isInitialized m'

/-- The message's type is registered, and a new message of it parses back what was written. -/
structure Registered (m : M) : Prop where
  found : ∃ prototype, createMessage p (p.getTypeName m) = some prototype
  inverse : ∀ prototype, createMessage p (p.getTypeName m) = some prototype →
    p.parseFromArray prototype (p.serializeToArray m) = some m

/-- The frame length, as the encoder writes it. -/
def frameLen (m : M) : Nat :=
  (p.getTypeName m).length + 1 + (p.serializeToArray m).length + 2 * kHeaderLen

structure Sendable (m : M) : Prop where
  registered : Registered p m
  short : frameLen p m ≤ kMaxMessageLen

/-- What the checksum is taken of. -/
def checkedPart (m : M) : Bytes :=
  BigEndian.encode 4 ((p.getTypeName m).length + 1) ++ (p.getTypeName m ++ [0]) ++
    p.serializeToArray m

def body (m : M) : Bytes :=
  checkedPart p m ++ BigEndian.encode 4 (Word.ofSigned 32 (checkSumOf p (checkedPart p m)))

def frame (m : M) : Bytes := BigEndian.encode 4 (body p m).length ++ body p m

def receiver : Receiver (List M) M UInt8 Thrown where
  encode := frame p
  deliver received m := received ++ [m]
  run := onMessage p

variable {p} {m : M}

theorem checkedPart_length (m : M) :
    (checkedPart p m).length + kHeaderLen = frameLen p m := by
  simp only [checkedPart, List.length_append, BigEndian.encode_length, frameLen, kHeaderLen,
    List.length_singleton]
  omega

theorem body_length (m : M) : (body p m).length = frameLen p m := by
  have hchecked := checkedPart_length (p := p) m
  rw [body, List.length_append, BigEndian.encode_length]
  exact hchecked

theorem frame_length (m : M) : (frame p m).length = kHeaderLen + frameLen p m := by
  rw [frame, List.length_append, BigEndian.encode_length, body_length, kHeaderLen]

/-- In an empty buffer, the encoder builds the frame. -/
theorem sent_holds (hdoc : Documented p) (h : Sendable p m) :
    ∃ buff, sent p m = .ok buff ∧ buff.Valid ∧ buff.contents = frame p m := by
  have hshort := h.short
  have hlen : frameLen p m = (p.getTypeName m).length + 1 + (p.serializeToArray m).length +
    2 * kHeaderLen := rfl
  have hmax : kMaxMessageLen = 67108864 := rfl
  have hheader : kHeaderLen = 4 := rfl
  have hcheap : kCheapPrepend = 8 := rfl
  have hsize : maxSize = 2 ^ 63 - 1 := rfl
  have hinit : p.isInitialized m = true := by
    obtain ⟨prototype, hfound⟩ := h.registered.found
    exact hdoc.initialized _ _ _ (h.registered.inverse _ hfound)
  have hname : Word.toSigned 32 ((p.getTypeName m).length + 1) =
      (((p.getTypeName m).length + 1 : Nat) : Int) := Word.toSigned_of_lt 32 (by omega)
  have htake : (p.getTypeName m ++ [0]).take ((p.getTypeName m).length + 1) =
      p.getTypeName m ++ [0] := List.take_of_length_le (by simp)
  obtain ⟨b₀, hb₀, f₀⟩ := Buffer.new_filling
  obtain ⟨b₁, hb₁, f₁⟩ :=
    f₀.append (BigEndian.encode 4 ((p.getTypeName m).length + 1)) (by simp; omega)
  obtain ⟨b₂, hb₂, f₂⟩ := f₁.append (p.getTypeName m ++ [0]) (by simp; omega)
  have hspace : kCheapPrepend + ([] ++ BigEndian.encode 4 ((p.getTypeName m).length + 1) ++
      (p.getTypeName m ++ [0])).length + (p.serializeToArray m).length ≤ maxSize := by
    simp
    omega
  obtain ⟨b₃, hb₃, f₃, hroom⟩ := f₂.ensureWritableBytes hspace
  obtain ⟨b₄, hb₄, f₄⟩ := f₃.hasWritten hroom
  rw [List.nil_append] at f₄
  have hload := Buffer.load_contents f₄.valid
  rw [f₄.contents] at hload
  have hchecked := checkedPart_length (p := p) m
  obtain ⟨b₅, hb₅, f₅⟩ := f₄.append
    (BigEndian.encode 4 (Word.ofSigned 32 (checkSumOf p (checkedPart p m))))
    (by
      change kCheapPrepend + (checkedPart p m).length + _ ≤ _
      rw [BigEndian.encode_length]
      omega)
  have hread : b₅.readableBytes = (body p m).length := by
    rw [f₅.valid.readable_length, f₅.contents]
    rfl
  have hfront : (BigEndian.encode 4 (body p m).length).length ≤ b₅.prependableBytes := by
    rw [BigEndian.encode_length, Buffer.prependableBytes, f₅.reader]
    omega
  obtain ⟨b₆, hb₆, hv₆, hc₆⟩ := Buffer.prepend_holds f₅.valid hfront
  refine ⟨b₆, ?_, hv₆, by rw [hc₆, f₅.contents]; rfl⟩
  have hint : b₀.appendInt32 (((p.getTypeName m).length + 1 : Nat) : Int) = .ok b₁ := by
    rw [Buffer.appendInt32, Word.ofSigned_natCast 32 (by omega)]
    exact hb₁
  have hsum : b₄.appendInt32 (checkSumOf p (checkedPart p m)) = .ok b₅ := hb₅
  simp only [sent, hb₀, ok_bind, fillEmptyBuffer, hname, Int.toNat_natCast, htake, hint, hb₂,
    check_pos hinit, hdoc.cachedSize, hb₃, ne_eq, not_true_eq_false, if_false, hb₄, hload]
  change (do
    let buff ← b₄.appendInt32 (checkSumOf p (checkedPart p m))
    buff.prepend (BigEndian.encode 4 buff.readableBytes)) = _
  rw [hsum, ok_bind, hread, hb₆]

theorem Registered.name_pos (hdoc : Documented p) (h : Registered p m) :
    0 < (p.getTypeName m).length := by
  apply Nat.pos_of_ne_zero
  intro hzero
  obtain ⟨prototype, hfound⟩ := h.found
  rw [List.eq_nil_of_length_eq_zero hzero, createMessage, hdoc.noEmptyName] at hfound
  cases hfound

/-- The name, the data and the checksum are found where the encoder put them. -/
theorem parse_body (hdoc : Documented p) (h : Sendable p m) : parse p (body p m) = .ok m := by
  have hshort := h.short
  have hpos := h.registered.name_pos hdoc
  have hmax : kMaxMessageLen = 67108864 := rfl
  have hheader : kHeaderLen = 4 := rfl
  have hlen : frameLen p m = (p.getTypeName m).length + 1 + (p.serializeToArray m).length +
    2 * kHeaderLen := rfl
  have hbody := body_length (p := p) m
  have hcut : (body p m).length - kHeaderLen = (checkedPart p m).length := by
    have hchecked := checkedPart_length (p := p) m
    omega
  have hcheck : checkSumOf p ((body p m).take ((body p m).length - kHeaderLen)) =
      peekInt32 ((body p m).drop ((body p m).length - kHeaderLen)) := by
    have hpeek := peekInt32_toSigned (p.adler32 (checkedPart p m)) []
    rw [List.append_nil] at hpeek
    rw [hcut, body, List.take_left, List.drop_left]
    exact hpeek.symm
  -- the encoder's fields, front to back
  let sum := BigEndian.encode 4 (Word.ofSigned 32 (checkSumOf p (checkedPart p m)))
  have hfields : body p m = BigEndian.encode 4 ((p.getTypeName m).length + 1) ++
      (p.getTypeName m ++ ([0] ++ (p.serializeToArray m ++ sum))) := by
    simp only [body, checkedPart, List.append_assoc, sum]
  have hpeek : peekInt32 (body p m) = (((p.getTypeName m).length + 1 : Nat) : Int) := by
    rw [hfields]
    exact peekInt32_encode (by omega) _
  have hdrop : (body p m).drop kHeaderLen =
      p.getTypeName m ++ ([0] ++ (p.serializeToArray m ++ sum)) := by
    rw [hfields, List.drop_left' (by simp [kHeaderLen])]
  have hname : ((body p m).drop kHeaderLen).take
      ((((p.getTypeName m).length + 1 : Nat) : Int) - 1).toNat = p.getTypeName m := by
    have hn : ((((p.getTypeName m).length + 1 : Nat) : Int) - 1).toNat =
        (p.getTypeName m).length := by omega
    rw [hdrop, hn, List.take_left]
  have hdata : ((body p m).drop (kHeaderLen + ((p.getTypeName m).length + 1))).take
      (((body p m).length : Int) - (((p.getTypeName m).length + 1 : Nat) : Int) -
        2 * kHeaderLen).toNat = p.serializeToArray m := by
    have hn : (((body p m).length : Int) - (((p.getTypeName m).length + 1 : Nat) : Int) -
        2 * kHeaderLen).toNat = (p.serializeToArray m).length := by omega
    rw [hn, ← List.drop_drop, hdrop, ← List.drop_drop, List.drop_left, List.singleton_append,
      List.drop_succ_cons, List.drop_zero, List.take_left]
  have hbounds : (2 : Int) ≤ (((p.getTypeName m).length + 1 : Nat) : Int) ∧
      (((p.getTypeName m).length + 1 : Nat) : Int) ≤
        ((body p m).length : Int) - 2 * kHeaderLen := by
    omega
  obtain ⟨prototype, hfound⟩ := h.registered.found
  have hparse := h.registered.inverse prototype hfound
  simp only [parse, hcheck, if_true, hpeek, if_pos hbounds, hname, hfound, Int.toNat_natCast,
    hdata, hparse]

theorem peek_length (h : Sendable p m) (rest : Bytes) :
    peekInt32 (frame p m ++ rest) = ((body p m).length : Int) := by
  have hshort := h.short
  have hlen := body_length (p := p) m
  unfold kMaxMessageLen at hshort
  rw [frame, List.append_assoc]
  exact peekInt32_encode (by omega) _

/-- What the decoder asks of a length field holds for the frames of the encoder. -/
theorem length_valid (hdoc : Documented p) (h : Sendable p m) :
    ¬(((body p m).length : Int) > (kMaxMessageLen : Nat) ∨
      ((body p m).length : Int) < (kMinMessageLen : Nat)) := by
  have hshort := h.short
  have hpos := h.registered.name_pos hdoc
  have hlen := body_length (p := p) m
  unfold frameLen at hlen hshort
  unfold kMinMessageLen
  omega

theorem onMessage_frame (hdoc : Documented p) (h : Sendable p m) (received : List M)
    (rest : Bytes) :
    onMessage p received (frame p m ++ rest) = onMessage p (received ++ [m]) rest := by
  have hframe := frame_length (p := p) m
  have hbody := body_length (p := p) m
  have hvalid := length_valid hdoc h
  have htotal : (frame p m ++ rest).length = kHeaderLen + (body p m).length + rest.length := by
    rw [List.length_append, hframe, hbody]
  have hdrop : (frame p m ++ rest).drop kHeaderLen = body p m ++ rest := by
    rw [frame, List.append_assoc, List.drop_left' (by simp [kHeaderLen])]
  rw [onMessage, if_pos (by omega)]
  simp only [peek_length h]
  rw [if_neg hvalid, Int.toNat_natCast, if_pos (by omega), hdrop, List.take_left,
    parse_body hdoc h, ← List.drop_drop, hdrop, List.drop_left]

theorem onMessage_incomplete (hdoc : Documented p) (h : Sendable p m) (received : List M)
    {k : Nat} (hk : k < (frame p m).length) :
    onMessage p received ((frame p m).take k) = .ok (received, (frame p m).take k) := by
  have hframe := frame_length (p := p) m
  have hbody := body_length (p := p) m
  have htake : ((frame p m).take k).length = k := by
    rw [List.length_take, Nat.min_eq_left (Nat.le_of_lt hk)]
  rw [onMessage]
  split
  · rename_i hmin
    rw [htake] at hmin
    -- the whole length field is there
    have hpeek : peekInt32 ((frame p m).take k) = ((body p m).length : Int) := by
      have h4 : ((frame p m).take k).take 4 = (frame p m ++ []).take 4 := by
        rw [List.take_take, List.append_nil, Nat.min_eq_left (by unfold kHeaderLen at hmin; omega)]
      rw [← peek_length h [], peekInt32, peekInt32, h4]
    simp only [hpeek]
    rw [if_neg (length_valid hdoc h), Int.toNat_natCast, if_neg (by rw [htake]; omega)]
  · rfl

theorem receiver_exact (hdoc : Documented p) : (receiver p).Exact (Sendable p) := by
  constructor
  · intro m _ hnil
    have hlen := frame_length (p := p) m
    rw [show frame p m = [] from hnil, List.length_nil] at hlen
    unfold kHeaderLen at hlen
    omega
  · intro received m rest h
    exact onMessage_frame hdoc h received rest
  · intro received m k h hk
    exact onMessage_incomplete hdoc h received hk
  · intro received
    simp [receiver, onMessage, kHeaderLen]

theorem foldl_deliver (ms received : List M) :
    ms.foldl (receiver p).deliver received = received ++ ms := by
  induction ms generalizing received with
  | nil => rw [List.foldl_nil, List.append_nil]
  | cons m ms ih =>
    rw [List.foldl_cons, ih]
    exact List.append_assoc received [m] ms

theorem sent_all (hdoc : Documented p) {ms : List M} (h : ∀ m ∈ ms, Sendable p m) :
    ∃ buffers, ms.mapM (sent p) = .ok buffers ∧
      buffers.map Buffer.contents = ms.map (frame p) := by
  induction ms with
  | nil => exact ⟨[], rfl, rfl⟩
  | cons m ms ih =>
    obtain ⟨buffers, hms, hcontents⟩ := ih fun m hm => h m (List.mem_cons_of_mem _ hm)
    obtain ⟨buff, hm, _, hframe⟩ := sent_holds hdoc (h m List.mem_cons_self)
    refine ⟨buff :: buffers, ?_, by rw [List.map_cons, List.map_cons, hframe, hcontents]⟩
    rw [List.mapM_cons, hm, ok_bind, hms]
    rfl

/-- However the frames are cut, and after any part of them, exactly the complete messages have
been handed over, in order, and `errorCallback_` was not called. -/
theorem messages_round_trip (hdoc : Documented p) {ms : List M}
    (hreg : ∀ m ∈ ms, Registered p m) (hshort : ∀ m ∈ ms, frameLen p m ≤ kMaxMessageLen) :
    ∃ buffers, ms.mapM (sent p) = .ok buffers ∧
      (∀ chunks : List Bytes, chunks.flatten <+: (buffers.map Buffer.contents).flatten →
        (receiver p).feed ([], []) chunks =
          .ok ((receiver p).completed ms chunks.flatten.length,
            (receiver p).remainder ms chunks.flatten.length)) ∧
      ∀ chunks : List Bytes, chunks.flatten = (buffers.map Buffer.contents).flatten →
        (receiver p).feed ([], []) chunks = .ok (ms, []) := by
  have hgood : ∀ m ∈ ms, Sendable p m := fun m hm => ⟨hreg m hm, hshort m hm⟩
  obtain ⟨buffers, hbuffers, hcontents⟩ := sent_all hdoc hgood
  have hframes : (buffers.map Buffer.contents).flatten = ms.flatMap (receiver p).encode := by
    rw [hcontents, List.flatMap_def]
    rfl
  have hpart : ∀ chunks : List Bytes, chunks.flatten <+: ms.flatMap (receiver p).encode →
      (receiver p).feed ([], []) chunks =
        .ok ((receiver p).completed ms chunks.flatten.length,
          (receiver p).remainder ms chunks.flatten.length) := by
    intro chunks hc
    rw [(receiver_exact hdoc).feed_frames hgood [] hc, foldl_deliver, List.nil_append]
  refine ⟨buffers, hbuffers, ?_, ?_⟩
  · intro chunks hc
    exact hpart chunks (hframes ▸ hc)
  · intro chunks hc
    rw [hframes] at hc
    rw [hpart chunks (hc ▸ List.prefix_refl _), hc, Receiver.completed_all, Receiver.remainder_all]

/-- Two message types, each with one small integer field. -/
def sampleProtobuf : Protobuf Bool (Bool × Fin 128) where
  findMessageTypeByName name :=
    if name = ascii "muduo.Query" then some true
    else if name = ascii "muduo.Answer" then some false
    else none
  getPrototype descriptor := some (descriptor, ⟨0, by decide⟩)
  getTypeName m := if m.1 then ascii "muduo.Query" else ascii "muduo.Answer"
  isInitialized _ := true
  byteSize m := (ProtobufCodecLite.sampleRuntime.serializeToArray m.2).length
  serializeToArray m := ProtobufCodecLite.sampleRuntime.serializeToArray m.2
  parseFromArray prototype data :=
    (ProtobufCodecLite.sampleRuntime.parseFromArray data).map (prototype.1, ·)
  adler32 := ProtobufCodecLite.adler

theorem sampleProtobuf_registered : ∀ m, Registered sampleProtobuf m := by
  intro m
  have hfound : createMessage sampleProtobuf (sampleProtobuf.getTypeName m) = some (m.1, 0) := by
    cases hquery : m.1 with
    | true =>
      have hname : createMessage sampleProtobuf (ascii "muduo.Query") = some (true, 0) := by
        decide +kernel
      simpa only [sampleProtobuf, hquery, if_true] using hname
    | false =>
      have hname : createMessage sampleProtobuf (ascii "muduo.Answer") = some (false, 0) := by
        decide +kernel
      simpa only [sampleProtobuf, hquery, Bool.false_eq_true, if_false] using hname
  have hinverse : ∀ n : Fin 128, ProtobufCodecLite.sampleRuntime.parseFromArray
      (ProtobufCodecLite.sampleRuntime.serializeToArray n) = some n := by decide
  refine ⟨⟨_, hfound⟩, ?_⟩
  intro prototype h
  cases hfound.symm.trans h
  simp only [sampleProtobuf, hinverse, Option.map_some, Prod.mk.eta]

theorem messages_round_trip_sample :
    ∃ buffers, [(true, 5), (false, 0)].mapM (sent sampleProtobuf) = .ok buffers ∧
      (∀ chunks : List Bytes, chunks.flatten <+: (buffers.map Buffer.contents).flatten →
        (receiver sampleProtobuf).feed ([], []) chunks =
          .ok ((receiver sampleProtobuf).completed [(true, 5), (false, 0)] chunks.flatten.length,
            (receiver sampleProtobuf).remainder [(true, 5), (false, 0)] chunks.flatten.length)) ∧
      ∀ chunks : List Bytes, chunks.flatten = (buffers.map Buffer.contents).flatten →
        (receiver sampleProtobuf).feed ([], []) chunks = .ok ([(true, 5), (false, 0)], []) :=
  messages_round_trip ⟨by decide +kernel, fun _ => rfl, fun _ _ _ _ => rfl⟩
    (fun m _ => sampleProtobuf_registered m) (by decide +kernel)

end Codec

end Muduo.Examples
