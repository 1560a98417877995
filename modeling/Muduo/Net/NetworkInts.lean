import Muduo.Lib.ByteOrder
import Muduo.Net.BufferQueue

namespace Muduo.Net
open Muduo.Lib

/-- `int8_t`, `int16_t`, `int32_t` and `int64_t`. -/
inductive Width
  | int8
  | int16
  | int32
  | int64
  deriving DecidableEq, Repr

def Width.sizeof : Width → Nat
  | .int8 => 1
  | .int16 => 2
  | .int32 => 4
  | .int64 => 8

/-- A value of one of these types. -/
structure SizedInt where
  width : Width
  val : Int
  lower : -2 ^ (8 * width.sizeof) ≤ 2 * val
  upper : 2 * val < 2 ^ (8 * width.sizeof)

/-- Big-endian two's complement. -/
def SizedInt.bytes (x : SizedInt) : Bytes :=
  BigEndian.encode x.width.sizeof (Word.ofSigned (8 * x.width.sizeof) x.val)

namespace Endian

variable (host : ByteOrder)

def hostToNetwork64 (host64 : Nat) : Nat := host.swap 8 host64

def hostToNetwork32 (host32 : Nat) : Nat := host.swap 4 host32

def hostToNetwork16 (host16 : Nat) : Nat := host.swap 2 host16

def networkToHost64 (net64 : Nat) : Nat := host.swap 8 net64

def networkToHost32 (net32 : Nat) : Nat := host.swap 4 net32

def networkToHost16 (net16 : Nat) : Nat := host.swap 2 net16

/-- What `append(&x, sizeof x)` finds behind its pointer. -/
def bytesOf (k : Nat) (x : Int) : Bytes := host.object k (Word.ofSigned (8 * k) x)

/-- What `memcpy` makes of an integer. -/
def ofBytes (bs : Bytes) : Int := Word.toSigned (8 * bs.length) (host.value bs)

/-- A function of unsigned integers of `k` bytes, called with a signed one and returned as one. -/
def converted (k : Nat) (conv : Nat → Nat) (x : Int) : Int :=
  Word.toSigned (8 * k) (conv (Word.ofSigned (8 * k) x))

def appendNetwork (k : Nat) (hostToNetwork : Nat → Nat) (b : Buffer) (x : Int) :
    Except Fault Buffer :=
  b.append (bytesOf host k (converted k hostToNetwork x))

def peekNetwork (k : Nat) (networkToHost : Nat → Nat) (b : Buffer) : Except Fault Int := do
  check (k ≤ b.readableBytes)
  let be ← load b.buffer b.peek k
  return converted k networkToHost (ofBytes host be)

def prependNetwork (k : Nat) (hostToNetwork : Nat → Nat) (b : Buffer) (x : Int) :
    Except Fault Buffer :=
  b.prepend (bytesOf host k (converted k hostToNetwork x))

def appendInt64 := appendNetwork host 8 (hostToNetwork64 host)

def appendInt32 := appendNetwork host 4 (hostToNetwork32 host)

def appendInt16 := appendNetwork host 2 (hostToNetwork16 host)

def appendInt8 (b : Buffer) (x : Int) : Except Fault Buffer := b.append (bytesOf host 1 x)

def peekInt64 := peekNetwork host 8 (networkToHost64 host)

def peekInt32 := peekNetwork host 4 (networkToHost32 host)

def peekInt16 := peekNetwork host 2 (networkToHost16 host)

def peekInt8 (b : Buffer) : Except Fault Int := do
  check (1 ≤ b.readableBytes)
  let x ← load b.buffer b.peek 1
  return ofBytes host x

def retrieveInt64 (b : Buffer) : Except Fault Buffer := b.retrieve 8

def retrieveInt32 (b : Buffer) : Except Fault Buffer := b.retrieve 4

def retrieveInt16 (b : Buffer) : Except Fault Buffer := b.retrieve 2

def retrieveInt8 (b : Buffer) : Except Fault Buffer := b.retrieve 1

def readWith (peekInt : Buffer → Except Fault Int) (retrieveInt : Buffer → Except Fault Buffer)
    (b : Buffer) : Except Fault (Int × Buffer) := do
  let result ← peekInt b
  let b ← retrieveInt b
  return (result, b)

def readInt64 := readWith (peekInt64 host) retrieveInt64

def readInt32 := readWith (peekInt32 host) retrieveInt32

def readInt16 := readWith (peekInt16 host) retrieveInt16

def readInt8 := readWith (peekInt8 host) retrieveInt8

def prependInt64 := prependNetwork host 8 (hostToNetwork64 host)

def prependInt32 := prependNetwork host 4 (hostToNetwork32 host)

def prependInt16 := prependNetwork host 2 (hostToNetwork16 host)

def prependInt8 (b : Buffer) (x : Int) : Except Fault Buffer := b.prepend (bytesOf host 1 x)

/-- The `appendIntN` that matches a type. -/
def appendInt : Width → Buffer → Int → Except Fault Buffer
  | .int8 => appendInt8 host
  | .int16 => appendInt16 host
  | .int32 => appendInt32 host
  | .int64 => appendInt64 host

def readInt : Width → Buffer → Except Fault (Int × Buffer)
  | .int8 => readInt8 host
  | .int16 => readInt16 host
  | .int32 => readInt32 host
  | .int64 => readInt64 host

def prependInt : Width → Buffer → Int → Except Fault Buffer
  | .int8 => prependInt8 host
  | .int16 => prependInt16 host
  | .int32 => prependInt32 host
  | .int64 => prependInt64 host

def appendAll (xs : List SizedInt) (b : Buffer) : Except Fault Buffer :=
  xs.foldlM (fun b x => appendInt host x.width b x.val) b

def readAll : List Width → Buffer → Except Fault (List Int × Buffer)
  | [], b => .ok ([], b)
  | w :: ws, b => do
    let (x, b) ← readInt host w b
    let (xs, b) ← readAll ws b
    return (x :: xs, b)

variable {host} {k : Nat} {b : Buffer} {rest : Bytes} {x : SizedInt}

theorem pow_eq (k : Nat) : 256 ^ k = 2 ^ (8 * k) := by
  rw [Nat.pow_mul]

theorem ofSigned_lt_bytes (x : Int) : Word.ofSigned (8 * k) x < 256 ^ k := by
  rw [pow_eq]
  exact Word.ofSigned_lt (8 * k) x

theorem bytesOf_converted (x : Int) : bytesOf host k (converted k (host.swap k) x) =
    BigEndian.encode k (Word.ofSigned (8 * k) x) := by
  have hswap := ByteOrder.swap_lt (o := host) (ofSigned_lt_bytes (k := k) x)
  rw [pow_eq] at hswap
  rw [bytesOf, converted, Word.ofSigned_toSigned, Nat.mod_eq_of_lt hswap, ByteOrder.object_swap]

theorem converted_ofBytes {bs : Bytes} (h : bs.length = k) :
    converted k (host.swap k) (ofBytes host bs) = Word.toSigned (8 * k) (BigEndian.decode bs) := by
  subst h
  have hlt : host.value bs < 256 ^ bs.length := ByteOrder.value_lt
  rw [pow_eq] at hlt
  rw [converted, ofBytes, Word.ofSigned_toSigned, Nat.mod_eq_of_lt hlt, ByteOrder.swap_value]

/-- Whatever the machine, the bytes that go into the buffer are those of the network. -/
theorem appendInt_eq : appendInt host x.width b x.val = b.append x.bytes := by
  obtain ⟨w, v, -, -⟩ := x
  cases w with
  | int8 => exact congrArg b.append ByteOrder.object_one
  | int16 | int32 | int64 => exact congrArg b.append (bytesOf_converted v)

/-- The `appendInt32` of the codecs, at any machine. -/
theorem appendInt32_eq (x : Int) : appendInt32 host b x = b.appendInt32 x :=
  congrArg b.append (bytesOf_converted x)

theorem prependInt_eq : prependInt host x.width b x.val = b.prepend x.bytes := by
  obtain ⟨w, v, -, -⟩ := x
  cases w with
  | int8 => exact congrArg b.prepend ByteOrder.object_one
  | int16 | int32 | int64 => exact congrArg b.prepend (bytesOf_converted v)

theorem bytes_length (x : SizedInt) : x.bytes.length = x.width.sizeof := BigEndian.encode_length

theorem bytes_fit (x : SizedInt) : x.bytes.length ≤ 8 := by
  rw [bytes_length]
  cases x.width <;> decide

/-- The representation determines the value. -/
theorem toSigned_bytes (x : SizedInt) :
    Word.toSigned (8 * x.width.sizeof) (BigEndian.decode x.bytes) = x.val := by
  rw [SizedInt.bytes, BigEndian.decode_encode_of_lt (ofSigned_lt_bytes x.val)]
  exact Word.toSigned_ofSigned _ x.lower x.upper

theorem load_front (h : b.Valid) {front : Bytes} (hc : b.contents = front ++ rest) :
    front.length ≤ b.readableBytes ∧ load b.buffer b.peek front.length = .ok front := by
  have hr := h.readable_length
  have hl := h.contents_length
  obtain ⟨ho, hf, -, -⟩ := h.bounds
  have hsum : b.contents.length = front.length + rest.length := by
    rw [hc, List.length_append]
  have htake : (b.buffer.drop b.readerIndex).take front.length = front := by
    have hprefix := congrArg (List.take front.length) hc
    rw [List.take_left, Buffer.contents, List.take_take, Nat.min_eq_left (by omega)] at hprefix
    exact hprefix
  refine ⟨by omega, ?_⟩
  rw [Buffer.peek, load_of_le (by omega), htake]

theorem peekNetwork_front (h : b.Valid) (hc : b.contents = x.bytes ++ rest) :
    peekNetwork host x.width.sizeof (host.swap x.width.sizeof) b = .ok x.val := by
  obtain ⟨hle, hload⟩ := load_front h hc
  have hlen := bytes_length x
  rw [hlen] at hle hload
  rw [peekNetwork, check_pos hle, ok_bind, hload, ok_bind, converted_ofBytes hlen,
    toSigned_bytes]
  rfl

theorem peekInt8_front (h : b.Valid) (hw : x.width = .int8) (hc : b.contents = x.bytes ++ rest) :
    peekInt8 host b = .ok x.val := by
  obtain ⟨hle, hload⟩ := load_front h hc
  have hlen := bytes_length x
  have hval := toSigned_bytes x
  rw [hw] at hlen hval
  have hone : x.bytes.length = 1 := hlen
  rw [hone] at hle hload
  rw [peekInt8, check_pos hle, ok_bind, hload, ok_bind, ofBytes, ByteOrder.value_one hone, hone]
  exact congrArg Except.ok hval

/-- What is read off the front is the value whose bytes lie there. -/
theorem readInt_front (host : ByteOrder) (h : b.Valid) (hc : b.contents = x.bytes ++ rest) :
    ∃ b', readInt host x.width b = .ok (x.val, b') ∧ b'.Valid ∧ b'.contents = rest := by
  obtain ⟨b', hb, hv, hrest⟩ := Buffer.retrieve_holds h (load_front h hc).1
  rw [hc, List.drop_left] at hrest
  rw [bytes_length] at hb
  refine ⟨b', ?_, hv, hrest⟩
  have hread : ∀ peekInt : Buffer → Except Fault Int, peekInt b = .ok x.val →
      readWith peekInt (fun b => b.retrieve x.width.sizeof) b = .ok (x.val, b') := by
    intro peekInt hpeek
    simp only [readWith, hpeek, ok_bind, hb]
    rfl
  have hnetwork : peekNetwork host x.width.sizeof (host.swap x.width.sizeof) b = .ok x.val :=
    peekNetwork_front h hc
  cases hw : x.width with
  | int8 =>
    rw [hw] at hread
    exact hread (peekInt8 host) (peekInt8_front h hw hc)
  | int16 =>
    rw [hw] at hread hnetwork
    exact hread (peekInt16 host) hnetwork
  | int32 =>
    rw [hw] at hread hnetwork
    exact hread (peekInt32 host) hnetwork
  | int64 =>
    rw [hw] at hread hnetwork
    exact hread (peekInt64 host) hnetwork

theorem appendAll_placed (h : b.Valid) (xs : List SizedInt) :
    Yields (fun b' => (b'.Valid ∧ b'.contents = b.contents ++ xs.flatMap SizedInt.bytes) ∧
      b'.writerIndex ≤ b.writerIndex + (xs.flatMap SizedInt.bytes).length)
      (fun f => f = Fault.lengthError ∧
        maxSize < b.writerIndex + (xs.flatMap SizedInt.bytes).length) (appendAll host xs b) := by
  induction xs generalizing b with
  | nil => exact ⟨⟨h, (List.append_nil _).symm⟩, Nat.le_refl _⟩
  | cons x xs ih =>
    have hfits := h.fits_of_le ((bytes_fit x).trans (by decide : 8 ≤ maxSize))
    rw [appendAll, List.foldlM_cons, appendInt_eq, List.flatMap_cons, List.length_append]
    refine ((Buffer.append_placed h hfits).weaken ?_).bind ?_
    · intro f hf
      exact ⟨hf.1, by omega⟩
    · intro b₁ h₁
      have hle := h₁.2
      refine ((ih h₁.1.1).mono ?_).weaken ?_
      · intro b₂ h₂
        refine ⟨⟨h₂.1.1, ?_⟩, by omega⟩
        rw [h₂.1.2, h₁.1.2, List.append_assoc]
      · intro f hf
        exact ⟨hf.1, by omega⟩

theorem readAll_front (host : ByteOrder) (h : b.Valid) {xs : List SizedInt}
    (hc : b.contents = xs.flatMap SizedInt.bytes) :
    ∃ b', readAll host (xs.map SizedInt.width) b = .ok (xs.map SizedInt.val, b') ∧ b'.Valid ∧
      b'.contents = [] := by
  induction xs generalizing b with
  | nil => exact ⟨b, rfl, h, hc⟩
  | cons x xs ih =>
    obtain ⟨b₁, hb₁, h₁, hc₁⟩ := readInt_front host h hc
    obtain ⟨b₂, hb₂, h₂, hc₂⟩ := ih h₁ hc₁
    refine ⟨b₂, ?_, h₂, hc₂⟩
    simp only [List.map_cons, readAll, hb₁, ok_bind, hb₂]
    rfl

/-- The vector throws only where the bytes do not fit behind `writerIndex_`. -/
theorem ints_survive (host : ByteOrder) (h : b.Valid) :
    (∀ xs : List SizedInt, Yields
      (fun b₁ => b₁.contents = b.contents ++ xs.flatMap SizedInt.bytes ∧
        ∃ b₂ b₃, b₁.retrieve b.readableBytes = .ok b₂ ∧
          readAll host (xs.map SizedInt.width) b₂ = .ok (xs.map SizedInt.val, b₃) ∧
          b₃.readableBytes = 0)
      (fun f => f = Fault.lengthError ∧
        maxSize < b.writerIndex + (xs.flatMap SizedInt.bytes).length) (appendAll host xs b)) ∧
    (∀ x : SizedInt, x.bytes.length = x.width.sizeof) ∧
    ∀ x : SizedInt, x.width.sizeof ≤ b.prependableBytes →
      ∃ b₁ b₂, prependInt host x.width b x.val = .ok b₁ ∧ b₁.contents = x.bytes ++ b.contents ∧
        readInt host x.width b₁ = .ok (x.val, b₂) ∧ b₂.contents = b.contents := by
  refine ⟨?_, bytes_length, ?_⟩
  · intro xs
    refine (appendAll_placed h xs).mono fun b₁ h₁ => ⟨h₁.1.2, ?_⟩
    have hle : b.readableBytes ≤ b₁.readableBytes := by
      rw [h.readable_length, h₁.1.1.readable_length, h₁.1.2, List.length_append]
      omega
    obtain ⟨b₂, hb₂, h₂, hc₂⟩ := Buffer.retrieve_holds h₁.1.1 hle
    rw [h₁.1.2, h.readable_length, List.drop_left] at hc₂
    obtain ⟨b₃, hb₃, h₃, hc₃⟩ := readAll_front host h₂ hc₂
    refine ⟨b₂, b₃, hb₂, hb₃, ?_⟩
    rw [h₃.readable_length, hc₃]
    rfl
  · intro x hx
    rw [← bytes_length x] at hx
    obtain ⟨b₁, hb₁, h₁, hc₁⟩ := Buffer.prepend_holds h hx
    obtain ⟨b₂, hb₂, -, hc₂⟩ := readInt_front host h₁ hc₁
    exact ⟨b₁, b₂, prependInt_eq.trans hb₁, hc₁, hb₂, hc₂⟩

def sampleBuffer : Buffer := ⟨List.replicate 16 7, 8, 10⟩

def sampleInts : List SizedInt :=
  [⟨.int16, -2, by decide, by decide⟩, ⟨.int64, 2 ^ 40, by decide, by decide⟩]

theorem ints_survive_sample : Yields
    (fun b₁ => b₁.contents = [7, 7, 255, 254, 0, 0, 1, 0, 0, 0, 0, 0] ∧
      ∃ b₂ b₃, b₁.retrieve 2 = .ok b₂ ∧
        readAll .little [.int16, .int64] b₂ = .ok ([-2, 2 ^ 40], b₃) ∧ b₃.readableBytes = 0)
    (fun f => f = Fault.lengthError ∧ maxSize < 20) (appendAll .little sampleInts sampleBuffer) := by
  have hvalid : sampleBuffer.Valid := ⟨by decide, by decide, by decide, by decide⟩
  have hreadable : sampleBuffer.readableBytes = 2 := by
    rw [hvalid.readable]
    rfl
  have hcontents : sampleBuffer.contents ++ sampleInts.flatMap SizedInt.bytes =
      [7, 7, 255, 254, 0, 0, 1, 0, 0, 0, 0, 0] := by decide
  have h := (ints_survive .little hvalid).1 sampleInts
  rw [hreadable, hcontents] at h
  exact h

end Endian

end Muduo.Net
