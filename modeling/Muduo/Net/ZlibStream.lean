import Muduo.Net.BufferQueue

namespace Muduo.Net
open Muduo.Lib

def Z_OK : Int := 0

def Z_STREAM_END : Int := 1

/-- `Z_NO_FLUSH` and `Z_FINISH`. -/
inductive Flush
  | noFlush
  | finish
  deriving DecidableEq, Repr

/-- What a call of `deflate` does: it takes a number of the input bytes and puts some bytes out. -/
structure Deflated (Z : Type) where
  state : Z
  taken : Nat
  output : Bytes
  code : Int

/-- The functions of zlib. `deflate` sees the available input and the size of the output space;
its output never grows beyond a bound given by the number of bytes it has taken. -/
structure Zlib (Z : Type) where
  deflateInit : Z × Int
  deflate : Z → Flush → Bytes → Nat → Deflated Z
  deflateEnd : Z → Int
  outputBound : Nat → Nat

/-- A pointer to one of some bytes, or behind them. -/
structure Pointer where
  bytes : Bytes
  offset : Nat
  deriving DecidableEq, Repr

/-- Its length is an `int`. -/
structure StringPiece where
  ptr : Option Bytes
  small : (ptr.getD []).length < 2 ^ 31

namespace StringPiece

def bytes (p : StringPiece) : Bytes := p.ptr.getD []

def data (p : StringPiece) : Option Pointer := p.ptr.map fun bytes => ⟨bytes, 0⟩

def size (p : StringPiece) : Nat := p.bytes.length

/-- `end()`. -/
def stop (p : StringPiece) : Option Pointer := p.ptr.map fun bytes => ⟨bytes, bytes.length⟩

end StringPiece

/-- A fault, or a loop that was cut off. -/
inductive Halt
  | fault (f : Fault)
  | rounds
  deriving DecidableEq, Repr

def ofFault {α : Type} : Except Fault α → Except Halt α
  | .ok a => .ok a
  | .error f => .error (.fault f)

/-- The history is what `deflate` has taken so far, and what it was given by the calls of
`write`. -/
structure ZlibOutputStream (Z : Type) where
  output : Buffer
  state : Z
  next_in : Option Pointer
  avail_in : Nat
  zerror : Int
  bufferSize : Nat
  taken : Bytes
  given : Bytes
  deriving DecidableEq

namespace ZlibOutputStream

/-- An `unsigned int` out of a `size_t`, by way of `int`. -/
def uInt (n : Nat) : Nat := Word.ofSigned 32 (Word.toSigned 32 n)

variable {Z : Type} (zlib : Zlib Z)

/-- The constructor. -/
def new (output : Buffer) : ZlibOutputStream Z where
  output := output
  state := zlib.deflateInit.1
  next_in := none
  avail_in := 0
  zerror := zlib.deflateInit.2
  bufferSize := 1024
  taken := []
  given := []

variable (s : ZlibOutputStream Z)

/-- The bytes at `next_in`. -/
def available : Bytes :=
  match s.next_in with
  | some p => (p.bytes.drop p.offset).take s.avail_in
  | none => []

def compress (flush : Flush) : Except Halt (Int × ZlibOutputStream Z) := do
  let output ← ofFault (s.output.ensureWritableBytes s.bufferSize)
  let avail_out := uInt output.writableBytes
  let d := zlib.deflate s.state flush s.available avail_out
  let buffer ← ofFault (store output.buffer output.beginWrite d.output)
  let output ← ofFault (Buffer.advance { output with buffer := buffer }
    (sizeSub output.writableBytes (avail_out - d.output.length)))
  let bufferSize :=
    if output.writableBytes = 0 ∧ s.bufferSize < 65536 then s.bufferSize * 2 else s.bufferSize
  return (d.code, { s with
    output := output
    state := d.state
    next_in := s.next_in.map fun p => { p with offset := p.offset + d.taken }
    avail_in := s.avail_in - d.taken
    bufferSize := bufferSize
    taken := s.taken ++ s.available.take d.taken })

/-- No loop takes more rounds: each that does not end it puts out a byte. -/
def rounds : Nat := zlib.outputBound (s.taken.length + s.avail_in) + 2

/-- The loop of `write(StringPiece)`. -/
def compressAll : Nat → ZlibOutputStream Z → Except Halt (ZlibOutputStream Z)
  | 0, _ => .error .rounds
  | n + 1, s =>
    if 0 < s.avail_in ∧ s.zerror = Z_OK then do
      let (zerror, s) ← compress zlib s .noFlush
      compressAll n { s with zerror := zerror }
    else .ok s

/-- `write(StringPiece)`. -/
def write (buf : StringPiece) : Except Halt (Bool × ZlibOutputStream Z) :=
  if s.zerror ≠ Z_OK then .ok (false, s)
  else do
    ofFault (check (s.next_in = none ∧ s.avail_in = 0))
    let s := { s with next_in := buf.data, avail_in := buf.size }
    let s ← compressAll zlib (rounds zlib s) s
    if s.avail_in = 0 then
      ofFault (check (s.next_in = buf.stop))
      return (decide (s.zerror = Z_OK), { s with next_in := none })
    else return (decide (s.zerror = Z_OK), s)

/-- The compression in `write(Buffer*)`. -/
def compressOnce : Except Halt (ZlibOutputStream Z) :=
  if 0 < s.avail_in ∧ s.zerror = Z_OK then do
    let (zerror, s) ← compress zlib s .noFlush
    return { s with zerror := zerror }
  else .ok s

/-- `write(Buffer*)`, with what becomes of the buffer. -/
def writeBuffer (input : Buffer) : Except Halt (Bool × Buffer × ZlibOutputStream Z) :=
  if s.zerror ≠ Z_OK then .ok (false, input, s)
  else do
    let s := { s with
      next_in := some ⟨input.buffer, input.peek⟩
      avail_in := uInt input.readableBytes }
    let s ← compressOnce zlib s
    let input ← ofFault (input.retrieve (sizeSub input.readableBytes s.avail_in))
    return (decide (s.zerror = Z_OK), input, s)

/-- The loop of `finish`. -/
def finishAll : Nat → ZlibOutputStream Z → Except Halt (ZlibOutputStream Z)
  | 0, _ => .error .rounds
  | n + 1, s =>
    if s.zerror = Z_OK then do
      let (zerror, s) ← compress zlib s .finish
      finishAll n { s with zerror := zerror }
    else .ok s

def finish : Except Halt (Bool × ZlibOutputStream Z) :=
  if s.zerror ≠ Z_OK then .ok (false, s)
  else do
    let s ← finishAll zlib (rounds zlib s) s
    return (decide (zlib.deflateEnd s.state = Z_OK), { s with zerror := Z_STREAM_END })

inductive Call
  | piece (buf : StringPiece)
  | buffer (input : Buffer)

/-- The buffers that are handed over are sound. -/
def enabled : Call → Prop
  | .piece _ => True
  | .buffer input => input.Valid

/-- A call gives a `StringPiece`, or the bytes that it retrieves from a `Buffer`. -/
def step : Call → Except Halt (ZlibOutputStream Z)
  | .piece buf => do
    let (_, s) ← write zlib s buf
    return { s with given := s.given ++ buf.bytes }
  | .buffer input => do
    let (_, left, s) ← writeBuffer zlib s input
    let retrieved := input.contents.take (input.contents.length - left.contents.length)
    return { s with given := s.given ++ retrieved }

def machine : Machine (ZlibOutputStream Z) Call Halt where
  enabled _ := enabled
  step := step zlib

end ZlibOutputStream

/-- A stream as it is used: its input, its output, and whether it is being finished. -/
inductive Zlib.Streamed {Z : Type} (zlib : Zlib Z) : Bool → Z → Bytes → Bytes → Prop
  | init : Streamed zlib false zlib.deflateInit.1 [] []
  | write {z : Z} {x y input : Bytes} {n : Nat} : Streamed zlib false z x y → input ≠ [] → 0 < n →
      (zlib.deflate z .noFlush input n).code = Z_OK →
      Streamed zlib false (zlib.deflate z .noFlush input n).state
        (x ++ input.take (zlib.deflate z .noFlush input n).taken)
        (y ++ (zlib.deflate z .noFlush input n).output)
  | finish {b : Bool} {z : Z} {x y : Bytes} {n : Nat} : Streamed zlib b z x y → 0 < n →
      (zlib.deflate z .finish [] n).code = Z_OK →
      Streamed zlib true (zlib.deflate z .finish [] n).state x
        (y ++ (zlib.deflate z .finish [] n).output)

/-- What is relied on of zlib. -/
structure Zlib.Documented {Z : Type} (zlib : Zlib Z) (inflate : Bytes → Option Bytes) : Prop where
  init : zlib.deflateInit.2 = Z_OK
  takes : ∀ z flush input n, (zlib.deflate z flush input n).taken ≤ input.length
  fits : ∀ z flush input n, (zlib.deflate z flush input n).output.length ≤ n
  progress : ∀ {z x y input n}, zlib.Streamed false z x y → input ≠ [] → 0 < n →
    (zlib.deflate z .noFlush input n).code = Z_OK
  fills : ∀ {z x y input n}, zlib.Streamed false z x y → input ≠ [] → 0 < n →
    (zlib.deflate z .noFlush input n).taken = input.length ∨
      (zlib.deflate z .noFlush input n).output.length = n
  finishes : ∀ {b z x y n}, zlib.Streamed b z x y → 0 < n →
    (zlib.deflate z .finish [] n).code = Z_STREAM_END ∨
      ((zlib.deflate z .finish [] n).code = Z_OK ∧ (zlib.deflate z .finish [] n).output.length = n)
  ends : ∀ {b z x y n}, zlib.Streamed b z x y → 0 < n →
    (zlib.deflate z .finish [] n).code = Z_STREAM_END →
      inflate (y ++ (zlib.deflate z .finish [] n).output) = some x
  bounded : ∀ {b z x y}, zlib.Streamed b z x y → y.length ≤ zlib.outputBound x.length
  grows : Monotone zlib.outputBound

end Muduo.Net
