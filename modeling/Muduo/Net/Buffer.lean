import Muduo.Net.Basic

namespace Muduo.Net
open Muduo.Lib

/-- `size_t` arithmetic. -/
def sizeAdd (a b : Nat) : Nat := Word.add 64 a b

def sizeSub (a b : Nat) : Nat := Word.sub 64 a b

theorem sizeAdd_of_lt {a b : Nat} (h : a + b < 2 ^ 64) : sizeAdd a b = a + b :=
  Word.add_of_lt 64 h

theorem sizeSub_of_le {a b : Nat} (h : b ≤ a) (ha : a < 2 ^ 64) : sizeSub a b = a - b :=
  Word.sub_of_le 64 h ha

def kCheapPrepend : Nat := 8
def kInitialSize : Nat := 1024
/-- `sizeof extrabuf`. -/
def extrabufSize : Nat := 65536

/-- Pointers into `buffer_` are offsets from `begin()`. -/
structure Buffer where
  buffer : Bytes
  readerIndex : Nat
  writerIndex : Nat
  deriving DecidableEq, Repr

namespace Buffer

def readableBytes (b : Buffer) : Nat := sizeSub b.writerIndex b.readerIndex
def writableBytes (b : Buffer) : Nat := sizeSub b.buffer.length b.writerIndex
def prependableBytes (b : Buffer) : Nat := b.readerIndex
def peek (b : Buffer) : Nat := b.readerIndex
def beginWrite (b : Buffer) : Nat := b.writerIndex

/-- The constructor. -/
def new (initialSize : Nat) : Except Fault Buffer := do
  let v ← resize [] (sizeAdd kCheapPrepend initialSize)
  let b : Buffer := ⟨v, kCheapPrepend, kCheapPrepend⟩
  check (b.readableBytes = 0)
  check (b.writableBytes = initialSize)
  check (b.prependableBytes = kCheapPrepend)
  .ok b

def retrieveAll (b : Buffer) : Buffer :=
  { b with readerIndex := kCheapPrepend, writerIndex := kCheapPrepend }

def retrieve (b : Buffer) (len : Nat) : Except Fault Buffer := do
  check (len ≤ b.readableBytes)
  if len < b.readableBytes then
    .ok { b with readerIndex := sizeAdd b.readerIndex len }
  else
    .ok b.retrieveAll

def retrieveUntil (b : Buffer) (stop : Nat) : Except Fault Buffer := do
  check (b.peek ≤ stop)
  check (stop ≤ b.beginWrite)
  b.retrieve (stop - b.peek)

def retrieveAsString (b : Buffer) (len : Nat) : Except Fault (Bytes × Buffer) := do
  check (len ≤ b.readableBytes)
  let result ← load b.buffer b.peek len
  let b ← b.retrieve len
  .ok (result, b)

def makeSpace (b : Buffer) (len : Nat) : Except Fault Buffer := do
  if sizeAdd b.writableBytes b.prependableBytes < sizeAdd len kCheapPrepend then
    let v ← resize b.buffer (sizeAdd b.writerIndex len)
    .ok { b with buffer := v }
  else
    check (kCheapPrepend < b.readerIndex)
    let readable := b.readableBytes
    -- the destination lies below the source, so the forward copy never reads a byte it wrote
    let data ← load b.buffer b.readerIndex (b.writerIndex - b.readerIndex)
    let v ← store b.buffer kCheapPrepend data
    let b : Buffer := ⟨v, kCheapPrepend, sizeAdd kCheapPrepend readable⟩
    check (readable = b.readableBytes)
    .ok b

def ensureWritableBytes (b : Buffer) (len : Nat) : Except Fault Buffer := do
  let b ← if b.writableBytes < len then b.makeSpace len else .ok b
  check (len ≤ b.writableBytes)
  .ok b

/-- `hasWritten(len)`. -/
def advance (b : Buffer) (len : Nat) : Except Fault Buffer := do
  check (len ≤ b.writableBytes)
  .ok { b with writerIndex := sizeAdd b.writerIndex len }

def append (b : Buffer) (data : Bytes) : Except Fault Buffer := do
  let b ← b.ensureWritableBytes data.length
  let v ← store b.buffer b.beginWrite data
  advance { b with buffer := v } data.length

def appendInt32 (b : Buffer) (x : Int) : Except Fault Buffer :=
  b.append (BigEndian.encode 4 (Word.ofSigned 32 x))

/-- The caller's writes through `beginWrite()`, then `hasWritten`. -/
def hasWritten (b : Buffer) (data : Bytes) : Except Fault Buffer := do
  let v ← store b.buffer b.beginWrite data
  advance { b with buffer := v } data.length

def unwrite (b : Buffer) (len : Nat) : Except Fault Buffer := do
  check (len ≤ b.readableBytes)
  .ok { b with writerIndex := sizeSub b.writerIndex len }

def prepend (b : Buffer) (data : Bytes) : Except Fault Buffer := do
  check (data.length ≤ b.prependableBytes)
  let reader := sizeSub b.readerIndex data.length
  let v ← store b.buffer reader data
  .ok { b with buffer := v, readerIndex := reader }

/-- `toStringPiece()`: the length goes through `int`. -/
def toStringPiece (b : Buffer) : Except Fault Bytes :=
  load b.buffer b.peek (Word.ofSigned 64 (Word.toSigned 32 b.readableBytes))

def shrink (b : Buffer) (reserve : Nat) : Except Fault Buffer := do
  let other ← new kInitialSize
  let other ← other.ensureWritableBytes (sizeAdd b.readableBytes reserve)
  let s ← b.toStringPiece
  other.append s

/-- `readFd`. The environment decides what `readv` does: `none` is an error, `some data`
are the bytes it stored, first into the writable tail and then into `extrabuf`. -/
def readFd (b : Buffer) (read : Option Bytes) : Except Fault Buffer := do
  let writable := b.writableBytes
  match read with
  | none => .ok b
  | some data =>
    let v ← store b.buffer b.writerIndex (data.take writable)
    if data.length ≤ writable then
      .ok { b with buffer := v, writerIndex := sizeAdd b.writerIndex data.length }
    else
      append { b with buffer := v, writerIndex := v.length } (data.drop writable)

/-- `iov_len` of both parts together; the second is used only when the first is small. -/
def iovBytes (b : Buffer) : Nat :=
  if b.writableBytes < extrabufSize then b.writableBytes + extrabufSize else b.writableBytes

end Buffer

end Muduo.Net
