import Muduo.Net.Basic

namespace Muduo.Base.LogStream
open Muduo.Lib Muduo.Net

/-- The arrays are read with the NUL behind them. -/
def digits : Bytes := ascii "9876543210123456789" ++ [0]

def digitsHex : Bytes := ascii "0123456789ABCDEF" ++ [0]

/-- `table[i]`. -/
def charAt (table : Bytes) (i : Int) : Except Fault UInt8 :=
  match if 0 ≤ i then table[i.toNat]? else none with
  | some c => .ok c
  | none => .error .outOfBounds

/-- `zero[lsd]`, where `zero` points into the middle of `digits`. -/
def zero (lsd : Int) : Except Fault UInt8 := charAt digits (9 + lsd)

/-- The loop of `convert` and `convertHex`: the digits of `i`, the last first. Division is that
of the machine, which rounds towards zero. -/
def putDigits (digit : Int → Except Fault UInt8) (base : Nat) (hb : 1 < base) (mem : Bytes)
    (p : Nat) (i : Int) : Except Fault (Bytes × Nat) := do
  let c ← digit (i.tmod base)
  let mem ← store mem p [c]
  if _h : i.tdiv base ≠ 0 then putDigits digit base hb mem (p + 1) (i.tdiv base)
  else .ok (mem, p + 1)
termination_by i.natAbs
decreasing_by
  have hi : i ≠ 0 := by
    intro hzero
    rw [hzero] at _h
    exact _h (Int.zero_tdiv _)
  rw [Int.natAbs_tdiv, Int.natAbs_natCast]
  exact Nat.div_lt_self (Int.natAbs_pos.mpr hi) hb

/-- `std::reverse(mem + first, mem + last)`. -/
def reverse (mem : Bytes) (first last : Nat) : Bytes :=
  mem.take first ++ ((mem.drop first).take (last - first)).reverse ++ mem.drop last

/-- `convert(mem + buf, value)`, for every type of `value`. -/
def convert (mem : Bytes) (buf : Nat) (value : Int) : Except Fault (Bytes × Nat) := do
  let (mem, p) ← putDigits zero 10 (by decide) mem buf value
  let (mem, p) ← if value < 0 then do
      let mem ← store mem p (ascii "-")
      pure (mem, p + 1)
    else pure (mem, p)
  let mem ← store mem p [0]
  return (reverse mem buf p, p - buf)

def convertHex (mem : Bytes) (buf : Nat) (value : Nat) : Except Fault (Bytes × Nat) := do
  let (mem, p) ← putDigits (charAt digitsHex) 16 (by decide) mem buf value
  let mem ← store mem p [0]
  return (reverse mem buf p, p - buf)

/-- `cur_` is an offset into `data_`. -/
structure FixedBuffer (SIZE : Nat) where
  data_ : Bytes
  cur_ : Nat

namespace FixedBuffer

variable {SIZE : Nat} (b : FixedBuffer SIZE)

def avail : Int := SIZE - b.cur_

def append (buf : Bytes) (len : Nat) : Except Fault (FixedBuffer SIZE) :=
  if sizeOfInt b.avail > len then do
    let bytes ← load buf 0 len
    let data ← store b.data_ b.cur_ bytes
    return { b with data_ := data, cur_ := b.cur_ + len }
  else .ok b

def reset : FixedBuffer SIZE := { b with cur_ := 0 }

/-- `toString`. -/
def contents : Bytes := b.data_.take b.cur_

end FixedBuffer

def kSmallBuffer : Nat := 4000

def kMaxNumericSize : Int := 32

/-- The types that an integer of a log line may have, where a `long` has 64 bits. -/
inductive Integral
  | short
  | unsignedShort
  | int
  | unsignedInt
  | long
  | unsignedLong
  | longLong
  | unsignedLongLong
  deriving DecidableEq, Repr

def Integral.Holds : Integral → Int → Prop
  | .short, v => -2 ^ 15 ≤ v ∧ v < 2 ^ 15
  | .unsignedShort, v => 0 ≤ v ∧ v < 2 ^ 16
  | .int, v => -2 ^ 31 ≤ v ∧ v < 2 ^ 31
  | .unsignedInt, v => 0 ≤ v ∧ v < 2 ^ 32
  | .long, v | .longLong, v => -2 ^ 63 ≤ v ∧ v < 2 ^ 63
  | .unsignedLong, v | .unsignedLongLong, v => 0 ≤ v ∧ v < 2 ^ 64

variable (s : FixedBuffer kSmallBuffer)

/-- `formatInteger`. A `short` and an `unsigned short` come here as an `int` and an
`unsigned int` of the same value. -/
def formatInteger (v : Int) : Except Fault (FixedBuffer kSmallBuffer) :=
  if s.avail ≥ kMaxNumericSize then do
    let (data, len) ← convert s.data_ s.cur_ v
    return { s with data_ := data, cur_ := s.cur_ + len }
  else .ok s

def insertPointer (v : Nat) : Except Fault (FixedBuffer kSmallBuffer) :=
  if s.avail ≥ kMaxNumericSize then do
    let data ← store s.data_ s.cur_ (ascii "0x")
    let (data, len) ← convertHex data (s.cur_ + 2) v
    return { s with data_ := data, cur_ := s.cur_ + (len + 2) }
  else .ok s

/-- `text` is what `"%.12g"` makes of the number; `snprintf` cuts it off, but returns all of its
length. -/
def insertDouble (text : Bytes) : Except Fault (FixedBuffer kSmallBuffer) :=
  if s.avail ≥ kMaxNumericSize then do
    let data ← store s.data_ s.cur_ (snprintf kMaxNumericSize.toNat text ++ [0])
    return { s with data_ := data, cur_ := s.cur_ + text.length }
  else .ok s

/-- A C string is what stands in front of its NUL. -/
def insertCString : Option Bytes → Except Fault (FixedBuffer kSmallBuffer)
  | some str => s.append str str.length
  | none => s.append (ascii "(null)") 6

end Muduo.Base.LogStream
