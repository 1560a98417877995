import Muduo.Lib.BigEndian

namespace Muduo.Lib

/-- How a machine lays out a number in memory. -/
inductive ByteOrder
  | little
  | big
  deriving DecidableEq, Repr

namespace ByteOrder
open BigEndian (encode decode)

/-- The low `k` bytes of `n` as they lie in memory. -/
def object : ByteOrder → Nat → Nat → List UInt8
  | .little, k, n => (encode k n).reverse
  | .big, k, n => encode k n

/-- The number that some bytes in memory are. -/
def value : ByteOrder → List UInt8 → Nat
  | .little, bs => decode bs.reverse
  | .big, bs => decode bs

def byteSwap (k n : Nat) : Nat := decode (encode k n).reverse

/-- Between the order of the machine and that of the network, either way. -/
def swap : ByteOrder → Nat → Nat → Nat
  | .little, k, n => byteSwap k n
  | .big, _, n => n

variable {o : ByteOrder} {k n : Nat} {bs : List UInt8}

theorem encode_decode_reverse (bs : List UInt8) :
    encode bs.length (decode bs.reverse) = bs.reverse := by
  have h := BigEndian.encode_decode bs.reverse
  rwa [List.length_reverse] at h

theorem value_lt : o.value bs < 256 ^ bs.length := by
  cases o with
  | little =>
    rw [← List.length_reverse]
    exact BigEndian.decode_lt bs.reverse
  | big => exact BigEndian.decode_lt bs

/-- A number that was swapped lies in memory with its most significant byte first. -/
theorem object_swap : o.object k (o.swap k n) = encode k n := by
  cases o with
  | little =>
    have h := encode_decode_reverse (encode k n)
    rw [BigEndian.encode_length] at h
    rw [object, swap, byteSwap, h, List.reverse_reverse]
  | big => rfl

theorem swap_lt (h : n < 256 ^ k) : o.swap k n < 256 ^ k := by
  cases o with
  | little =>
    have hlt := BigEndian.decode_lt (encode k n).reverse
    rwa [List.length_reverse, BigEndian.encode_length] at hlt
  | big => exact h

/-- One byte is its own representation. -/
theorem object_one : o.object 1 n = encode 1 n := by
  cases o <;> rfl

theorem value_one (h : bs.length = 1) : o.value bs = decode bs := by
  obtain ⟨b, rfl⟩ := List.length_eq_one_iff.mp h
  cases o <;> rfl

theorem swap_value : o.swap bs.length (o.value bs) = decode bs := by
  cases o with
  | little => rw [swap, value, byteSwap, encode_decode_reverse, List.reverse_reverse]
  | big => rfl

end ByteOrder

end Muduo.Lib
