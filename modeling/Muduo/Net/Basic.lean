import Muduo.Lib.BigEndian
import Muduo.Lib.Machine
import Muduo.Lib.Word

namespace Muduo.Net
open Muduo.Lib

abbrev Bytes := List UInt8

def ascii (s : String) : Bytes := s.toList.map fun c => UInt8.ofNat c.toNat

/-- `%d`. -/
def decimal (i : Int) : Bytes :=
  (if i < 0 then ascii "-" else []) ++
    (Nat.toDigits 10 i.natAbs).map fun c => UInt8.ofNat c.toNat

/-- `snprintf` into `char buf[size]`, read back as a C string. -/
def snprintf (size : Nat) (text : Bytes) : Bytes := text.take (size - 1)

/-- The ways a run of the C++ code ends other than by returning; `fatal` is `LOG_SYSFATAL`,
`overflow` that of a signed integer, which is undefined. -/
inductive Fault
  | assertion
  | outOfBounds
  | lengthError
  | useAfterFree
  | fatal
  | overflow
  deriving DecidableEq, Repr

/-- `assert(p)`. -/
def check (p : Prop) [Decidable p] : Except Fault Unit :=
  if p then .ok () else .error .assertion

theorem check_pos {p : Prop} [Decidable p] (h : p) : check p = .ok () := if_pos h

theorem check_neg {p : Prop} [Decidable p] (h : ¬p) : check p = .error .assertion := if_neg h

/-- `std::vector<char>::max_size()`. -/
def maxSize : Nat := 2 ^ 63 - 1

theorem maxSize_lt : maxSize < 2 ^ 63 := by decide

/-- `std::vector<char>::resize`, which throws `std::length_error` past `max_size()`. -/
def resize (v : Bytes) (n : Nat) : Except Fault Bytes :=
  if n ≤ maxSize then .ok (v.take n ++ List.replicate (n - v.length) 0) else .error .lengthError

/-- The `n` bytes at offset `i` of an array. -/
def load (v : Bytes) (i n : Nat) : Except Fault Bytes :=
  if i + n ≤ v.length then .ok ((v.drop i).take n) else .error .outOfBounds

def splice (v : Bytes) (i : Nat) (data : Bytes) : Bytes :=
  v.take i ++ data ++ v.drop (i + data.length)

/-- `std::copy` of `data` to offset `i` of an array. -/
def store (v : Bytes) (i : Nat) (data : Bytes) : Except Fault Bytes :=
  if i + data.length ≤ v.length then .ok (splice v i data) else .error .outOfBounds

theorem load_of_le {v : Bytes} {i n : Nat} (h : i + n ≤ v.length) :
    load v i n = .ok ((v.drop i).take n) := if_pos h

theorem store_of_le {v data : Bytes} {i : Nat} (h : i + data.length ≤ v.length) :
    store v i data = .ok (splice v i data) := if_pos h

/-- A sum of two `int`s. -/
def intAdd (a b : Int) : Except Fault Int :=
  if -2 ^ 31 ≤ a + b ∧ a + b < 2 ^ 31 then .ok (a + b) else .error .overflow

theorem intAdd_of_lt {a b : Int} (h : -2 ^ 31 ≤ a + b) (h' : a + b < 2 ^ 31) :
    intAdd a b = .ok (a + b) := if_pos ⟨h, h'⟩

/-- An `int` where a `size_t` is expected. -/
def sizeOfInt (i : Int) : Nat := Word.ofSigned 64 i

theorem sizeOfInt_natCast {n : Nat} (h : n < 2 ^ 64) : sizeOfInt n = n :=
  Word.ofSigned_natCast 64 h

/-- `size()` of a `StringPiece` of a string of `n` bytes, for users that want a `size_t`. The
member `length_` between the two is an `int`. -/
def pieceSize (n : Nat) : Nat := sizeOfInt (Word.toSigned 32 n)

/-- The bytes that the users of a `StringPiece` of `s` take. -/
def stringPiece (s : Bytes) : Except Fault Bytes := load s 0 (pieceSize s.length)

theorem pieceSize_of_lt {n : Nat} (h : n < 2 ^ 31) : pieceSize n = n := by
  rw [pieceSize, Word.toSigned_of_lt 32 (by omega), sizeOfInt_natCast (by omega)]

theorem stringPiece_of_lt {s : Bytes} (h : s.length < 2 ^ 31) : stringPiece s = .ok s := by
  rw [stringPiece, pieceSize_of_lt h, load_of_le (by omega), List.drop_zero, List.take_length]

/-- A piece is a part of the string from its start on, or reaches behind it. -/
theorem stringPiece_cases (s : Bytes) : stringPiece s = .ok (s.take (pieceSize s.length)) ∨
    s.length < pieceSize s.length ∧ stringPiece s = .error .outOfBounds := by
  unfold stringPiece load
  split
  · exact .inl rfl
  · exact .inr ⟨by omega, rfl⟩

/-- The `int32_t` in network order at the front of some bytes. -/
def peekInt32 (b : Bytes) : Int := Word.toSigned 32 (BigEndian.decode (b.take 4))

theorem peekInt32_encode {n : Nat} (h : n < 2 ^ 31) (rest : Bytes) :
    peekInt32 (BigEndian.encode 4 n ++ rest) = n := by
  have ht : (BigEndian.encode 4 n ++ rest).take 4 = BigEndian.encode 4 n := by
    rw [List.take_append_of_le_length (by simp), List.take_of_length_le (by simp)]
  rw [peekInt32, ht, BigEndian.decode_encode_of_lt (by omega)]
  exact Word.toSigned_of_lt 32 (by omega)

theorem peekInt32_range (b : Bytes) : -2 ^ 31 ≤ peekInt32 b ∧ peekInt32 b < 2 ^ 31 := by
  have hlt := Nat.mod_lt (BigEndian.decode (b.take 4)) (Nat.two_pow_pos 32)
  unfold peekInt32 Word.toSigned
  split <;> omega

/-- Only the first four bytes count. -/
theorem peekInt32_take (b : Bytes) {k : Nat} (hk : 4 ≤ k) :
    peekInt32 (b.take k) = peekInt32 b := by
  rw [peekInt32, peekInt32, List.take_take, Nat.min_eq_left hk]

theorem peekInt32_append {b : Bytes} (hb : 4 ≤ b.length) (c : Bytes) :
    peekInt32 (b ++ c) = peekInt32 b := by
  rw [peekInt32, peekInt32, List.take_append_of_le_length hb]

theorem encode_peekInt32 {b : Bytes} (hb : 4 ≤ b.length) :
    BigEndian.encode 4 (Word.ofSigned 32 (peekInt32 b)) = b.take 4 := by
  have hlen : (b.take 4).length = 4 := by rw [List.length_take, Nat.min_eq_left hb]
  have hlt := BigEndian.decode_lt (b.take 4)
  rw [hlen] at hlt
  have henc := BigEndian.encode_decode (b.take 4)
  rw [hlen] at henc
  rw [peekInt32, Word.ofSigned_toSigned, Nat.mod_eq_of_lt (by omega), henc]

theorem peekInt32_int {i : Int} (h : -2 ^ 31 ≤ i) (h' : i < 2 ^ 31) (rest : Bytes) :
    peekInt32 (BigEndian.encode 4 (Word.ofSigned 32 i) ++ rest) = i := by
  have hlt : Word.ofSigned 32 i < 2 ^ 32 := by
    unfold Word.ofSigned
    omega
  have ht : (BigEndian.encode 4 (Word.ofSigned 32 i) ++ rest).take 4 =
      BigEndian.encode 4 (Word.ofSigned 32 i) := by
    rw [List.take_append_of_le_length (by simp), List.take_of_length_le (by simp)]
  rw [peekInt32, ht, BigEndian.decode_encode_of_lt hlt, Word.toSigned, Nat.mod_eq_of_lt hlt]
  unfold Word.ofSigned
  split <;> omega

/-- An `int32_t` survives its way through the network order. -/
theorem peekInt32_toSigned (n : Nat) (rest : Bytes) :
    peekInt32 (BigEndian.encode 4 (Word.ofSigned 32 (Word.toSigned 32 n)) ++ rest) =
      Word.toSigned 32 n := by
  have ht : (BigEndian.encode 4 (n % 2 ^ 32) ++ rest).take 4 = BigEndian.encode 4 (n % 2 ^ 32) := by
    rw [List.take_append_of_le_length (by simp), List.take_of_length_le (by simp)]
  rw [Word.ofSigned_toSigned, peekInt32, ht, BigEndian.decode_of_encode]
  exact (congrArg _ (Nat.mod_mod n (2 ^ 32))).trans (Word.toSigned_mod 32 n)

end Muduo.Net
