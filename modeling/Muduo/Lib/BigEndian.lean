import Mathlib.Tactic.Common
import Mathlib.Tactic.Ring

namespace Muduo.Lib.BigEndian

/-- The low `k` bytes of `n`, most significant first. -/
def encode : Nat → Nat → List UInt8
  | 0, _ => []
  | k + 1, n => UInt8.ofNat (n / 256 ^ k) :: encode k n

def decode (bs : List UInt8) : Nat := bs.foldl (fun n b => n * 256 + b.toNat) 0

variable {k n : Nat}

@[simp] theorem encode_length : (encode k n).length = k := by
  induction k with
  | zero => rfl
  | succ k ih => rw [encode, List.length_cons, ih]

theorem foldl_encode (m : Nat) :
    (encode k n).foldl (fun n b => n * 256 + b.toNat) m = m * 256 ^ k + n % 256 ^ k := by
  induction k generalizing m with
  | zero => simp [encode, Nat.mod_one]
  | succ k ih =>
    have hb : (UInt8.ofNat (n / 256 ^ k)).toNat = n / 256 ^ k % 256 := UInt8.toNat_ofNat'
    have hm : n % 256 ^ (k + 1) = 256 ^ k * (n / 256 ^ k % 256) + n % 256 ^ k := by
      rw [Nat.pow_succ, Nat.mod_mul, Nat.add_comm]
    rw [encode, List.foldl_cons, ih, hb, hm, Nat.pow_succ]
    ring

theorem decode_of_encode : decode (encode k n) = n % 256 ^ k := by
  rw [decode, foldl_encode, Nat.zero_mul, Nat.zero_add]

theorem decode_encode_of_lt (h : n < 256 ^ k) : decode (encode k n) = n := by
  rw [decode_of_encode, Nat.mod_eq_of_lt h]

theorem foldl_decode (bs : List UInt8) (m : Nat) :
    bs.foldl (fun n b => n * 256 + b.toNat) m = m * 256 ^ bs.length + decode bs := by
  induction bs generalizing m with
  | nil => simp [decode]
  | cons b bs ih =>
    rw [decode, List.foldl_cons, List.foldl_cons, ih, ih (0 * 256 + _), List.length_cons,
      Nat.pow_succ]
    ring

theorem decode_cons (b : UInt8) (bs : List UInt8) :
    decode (b :: bs) = b.toNat * 256 ^ bs.length + decode bs := by
  rw [decode, List.foldl_cons, foldl_decode, Nat.zero_mul, Nat.zero_add]

theorem decode_lt (bs : List UInt8) : decode bs < 256 ^ bs.length := by
  induction bs with
  | nil => exact Nat.one_pos
  | cons b bs ih =>
    have hb := b.toNat_lt
    rw [decode_cons, List.length_cons, Nat.pow_succ, Nat.mul_comm _ 256]
    calc b.toNat * 256 ^ bs.length + decode bs
        < b.toNat * 256 ^ bs.length + 256 ^ bs.length := Nat.add_lt_add_left ih _
      _ = (b.toNat + 1) * 256 ^ bs.length := (Nat.succ_mul _ _).symm
      _ ≤ 256 * 256 ^ bs.length := Nat.mul_le_mul_right _ hb

/-- Only the low `k` bytes count. -/
theorem encode_mul_add (m : Nat) : encode k (m * 256 ^ k + n) = encode k n := by
  induction k generalizing m with
  | zero => rfl
  | succ k ih =>
    have hm : m * 256 ^ (k + 1) + n = n + (m * 256) * 256 ^ k := by
      rw [Nat.pow_succ]
      ring
    have hbyte : UInt8.ofNat ((n + (m * 256) * 256 ^ k) / 256 ^ k) =
        UInt8.ofNat (n / 256 ^ k) := by
      rw [Nat.add_mul_div_right _ _ (Nat.pow_pos (by decide))]
      apply UInt8.toNat_inj.mp
      simp
    rw [encode, encode, hm, hbyte, Nat.add_comm, ih]

theorem encode_decode (bs : List UInt8) : encode bs.length (decode bs) = bs := by
  induction bs with
  | nil => rfl
  | cons b bs ih =>
    have hlt := decode_lt bs
    have hbyte : (b.toNat * 256 ^ bs.length + decode bs) / 256 ^ bs.length = b.toNat := by
      rw [Nat.add_comm, Nat.add_mul_div_right _ _ (Nat.pow_pos (by decide)),
        Nat.div_eq_of_lt hlt, Nat.zero_add]
    rw [decode_cons, List.length_cons, encode, hbyte, encode_mul_add, ih, UInt8.ofNat_toNat]

end Muduo.Lib.BigEndian
