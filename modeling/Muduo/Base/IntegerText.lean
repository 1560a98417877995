import Muduo.Base.LogStream
import Muduo.Lib.Numeral
import Muduo.Net.BufferQueue

namespace Muduo.Base.LogStream
open Muduo.Lib Muduo.Net

variable {mem l m r a b t tail data : Bytes} {i k p buf n d : Nat}

/-- A store between what it leaves alone. -/
theorem splice_between (hl : l.length = i) (hm : m.length = data.length) :
    splice (l ++ m ++ r) i data = l ++ data ++ r := by
  have htake : (l ++ (m ++ r)).take i = l := List.take_left' hl
  have hdrop : (l ++ m ++ r).drop (i + data.length) = r :=
    List.drop_left' (by rw [List.length_append, hl, hm])
  rw [splice, hdrop, List.append_assoc l m r, htake]

theorem exists_between (h : i + k ≤ mem.length) :
    ∃ l m r, mem = l ++ m ++ r ∧ l.length = i ∧ m.length = k := by
  refine ⟨mem.take i, (mem.drop i).take k, (mem.drop i).drop k, ?_, ?_, ?_⟩
  · rw [List.append_assoc, List.take_append_drop, List.take_append_drop]
  · rw [List.length_take]
    omega
  · rw [List.length_take, List.length_drop]
    omega

/-- Two stores in a row are one. -/
theorem splice_append (h : i + (a ++ b).length ≤ mem.length) :
    splice (splice mem i a) (i + a.length) b = splice mem i (a ++ b) := by
  obtain ⟨l, m, r, rfl, hl, hm⟩ := exists_between h
  rw [List.length_append] at hm
  have hfirst : (m.take a.length).length = a.length := by
    rw [List.length_take]
    omega
  have hsecond : (m.drop a.length).length = b.length := by
    rw [List.length_drop]
    omega
  have hone : splice (l ++ m ++ r) i a = l ++ a ++ (m.drop a.length ++ r) := by
    have hbetween := splice_between (r := m.drop a.length ++ r) hl hfirst
    rw [← List.append_assoc, List.append_assoc l, List.take_append_drop] at hbetween
    exact hbetween
  have htwo : splice (l ++ a ++ m.drop a.length ++ r) (i + a.length) b = l ++ a ++ b ++ r :=
    splice_between (by rw [List.length_append, hl]) hsecond
  rw [hone, ← List.append_assoc, htwo, splice_between hl (by rw [List.length_append, hm])]
  simp

theorem store_append (h : i + (a ++ b).length ≤ mem.length) :
    store (splice mem i a) (i + a.length) b = .ok (splice mem i (a ++ b)) := by
  have hjoin := splice_append h
  rw [List.length_append] at h
  have hlen : (splice mem i a).length = mem.length := Buffer.splice_length (by omega)
  rw [store_of_le (by omega), hjoin]

/-- Reversing what has just been stored. -/
theorem reverse_splice (h : buf ≤ mem.length) :
    reverse (splice mem buf (t ++ tail)) buf (buf + t.length) =
      splice mem buf (t.reverse ++ tail) := by
  have hlen : (mem.take buf).length = buf := by
    rw [List.length_take]
    omega
  have hsize : (t.reverse ++ tail).length = (t ++ tail).length := by simp
  have hsub : buf + t.length - buf = t.length := Nat.add_sub_cancel_left _ _
  rw [splice, splice, hsize, reverse, hsub]
  generalize mem.drop (buf + (t ++ tail).length) = rest
  have htake : (mem.take buf ++ (t ++ tail) ++ rest).take buf = mem.take buf := by
    rw [List.append_assoc, List.take_left' hlen]
  have hmiddle : (mem.take buf ++ (t ++ tail) ++ rest).drop buf = t ++ (tail ++ rest) := by
    rw [List.append_assoc, List.drop_left' hlen, List.append_assoc]
  have hrest : (mem.take buf ++ (t ++ tail) ++ rest).drop (buf + t.length) = tail ++ rest := by
    rw [← List.drop_drop, hmiddle, List.drop_left' rfl]
  rw [htake, hmiddle, hrest, List.take_left' rfl]
  simp

section

variable {digit : Int → Except Fault UInt8} {base : Nat} {sign : Nat → UInt8} {I : Int → Prop}

/-- The loop leaves the digits behind, the last first. -/
theorem putDigits_eq (hb : 1 < base) (hI : ∀ i, I i → I (i.tdiv base))
    (hdigit : ∀ i, I i → digit (i.tmod base) = .ok (sign (i.natAbs % base))) {value : Int}
    (hvalue : I value) (hroom : p + (figures base value.natAbs).length ≤ mem.length) :
    putDigits digit base hb mem p value =
      .ok (splice mem p ((figures base value.natAbs).map sign),
        p + (figures base value.natAbs).length) := by
  generalize hn : value.natAbs = n at hroom ⊢
  induction n using Nat.strong_induction_on generalizing value mem p with
  | _ n ih =>
    have hquot : (value.tdiv base).natAbs = n / base := by
      rw [Int.natAbs_tdiv, Int.natAbs_natCast, hn]
      rfl
    have hone : p + 1 ≤ mem.length := by
      have hpos := List.length_pos_iff.mpr (figures_ne_nil base n)
      omega
    have hstore : store mem p [sign (n % base)] = .ok (splice mem p [sign (n % base)]) :=
      store_of_le hone
    rw [putDigits, hdigit value hvalue, ok_bind, hn, hstore, ok_bind]
    by_cases hlast : n < base
    · have hzero : value.tdiv base = 0 := by
        rw [← Int.natAbs_eq_zero, hquot, Nat.div_eq_of_lt hlast]
      rw [dif_neg (not_not.mpr hzero), figures_of_lt hlast, Nat.mod_eq_of_lt hlast]
      rfl
    · have hge := Nat.le_of_not_lt hlast
      have hmore : value.tdiv base ≠ 0 := by
        rw [← Int.natAbs_ne_zero, hquot]
        exact Nat.div_ne_zero_iff.mpr ⟨by omega, hge⟩
      rw [figures_of_le hb hge, List.length_cons] at hroom
      have hlen : (splice mem p [sign (n % base)]).length = mem.length := Buffer.splice_length hone
      have hrest : putDigits digit base hb (splice mem p [sign (n % base)]) (p + 1)
          (value.tdiv base) = _ :=
        ih (n / base) (Nat.div_lt_self (by omega) hb) (hI value hvalue) hquot (by omega)
      have hjoin : splice (splice mem p [sign (n % base)]) (p + 1)
          ((figures base (n / base)).map sign) =
          splice mem p ([sign (n % base)] ++ (figures base (n / base)).map sign) :=
        splice_append (by simp; omega)
      rw [dif_pos hmore, hrest, hjoin, figures_of_le hb hge, List.length_cons]
      simp only [List.map_cons, List.singleton_append, Nat.add_assoc, Nat.add_comm 1]

end

/-- The sign of a decimal digit. -/
def decimalSign (d : Nat) : UInt8 := UInt8.ofNat (48 + d)

/-- The sign of a hexadecimal digit, in upper case. -/
def hexSign (d : Nat) : UInt8 := if d < 10 then UInt8.ofNat (48 + d) else UInt8.ofNat (55 + d)

/-- The table is mirrored, so that a negative remainder leads to the same digit. -/
theorem zero_eq (i : Int) : zero (i.tmod 10) = .ok (decimalSign (i.natAbs % 10)) := by
  have hmod : (i.tmod 10).natAbs = i.natAbs % 10 := Int.natAbs_tmod i 10
  have hlt : (i.tmod 10).natAbs < 10 := hmod ▸ Nat.mod_lt _ (by decide)
  rw [← hmod]
  generalize i.tmod 10 = lsd at hlt
  have hlow : -9 ≤ lsd := by omega
  have hhigh : lsd ≤ 9 := by omega
  clear hlt hmod
  interval_cases lsd <;> rfl

theorem digitsHex_eq {i : Int} (h : 0 ≤ i) :
    charAt digitsHex (i.tmod (16 : Nat)) = .ok (hexSign (i.natAbs % 16)) := by
  obtain ⟨n, rfl⟩ := Int.eq_ofNat_of_zero_le h
  have hlt : n % 16 < 16 := Nat.mod_lt _ (by decide)
  have hmod : (n : Int).tmod (16 : Nat) = (n % 16 : Nat) := rfl
  rw [hmod, Int.natAbs_natCast]
  generalize n % 16 = d at hlt
  interval_cases d <;> rfl

theorem toDigits_eq (n : Nat) :
    ((Nat.toDigits 10 n).map fun c => UInt8.ofNat c.toNat) = numeral decimalSign 10 n := by
  have hsign : ∀ d, d < 10 → UInt8.ofNat (Nat.digitChar d).toNat = decimalSign d := by decide
  induction n using Nat.strong_induction_on with
  | _ n ih =>
    by_cases hlast : n < 10
    · rw [Nat.toDigits_of_lt_base hlast, numeral_of_lt hlast, List.map_singleton, hsign n hlast]
    · have hge := Nat.le_of_not_lt hlast
      rw [Nat.toDigits_of_base_le (by decide) hge, numeral_of_le (by decide) hge, List.map_append,
        ih (n / 10) (by omega), List.map_singleton, hsign _ (Nat.mod_lt n (by decide))]

def minus : UInt8 := 45

theorem decimal_eq (value : Int) : decimal value =
    (if value < 0 then [minus] else []) ++ numeral decimalSign 10 value.natAbs := by
  rw [decimal, toDigits_eq]
  rfl

/-- The text of `convertHex`. -/
def hex (value : Nat) : Bytes := numeral hexSign 16 value

/-- The NUL behind the digits, and the digits the right way round. -/
theorem terminate_eq (mem t : Bytes) (hroom : buf + t.length < mem.length) :
    (store (splice mem buf t) (buf + t.length) [0] >>= fun mem =>
      (.ok (reverse mem buf (buf + t.length), buf + t.length - buf) : Except Fault (Bytes × Nat))) =
      .ok (splice mem buf (t.reverse ++ [0]), t.length) := by
  rw [store_append (by simp; omega), ok_bind, reverse_splice (by omega),
    Nat.add_sub_cancel_left]

/-- `convert` writes the decimal text and a NUL. -/
theorem convert_eq {value : Int} (hroom : buf + (decimal value).length < mem.length) :
    convert mem buf value =
      .ok (splice mem buf (decimal value ++ [0]), (decimal value).length) := by
  have hnumeral : numeral decimalSign 10 value.natAbs =
      ((figures 10 value.natAbs).map decimalSign).reverse := List.map_reverse
  have hlen : ((figures 10 value.natAbs).map decimalSign).length =
      (figures 10 value.natAbs).length := List.length_map _
  rw [decimal_eq, hnumeral] at hroom ⊢
  rw [List.length_append, List.length_reverse] at hroom
  have hdigits : putDigits _ 10 (by decide) mem buf value = _ :=
    putDigits_eq (I := fun _ => True) (by decide : 1 < 10) (fun _ _ => trivial)
      (fun i _ => zero_eq i) trivial (by omega)
  rw [← hlen] at hdigits
  generalize (figures 10 value.natAbs).map decimalSign = t at hroom hdigits ⊢
  rw [convert, hdigits, ok_bind]
  by_cases hneg : value < 0
  · rw [if_pos hneg, List.length_singleton] at hroom
    have hsign : store (splice mem buf t) (buf + t.length) (ascii "-") =
        .ok (splice mem buf (t ++ [minus])) := by
      refine store_append ?_
      have hone : (ascii "-").length = 1 := rfl
      rw [List.length_append, hone]
      omega
    have hfits : buf + (t ++ [minus]).length < mem.length := by simp; omega
    have hend := terminate_eq mem (t ++ [minus]) hfits
    rw [List.length_append, List.length_singleton, ← Nat.add_assoc] at hend
    simp only [if_pos hneg, hsign, ok_bind, pure, Except.pure]
    rw [hend]
    simp
  · rw [if_neg hneg, List.length_nil] at hroom
    have hfits : buf + t.length < mem.length := by omega
    have hend := terminate_eq mem t hfits
    simp only [if_neg hneg, ok_bind, pure, Except.pure]
    rw [hend]
    simp

theorem convertHex_eq {value : Nat} (hroom : buf + (hex value).length < mem.length) :
    convertHex mem buf value = .ok (splice mem buf (hex value ++ [0]), (hex value).length) := by
  have hnumeral : hex value = ((figures 16 value).map hexSign).reverse := List.map_reverse
  have hlen : ((figures 16 value).map hexSign).length = (figures 16 value).length :=
    List.length_map _
  rw [hnumeral, List.length_reverse] at hroom ⊢
  have hdigits : putDigits _ 16 (by decide) mem buf value = _ :=
    putDigits_eq (I := fun i => 0 ≤ i) (by decide : 1 < 16)
      (fun i hi => Int.tdiv_nonneg hi (by decide)) (fun i hi => digitsHex_eq hi)
      (Int.natCast_nonneg value) (by rw [Int.natAbs_natCast]; omega)
  rw [Int.natAbs_natCast, ← hlen] at hdigits
  generalize (figures 16 value).map hexSign = t at hroom hdigits ⊢
  rw [convertHex, hdigits, ok_bind]
  exact terminate_eq mem t hroom

/-- The digit of a sign. -/
def decimalValue (c : UInt8) : Option Nat :=
  if 48 ≤ c ∧ c < 58 then some (c.toNat - 48) else none

def hexValue (c : UInt8) : Option Nat :=
  if 48 ≤ c ∧ c < 58 then some (c.toNat - 48)
  else if 65 ≤ c ∧ c < 71 then some (c.toNat - 55)
  else none

/-- The number that a decimal text stands for. -/
def readDecimal : Bytes → Option Int
  | [] => none
  | c :: text =>
    if c = minus then (readNumeral decimalValue 10 text).map fun n : Nat => -(n : Int)
    else (readNumeral decimalValue 10 (c :: text)).map fun n : Nat => (n : Int)

def readHex (text : Bytes) : Option Nat := readNumeral hexValue 16 text

/-- Digits, and a zero in front only where it is all. -/
structure Canonical (value : UInt8 → Option Nat) (text : Bytes) : Prop where
  nonempty : text ≠ []
  digits : ∀ c ∈ text, value c ≠ none
  leading : text.head? = some 48 → text = [48]

theorem decimalValue_sign : ∀ d, d < 10 → decimalValue (decimalSign d) = some d := by decide

theorem hexValue_sign : ∀ d, d < 16 → hexValue (hexSign d) = some d := by decide

theorem numeral_canonical {value : UInt8 → Option Nat} {sign : Nat → UInt8} {base : Nat}
    (hb : 1 < base) (hsign : ∀ d, d < base → value (sign d) = some d) (hzero : sign 0 = 48)
    (n : Nat) : Canonical value (numeral sign base n) := by
  refine ⟨numeral_ne_nil sign base n, ?_, ?_⟩
  · intro c hc
    obtain ⟨d, hd, rfl⟩ := mem_numeral hb hc
    rw [hsign d hd]
    exact Option.some_ne_none d
  · intro hhead
    by_cases hn : n = 0
    · rw [hn, numeral_of_lt (Nat.zero_lt_of_lt hb), hzero]
    · obtain ⟨d, rest, htext, hd, hlt⟩ := numeral_head sign hb hn
      rw [htext, List.head?_cons] at hhead
      have hsame : value (sign d) = value (sign 0) := by rw [Option.some.inj hhead, hzero]
      rw [hsign d hlt, hsign 0 (Nat.zero_lt_of_lt hb)] at hsame
      exact absurd (Option.some.inj hsame) hd

theorem readDecimal_decimal (value : Int) : readDecimal (decimal value) = some value := by
  have hread : readNumeral decimalValue 10 (numeral decimalSign 10 value.natAbs) =
      some value.natAbs := readNumeral_numeral (by decide) decimalValue_sign
  have hcanonical := numeral_canonical (by decide) decimalValue_sign rfl value.natAbs
  rw [decimal_eq]
  cases htext : numeral decimalSign 10 value.natAbs with
  | nil => exact absurd htext hcanonical.nonempty
  | cons c text =>
    rw [htext] at hread
    have hfirst : c ≠ minus := by
      intro heq
      have hdigit := hcanonical.digits c (htext ▸ List.mem_cons_self)
      rw [heq] at hdigit
      exact hdigit rfl
    by_cases hneg : value < 0
    · have habs : -(value.natAbs : Int) = value := by omega
      rw [if_pos hneg, List.singleton_append, readDecimal, if_pos rfl, hread, Option.map_some, habs]
    · have habs : (value.natAbs : Int) = value := by omega
      rw [if_neg hneg, List.nil_append, readDecimal, if_neg hfirst, hread, Option.map_some, habs]

theorem Integral.natAbs_lt {T : Integral} {value : Int} (h : T.Holds value) :
    value.natAbs < 2 ^ 64 := by
  cases T
  all_goals
    simp only [Integral.Holds] at h
    omega

theorem length_decimal {value : Int} (h : value.natAbs < 2 ^ 64) : (decimal value).length ≤ 21 := by
  have hdigits : (figures 10 value.natAbs).length ≤ 20 :=
    length_figures_le (by decide) (by decide) (Nat.lt_trans h (by decide))
  rw [decimal_eq, List.length_append, length_numeral]
  split
  · rw [List.length_singleton]
    omega
  · rw [List.length_nil]
    omega

theorem length_hex {value : Nat} (h : value < 2 ^ 64) : (hex value).length ≤ 16 := by
  rw [hex, length_numeral]
  exact length_figures_le (by decide) (by decide) h

/-- What is written and returned for every integer, that it fits, that it is canonical, and that
its value can be read off. -/
theorem format_exact :
    (∀ (T : Integral) (value : Int), T.Holds value →
      (∀ mem buf, buf + (decimal value).length < mem.length → convert mem buf value =
        .ok (splice mem buf (decimal value ++ [0]), (decimal value).length)) ∧
      ((decimal value).length : Int) < kMaxNumericSize ∧
      (∃ text, Canonical decimalValue text ∧
        decimal value = (if value < 0 then [minus] else []) ++ text) ∧
      readDecimal (decimal value) = some value) ∧
    (∀ value, value < 2 ^ 64 →
      (∀ mem buf, buf + (hex value).length < mem.length → convertHex mem buf value =
        .ok (splice mem buf (hex value ++ [0]), (hex value).length)) ∧
      ((hex value).length : Int) + 2 < kMaxNumericSize ∧
      Canonical hexValue (hex value) ∧ readHex (hex value) = some value) := by
  refine ⟨?_, ?_⟩
  · intro T value hvalue
    have hlen := length_decimal (Integral.natAbs_lt hvalue)
    refine ⟨fun _ _ => convert_eq, ?_, ⟨_, ?_, decimal_eq value⟩, readDecimal_decimal value⟩
    · unfold kMaxNumericSize
      omega
    · exact numeral_canonical (by decide) decimalValue_sign rfl _
  · intro value hvalue
    have hlen := length_hex hvalue
    refine ⟨fun _ _ => convertHex_eq, ?_, numeral_canonical (by decide) hexValue_sign rfl _,
      readNumeral_numeral (by decide) hexValue_sign⟩
    unfold kMaxNumericSize
    omega

/-- The most negative `long`. -/
theorem format_exact_sample : convert (List.replicate 32 0) 0 (-9223372036854775808) =
    .ok (ascii "-9223372036854775808" ++ List.replicate 12 0, 20) :=
  (format_exact.1 .long (-9223372036854775808) ⟨by decide, by decide⟩).1 _ 0 (by decide +kernel)

end Muduo.Base.LogStream
