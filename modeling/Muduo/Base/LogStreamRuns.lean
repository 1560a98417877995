import Muduo.Base.IntegerText

namespace Muduo.Base.LogStream
open Muduo.Lib Muduo.Net

/-- What may be called on a stream; `F` is the type of the floating-point numbers. A `float` comes
as the `double` of its value, a `Buffer` as a `StringPiece`, an `unsigned char*` as a `char*`. -/
inductive Call (F : Type)
  | bool (v : Bool)
  | integer (T : Integral) (v : Int)
  | pointer (v : Nat)
  | double (v : F)
  | char (v : UInt8)
  | cString (str : Option Bytes)
  | string (v : Bytes)
  | piece (data : Bytes) (length_ : Int)
  | append (data : Bytes) (len : Int)
  | resetBuffer

variable {F : Type} (format : F → Bytes)

def step (s : FixedBuffer kSmallBuffer) : Call F → Except Fault (FixedBuffer kSmallBuffer)
  | .bool v => s.append (if v then ascii "1" else ascii "0") 1
  | .integer _ v => formatInteger s v
  | .pointer v => insertPointer s v
  | .double v => insertDouble s (format v)
  | .char v => s.append [v] 1
  | .cString str => insertCString s str
  | .string v => s.append v v.length
  | .piece data length_ => s.append data (sizeOfInt length_)
  | .append data len => s.append data (sizeOfInt len)
  | .resetBuffer => .ok s.reset

def run (s : FixedBuffer kSmallBuffer) (calls : List (Call F)) :
    Except Fault (FixedBuffer kSmallBuffer) := calls.foldlM (step format) s

namespace Call

/-- The complete text of an argument. -/
def text : Call F → Bytes
  | .bool v => if v then ascii "1" else ascii "0"
  | .integer _ v => decimal v
  | .pointer v => ascii "0x" ++ hex v
  | .double v => format v
  | .char v => [v]
  | .cString (some str) => str
  | .cString none => ascii "(null)"
  | .string v => v
  | .piece data len | .append data len => data.take len.toNat
  | .resetBuffer => []

/-- An integer is one of its type, and a length is an `int` that does not go beyond the data. -/
def Valid : Call F → Prop
  | .integer T v => T.Holds v
  | .pointer v => v < 2 ^ 64
  | .piece data len | .append data len => -2 ^ 31 ≤ len ∧ len < 2 ^ 31 ∧ len ≤ data.length
  | _ => True

def isReset : Call F → Bool
  | .resetBuffer => true
  | _ => false

end Call

/-- The calls since the last reset. -/
def sinceReset (calls : List (Call F)) : List (Call F) :=
  (calls.reverse.takeWhile fun c => !c.isReset).reverse

theorem sinceReset_append (calls : List (Call F)) (c : Call F) :
    sinceReset (calls ++ [c]) = if c.isReset then [] else sinceReset calls ++ [c] := by
  cases hc : c.isReset with
  | true => simp [sinceReset, hc]
  | false => simp [sinceReset, hc]

/-- There is always room for one more byte. -/
structure Sound {SIZE : Nat} (b : FixedBuffer SIZE) : Prop where
  size : b.data_.length = SIZE
  room : b.cur_ < SIZE

/-- All of the text, or nothing. -/
def Adds {SIZE : Nat} (b : FixedBuffer SIZE) (text : Bytes) (b' : FixedBuffer SIZE) : Prop :=
  Sound b' ∧ (b'.contents = b.contents ++ text ∨ b'.contents = b.contents)

variable {SIZE : Nat} {b : FixedBuffer SIZE} {s : FixedBuffer kSmallBuffer} {text rest buf : Bytes}

theorem Sound.unchanged (h : Sound b) : Adds b text b := ⟨h, Or.inr rfl⟩

/-- Whatever is written at `current()`, the part that is added becomes part of the contents. -/
theorem Sound.written (h : Sound b) (text rest : Bytes)
    (hroom : b.cur_ + (text ++ rest).length ≤ SIZE)
    (hmore : b.cur_ + text.length < SIZE) :
    Adds b text
      { b with data_ := splice b.data_ b.cur_ (text ++ rest), cur_ := b.cur_ + text.length } := by
  have hsize := h.size
  have hfits : b.cur_ + (text ++ rest).length ≤ b.data_.length := by omega
  obtain ⟨l, m, r, hdata, hl, hm⟩ := exists_between hfits
  refine ⟨⟨(Buffer.splice_length (by omega)).trans h.size, hmore⟩, Or.inl ?_⟩
  rw [FixedBuffer.contents, FixedBuffer.contents]
  simp only
  rw [hdata, splice_between hl hm, List.append_assoc l m, List.take_left' hl, List.append_assoc l,
    List.append_assoc text, ← List.append_assoc l,
    List.take_left' (by rw [List.length_append, hl])]

theorem Sound.append (h : Sound b) (hsize : SIZE < 2 ^ 31) (buf : Bytes) {len : Nat}
    (hlen : len ≤ buf.length) :
    Yields (Adds b (buf.take len)) (fun _ => False) (b.append buf len) := by
  have hroom := h.room
  have hlength := h.size
  have havail : sizeOfInt b.avail = SIZE - b.cur_ := by
    have hcast : b.avail = ((SIZE - b.cur_ : Nat) : Int) := by
      unfold FixedBuffer.avail
      omega
    rw [hcast, sizeOfInt_natCast (by omega)]
  unfold FixedBuffer.append
  rw [havail]
  by_cases hfit : SIZE - b.cur_ > len
  · have htake : (buf.take len).length = len := by
      rw [List.length_take]
      omega
    have hload : load buf 0 len = .ok (buf.take len) := load_of_le (by omega)
    have hstore : store b.data_ b.cur_ (buf.take len) = .ok (splice b.data_ b.cur_ (buf.take len)) :=
      store_of_le (by omega)
    have hwritten := h.written (buf.take len) []
      (by rw [List.append_nil]; omega) (by omega)
    rw [List.append_nil, htake] at hwritten
    rw [if_pos hfit, hload, ok_bind, hstore, ok_bind]
    exact hwritten
  · rw [if_neg hfit]
    exact h.unchanged

/-- A negative length is a size that nothing has room for. -/
theorem Sound.appendInt (h : Sound b) (hsize : SIZE < 2 ^ 31) {len : Int} (hlow : -2 ^ 31 ≤ len)
    (hhigh : len < 2 ^ 31) (hlen : len ≤ buf.length) :
    Yields (Adds b (buf.take len.toNat)) (fun _ => False) (b.append buf (sizeOfInt len)) := by
  by_cases hneg : len < 0
  · have hcast : sizeOfInt len = 2 ^ 64 - len.natAbs := by
      unfold sizeOfInt Word.ofSigned
      omega
    have havail : sizeOfInt b.avail ≤ SIZE := by
      have hroom := h.room
      have hnat : b.avail = ((SIZE - b.cur_ : Nat) : Int) := by
        unfold FixedBuffer.avail
        omega
      rw [hnat, sizeOfInt_natCast (by omega)]
      omega
    unfold FixedBuffer.append
    rw [if_neg (by omega)]
    exact h.unchanged
  · obtain ⟨n, rfl⟩ := Int.eq_ofNat_of_zero_le (Int.not_lt.mp hneg)
    have hcast : sizeOfInt n = n := sizeOfInt_natCast (by omega)
    rw [hcast, Int.toNat_natCast]
    exact h.append hsize buf (by omega)

theorem Sound.avail_ge (h : Sound s) (hfit : s.avail ≥ kMaxNumericSize) :
    s.cur_ + 32 ≤ s.data_.length := by
  have hsize := h.size
  have hroom := h.room
  unfold FixedBuffer.avail kMaxNumericSize at hfit
  omega

theorem Sound.formatInteger (h : Sound s) {T : Integral} {v : Int} (hv : T.Holds v) :
    Yields (Adds s (decimal v)) (fun _ => False) (formatInteger s v) := by
  unfold LogStream.formatInteger
  by_cases hfit : s.avail ≥ kMaxNumericSize
  · have hspace := h.avail_ge hfit
    have hsize := h.size
    have hlen := length_decimal (Integral.natAbs_lt hv)
    have hwritten := h.written (decimal v) [0]
      (by rw [List.length_append, List.length_singleton]; omega) (by omega)
    rw [if_pos hfit, convert_eq (by omega), ok_bind]
    exact hwritten
  · rw [if_neg hfit]
    exact h.unchanged

theorem Sound.insertPointer (h : Sound s) {v : Nat} (hv : v < 2 ^ 64) :
    Yields (Adds s (ascii "0x" ++ hex v)) (fun _ => False) (insertPointer s v) := by
  unfold LogStream.insertPointer
  by_cases hfit : s.avail ≥ kMaxNumericSize
  · have hspace := h.avail_ge hfit
    have hsize := h.size
    have hlen := length_hex hv
    have htwo : (ascii "0x").length = 2 := rfl
    have hstore : store s.data_ s.cur_ (ascii "0x") =
        .ok (splice s.data_ s.cur_ (ascii "0x")) := store_of_le (by omega)
    have hkept : (splice s.data_ s.cur_ (ascii "0x")).length = s.data_.length :=
      Buffer.splice_length (by omega)
    have hjoin : splice (splice s.data_ s.cur_ (ascii "0x")) (s.cur_ + 2) (hex v ++ [0]) =
        splice s.data_ s.cur_ (ascii "0x" ++ (hex v ++ [0])) :=
      splice_append (by simp only [List.length_append, List.length_singleton]; omega)
    have hwritten := h.written (ascii "0x" ++ hex v) [0]
      (by simp only [List.length_append, List.length_singleton]; omega)
      (by rw [List.length_append]; omega)
    rw [List.append_assoc, List.length_append, htwo, Nat.add_comm 2] at hwritten
    rw [if_pos hfit, hstore, ok_bind, convertHex_eq (by omega), ok_bind, hjoin]
    exact hwritten
  · rw [if_neg hfit]
    exact h.unchanged

theorem Sound.insertDouble (h : Sound s) (htext : (text.length : Int) < kMaxNumericSize) :
    Yields (Adds s text) (fun _ => False) (insertDouble s text) := by
  unfold LogStream.insertDouble
  by_cases hfit : s.avail ≥ kMaxNumericSize
  · have hspace := h.avail_ge hfit
    have hsize := h.size
    unfold kMaxNumericSize at htext
    have hall : snprintf kMaxNumericSize.toNat text = text :=
      List.take_of_length_le (by simp only [kMaxNumericSize]; omega)
    have hlen : (text ++ [0]).length = text.length + 1 := List.length_append
    have hstore : store s.data_ s.cur_ (text ++ [0]) = .ok (splice s.data_ s.cur_ (text ++ [0])) :=
      store_of_le (by omega)
    have hwritten := h.written text [0] (by omega) (by omega)
    rw [if_pos hfit, hall, hstore, ok_bind]
    exact hwritten
  · rw [if_neg hfit]
    exact h.unchanged

variable {format}

theorem small : kSmallBuffer < 2 ^ 31 := by decide

/-- A call adds its complete text, or nothing. -/
theorem Sound.step (h : Sound s) (hformat : ∀ v, ((format v).length : Int) < kMaxNumericSize)
    {c : Call F} (hc : c.Valid) (hreset : c.isReset = false) :
    Yields (Adds s (c.text format)) (fun _ => False) (step format s c) := by
  cases c with
  | bool v =>
    cases v with
    | true => exact h.append small (ascii "1") (Nat.le_refl 1)
    | false => exact h.append small (ascii "0") (Nat.le_refl 1)
  | integer T v => exact h.formatInteger hc
  | pointer v => exact h.insertPointer hc
  | double v => exact h.insertDouble (hformat v)
  | char v => exact h.append small [v] (Nat.le_refl 1)
  | cString str =>
    cases str with
    | none => exact h.append small (ascii "(null)") (Nat.le_refl 6)
    | some str =>
      have happend := h.append small str (Nat.le_refl _)
      rw [List.take_length] at happend
      exact happend
  | string v =>
    have happend := h.append small v (Nat.le_refl _)
    rw [List.take_length] at happend
    exact happend
  | piece data len => exact h.appendInt small hc.1 hc.2.1 hc.2.2
  | append data len => exact h.appendInt small hc.1 hc.2.1 hc.2.2
  | resetBuffer => cases hreset

theorem Sound.reset (h : Sound s) : Sound s.reset ∧ s.reset.contents = [] :=
  ⟨⟨h.size, Nat.zero_lt_of_lt h.room⟩, rfl⟩

/-- What the buffer holds: the texts of some of the calls since the last reset, in order. -/
def Holds (format : F → Bytes) (calls : List (Call F)) (s : FixedBuffer kSmallBuffer) : Prop :=
  Sound s ∧ ∃ kept : List (Call F), kept.Sublist (sinceReset calls) ∧
    s.contents = kept.flatMap (Call.text format)

theorem Holds.step {calls : List (Call F)} (h : Holds format calls s)
    (hformat : ∀ v, ((format v).length : Int) < kMaxNumericSize) {c : Call F} (hc : c.Valid) :
    Yields (Holds format (calls ++ [c])) (fun _ => False) (step format s c) := by
  obtain ⟨hsound, kept, hkept, hcontents⟩ := h
  cases hreset : c.isReset with
  | true =>
    cases c
    case resetBuffer =>
      obtain ⟨hsound', hempty⟩ := hsound.reset
      refine ⟨hsound', [], List.nil_sublist _, hempty⟩
    all_goals cases hreset
  | false =>
    apply (hsound.step hformat hc hreset).mono
    intro s' hadds
    obtain ⟨hsound', hadds⟩ := hadds
    have hsince : sinceReset (calls ++ [c]) = sinceReset calls ++ [c] := by
      rw [sinceReset_append, hreset]
      rfl
    refine ⟨hsound', ?_⟩
    rw [hsince]
    cases hadds with
    | inl hadded =>
      refine ⟨kept ++ [c], hkept.append (List.Sublist.refl [c]), ?_⟩
      rw [hadded, hcontents, List.flatMap_append, List.flatMap_singleton]
    | inr hsame =>
      exact ⟨kept, hkept.trans (List.sublist_append_left _ _), hsame.trans hcontents⟩

theorem run_holds {data : Bytes} (hdata : data.length = kSmallBuffer)
    (hformat : ∀ v, ((format v).length : Int) < kMaxNumericSize) (calls : List (Call F))
    (hvalid : ∀ c ∈ calls, c.Valid) :
    Yields (Holds format calls) (fun _ => False) (run format ⟨data, 0⟩ calls) := by
  induction calls using List.reverseRecOn with
  | nil =>
    have hpos : 0 < kSmallBuffer := by decide
    exact ⟨⟨hdata, hpos⟩, [], List.nil_sublist _, rfl⟩
  | append_singleton calls c ih =>
    have hbefore := ih fun c hc => hvalid c (List.mem_append_left _ hc)
    rw [run, List.foldlM_append]
    refine hbefore.bind fun s hs => ?_
    have hstep := hs.step hformat (hvalid c (List.mem_append_right _ List.mem_cons_self))
    rw [List.foldlM_cons]
    refine hstep.bind fun s' hs' => ?_
    exact hs'

/-- The stream never writes outside its buffer, and every call is all or nothing. -/
theorem bounded_all_or_nothing {data : Bytes} (hdata : data.length = kSmallBuffer)
    (hformat : ∀ v, ((format v).length : Int) < kMaxNumericSize) (calls : List (Call F))
    (hvalid : ∀ c ∈ calls, c.Valid) :
    ∃ s, run format ⟨data, 0⟩ calls = .ok s ∧ s.data_.length = kSmallBuffer ∧
      s.cur_ < kSmallBuffer ∧
      (∃ kept : List (Call F), kept.Sublist (sinceReset calls) ∧
        s.contents = kept.flatMap (Call.text format)) ∧
      ∀ c : Call F, c.Valid → c.isReset = false → ∃ s', step format s c = .ok s' ∧
        (s'.contents = s.contents ++ c.text format ∨ s'.contents = s.contents) := by
  obtain ⟨s, hrun, hsound, hkept⟩ := (run_holds hdata hformat calls hvalid).returns
  refine ⟨s, hrun, hsound.size, hsound.room, hkept, ?_⟩
  intro c hc hreset
  obtain ⟨s', hstep, -, hadds⟩ := (hsound.step hformat hc hreset).returns
  exact ⟨s', hstep, hadds⟩

theorem bounded_all_or_nothing_sample :
    ∃ s, run (fun _ : Unit => ascii "0.5") ⟨List.replicate kSmallBuffer 0, 0⟩
        [.cString none, .integer .short (-7)] = .ok s ∧
      s.data_.length = kSmallBuffer ∧ s.cur_ < kSmallBuffer ∧
      (∃ kept : List (Call Unit), kept.Sublist (sinceReset [.cString none, .integer .short (-7)]) ∧
        s.contents = kept.flatMap (Call.text fun _ => ascii "0.5")) ∧
      ∀ c : Call Unit, c.Valid → c.isReset = false →
        ∃ s', step (fun _ => ascii "0.5") s c = .ok s' ∧
          (s'.contents = s.contents ++ c.text (fun _ => ascii "0.5") ∨
            s'.contents = s.contents) := by
  refine bounded_all_or_nothing List.length_replicate (fun _ => by decide) _ ?_
  intro c hc
  simp only [List.mem_cons, List.not_mem_nil, or_false] at hc
  rcases hc with rfl | rfl
  · trivial
  · exact ⟨by decide, by decide⟩

end Muduo.Base.LogStream
