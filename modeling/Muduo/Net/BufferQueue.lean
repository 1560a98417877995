import Muduo.Net.Buffer

namespace Muduo.Net
open Muduo.Lib

namespace Buffer

/-- The bytes in `[readerIndex_, writerIndex_)`. -/
def contents (b : Buffer) : Bytes := (b.buffer.drop b.readerIndex).take (b.writerIndex - b.readerIndex)

/-- `0 <= readerIndex_ <= writerIndex_ <= buffer_.size()`, with room for the cheap prepend. -/
structure Valid (b : Buffer) : Prop where
  order : b.readerIndex ≤ b.writerIndex
  fits : b.writerIndex ≤ b.buffer.length
  cheap : kCheapPrepend ≤ b.buffer.length
  small : b.buffer.length ≤ maxSize

/-- What an operation may come to: a valid buffer with contents `q`, or the vector's
`length_error`; never a failed assertion or an access outside `buffer_`. -/
def Holds (q : Bytes) (r : Except Fault Buffer) : Prop :=
  Yields (fun b => b.Valid ∧ b.contents = q) (· = Fault.lengthError) r

/-- Likewise, where the vector throws only if it would have to take more than `n` bytes. -/
def HoldsWithin (n : Nat) (q : Bytes) (r : Except Fault Buffer) : Prop :=
  Yields (fun b => b.Valid ∧ b.contents = q) (fun f => f = .lengthError ∧ maxSize < n) r

theorem HoldsWithin.holds {n : Nat} {q : Bytes} {r : Except Fault Buffer}
    (h : HoldsWithin n q r) : Holds q r := h.weaken fun _ hf => hf.1

variable {b : Buffer} {data : Bytes} {len : Nat}

theorem Valid.contents_length (h : b.Valid) :
    b.contents.length = b.writerIndex - b.readerIndex := by
  obtain ⟨ho, hf, _, _⟩ := h
  simp only [contents, List.length_take, List.length_drop]
  omega

theorem Valid.readable (h : b.Valid) : b.readableBytes = b.writerIndex - b.readerIndex := by
  obtain ⟨ho, hf, _, hs⟩ := h
  exact sizeSub_of_le ho (by have := maxSize_lt; omega)

theorem Valid.readable_length (h : b.Valid) : b.readableBytes = b.contents.length := by
  rw [h.readable, h.contents_length]

theorem Valid.writable (h : b.Valid) : b.writableBytes = b.buffer.length - b.writerIndex := by
  obtain ⟨_, hf, _, hs⟩ := h
  exact sizeSub_of_le hf (by have := maxSize_lt; omega)

theorem resize_length {v v' : Bytes} {n : Nat} (h : resize v n = .ok v') :
    v'.length = n ∧ n ≤ maxSize := by
  unfold resize at h
  split at h
  · cases h
    refine ⟨?_, by assumption⟩
    simp only [List.length_append, List.length_take, List.length_replicate]
    omega
  · cases h

theorem resize_error {v : Bytes} {n : Nat} {f : Fault} (h : resize v n = .error f) :
    f = .lengthError ∧ maxSize < n := by
  unfold resize at h
  split at h
  · cases h
  · cases h
    exact ⟨rfl, Nat.lt_of_not_le ‹_›⟩

/-- Growing a vector keeps every byte it had. -/
theorem resize_slice {v v' : Bytes} {n i k : Nat} (h : resize v n = .ok v') (hn : v.length ≤ n)
    (hk : i + k ≤ v.length) : (v'.drop i).take k = (v.drop i).take k := by
  unfold resize at h
  split at h
  · cases h
    rw [List.take_of_length_le hn, List.drop_append_of_le_length (by omega),
      List.take_append_of_le_length (by simp only [List.length_drop]; omega)]
  · cases h

theorem splice_length {v data : Bytes} {i : Nat} (h : i + data.length ≤ v.length) :
    (splice v i data).length = v.length := by
  simp only [splice, List.length_append, List.length_take, List.length_drop]
  omega

/-- Reading back the bytes just stored. -/
theorem splice_read {v data : Bytes} {i : Nat} (h : i ≤ v.length) :
    ((splice v i data).drop i).take data.length = data := by
  rw [splice, List.append_assoc, List.drop_append_of_le_length (by simp [h]),
    List.drop_eq_nil_of_le (List.length_take_le _ _)]
  simp

/-- A store at the end of a slice extends it. -/
theorem splice_extends {v data : Bytes} {r w : Nat} (hr : r ≤ w) (hw : w ≤ v.length) :
    ((splice v w data).drop r).take (w + data.length - r) = (v.drop r).take (w - r) ++ data := by
  have hl : ((v.take w).drop r).length = w - r := by
    simp only [List.length_drop, List.length_take]
    omega
  rw [splice, List.append_assoc, List.drop_append_of_le_length (by simp; omega),
    show w + data.length - r = ((v.take w).drop r).length + data.length by omega,
    List.take_length_add_append, List.take_left, List.drop_take]

/-- A store before a slice, ending where it begins, is prepended to it. -/
theorem splice_precedes {v data : Bytes} {r w : Nat} (hd : data.length ≤ r) (hr : r ≤ w)
    (hw : w ≤ v.length) :
    ((splice v (r - data.length) data).drop (r - data.length)).take (w - (r - data.length)) =
      data ++ (v.drop r).take (w - r) := by
  rw [splice, List.append_assoc, List.drop_append_of_le_length (by simp; omega),
    List.drop_eq_nil_of_le (List.length_take_le _ _), List.nil_append,
    show w - (r - data.length) = data.length + (w - r) by omega, List.take_length_add_append,
    show r - data.length + data.length = r by omega]

/-- Every index of a valid buffer is far below the word size. -/
theorem Valid.bounds (h : b.Valid) : b.readerIndex ≤ b.writerIndex ∧
    b.writerIndex ≤ b.buffer.length ∧ 8 ≤ b.buffer.length ∧ b.buffer.length < 2 ^ 63 := by
  obtain ⟨ho, hf, hc, hs⟩ := h
  exact ⟨ho, hf, hc, Nat.lt_of_le_of_lt hs maxSize_lt⟩

theorem new_yields {n : Nat} (hn : kCheapPrepend + n < 2 ^ 64) :
    Yields (fun b => b.Valid ∧ b.contents = [] ∧ b.writerIndex = kCheapPrepend)
      (fun f => f = Fault.lengthError ∧ maxSize < kCheapPrepend + n) (new n) := by
  have hs : sizeAdd kCheapPrepend n = 8 + n := sizeAdd_of_lt hn
  unfold new
  cases hr : resize [] (sizeAdd kCheapPrepend n) with
  | error f =>
    obtain ⟨hf, hm⟩ := resize_error hr
    exact ⟨hf, hs ▸ hm⟩
  | ok v =>
    obtain ⟨hl, hm⟩ := resize_length hr
    rw [hs] at hl hm
    have hv : Valid ⟨v, kCheapPrepend, kCheapPrepend⟩ :=
      ⟨Nat.le_refl _, by simp only [kCheapPrepend, hl]; omega,
        by simp only [kCheapPrepend, hl]; omega, hl ▸ hm⟩
    have h1 : readableBytes ⟨v, kCheapPrepend, kCheapPrepend⟩ = 0 := by
      rw [hv.readable, Nat.sub_self]
    have h2 : writableBytes ⟨v, kCheapPrepend, kCheapPrepend⟩ = n := by
      rw [hv.writable]
      simp only [hl, kCheapPrepend, Nat.add_sub_cancel_left]
    simp only [ok_bind, check_pos h1, check_pos h2, prependableBytes, check_pos]
    exact ⟨hv, by simp [contents], rfl⟩

theorem new_initial : new kInitialSize = .ok ⟨List.replicate 1032 0, 8, 8⟩ := by
  decide +kernel

theorem retrieveAll_valid (h : b.Valid) : b.retrieveAll.Valid :=
  ⟨Nat.le_refl _, h.cheap, h.cheap, h.small⟩

@[simp] theorem retrieveAll_contents : b.retrieveAll.contents = [] := by
  simp [retrieveAll, contents]

/-- Taking `len` bytes from the front, whether or not the indices are reset. -/
theorem retrieve_holds (h : b.Valid) (hl : len ≤ b.readableBytes) :
    ∃ b', b.retrieve len = .ok b' ∧ b'.Valid ∧ b'.contents = b.contents.drop len := by
  obtain ⟨ho, hf, hc, hs⟩ := h.bounds
  have hr := h.readable
  simp only [retrieve, check_pos hl, ok_bind]
  split
  · rename_i hlt
    have ha : sizeAdd b.readerIndex len = b.readerIndex + len := sizeAdd_of_lt (by omega)
    refine ⟨_, rfl, ⟨by simp only [ha]; omega, h.fits, h.cheap, h.small⟩, ?_⟩
    simp only [contents, ha, List.drop_take, List.drop_drop]
    congr 1
    omega
  · refine ⟨_, rfl, retrieveAll_valid h, ?_⟩
    have := h.readable_length
    rw [retrieveAll_contents, List.drop_eq_nil_of_le (by omega)]

theorem retrieveUntil_holds (h : b.Valid) (hl : len ≤ b.readableBytes) :
    ∃ b', b.retrieveUntil (b.peek + len) = .ok b' ∧ b'.Valid ∧
      b'.contents = b.contents.drop len := by
  obtain ⟨ho, hf, hc, hs⟩ := h.bounds
  have hr := h.readable
  have h1 : b.peek ≤ b.peek + len := Nat.le_add_right _ _
  have h2 : b.peek + len ≤ b.beginWrite := by
    unfold peek beginWrite
    omega
  simp only [retrieveUntil, check_pos h1, check_pos h2, ok_bind, Nat.add_sub_cancel_left]
  exact retrieve_holds h hl

/-- The string handed out is the front of the queue. -/
theorem retrieveAsString_holds (h : b.Valid) (hl : len ≤ b.readableBytes) :
    ∃ b', b.retrieveAsString len = .ok (b.contents.take len, b') ∧ b'.Valid ∧
      b'.contents = b.contents.drop len := by
  obtain ⟨b', he, hv, hc⟩ := retrieve_holds h hl
  obtain ⟨ho, hf, _, _⟩ := h.bounds
  have hr := h.readable
  refine ⟨b', ?_, hv, hc⟩
  simp only [retrieveAsString, check_pos hl, peek,
    load_of_le (show b.readerIndex + len ≤ b.buffer.length by omega), ok_bind, he, contents,
    List.take_take, show min len (b.writerIndex - b.readerIndex) = len by omega]

/-- What `ensureWritableBytes` asks of its argument: the two `size_t` sums do not wrap. -/
def Fits (b : Buffer) (len : Nat) : Prop :=
  len + kCheapPrepend < 2 ^ 64 ∧ b.writerIndex + len < 2 ^ 64

instance (b : Buffer) (len : Nat) : Decidable (b.Fits len) :=
  inferInstanceAs (Decidable (_ ∧ _))

/-- Room for `len` bytes, contents as before. -/
def Room (b : Buffer) (len : Nat) (r : Except Fault Buffer) : Prop :=
  Yields (fun b' => b'.Valid ∧ b'.contents = b.contents ∧ len ≤ b'.writableBytes)
    (· = Fault.lengthError) r

/-- The room comes without moving the contents up, and lacks only past the vector's maximal
size. -/
def Placed (b : Buffer) (len : Nat) (r : Except Fault Buffer) : Prop :=
  Yields (fun b' => (b'.Valid ∧ b'.contents = b.contents ∧ len ≤ b'.writableBytes) ∧
    b'.writerIndex ≤ b.writerIndex)
    (fun f => f = Fault.lengthError ∧ maxSize < b.writerIndex + len) r

theorem Placed.room {r : Except Fault Buffer} (h : Placed b len r) : Room b len r :=
  (h.mono fun _ h => h.1).weaken fun _ h => h.1

theorem grow_placed (h : b.Valid) (hw : b.writableBytes < len) :
    Placed b len (do
      let v ← resize b.buffer (b.writerIndex + len)
      .ok { b with buffer := v }) := by
  obtain ⟨ho, hf, hc, hs⟩ := h.bounds
  have hwr := h.writable
  cases hr : resize b.buffer (b.writerIndex + len) with
  | error f => exact resize_error hr
  | ok v =>
    obtain ⟨hl, hm⟩ := resize_length hr
    have hv : Valid { b with buffer := v } :=
      ⟨ho, by simp only [hl]; omega, by simp only [hl, kCheapPrepend]; omega, hl ▸ hm⟩
    have hslice : (v.drop b.readerIndex).take (b.writerIndex - b.readerIndex) = b.contents :=
      resize_slice hr (by omega) (by omega)
    rw [ok_bind]
    refine ⟨⟨hv, hslice, ?_⟩, Nat.le_refl _⟩
    rw [hv.writable]
    change len ≤ v.length - b.writerIndex
    omega

theorem compact_placed (h : b.Valid) (hr : kCheapPrepend < b.readerIndex)
    (hl : len + kCheapPrepend ≤ b.writableBytes + b.readerIndex) :
    ∃ v, store b.buffer kCheapPrepend b.contents = .ok v ∧
      Placed b len (.ok ⟨v, kCheapPrepend, kCheapPrepend + b.readableBytes⟩) := by
  obtain ⟨ho, hf, hc, hs⟩ := h.bounds
  have hw := h.writable
  have hrd := h.readable_length
  have hcl := h.contents_length
  have hfit : kCheapPrepend + b.contents.length ≤ b.buffer.length := by omega
  refine ⟨_, store_of_le hfit, ?_⟩
  have hsl := splice_length hfit
  have hv : Valid ⟨splice b.buffer kCheapPrepend b.contents, kCheapPrepend,
      kCheapPrepend + b.readableBytes⟩ :=
    ⟨Nat.le_add_right _ _, by rw [hsl, hrd]; exact hfit, by rw [hsl]; exact hc, hsl ▸ h.small⟩
  refine ⟨⟨hv, ?_, ?_⟩, ?_⟩
  · simp only [contents, hrd, Nat.add_sub_cancel_left]
    exact splice_read (by unfold kCheapPrepend; omega)
  · rw [hv.writable, hsl]
    change len ≤ b.buffer.length - (kCheapPrepend + b.readableBytes)
    omega
  · change kCheapPrepend + b.readableBytes ≤ b.writerIndex
    omega

/-- `makeSpace` is called when the tail is too short, and then either the vector grows or
the prepend area is large enough: no earlier `prepend` or `unwrite` can make the compaction
assertion fail. -/
theorem makeSpace_placed (h : b.Valid) (hw : b.writableBytes < len) (hlen : b.Fits len) :
    Placed b len (b.makeSpace len) := by
  obtain ⟨ho, hf, hc, hs⟩ := h.bounds
  have hwr := h.writable
  have hrd := h.readable
  have hp : b.prependableBytes = b.readerIndex := rfl
  unfold makeSpace
  split
  · rw [sizeAdd_of_lt hlen.2]
    exact grow_placed h hw
  · rename_i hkeep
    rw [sizeAdd_of_lt hlen.1, sizeAdd_of_lt (by omega), hp] at hkeep
    -- the tail alone is too short, so what is missing lies in front of the cheap prepend
    have hlt : kCheapPrepend < b.readerIndex := by omega
    obtain ⟨v, hst, hplaced⟩ := compact_placed h hlt
      (show len + kCheapPrepend ≤ b.writableBytes + b.readerIndex by omega)
    have hld : load b.buffer b.readerIndex (b.writerIndex - b.readerIndex) = .ok b.contents :=
      load_of_le (by omega)
    have hw8 : sizeAdd kCheapPrepend b.readableBytes = kCheapPrepend + b.readableBytes :=
      sizeAdd_of_lt (by unfold kCheapPrepend; omega)
    have hback : b.readableBytes =
        readableBytes ⟨v, kCheapPrepend, kCheapPrepend + b.readableBytes⟩ := by
      rw [hplaced.1.1.readable]
      exact (Nat.add_sub_cancel_left _ _).symm
    simp only [check_pos hlt, ok_bind, hld, hst, hw8, check_pos hback]
    exact hplaced

/-- The assertion at the end of `ensureWritableBytes` holds whenever it is reached. -/
theorem ensureWritableBytes_placed (h : b.Valid) (hlen : b.Fits len) :
    Placed b len (b.ensureWritableBytes len) := by
  unfold ensureWritableBytes
  split
  · rename_i hw
    refine (makeSpace_placed h hw hlen).bind fun b' hb => ?_
    simp only [check_pos hb.1.2.2, ok_bind]
    exact hb
  · rename_i hw
    simp only [ok_bind, check_pos (Nat.le_of_not_lt hw)]
    exact ⟨⟨h, rfl, Nat.le_of_not_lt hw⟩, Nat.le_refl _⟩

theorem ensureWritableBytes_room (h : b.Valid) (hlen : b.Fits len) :
    Room b len (b.ensureWritableBytes len) := (ensureWritableBytes_placed h hlen).room

/-- Storing behind the readable bytes and moving `writerIndex_` over them. -/
theorem hasWritten_holds (h : b.Valid) (hd : data.length ≤ b.writableBytes) :
    ∃ b', b.hasWritten data = .ok b' ∧ b'.Valid ∧ b'.contents = b.contents ++ data := by
  obtain ⟨ho, hf, hc, hs⟩ := h.bounds
  have hw := h.writable
  have hfit : b.writerIndex + data.length ≤ b.buffer.length := by omega
  have hsl := splice_length hfit
  have hv : Valid { b with buffer := splice b.buffer b.writerIndex data } :=
    ⟨ho, hsl ▸ hf, hsl ▸ hc, hsl ▸ h.small⟩
  have hroom : data.length ≤
      writableBytes { b with buffer := splice b.buffer b.writerIndex data } := by
    rw [hv.writable, hsl]
    exact hw ▸ hd
  have hadd : sizeAdd b.writerIndex data.length = b.writerIndex + data.length :=
    sizeAdd_of_lt (by omega)
  refine ⟨⟨splice b.buffer b.writerIndex data, b.readerIndex, b.writerIndex + data.length⟩, ?_,
    ⟨by simp only; omega, hsl ▸ hfit, hsl ▸ hc, hsl ▸ h.small⟩, splice_extends ho hf⟩
  simp only [hasWritten, advance, beginWrite, store_of_le hfit, ok_bind, check_pos hroom, hadd]

theorem append_eq (b : Buffer) (data : Bytes) :
    b.append data = b.ensureWritableBytes data.length >>= fun b => b.hasWritten data := rfl

theorem hasWritten_writer {b' : Buffer} (h : b.hasWritten data = .ok b') :
    b'.writerIndex = sizeAdd b.writerIndex data.length := by
  obtain ⟨v, _, h⟩ := bind_ok h
  obtain ⟨_, _, h⟩ := bind_ok h
  cases h
  rfl

/-- An `append` moves `writerIndex_` by what it appends, or less if it moves the contents down. -/
theorem append_placed (h : b.Valid) (hd : b.Fits data.length) :
    Yields (fun b' => (b'.Valid ∧ b'.contents = b.contents ++ data) ∧
      b'.writerIndex ≤ b.writerIndex + data.length)
      (fun f => f = Fault.lengthError ∧ maxSize < b.writerIndex + data.length) (b.append data) := by
  rw [append_eq]
  refine (ensureWritableBytes_placed h hd).bind fun b' hb => ?_
  obtain ⟨b'', he, hv, hc⟩ := hasWritten_holds hb.1.1 hb.1.2.2
  have hle := hb.2
  have hsum := hd.2
  have hw := hasWritten_writer he
  rw [sizeAdd_of_lt (by omega)] at hw
  rw [he]
  exact ⟨⟨hv, by rw [hc, hb.1.2.1]⟩, by omega⟩

theorem append_within (h : b.Valid) (hd : b.Fits data.length) :
    HoldsWithin (b.writerIndex + data.length) (b.contents ++ data) (b.append data) :=
  (append_placed h hd).mono fun _ h => h.1

theorem append_holds (h : b.Valid) (hd : b.Fits data.length) :
    Holds (b.contents ++ data) (b.append data) := (append_within h hd).holds

theorem unwrite_holds (h : b.Valid) (hl : len ≤ b.readableBytes) :
    ∃ b', b.unwrite len = .ok b' ∧ b'.Valid ∧
      b'.contents = b.contents.take (b.contents.length - len) := by
  obtain ⟨ho, hf, hc, hs⟩ := h.bounds
  have hr := h.readable
  have hcl := h.contents_length
  have hsub : sizeSub b.writerIndex len = b.writerIndex - len := sizeSub_of_le (by omega) (by omega)
  refine ⟨{ b with writerIndex := b.writerIndex - len }, ?_,
    ⟨by simp only; omega, by simp only; omega, h.cheap, h.small⟩, ?_⟩
  · simp only [unwrite, check_pos hl, ok_bind, hsub]
  · rw [hcl]
    simp only [contents, List.take_take]
    congr 1
    omega

theorem prepend_holds (h : b.Valid) (hd : data.length ≤ b.prependableBytes) :
    ∃ b', b.prepend data = .ok b' ∧ b'.Valid ∧ b'.contents = data ++ b.contents := by
  obtain ⟨ho, hf, hc, hs⟩ := h.bounds
  have hr : data.length ≤ b.readerIndex := hd
  have hsub : sizeSub b.readerIndex data.length = b.readerIndex - data.length :=
    sizeSub_of_le hr (by omega)
  have hfit : b.readerIndex - data.length + data.length ≤ b.buffer.length := by omega
  have hsl := splice_length hfit
  refine ⟨⟨splice b.buffer (b.readerIndex - data.length) data, b.readerIndex - data.length,
    b.writerIndex⟩, ?_, ⟨by simp only; omega, hsl ▸ hf, hsl ▸ hc, hsl ▸ h.small⟩,
    splice_precedes hr ho hf⟩
  simp only [prepend, check_pos hd, ok_bind, hsub, store_of_le hfit]

/-- The conversion to `int` and back is the identity on what fits an `int`. -/
theorem toStringPiece_eq (h : b.Valid) (hi : b.readableBytes < 2 ^ 31) :
    b.toStringPiece = .ok b.contents := by
  obtain ⟨ho, hf, _, _⟩ := h.bounds
  have hr := h.readable
  have hcast : Word.ofSigned 64 (Word.toSigned 32 b.readableBytes) = b.readableBytes := by
    rw [Word.toSigned_of_lt 32 (by omega), Word.ofSigned_natCast 64 (by omega)]
  rw [toStringPiece, hcast, hr]
  exact load_of_le (by unfold peek; omega)

/-- Anything that lies in memory can be appended. -/
theorem Valid.fits_of_le (h : b.Valid) (hl : len ≤ maxSize) : b.Fits len := by
  obtain ⟨_, hf, _, hs⟩ := h
  have := maxSize_lt
  unfold Fits kCheapPrepend
  omega

/-- The bytes behind `peek()`. -/
theorem load_contents (h : b.Valid) :
    load b.buffer b.peek b.readableBytes = .ok b.contents := by
  obtain ⟨ho, hf, _, _⟩ := h.bounds
  have hr := h.readable
  rw [hr]
  exact load_of_le (by unfold peek; omega)

theorem shrink_within {reserve : Nat} (h : b.Valid) (hi : b.readableBytes < 2 ^ 31)
    (hres : sizeAdd b.readableBytes reserve + kCheapPrepend < 2 ^ 64) :
    HoldsWithin (kCheapPrepend + sizeAdd b.readableBytes reserve) b.contents (b.shrink reserve) := by
  have hnew := new_yields (show kCheapPrepend + kInitialSize < 2 ^ 64 by decide)
  rw [new_initial] at hnew
  rw [shrink, new_initial, ok_bind]
  obtain ⟨hv, hc, hw⟩ := hnew
  have hof : Fits ⟨List.replicate 1032 0, 8, 8⟩ (sizeAdd b.readableBytes reserve) :=
    ⟨hres, by rw [hw, Nat.add_comm]; exact hres⟩
  refine (ensureWritableBytes_placed hv hof).bind fun o ho => ?_
  rw [toStringPiece_eq h hi, ok_bind]
  have hl := h.readable_length
  have hshort : b.contents.length ≤ maxSize := by
    unfold maxSize
    omega
  have happend := append_within ho.1.1 (ho.1.1.fits_of_le hshort)
  rw [ho.1.2.1, hc, List.nil_append] at happend
  apply happend.weaken
  intro f hf
  -- the bytes of an `int` length always have room behind the cheap prepend
  have hle := ho.2
  have hmax := hf.2
  unfold maxSize at hmax
  simp only at hle
  omega

/-- A buffer that was only written to since it was made: the room in front is still there. -/
structure Filling (b : Buffer) (q : Bytes) : Prop where
  valid : b.Valid
  contents : b.contents = q
  reader : b.readerIndex = kCheapPrepend

variable {q : Bytes}

theorem Filling.writer (h : b.Filling q) : b.writerIndex = kCheapPrepend + q.length := by
  have hlen := h.valid.contents_length
  obtain ⟨ho, _, _, _⟩ := h.valid.bounds
  rw [h.contents] at hlen
  have hr := h.reader
  omega

theorem new_filling : ∃ b, new kInitialSize = .ok b ∧ b.Filling [] := by
  have hnew := new_yields (show kCheapPrepend + kInitialSize < 2 ^ 64 by decide)
  rw [new_initial] at hnew
  exact ⟨_, new_initial, hnew.1, hnew.2.1, rfl⟩

/-- Nothing is compacted in such a buffer, and the vector throws only at its maximal size. -/
theorem Filling.ensureWritableBytes (h : b.Filling q)
    (hl : kCheapPrepend + q.length + len ≤ maxSize) :
    ∃ b', b.ensureWritableBytes len = .ok b' ∧ b'.Filling q ∧ len ≤ b'.writableBytes := by
  have hmax := maxSize_lt
  have hw := h.writer
  unfold Buffer.ensureWritableBytes
  split
  · rename_i hlt
    obtain ⟨ho, hf, hc, hs⟩ := h.valid.bounds
    have hwr := h.valid.writable
    have hp : b.prependableBytes = kCheapPrepend := h.reader
    have hcheap : kCheapPrepend = 8 := rfl
    have hsum : sizeAdd b.writerIndex len = b.writerIndex + len := sizeAdd_of_lt (by omega)
    have hgrow : sizeAdd b.writableBytes b.prependableBytes < sizeAdd len kCheapPrepend := by
      rw [hp, sizeAdd_of_lt (by omega), sizeAdd_of_lt (by omega)]
      omega
    have hroom := (grow_placed h.valid hlt).room
    rw [resize, if_pos (by omega), ok_bind] at hroom
    obtain ⟨hv, hcon, hle⟩ := hroom
    rw [makeSpace, if_pos hgrow, hsum, resize, if_pos (by omega), ok_bind, ok_bind]
    simp only [check_pos hle, ok_bind]
    exact ⟨_, rfl, ⟨hv, hcon.trans h.contents, h.reader⟩, hle⟩
  · rename_i hle
    simp only [ok_bind, check_pos (Nat.le_of_not_lt hle)]
    exact ⟨b, rfl, h, Nat.le_of_not_lt hle⟩

theorem Filling.hasWritten (h : b.Filling q) (hd : data.length ≤ b.writableBytes) :
    ∃ b', b.hasWritten data = .ok b' ∧ b'.Filling (q ++ data) := by
  obtain ⟨b', hb, hv, hc⟩ := hasWritten_holds h.valid hd
  refine ⟨b', hb, hv, by rw [hc, h.contents], ?_⟩
  obtain ⟨v, _, hb⟩ := bind_ok hb
  obtain ⟨_, _, hb⟩ := bind_ok hb
  cases hb
  exact h.reader

theorem Filling.append (h : b.Filling q) (data : Bytes)
    (hl : kCheapPrepend + q.length + data.length ≤ maxSize) :
    ∃ b', b.append data = .ok b' ∧ b'.Filling (q ++ data) := by
  obtain ⟨b₁, hb₁, h₁, hroom⟩ := h.ensureWritableBytes hl
  obtain ⟨b₂, hb₂, h₂⟩ := h₁.hasWritten hroom
  exact ⟨b₂, by rw [append_eq, hb₁, ok_bind, hb₂], h₂⟩

theorem Filling.retrieveAll (h : b.Filling q) : b.retrieveAll.Filling [] :=
  ⟨retrieveAll_valid h.valid, retrieveAll_contents, rfl⟩

/-- A read that fits behind what is there. -/
theorem Filling.readFd (h : b.Filling q) (hd : data.length ≤ b.writableBytes) :
    ∃ b', b.readFd (some data) = .ok b' ∧ b'.Filling (q ++ data) ∧
      b'.buffer.length = b.buffer.length := by
  obtain ⟨ho, hf, hc, hs⟩ := h.valid.bounds
  have hw := h.valid.writable
  have hfit : b.writerIndex + data.length ≤ b.buffer.length := by omega
  have hsl := splice_length hfit
  have hadd : sizeAdd b.writerIndex data.length = b.writerIndex + data.length :=
    sizeAdd_of_lt (by omega)
  refine ⟨⟨splice b.buffer b.writerIndex data, b.readerIndex, b.writerIndex + data.length⟩, ?_,
    ⟨⟨by simp only; omega, hsl ▸ hfit, hsl ▸ hc, hsl ▸ h.valid.small⟩, ?_, h.reader⟩, hsl⟩
  · simp only [Buffer.readFd, List.take_of_length_le hd, store_of_le hfit, ok_bind, if_pos hd, hadd]
  · rw [← h.contents]
    exact splice_extends ho hf

/-- However the bytes fall on the two parts, exactly they are appended. -/
theorem readFd_within (h : b.Valid) (hd : data.length ≤ b.iovBytes) :
    HoldsWithin (b.writerIndex + data.length) (b.contents ++ data) (b.readFd (some data)) := by
  obtain ⟨ho, hf, hc, hs⟩ := h.bounds
  have hw := h.writable
  have htl : (data.take b.writableBytes).length ≤ b.writableBytes := List.length_take_le _ _
  have hfit : b.writerIndex + (data.take b.writableBytes).length ≤ b.buffer.length := by omega
  have hsl := splice_length hfit
  simp only [readFd, store_of_le hfit, ok_bind]
  split
  · rename_i hle
    have hadd : sizeAdd b.writerIndex data.length = b.writerIndex + data.length :=
      sizeAdd_of_lt (by omega)
    rw [List.take_of_length_le hle] at hsl hfit ⊢
    rw [hadd]
    exact ⟨⟨by simp only; omega, hsl ▸ hfit, hsl ▸ hc, hsl ▸ h.small⟩, splice_extends ho hf⟩
  · rename_i hgt
    let c : Buffer := ⟨splice b.buffer b.writerIndex (data.take b.writableBytes), b.readerIndex,
      (splice b.buffer b.writerIndex (data.take b.writableBytes)).length⟩
    have hlen : (data.take b.writableBytes).length = b.writableBytes := by
      rw [List.length_take]
      omega
    have hv : c.Valid := ⟨by simp only [c, hsl]; omega, Nat.le_refl _, hsl ▸ hc, hsl ▸ h.small⟩
    have hcc : c.contents = b.contents ++ data.take b.writableBytes := by
      have he : c.writerIndex - c.readerIndex =
          b.writerIndex + (data.take b.writableBytes).length - b.readerIndex := by
        simp only [c, hsl]
        omega
      rw [contents, he]
      exact splice_extends ho hf
    -- what went to `extrabuf` is short, so `append` cannot wrap
    have hshort : (data.drop b.writableBytes).length ≤ maxSize := by
      rw [List.length_drop]
      unfold iovBytes extrabufSize at hd
      unfold maxSize
      split at hd <;> omega
    have happend := append_within hv (hv.fits_of_le hshort)
    rw [hcc, List.append_assoc, List.take_append_drop] at happend
    have hsum : c.writerIndex + (data.drop b.writableBytes).length =
        b.writerIndex + data.length := by
      rw [List.length_drop]
      simp only [c, hsl]
      omega
    rwa [hsum] at happend

theorem readFd_holds (h : b.Valid) (hd : data.length ≤ b.iovBytes) :
    Holds (b.contents ++ data) (b.readFd (some data)) := (readFd_within h hd).holds

end Buffer

end Muduo.Net
