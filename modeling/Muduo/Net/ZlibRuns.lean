import Muduo.Net.ZlibStream

namespace Muduo.Net
open Muduo.Lib

namespace Buffer

variable {b b' : Buffer} {len : Nat}

theorem store_length {v v' data : Bytes} {i : Nat} (h : store v i data = .ok v') :
    v'.length = v.length := by
  unfold store at h
  split at h
  · cases h
    exact splice_length ‹_›
  · cases h

/-- Growing leaves behind the contents what was asked for; moving them to the front takes from
one side what it gives to the other. -/
theorem makeSpace_free (h : b.Valid) (hroom : b.writableBytes < len) (hlen : b.Fits len)
    (he : b.makeSpace len = .ok b') :
    b'.writableBytes + max b'.readerIndex kCheapPrepend ≤
      max (b.writableBytes + b.readerIndex) (2 * len + kCheapPrepend) := by
  obtain ⟨ho, hf, hc, hs⟩ := h.bounds
  have hw := h.writable
  have hrd := h.readable
  have hplaced := makeSpace_placed h hroom hlen
  rw [he] at hplaced
  have hw' := hplaced.1.1.writable
  unfold makeSpace at he
  split at he
  · rename_i hgrow
    obtain ⟨v, hv, he⟩ := bind_ok he
    cases he
    have hl := (resize_length hv).1
    rw [sizeAdd_of_lt hlen.2] at hl
    have hfree : sizeAdd b.writableBytes b.prependableBytes = b.writableBytes + b.readerIndex :=
      sizeAdd_of_lt (by change b.writableBytes + b.readerIndex < 2 ^ 64; omega)
    rw [hfree, sizeAdd_of_lt hlen.1] at hgrow
    apply le_trans _ (Nat.le_max_right _ _)
    rw [hw']
    change v.length - b.writerIndex + max b.readerIndex kCheapPrepend ≤ _
    omega
  · obtain ⟨_, _, he⟩ := bind_ok he
    obtain ⟨data, _, he⟩ := bind_ok he
    obtain ⟨v, hv, he⟩ := bind_ok he
    obtain ⟨_, _, he⟩ := bind_ok he
    cases he
    have hl := store_length hv
    have hsum : sizeAdd kCheapPrepend b.readableBytes = kCheapPrepend + b.readableBytes :=
      sizeAdd_of_lt (by unfold kCheapPrepend; omega)
    have hfit : sizeAdd kCheapPrepend b.readableBytes ≤ v.length := hplaced.1.1.fits
    rw [hsum] at hfit
    apply le_trans _ (Nat.le_max_left _ _)
    rw [hw']
    change v.length - sizeAdd kCheapPrepend b.readableBytes + max kCheapPrepend kCheapPrepend ≤ _
    rw [hsum, Nat.max_self]
    omega

/-- An `unsigned int` holds the room behind the contents, also when they are moved to the front,
which happens only where less than `len` bytes are free behind them. -/
def Counted (b : Buffer) (len : Nat) : Prop :=
  b.writableBytes < 2 ^ 32 ∧
    min b.writableBytes (len - 1) + b.readerIndex < 2 ^ 32 + kCheapPrepend

instance (b : Buffer) (len : Nat) : Decidable (b.Counted len) :=
  inferInstanceAs (Decidable (_ ∧ _))

theorem Counted.shrinks {most : Nat} (h : b.Counted most)
    (hw : b'.writableBytes ≤ b.writableBytes) (hr : b'.readerIndex = b.readerIndex) :
    b'.Counted most := by
  obtain ⟨hroom, hfree⟩ := h
  refine ⟨by omega, ?_⟩
  rw [hr]
  omega

theorem ensureWritableBytes_counted {most : Nat} (h : b.Valid) (hcounted : b.Counted most)
    (hlen : len ≤ most) (hmost : most < 2 ^ 30) :
    Yields (fun b' => (b'.Valid ∧ b'.contents = b.contents ∧ len ≤ b'.writableBytes) ∧
      b'.Counted most) (· = Fault.lengthError) (b.ensureWritableBytes len) := by
  have hfits : b.Fits len := h.fits_of_le (by unfold maxSize; omega)
  have hyields := ensureWritableBytes_room h hfits
  cases he : b.ensureWritableBytes len with
  | error f =>
    rw [he] at hyields
    exact hyields
  | ok b' =>
    rw [he] at hyields
    refine ⟨hyields, ?_⟩
    unfold ensureWritableBytes at he
    split at he
    · rename_i hroom
      obtain ⟨b₁, hb₁, he⟩ := bind_ok he
      obtain ⟨_, _, he⟩ := bind_ok he
      cases he
      have hfree := makeSpace_free h hroom hfits hb₁
      obtain ⟨hold, hmoved⟩ := hcounted
      have hcheap : kCheapPrepend = 8 := rfl
      exact ⟨by omega, by omega⟩
    · obtain ⟨b₁, hb₁, he⟩ := bind_ok he
      cases hb₁
      obtain ⟨_, _, he⟩ := bind_ok he
      cases he
      exact hcounted

theorem hasWritten_free {data : Bytes} (h : b.Valid) (hd : data.length ≤ b.writableBytes)
    (he : b.hasWritten data = .ok b') :
    b'.writableBytes ≤ b.writableBytes ∧ b'.readerIndex = b.readerIndex := by
  obtain ⟨ho, hf, hc, hs⟩ := h.bounds
  have hw := h.writable
  obtain ⟨b'', he'', hv, -⟩ := hasWritten_holds h hd
  cases he.symm.trans he''
  have hwriter := hasWritten_writer he
  rw [sizeAdd_of_lt (by omega)] at hwriter
  have hw' := hv.writable
  obtain ⟨v, hstore, he⟩ := bind_ok he
  obtain ⟨_, _, he⟩ := bind_ok he
  cases he
  have hl := store_length hstore
  refine ⟨?_, rfl⟩
  rw [hw', hwriter]
  change v.length - (b.writerIndex + data.length) ≤ _
  omega

end Buffer

variable {α β : Type} {f : Fault}

theorem yields_ofFault {ok : α → Prop} {r : Except Fault α} (h : Yields ok (· = f) r) :
    Yields ok (· = Halt.fault f) (ofFault r) := by
  cases r with
  | ok a => exact h
  | error g => exact congrArg Halt.fault h

namespace ZlibOutputStream

variable {Z : Type} {zlib : Zlib Z} {inflate : Bytes → Option Bytes} {s s' : ZlibOutputStream Z}
  {base y c text : Bytes} {b : Bool} {n : Nat}

theorem uInt_of_lt {n : Nat} (h : n < 2 ^ 32) : uInt n = n := by
  rw [uInt, Word.ofSigned_toSigned, Nat.mod_eq_of_lt h]

/-- The room that is asked for at most: it is doubled as long as it is smaller. -/
def maxBufferSize : Nat := 65536

/-- The output has its room counted right, whatever is asked for. -/
structure Roomy (s : ZlibOutputStream Z) : Prop where
  valid : s.output.Valid
  counted : s.output.Counted maxBufferSize
  size : ∃ k ≤ 6, s.bufferSize = 1024 * 2 ^ k

theorem Roomy.bufferSize (h : s.Roomy) : 0 < s.bufferSize ∧ s.bufferSize ≤ maxBufferSize := by
  obtain ⟨k, hk, hsize⟩ := h.size
  have hpow : 2 ^ k ≤ 2 ^ 6 := Nat.pow_le_pow_right Nat.two_pos hk
  have hpos : 0 < 2 ^ k := Nat.two_pow_pos k
  rw [hsize, maxBufferSize]
  omega

/-- What comes of a call of `deflate` with room for `n` bytes. -/
structure Compressed (zlib : Zlib Z) (flush : Flush) (s : ZlibOutputStream Z) (n : Nat)
    (s' : ZlibOutputStream Z) : Prop where
  room : 0 < n
  zerror : s'.zerror = (zlib.deflate s.state flush s.available n).code
  roomy : s'.Roomy
  output : s'.output.contents =
    s.output.contents ++ (zlib.deflate s.state flush s.available n).output
  state : s'.state = (zlib.deflate s.state flush s.available n).state
  next : s'.next_in = s.next_in.map fun p =>
    { p with offset := p.offset + (zlib.deflate s.state flush s.available n).taken }
  avail : s'.avail_in = s.avail_in - (zlib.deflate s.state flush s.available n).taken
  taken : s'.taken =
    s.taken ++ s.available.take (zlib.deflate s.state flush s.available n).taken
  given : s'.given = s.given

theorem compress_yields (hd : zlib.Documented inflate) (h : s.Roomy) (flush : Flush) :
    Yields (fun r => ∃ n, Compressed zlib flush s n { r.2 with zerror := r.1 })
      (· = Halt.fault .lengthError) (compress zlib s flush) := by
  have hsize := h.bufferSize
  have hensure := Buffer.ensureWritableBytes_counted h.valid h.counted hsize.2 (by decide)
  refine (yields_ofFault hensure).bind ?_
  intro out hout
  obtain ⟨⟨hv, hc, hroom⟩, hcounted⟩ := hout
  have hlt := hcounted.1
  have huint : uInt out.writableBytes = out.writableBytes := uInt_of_lt hlt
  rw [huint]
  have hle := hd.fits s.state flush s.available out.writableBytes
  obtain ⟨b, hb, hvb, hcb⟩ := Buffer.hasWritten_holds hv hle
  have hfree' := Buffer.hasWritten_free hv hle hb
  obtain ⟨v, hstore, hadvance⟩ := bind_ok hb
  generalize hdeflated : zlib.deflate s.state flush s.available out.writableBytes = d at *
  have hall : sizeSub out.writableBytes (out.writableBytes - d.output.length) = d.output.length := by
    rw [sizeSub_of_le (by omega) (by omega)]
    omega
  dsimp only
  rw [hdeflated, hstore, ofFault, ok_bind, hall, hadvance, ofFault, ok_bind]
  subst hdeflated
  refine ⟨out.writableBytes, by omega, rfl, ⟨hvb, ?_, ?_⟩, ?_, rfl, rfl, rfl, rfl, rfl⟩
  · exact hcounted.shrinks hfree'.1 hfree'.2
  · obtain ⟨k, hk, hsize⟩ := h.size
    dsimp only
    split
    · rename_i hgrow
      have hlast : k ≠ 6 := by
        rintro rfl
        rw [hsize] at hgrow
        omega
      refine ⟨k + 1, by omega, ?_⟩
      rw [hsize, pow_succ, Nat.mul_assoc]
    · exact ⟨k, hk, hsize⟩
  · rw [← hc]
    exact hcb

/-- What was put out behind the first contents of the output, of what was taken. -/
structure Running (zlib : Zlib Z) (base : Bytes) (b : Bool) (s : ZlibOutputStream Z) (y : Bytes) :
    Prop where
  roomy : s.Roomy
  output : s.output.contents = base ++ y
  streamed : zlib.Streamed b s.state s.taken y

theorem Running.bounded (hd : zlib.Documented inflate) (h : Running zlib base b s y) :
    y.length ≤ zlib.outputBound (s.taken.length + s.avail_in) :=
  (hd.bounded h.streamed).trans (hd.grows (Nat.le_add_right _ _))

theorem Running.write (hd : zlib.Documented inflate) (h : Running zlib base false s y)
    (hin : s.available ≠ []) (hc : Compressed zlib .noFlush s n s') :
    s'.zerror = Z_OK ∧ ∃ out, Running zlib base false s' (y ++ out) ∧
      (s'.avail_in = s.avail_in - s.available.length ∨ 0 < out.length) := by
  have hok := hd.progress h.streamed hin hc.room
  have hstreamed := Zlib.Streamed.write h.streamed hin hc.room hok
  refine ⟨hc.zerror.trans hok, (zlib.deflate s.state .noFlush s.available n).output,
    ⟨hc.roomy, ?_, ?_⟩, ?_⟩
  · rw [hc.output, h.output, List.append_assoc]
  · rw [hc.state, hc.taken]
    exact hstreamed
  · rcases hd.fills h.streamed hin hc.room with hall | hfull
    · left
      rw [hc.avail, hall]
    · right
      rw [hfull]
      exact hc.room

/-- A `StringPiece` on its way: so much of its text was taken. -/
structure Feeding (c text : Bytes) (s : ZlibOutputStream Z) : Prop where
  zerror : s.zerror = Z_OK
  avail : s.avail_in ≤ text.length
  next : s.next_in = some ⟨text, text.length - s.avail_in⟩
  taken : s.taken = c ++ text.take (text.length - s.avail_in)

theorem Feeding.start {buf : StringPiece} (hok : s.zerror = Z_OK) (hp : buf.ptr = some text) :
    Feeding s.taken text { s with next_in := buf.data, avail_in := buf.size } := by
  have hdata : buf.data = some ⟨text, 0⟩ := by rw [StringPiece.data, hp]; rfl
  have hsize : buf.size = text.length := by rw [StringPiece.size, StringPiece.bytes, hp]; rfl
  refine ⟨hok, Nat.le_of_eq hsize, ?_, ?_⟩
  · change buf.data = some ⟨text, text.length - buf.size⟩
    rw [hdata, hsize, Nat.sub_self]
  · change s.taken = s.taken ++ text.take (text.length - buf.size)
    rw [hsize, Nat.sub_self, List.take_zero, List.append_nil]

theorem Feeding.done (h : Feeding c text s) (hdone : s.avail_in = 0) :
    s.next_in = some ⟨text, text.length⟩ ∧ s.taken = c ++ text := by
  have hend := h.next
  have htaken := h.taken
  rw [hdone, Nat.sub_zero] at hend htaken
  rw [List.take_length] at htaken
  exact ⟨hend, htaken⟩

theorem Feeding.available_eq (h : Feeding c text s) :
    s.available = text.drop (text.length - s.avail_in) ∧ s.available.length = s.avail_in := by
  have havail := h.avail
  have hall : s.available = (text.drop (text.length - s.avail_in)).take s.avail_in := by
    rw [available, h.next]
  rw [List.take_of_length_le (by rw [List.length_drop]; omega)] at hall
  refine ⟨hall, ?_⟩
  rw [hall, List.length_drop]
  omega

theorem Feeding.compressed (hd : zlib.Documented inflate) (h : Feeding c text s)
    (hc : Compressed zlib .noFlush s n s') (hok : s'.zerror = Z_OK) : Feeding c text s' := by
  have havail := h.avail
  obtain ⟨havailable, hlen⟩ := h.available_eq
  have hle := hd.takes s.state .noFlush s.available n
  have hleft := hc.avail
  have htaken := hc.taken
  have hnext := hc.next
  generalize (zlib.deflate s.state .noFlush s.available n).taken = t at *
  have hpos : text.length - s'.avail_in = text.length - s.avail_in + t := by omega
  refine ⟨hok, by omega, ?_, ?_⟩
  · rw [hnext, h.next, hpos]
    rfl
  · rw [htaken, h.taken, havailable, hpos, List.append_assoc, List.take_add]

theorem compressAll_idle {fuel : Nat} (h : s.avail_in = 0) (hfuel : 0 < fuel) :
    compressAll zlib fuel s = .ok s := by
  obtain ⟨fuel, rfl⟩ : ∃ m, fuel = m + 1 := ⟨fuel - 1, by omega⟩
  rw [compressAll, if_neg fun hand => by omega]

/-- The loop takes the whole text: each round that leaves some of it fills the output. -/
theorem compressAll_yields (hd : zlib.Documented inflate) (fuel : Nat)
    (h : Running zlib base false s y) (hf : Feeding c text s)
    (hfuel : s.avail_in = 0 ∧ 0 < fuel ∨
      zlib.outputBound (s.taken.length + s.avail_in) + 2 ≤ y.length + fuel) :
    Yields (fun s' => (∃ y', Running zlib base false s' y') ∧ Feeding c text s' ∧
      s'.avail_in = 0 ∧ s'.given = s.given) (· = Halt.fault .lengthError)
      (compressAll zlib fuel s) := by
  induction fuel generalizing s y with
  | zero =>
    have hbound := h.bounded hd
    omega
  | succ fuel ih =>
    rw [compressAll]
    by_cases hmore : 0 < s.avail_in
    · rw [if_pos ⟨hmore, hf.zerror⟩]
      refine (compress_yields hd h.roomy .noFlush).bind fun r hr => ?_
      obtain ⟨n, hc⟩ := hr
      obtain ⟨havailable, hlen⟩ := hf.available_eq
      have hin : s.available ≠ [] := by
        intro hnone
        rw [hnone] at hlen
        exact absurd hlen (by simp; omega)
      obtain ⟨hok, out, hrun, hout⟩ := h.write hd hin hc
      have hf' := hf.compressed hd hc hok
      have hbound := h.bounded hd
      refine (ih hrun hf' ?_).mono fun t ht => ⟨ht.1, ht.2.1, ht.2.2.1, ht.2.2.2.trans hc.given⟩
      rcases hout with hall | hfull
      · left
        omega
      · right
        have hsum : (s.taken ++ s.available.take
            (zlib.deflate s.state .noFlush s.available n).taken).length +
            (s.avail_in - (zlib.deflate s.state .noFlush s.available n).taken) =
            s.taken.length + s.avail_in := by
          have hle := hd.takes s.state .noFlush s.available n
          rw [List.length_append, List.length_take]
          omega
        rw [hc.taken, hc.avail, hsum, List.length_append]
        omega
    · rw [if_neg fun hand => hmore hand.1]
      exact ⟨⟨y, h⟩, hf, by omega, rfl⟩

theorem Running.finish (hd : zlib.Documented inflate) (h : Running zlib base b s y)
    (hnone : s.available = []) (hc : Compressed zlib .finish s n s') :
    s'.available = [] ∧ s'.taken = s.taken ∧
      ((s'.zerror = Z_STREAM_END ∧ ∃ text, s'.output.contents = base ++ text ∧
          inflate text = some s'.taken) ∨
        (s'.zerror = Z_OK ∧ ∃ out, Running zlib base true s' (y ++ out) ∧ 0 < out.length)) := by
  have hnext := hc.next
  have hleft := hc.avail
  have htaken := hc.taken
  have hzerror := hc.zerror
  have hstate := hc.state
  have hout := hc.output
  rw [hnone] at hnext hleft htaken hzerror hstate hout
  rw [List.take_nil, List.append_nil] at htaken
  rw [h.output, List.append_assoc] at hout
  have hnothing : (zlib.deflate s.state .finish [] n).taken = 0 :=
    Nat.le_zero.mp (hd.takes s.state .finish [] n)
  refine ⟨?_, htaken, ?_⟩
  · rw [hnothing, Nat.sub_zero] at hleft
    rw [available, hleft, hnext]
    rw [available] at hnone
    cases hp : s.next_in with
    | none => rfl
    | some p =>
      rw [hp] at hnone
      simpa [hnothing] using hnone
  · rcases hd.finishes h.streamed hc.room with hend | ⟨hok, hfull⟩
    · left
      refine ⟨hzerror.trans hend, _, hout, ?_⟩
      rw [htaken]
      exact hd.ends h.streamed hc.room hend
    · right
      refine ⟨hzerror.trans hok, (zlib.deflate s.state .finish [] n).output,
        ⟨hc.roomy, hout, ?_⟩, ?_⟩
      · rw [hstate, htaken]
        exact h.streamed.finish hc.room hok
      · rw [hfull]
        exact hc.room

theorem finishAll_yields (hd : zlib.Documented inflate) (fuel : Nat)
    (h : Running zlib base b s y) (hok : s.zerror = Z_OK) (hnone : s.available = [])
    (hfuel : zlib.outputBound s.taken.length + 2 ≤ y.length + fuel) :
    Yields (fun s' => (∃ text, s'.output.contents = base ++ text ∧ inflate text = some s'.taken) ∧
      s'.taken = s.taken ∧ s'.given = s.given) (· = Halt.fault .lengthError)
      (finishAll zlib fuel s) := by
  induction fuel generalizing b s y with
  | zero =>
    have hbound := hd.bounded h.streamed
    omega
  | succ fuel ih =>
    have hbound := hd.bounded h.streamed
    rw [finishAll, if_pos hok]
    refine (compress_yields hd h.roomy .finish).bind fun r hr => ?_
    obtain ⟨n, hc⟩ := hr
    obtain ⟨hnone', htaken, hend | hmore⟩ := h.finish hd hnone hc
    · -- one more round finds that the stream has ended
      obtain ⟨fuel, rfl⟩ : ∃ m, fuel = m + 1 := ⟨fuel - 1, by omega⟩
      have hstop : ({ r.2 with zerror := r.1 } : ZlibOutputStream Z).zerror ≠ Z_OK := by
        rw [hend.1]
        decide
      change Yields _ _ (finishAll zlib (fuel + 1) { r.2 with zerror := r.1 })
      rw [finishAll, if_neg hstop]
      exact ⟨hend.2, htaken, hc.given⟩
    · obtain ⟨hok', out, hrun, hout⟩ := hmore
      have hfuel' : zlib.outputBound ({ r.2 with zerror := r.1 } : ZlibOutputStream Z).taken.length +
          2 ≤ (y ++ out).length + fuel := by
        rw [htaken, List.length_append]
        omega
      exact (ih hrun hok' hnone' hfuel').mono fun t ht =>
        ⟨ht.1, ht.2.1.trans htaken, ht.2.2.trans hc.given⟩

/-- The stream between two calls: it has taken what it was given. -/
structure Sound (zlib : Zlib Z) (base : Bytes) (s : ZlibOutputStream Z) : Prop where
  running : ∃ y, Running zlib base false s y
  zerror : s.zerror = Z_OK
  taken : s.taken = s.given
  idle : s.next_in = none → s.avail_in = 0

/-- No `StringPiece` after a `Buffer`, and no `Buffer` whose size does not fit an
`unsigned int`. -/
def Fits (s : ZlibOutputStream Z) : Call → Prop
  | .piece _ => s.next_in = none
  | .buffer input => input.readableBytes < 2 ^ 32

theorem Running.attach (h : Running zlib base b s y) (p : Option Pointer) (avail : Nat) :
    Running zlib base b { s with next_in := p, avail_in := avail } y :=
  ⟨⟨h.roomy.valid, h.roomy.counted, h.roomy.size⟩, h.output, h.streamed⟩

/-- The loop of `write(StringPiece)` comes to the end of the text. -/
theorem Sound.feed (hd : zlib.Documented inflate) (h : Sound zlib base s) (buf : StringPiece) :
    Yields (fun t => (∃ y, Running zlib base false t y) ∧ t.zerror = Z_OK ∧
      t.next_in = buf.stop ∧ t.avail_in = 0 ∧ t.taken = s.taken ++ buf.bytes ∧ t.given = s.given)
      (· = Halt.fault .lengthError)
      (compressAll zlib (rounds zlib { s with next_in := buf.data, avail_in := buf.size })
        { s with next_in := buf.data, avail_in := buf.size }) := by
  obtain ⟨y, hrun⟩ := h.running
  cases hp : buf.ptr with
  | none =>
    have hbytes : buf.bytes = [] := by rw [StringPiece.bytes, hp]; rfl
    have hdata : buf.data = none := by rw [StringPiece.data, hp]; rfl
    have hstop : buf.stop = none := by rw [StringPiece.stop, hp]; rfl
    have hsize : buf.size = 0 := by rw [StringPiece.size, hbytes]; rfl
    have hidle : compressAll zlib
        (rounds zlib { s with next_in := buf.data, avail_in := buf.size })
        { s with next_in := buf.data, avail_in := buf.size } =
        .ok { s with next_in := buf.data, avail_in := buf.size } :=
      compressAll_idle hsize (Nat.succ_pos _)
    rw [hidle, hbytes, List.append_nil]
    exact ⟨⟨y, hrun.attach _ _⟩, h.zerror, hdata.trans hstop.symm, hsize, rfl, rfl⟩
  | some text =>
    have hbytes : buf.bytes = text := by rw [StringPiece.bytes, hp]; rfl
    have hstop : buf.stop = some ⟨text, text.length⟩ := by rw [StringPiece.stop, hp]; rfl
    refine (compressAll_yields hd _ (hrun.attach _ _) (.start h.zerror hp)
      (Or.inr (by unfold rounds; omega))).mono fun t ht => ?_
    obtain ⟨hrun', hfeed, hdone, hgiven⟩ := ht
    obtain ⟨hend, htaken⟩ := hfeed.done hdone
    rw [hbytes]
    exact ⟨hrun', hfeed.zerror, hend.trans hstop.symm, hdone, htaken, hgiven⟩

theorem Sound.write (hd : zlib.Documented inflate) (h : Sound zlib base s) (buf : StringPiece)
    (hfirst : s.next_in = none) :
    Yields (fun r => Sound zlib base { r.2 with given := r.2.given ++ buf.bytes })
      (· = Halt.fault .lengthError) (ZlibOutputStream.write zlib s buf) := by
  rw [ZlibOutputStream.write, if_neg (not_not.mpr h.zerror), check_pos ⟨hfirst, h.idle hfirst⟩]
  rw [ofFault, ok_bind]
  refine (h.feed hd buf).bind fun t ht => ?_
  obtain ⟨⟨y, hrun⟩, hzerror, hend, hdone, htaken, hgiven⟩ := ht
  rw [if_pos hdone, check_pos hend, ofFault, ok_bind]
  refine ⟨⟨y, ⟨hrun.roomy.valid, hrun.roomy.counted, hrun.roomy.size⟩, hrun.output, hrun.streamed⟩,
    hzerror, ?_, fun _ => hdone⟩
  change t.taken = t.given ++ buf.bytes
  rw [htaken, hgiven, h.taken]

/-- One call of `deflate` takes a front of the buffer, and leaves `avail_in` bytes. -/
theorem Sound.feedBuffer (hd : zlib.Documented inflate) (h : Sound zlib base s) {input : Buffer}
    (hin : input.Valid) (hs : s' = { s with
      next_in := some ⟨input.buffer, input.peek⟩, avail_in := input.readableBytes }) :
    Yields (fun t => (∃ y, Running zlib base false t y) ∧ t.zerror = Z_OK ∧ t.next_in ≠ none ∧
      t.avail_in ≤ input.readableBytes ∧
      t.taken = s.taken ++ input.contents.take (input.readableBytes - t.avail_in) ∧
      t.given = s.given) (· = Halt.fault .lengthError)
      (compressOnce zlib s') := by
  obtain ⟨y, hrun⟩ := h.running
  have hrun' : Running zlib base false s' y := hs ▸ hrun.attach _ _
  have havailable : s'.available = input.contents := by
    rw [hs, available, Buffer.contents, hin.readable]
    rfl
  have hlen := hin.readable_length
  have havail : s'.avail_in = input.readableBytes := by rw [hs]
  have hzerror : s'.zerror = Z_OK := by rw [hs]; exact h.zerror
  have htaken : s'.taken = s.taken := by rw [hs]
  have hgiven : s'.given = s.given := by rw [hs]
  have hnext : s'.next_in ≠ none := by rw [hs]; exact Option.some_ne_none _
  rw [compressOnce]
  by_cases hmore : 0 < s'.avail_in
  · rw [if_pos ⟨hmore, hzerror⟩]
    refine (compress_yields hd hrun'.roomy .noFlush).bind fun r hr => ?_
    obtain ⟨n, hc⟩ := hr
    have hne : s'.available ≠ [] := by
      intro hnone
      rw [havailable] at hnone
      rw [hnone, List.length_nil] at hlen
      omega
    obtain ⟨hok, out, hrun'', -⟩ := hrun'.write hd hne hc
    have hle := hd.takes s'.state .noFlush s'.available n
    have hleft := hc.avail
    have hmoved := hc.next
    have htook := hc.taken
    generalize (zlib.deflate s'.state .noFlush s'.available n).taken = k at *
    rw [havailable, ← hlen] at hle
    rw [havail] at hleft
    refine ⟨⟨_, hrun''⟩, hok, ?_, hleft ▸ Nat.sub_le _ _, ?_, hc.given.trans hgiven⟩
    · intro hnone
      rw [hmoved, Option.map_eq_none_iff] at hnone
      exact hnext hnone
    · rw [hleft, Nat.sub_sub_self hle, htook, htaken, havailable]
  · rw [if_neg fun hand => hmore hand.1]
    refine ⟨⟨y, hrun'⟩, hzerror, hnext, Nat.le_of_eq havail, ?_, hgiven⟩
    rw [htaken, havail, Nat.sub_self, List.take_zero, List.append_nil]

/-- What is retrieved from the buffer is what was taken of it. -/
theorem Sound.writeBuffer (hd : zlib.Documented inflate) (h : Sound zlib base s) {input : Buffer}
    (hin : input.Valid) (hsmall : input.readableBytes < 2 ^ 32) :
    Yields (fun r => Sound zlib base { r.2.2 with
        given := r.2.2.given ++
          input.contents.take (input.contents.length - r.2.1.contents.length) })
      (· = Halt.fault .lengthError) (ZlibOutputStream.writeBuffer zlib s input) := by
  rw [ZlibOutputStream.writeBuffer, if_neg (not_not.mpr h.zerror), uInt_of_lt hsmall]
  refine (h.feedBuffer hd hin rfl).bind fun t ht => ?_
  obtain ⟨⟨y, hrun⟩, hzerror, hnext, hle, htaken, hgiven⟩ := ht
  have hsub : sizeSub input.readableBytes t.avail_in = input.readableBytes - t.avail_in :=
    sizeSub_of_le hle (by omega)
  obtain ⟨left, hleft, -, hcontents⟩ :=
    Buffer.retrieve_holds hin (Nat.sub_le input.readableBytes t.avail_in)
  rw [hsub, hleft, ofFault, ok_bind]
  refine ⟨⟨y, ⟨hrun.roomy.valid, hrun.roomy.counted, hrun.roomy.size⟩, hrun.output, hrun.streamed⟩,
    hzerror, ?_, fun hnone => absurd hnone hnext⟩
  have hretrieved : input.contents.length - left.contents.length =
      input.readableBytes - t.avail_in := by
    have hlen := hin.readable_length
    rw [hcontents, List.length_drop]
    omega
  change t.taken = t.given ++ input.contents.take (input.contents.length - left.contents.length)
  rw [hretrieved, htaken, hgiven, h.taken]

theorem Sound.step (hd : zlib.Documented inflate) (h : Sound zlib base s) {e : Call}
    (he : enabled e) (hfits : Fits s e) :
    Yields (Sound zlib base) (· = Halt.fault .lengthError) ((machine zlib).step s e) := by
  cases e with
  | piece buf => exact (h.write hd buf hfits).bind fun r hr => hr
  | buffer input => exact (h.writeBuffer hd he hfits).bind fun r hr => hr

theorem Sound.finish (hd : zlib.Documented inflate) (h : Sound zlib base s)
    (hdone : s.avail_in = 0) :
    Yields (fun r => ∃ text, r.2.output.contents = base ++ text ∧ inflate text = some s.given)
      (· = Halt.fault .lengthError) (ZlibOutputStream.finish zlib s) := by
  obtain ⟨y, hrun⟩ := h.running
  have hnone : s.available = [] := by
    rw [available, hdone]
    cases s.next_in <;> rfl
  rw [ZlibOutputStream.finish, if_neg (not_not.mpr h.zerror)]
  have hrounds : rounds zlib s = zlib.outputBound s.taken.length + 2 := by
    rw [rounds, hdone]
    rfl
  refine (finishAll_yields hd _ hrun h.zerror hnone ?_).bind fun t ht => ?_
  · omega
  · obtain ⟨⟨text, hout, hinflate⟩, htaken, -⟩ := ht
    refine ⟨text, hout, ?_⟩
    rw [hinflate, htaken, h.taken]

theorem new_sound (hd : zlib.Documented inflate) {out : Buffer} (hout : out.Valid)
    (hfree : out.Counted maxBufferSize) : Sound zlib out.contents (new zlib out) :=
  ⟨⟨[], ⟨hout, hfree, 0, by decide, rfl⟩, (List.append_nil _).symm, .init⟩, hd.init, rfl,
    fun _ => rfl⟩

/-- Nothing is lost or compressed twice, as long as each call finds the stream in the state it
relies on. -/
theorem lossless (hd : zlib.Documented inflate) {out : Buffer} (hout : out.Valid)
    (hfree : out.Counted maxBufferSize) (calls : List Call)
    (hl : (machine zlib).Legal Fits (new zlib out) calls) :
    Yields (fun s => s.taken = s.given ∧ (s.avail_in = 0 →
        Yields (fun r => ∃ text, r.2.output.contents = out.contents ++ text ∧
          inflate text = some s.given) (· = Halt.fault .lengthError) (finish zlib s)))
      (· = Halt.fault .lengthError) ((machine zlib).run (new zlib out) calls) := by
  have hkeeps := Machine.run_keeps (fun s e hs he hc => Sound.step hd hs he hc)
    (new_sound hd hout hfree) hl
  exact hkeeps.mono fun s hs => ⟨hs.taken, fun hdone => hs.finish hd hdone⟩

/-- Takes all it can get, and puts out the header, and behind it the rest in the end. -/
structure Sample where
  text : Bytes
  pending : Bytes
  ended : Bool
  deriving DecidableEq

def sampleHeader : Bytes := [120, 156]

/-- For one text as zlib does it. -/
def samplePack (text : Bytes) : Bytes :=
  if text = ascii "a" then [75, 4, 0, 0, 98, 0, 98] else 0 :: text

def sampleInflate (y : Bytes) : Option Bytes :=
  if y = sampleHeader ++ samplePack (ascii "a") then some (ascii "a")
  else if (sampleHeader ++ [0]).isPrefixOf y then some (y.drop 3)
  else none

def sampleZlib : Zlib Sample where
  deflateInit := (⟨[], sampleHeader, false⟩, Z_OK)
  deflate z flush input n :=
    let text := z.text ++ input
    let pending := z.pending ++
      if flush = .finish ∧ z.ended = false then samplePack text else []
    let ended := z.ended || decide (flush = .finish)
    { state := ⟨text, pending.drop n, ended⟩
      taken := input.length
      output := pending.take n
      code := if ended = true ∧ pending.length ≤ n then Z_STREAM_END else Z_OK }
  deflateEnd _ := Z_OK
  outputBound n := n + 9

theorem sample_noFlush (z : Sample) (input : Bytes) (n : Nat) :
    sampleZlib.deflate z .noFlush input n =
      ⟨⟨z.text ++ input, z.pending.drop n, z.ended⟩, input.length, z.pending.take n,
        if z.ended = true ∧ z.pending.length ≤ n then Z_STREAM_END else Z_OK⟩ := by
  simp [sampleZlib]

/-- What is still to be put out when the end is asked for. -/
def Sample.rest (z : Sample) : Bytes :=
  z.pending ++ if z.ended = false then samplePack z.text else []

theorem sample_finish (z : Sample) (n : Nat) :
    sampleZlib.deflate z .finish [] n =
      ⟨⟨z.text, z.rest.drop n, true⟩, 0, z.rest.take n,
        if z.rest.length ≤ n then Z_STREAM_END else Z_OK⟩ := by
  simp [sampleZlib, Sample.rest]

theorem sample_rest {z : Sample} {x y : Bytes} (htext : z.text = x) (hended : z.ended = b)
    (hy : y ++ z.pending = sampleHeader ++ if b = true then samplePack x else []) :
    y ++ z.rest = sampleHeader ++ samplePack x := by
  rw [Sample.rest, ← List.append_assoc, hy, htext, hended]
  cases b <;> simp

theorem sample_streamed {z : Sample} {x y : Bytes} (h : sampleZlib.Streamed b z x y) :
    z.text = x ∧ z.ended = b ∧
      y ++ z.pending = sampleHeader ++ if b = true then samplePack x else [] := by
  induction h with
  | init => exact ⟨rfl, rfl, rfl⟩
  | write h hin hn hok ih =>
    obtain ⟨htext, hended, hy⟩ := ih
    rw [sample_noFlush]
    refine ⟨?_, hended, ?_⟩
    · dsimp only
      rw [List.take_length, htext]
    · dsimp only
      rw [List.append_assoc, List.take_append_drop, hy]
      rfl
  | finish h hn hok ih =>
    obtain ⟨htext, hended, hy⟩ := ih
    rw [sample_finish]
    refine ⟨htext, rfl, ?_⟩
    dsimp only
    rw [List.append_assoc, List.take_append_drop, sample_rest htext hended hy]
    rfl

theorem sample_inflate (x : Bytes) : sampleInflate (sampleHeader ++ samplePack x) = some x := by
  by_cases hx : x = ascii "a"
  · rw [hx, sampleInflate, if_pos rfl]
  · have hpack : samplePack x = 0 :: x := if_neg hx
    rw [hpack, sampleInflate, if_neg (by simp [samplePack, sampleHeader]), if_pos (by
      simp [sampleHeader, List.isPrefixOf])]
    rfl

theorem samplePack_length (x : Bytes) : (samplePack x).length ≤ x.length + 7 := by
  unfold samplePack
  split
  · exact Nat.le_add_left _ _
  · rw [List.length_cons]
    omega

theorem sample_documented : sampleZlib.Documented sampleInflate where
  init := rfl
  takes _ _ _ _ := Nat.le_refl _
  fits _ _ _ n := List.length_take_le n _
  progress h _ _ := by
    rw [sample_noFlush, (sample_streamed h).2.1]
    rfl
  fills _ _ _ := Or.inl rfl
  finishes {b z x y n} _ _ := by
    rw [sample_finish]
    by_cases hfit : z.rest.length ≤ n
    · exact Or.inl (if_pos hfit)
    · exact Or.inr ⟨if_neg hfit, List.length_take_of_le (by omega)⟩
  ends {b z x y n} h _ hend := by
    rw [sample_finish] at hend ⊢
    have hfit : z.rest.length ≤ n := by
      by_contra hmore
      rw [if_neg hmore] at hend
      exact absurd (show Z_OK = Z_STREAM_END from hend) (by decide)
    obtain ⟨htext, hended, hy⟩ := sample_streamed h
    dsimp only
    rw [List.take_of_length_le hfit, sample_rest htext hended hy, sample_inflate]
  bounded {b z x y} h := by
    obtain ⟨htext, hended, hy⟩ := sample_streamed h
    have hlen := congrArg List.length (sample_rest htext hended hy)
    have hpack := samplePack_length x
    have hheader : sampleHeader.length = 2 := rfl
    rw [List.length_append, List.length_append] at hlen
    change y.length ≤ x.length + 9
    omega
  grows _ _ h := Nat.add_le_add_right h 9

def sampleOutput : Buffer := ⟨List.replicate 1032 0, 8, 8⟩

def samplePiece : StringPiece := ⟨some (ascii "a"), by decide⟩

def sampleInput : Buffer := ⟨List.replicate 8 0 ++ ascii "a", 8, 9⟩

instance : ∀ c : Call, Decidable (enabled c)
  | .piece _ => isTrue trivial
  | .buffer input => decidable_of_iff
      (input.readerIndex ≤ input.writerIndex ∧ input.writerIndex ≤ input.buffer.length ∧
        kCheapPrepend ≤ input.buffer.length ∧ input.buffer.length ≤ maxSize)
      ⟨fun h => ⟨h.1, h.2.1, h.2.2.1, h.2.2.2⟩, fun h => ⟨h.order, h.fits, h.cheap, h.small⟩⟩

instance (s : ZlibOutputStream Z) : ∀ c : Call, Decidable (Fits s c)
  | .piece _ => inferInstanceAs (Decidable (_ = _))
  | .buffer _ => inferInstanceAs (Decidable (_ < _))

instance (s : ZlibOutputStream Z) (c : Call) : Decidable ((machine zlib).enabled s c) :=
  inferInstanceAs (Decidable (enabled c))

/-- Two strings, one of them null, and what two buffers hold. -/
def sampleCalls : List Call :=
  [.piece samplePiece, .piece ⟨none, by decide⟩, .piece samplePiece, .buffer sampleInput,
    .buffer ⟨List.replicate 16 98, 8, 16⟩]

theorem lossless_sample : Yields
    (fun s => s.taken = s.given ∧ (s.avail_in = 0 →
      Yields (fun r => ∃ text, r.2.output.contents = sampleOutput.contents ++ text ∧
        sampleInflate text = some s.given) (· = Halt.fault .lengthError) (finish sampleZlib s)))
    (· = Halt.fault .lengthError)
    ((machine sampleZlib).run (new sampleZlib sampleOutput) sampleCalls) :=
  have h : sampleOutput.Valid :=
    ⟨by decide, by decide +kernel, by decide +kernel, by decide +kernel⟩
  lossless sample_documented h (by decide +kernel) sampleCalls (by decide +kernel)

/-- A `StringPiece` after a `Buffer` fails an assertion, even if the buffer was taken whole. -/
theorem piece_after_buffer :
    (machine sampleZlib).run (new sampleZlib sampleOutput)
      [.buffer sampleInput, .piece samplePiece] = .error (.fault .assertion) := by
  decide +kernel

end ZlibOutputStream

end Muduo.Net
