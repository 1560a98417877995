import Muduo.Examples.CodecLoop
import Muduo.Net.ProtobufFrames

namespace Muduo.Examples.Codec
open Muduo.Lib Muduo.Net

variable {D M : Type} (p : Protobuf D M)

/-- `parse` with every read checked against the `len` bytes it was given. -/
def parseAt (buf : Bytes) (len : Int) : Except Fault (Except ErrorCode M) := do
  let be32 ← loadAt buf (len - kHeaderLen) kHeaderLen
  let checked ← loadAt buf 0 (len - kHeaderLen)
  if checkSumOf p checked = peekInt32 be32 then
    let be32 ← loadAt buf 0 kHeaderLen
    let nameLen := peekInt32 be32
    if 2 ≤ nameLen ∧ nameLen ≤ len - 2 * kHeaderLen then
      let typeName ← loadAt buf kHeaderLen (nameLen - 1)
      match createMessage p typeName with
      | some message =>
        let dataLen := len - nameLen - 2 * kHeaderLen
        let data ← loadAt buf (kHeaderLen + nameLen) dataLen
        match p.parseFromArray message data with
        | some message => .ok (.ok message)
        | none => .ok (.error .kParseError)
      | none => .ok (.error .kUnknowMessageType)
    else .ok (.error .kInvalidLength)
  else .ok (.error .kCheckSumError)

/-- What the checksum is taken of: the length of the name field, that field with its last byte,
and the data. -/
def content (name : Bytes) (last : UInt8) (data : Bytes) : Bytes :=
  BigEndian.encode 4 (name.length + 1) ++ (name ++ last :: data)

/-- A frame body that holds a message, whatever its name field ends with. -/
structure IsBody (buf name : Bytes) (last : UInt8) (data : Bytes) (m : M) : Prop where
  bytes : buf = content name last data ++ BigEndian.encode 4 (p.adler32 (content name last data))
  named : 1 ≤ name.length
  known : ∃ prototype, createMessage p name = some prototype ∧
    p.parseFromArray prototype data = some m

/-- The frame body of the documentation, whose name field ends with a zero. -/
def DocumentedBody (buf : Bytes) (m : M) : Prop := ∃ name data, IsBody p buf name 0 data m

/-- All is as documented but for the byte behind the name. -/
def Unterminated (buf : Bytes) : Prop :=
  ∃ name last data m, last ≠ 0 ∧ IsBody p buf name last data m

/-- `parse` stays inside `buf` and accepts it exactly when it is as documented; otherwise it
gives an error code, and `onMessage` calls no message callback for the frame. -/
structure ParsesDocumented (buf : Bytes) : Prop where
  inside : parseAt p buf buf.length = .ok (parse p buf)
  exact : ∀ m, parse p buf = .ok m ↔ DocumentedBody p buf m
  refuses : (∀ m, ¬DocumentedBody p buf m) → ∃ e, e ≠ .kNoError ∧ parse p buf = .error e ∧
    ∀ (σ : Type) (c : Members σ M) (s : Call σ) (more : Bytes),
      s.buff = BigEndian.encode 4 buf.length ++ buf ++ more →
      round p c s = callError c s e >>= fun t => .ok (.done t)

variable {p} {buf name name' sum data data' : Bytes} {last last' : UInt8} {m m' : M}

theorem content_length (name : Bytes) (last : UInt8) (data : Bytes) :
    (content name last data).length = name.length + data.length + 5 := by
  rw [content, List.length_append, BigEndian.encode_length, List.length_append, List.length_cons]
  omega

/-- The bytes of a checksum are told from the number they stand for. -/
theorem peekInt32_sum (hsum : sum.length = 4) (n : Nat) :
    Word.toSigned 32 n = peekInt32 sum ↔ sum = BigEndian.encode 4 n := by
  have hmod : BigEndian.encode 4 (n % 2 ^ 32) = BigEndian.encode 4 n := by
    have hparts : n = n / 256 ^ 4 * 256 ^ 4 + n % 2 ^ 32 := by omega
    conv_rhs => rw [hparts, BigEndian.encode_mul_add]
  constructor
  · intro h
    have henc := encode_peekInt32 (b := sum) (by omega)
    rw [← h, Word.ofSigned_toSigned, hmod, List.take_of_length_le (by omega)] at henc
    exact henc.symm
  · intro h
    have hpeek := peekInt32_toSigned n []
    rw [Word.ofSigned_toSigned, hmod, List.append_nil, ← h] at hpeek
    exact hpeek.symm

/-- The fields of a body are found by their lengths. -/
theorem parse_content (hname : 1 ≤ name.length) (hsum : sum.length = 4)
    (hmax : (content name last data ++ sum).length ≤ kMaxMessageLen) :
    parse p (content name last data ++ sum) =
      if checkSumOf p (content name last data) = peekInt32 sum then
        match createMessage p name with
        | some prototype =>
          match p.parseFromArray prototype data with
          | some m => .ok m
          | none => .error .kParseError
        | none => .error .kUnknowMessageType
      else .error .kCheckSumError := by
  have hk : kHeaderLen = 4 := rfl
  have hlen := content_length name last data
  have htotal : (content name last data ++ sum).length = name.length + data.length + 9 := by
    rw [List.length_append, hlen, hsum]
  have hcut : (content name last data ++ sum).length - kHeaderLen =
      (content name last data).length := by
    rw [List.length_append, hsum, hk, Nat.add_sub_cancel]
  unfold kMaxMessageLen at hmax
  have hfields : content name last data ++ sum = BigEndian.encode 4 (name.length + 1) ++
      (name ++ (last :: (data ++ sum))) := by
    simp only [content, List.append_assoc, List.cons_append]
  have hpeek : peekInt32 (content name last data ++ sum) = ((name.length + 1 : Nat) : Int) := by
    rw [hfields]
    exact peekInt32_encode (by omega) _
  have hdrop : (content name last data ++ sum).drop kHeaderLen =
      name ++ (last :: (data ++ sum)) := by
    rw [hfields, List.drop_left' (by rw [BigEndian.encode_length, hk])]
  have htypeName : ((content name last data ++ sum).drop kHeaderLen).take
      (((name.length + 1 : Nat) : Int) - 1).toNat = name := by
    have hn : (((name.length + 1 : Nat) : Int) - 1).toNat = name.length := by omega
    rw [hdrop, hn, List.take_left]
  have hdata : ((content name last data ++ sum).drop (kHeaderLen + (name.length + 1))).take
      (((content name last data ++ sum).length : Int) - ((name.length + 1 : Nat) : Int) -
        2 * kHeaderLen).toNat = data := by
    have hn : (((content name last data ++ sum).length : Int) -
        ((name.length + 1 : Nat) : Int) - 2 * kHeaderLen).toNat = data.length := by omega
    rw [hn, ← List.drop_drop, hdrop, ← List.drop_drop, List.drop_left, List.drop_succ_cons,
      List.drop_zero, List.take_left]
  have hbounds : (2 : Int) ≤ ((name.length + 1 : Nat) : Int) ∧
      ((name.length + 1 : Nat) : Int) ≤
        ((content name last data ++ sum).length : Int) - 2 * kHeaderLen := by
    omega
  by_cases hcheck : checkSumOf p (content name last data) = peekInt32 sum
  · cases hfound : createMessage p name with
    | none =>
      simp only [parse, hcut, List.take_left, List.drop_left, if_pos hcheck, hpeek, if_pos hbounds,
        htypeName, hfound]
    | some prototype =>
      cases hread : p.parseFromArray prototype data with
      | none | some m =>
        simp only [parse, hcut, List.take_left, List.drop_left, if_pos hcheck, hpeek,
          if_pos hbounds, htypeName, hfound, Int.toNat_natCast, hdata, hread]
  · simp only [parse, hcut, List.take_left, List.drop_left, if_neg hcheck]

/-- A body is refused for its checksum or its name length, or it has all the fields. -/
theorem parse_cases (hmin : kMinMessageLen ≤ buf.length) :
    parse p buf = .error .kCheckSumError ∨ parse p buf = .error .kInvalidLength ∨
    ∃ name last data sum, buf = content name last data ++ sum ∧ 1 ≤ name.length ∧
      sum.length = 4 := by
  have hk : kHeaderLen = 4 := rfl
  unfold kMinMessageLen at hmin
  by_cases hcheck : checkSumOf p (buf.take (buf.length - kHeaderLen)) =
      peekInt32 (buf.drop (buf.length - kHeaderLen))
  · by_cases hbounds : 2 ≤ peekInt32 buf ∧ peekInt32 buf ≤ (buf.length : Int) - 2 * kHeaderLen
    · refine .inr (.inr ?_)
      obtain ⟨n, hn⟩ := Int.eq_ofNat_of_zero_le (a := peekInt32 buf) (by omega)
      have hsize : BigEndian.encode 4 n = buf.take 4 := by
        have hrange := peekInt32_range buf
        rw [← encode_peekInt32 (b := buf) (by omega), hn, Word.ofSigned_natCast 32 (by omega)]
      -- the checked bytes are the length, the name, one more byte and the data
      have hlong : ((buf.take (buf.length - 4)).drop 4).length = buf.length - 8 := by
        rw [List.length_drop, List.length_take]
        omega
      obtain ⟨last, data, hrest⟩ := List.exists_cons_of_length_pos
        (l := ((buf.take (buf.length - 4)).drop 4).drop (n - 1))
        (by rw [List.length_drop, hlong]; omega)
      have hname : (((buf.take (buf.length - 4)).drop 4).take (n - 1)).length + 1 = n := by
        rw [List.length_take, hlong]
        omega
      refine ⟨((buf.take (buf.length - 4)).drop 4).take (n - 1), last, data,
        buf.drop (buf.length - 4), ?_, by omega, by rw [List.length_drop]; omega⟩
      have htake : buf.take 4 = (buf.take (buf.length - 4)).take 4 := by
        rw [List.take_take, Nat.min_eq_left (by omega)]
      rw [content, hname, hsize, ← hrest, List.take_append_drop, htake, List.take_append_drop,
        List.take_append_drop]
    · refine .inr (.inl ?_)
      simp only [parse, if_pos hcheck, if_neg hbounds]
  · exact .inl (if_neg hcheck)

/-- No read of `parse` goes past the bytes it is given. -/
theorem parseAt_eq (hmin : kMinMessageLen ≤ buf.length) :
    parseAt p buf buf.length = .ok (parse p buf) := by
  have hk : kHeaderLen = 4 := rfl
  unfold kMinMessageLen at hmin
  have hsum : loadAt buf ((buf.length : Int) - kHeaderLen) kHeaderLen =
      .ok (buf.drop (buf.length - kHeaderLen)) := by
    rw [loadAt_nat (j := buf.length - kHeaderLen) (by omega) rfl (by omega),
      List.take_of_length_le (by rw [List.length_drop]; omega)]
  have hchecked : loadAt buf 0 ((buf.length : Int) - kHeaderLen) =
      .ok (buf.take (buf.length - kHeaderLen)) := loadAt_nat (j := 0) rfl (by omega) (by omega)
  have hsize : loadAt buf 0 kHeaderLen = .ok (buf.take kHeaderLen) :=
    loadAt_nat (j := 0) rfl rfl (by omega)
  have hpeek : peekInt32 (buf.take kHeaderLen) = peekInt32 buf := peekInt32_take _ (Nat.le_refl 4)
  simp only [parseAt, hsum, hchecked, ok_bind]
  by_cases hcheck : checkSumOf p (buf.take (buf.length - kHeaderLen)) =
      peekInt32 (buf.drop (buf.length - kHeaderLen))
  · rw [if_pos hcheck, hsize, ok_bind, hpeek]
    by_cases hbounds : 2 ≤ peekInt32 buf ∧ peekInt32 buf ≤ (buf.length : Int) - 2 * kHeaderLen
    · obtain ⟨n, hn⟩ := Int.eq_ofNat_of_zero_le (a := peekInt32 buf) (by omega)
      have hname : loadAt buf kHeaderLen (peekInt32 buf - 1) =
          .ok ((buf.drop kHeaderLen).take (peekInt32 buf - 1).toNat) :=
        loadAt_nat rfl (by omega) (by omega)
      have hdata : loadAt buf (kHeaderLen + peekInt32 buf)
          ((buf.length : Int) - peekInt32 buf - 2 * kHeaderLen) =
          .ok ((buf.drop (kHeaderLen + (peekInt32 buf).toNat)).take
            ((buf.length : Int) - peekInt32 buf - 2 * kHeaderLen).toNat) :=
        loadAt_nat (by omega) (by omega) (by omega)
      simp only [if_pos hbounds, hname, hdata, ok_bind, parse, if_pos hcheck]
      cases createMessage p ((buf.drop kHeaderLen).take (peekInt32 buf - 1).toNat) with
      | none => rfl
      | some prototype =>
        simp only
        cases p.parseFromArray prototype _ with
        | none => rfl
        | some m => rfl
    · simp only [if_neg hbounds, parse, if_pos hcheck]
  · simp only [if_neg hcheck, parse]

theorem IsBody.parse (h : IsBody p buf name last data m) (hmax : buf.length ≤ kMaxMessageLen) :
    parse p buf = .ok m := by
  obtain ⟨prototype, hfound, hread⟩ := h.known
  have hbytes := h.bytes
  have hcheck : checkSumOf p (content name last data) =
      peekInt32 (BigEndian.encode 4 (p.adler32 (content name last data))) :=
    (peekInt32_sum BigEndian.encode_length _).mpr rfl
  rw [hbytes] at hmax ⊢
  rw [parse_content h.named BigEndian.encode_length hmax, if_pos hcheck]
  simp only [hfound, hread]

theorem isBody_of_parse (hmin : kMinMessageLen ≤ buf.length) (hmax : buf.length ≤ kMaxMessageLen)
    (h : parse p buf = .ok m) : ∃ name last data, IsBody p buf name last data m := by
  rcases parse_cases (p := p) hmin with hsum | hlen | ⟨name, last, data, sum, rfl, hname, hsum⟩
  · cases hsum.symm.trans h
  · cases hlen.symm.trans h
  · rw [parse_content hname hsum hmax] at h
    split at h
    · rename_i hcheck
      have hbytes := (peekInt32_sum hsum _).mp hcheck
      cases hfound : createMessage p name with
      | none => simp only [hfound, reduceCtorEq] at h
      | some prototype =>
        cases hread : p.parseFromArray prototype data with
        | none => simp only [hfound, hread, reduceCtorEq] at h
        | some m' =>
          simp only [hfound, hread, Except.ok.injEq] at h
          subst h
          exact ⟨name, last, data, by rw [← hbytes], hname, prototype, hfound, hread⟩
    · cases h

theorem IsBody.last_unique (h : IsBody p buf name last data m)
    (h' : IsBody p buf name' last' data' m') (hmax : buf.length ≤ kMaxMessageLen) :
    last = last' := by
  have hbytes := h.bytes
  have hbytes' := h'.bytes
  have hlen : ∀ {name last data m}, IsBody p buf name last data m →
      peekInt32 buf = ((name.length + 1 : Nat) : Int) := by
    intro name last data m h
    have htotal : buf.length = name.length + data.length + 9 := by
      rw [h.bytes, List.length_append, content_length, BigEndian.encode_length]
    unfold kMaxMessageLen at hmax
    rw [h.bytes, content, List.append_assoc]
    exact peekInt32_encode (by omega) _
  have hname : name.length = name'.length := by
    have := (hlen h).symm.trans (hlen h')
    omega
  rw [hbytes, content, content, hname] at hbytes'
  simp only [List.append_assoc, List.cons_append] at hbytes'
  obtain ⟨-, hrest⟩ := List.append_inj (List.append_cancel_left hbytes') hname
  exact (List.cons.inj hrest).1

theorem parse_error_ne {e : ErrorCode} (h : parse p buf = .error e) : e ≠ .kNoError := by
  rintro rfl
  unfold parse at h
  simp only at h
  split at h
  · split at h
    · split at h
      · split at h <;> cases h
      · cases h
    · cases h
  · cases h

/-- A frame that `parse` refuses goes to the error callback only. -/
theorem round_refused {σ : Type} {e : ErrorCode} (c : Members σ M) {s : Call σ} {more : Bytes}
    (hmin : kMinMessageLen ≤ buf.length) (hmax : buf.length ≤ kMaxMessageLen)
    (h : parse p buf = .error e) (hs : s.buff = BigEndian.encode 4 buf.length ++ buf ++ more) :
    round p c s = callError c s e >>= fun t => .ok (.done t) := by
  have hwhole : Whole (BigEndian.encode 4 buf.length ++ buf) buf := ⟨rfl, hmin, hmax⟩
  have hround := round_whole (p := p) (c := c) hwhole hs
  rw [h] at hround
  exact hround

/-- The decoder keeps to the documentation for all frame bodies but those that are right apart
from the byte behind the name. -/
theorem parse_documented_iff (hmin : kMinMessageLen ≤ buf.length)
    (hmax : buf.length ≤ kMaxMessageLen) : ParsesDocumented p buf ↔ ¬Unterminated p buf := by
  constructor
  · rintro h ⟨name, last, data, m, hlast, hbody⟩
    obtain ⟨name', data', hbody'⟩ := (h.exact m).mp (hbody.parse hmax)
    exact hlast (hbody.last_unique hbody' hmax)
  · intro h
    have hexact : ∀ m, parse p buf = .ok m ↔ DocumentedBody p buf m := by
      intro m
      constructor
      · intro hparse
        obtain ⟨name, last, data, hbody⟩ := isBody_of_parse hmin hmax hparse
        by_cases hlast : last = 0
        · subst hlast
          exact ⟨name, data, hbody⟩
        · exact absurd ⟨name, last, data, m, hlast, hbody⟩ h
      · rintro ⟨name, data, hbody⟩
        exact hbody.parse hmax
    refine ⟨parseAt_eq hmin, hexact, fun hno => ?_⟩
    cases hparse : parse p buf with
    | ok m => exact absurd ((hexact m).mp hparse) (hno m)
    | error e =>
      exact ⟨e, parse_error_ne hparse, rfl, fun σ c s more hs => round_refused c hmin hmax hparse hs⟩

/-- The type name, a byte behind it, the data and the checksum. -/
def queryBody (last : UInt8) : Bytes :=
  content (ascii "muduo.Query") last [8, 5] ++
    BigEndian.encode 4 (sampleProtobuf.adler32 (content (ascii "muduo.Query") last [8, 5]))

theorem queryBody_parses (last : UInt8) :
    IsBody sampleProtobuf (queryBody last) (ascii "muduo.Query") last [8, 5] (true, 5) :=
  ⟨rfl, by decide, (true, 0), by decide +kernel, by decide⟩

theorem queryBody_length (last : UInt8) :
    kMinMessageLen ≤ (queryBody last).length ∧ (queryBody last).length ≤ kMaxMessageLen := by
  rw [queryBody, List.length_append, content_length, BigEndian.encode_length]
  decide

theorem parse_documented_sample :
    ParsesDocumented sampleProtobuf (queryBody 0) ↔ ¬Unterminated sampleProtobuf (queryBody 0) :=
  parse_documented_iff (queryBody_length 0).1 (queryBody_length 0).2

/-- An asterisk stands where the name should end. -/
theorem unterminated_accepted :
    kMinMessageLen ≤ (queryBody 42).length ∧ (queryBody 42).length ≤ kMaxMessageLen ∧
      parse sampleProtobuf (queryBody 42) = .ok (true, 5) ∧
      ¬DocumentedBody sampleProtobuf (queryBody 42) (true, 5) ∧
      ¬ParsesDocumented sampleProtobuf (queryBody 42) := by
  have hlen := queryBody_length 42
  have hparse := (queryBody_parses 42).parse hlen.2
  have hno : ¬DocumentedBody sampleProtobuf (queryBody 42) (true, 5) := by
    rintro ⟨name, data, hbody⟩
    cases (queryBody_parses 42).last_unique hbody hlen.2
  exact ⟨hlen.1, hlen.2, hparse, hno, fun h => hno ((h.exact _).mp hparse)⟩

end Muduo.Examples.Codec
