import Muduo.Net.ProtobufCodec

namespace Muduo.Net
open Muduo.Lib

/-- The `n` bytes behind a pointer into the readable bytes. -/
def loadAt (b : Bytes) (i n : Int) : Except Fault Bytes :=
  if 0 ≤ i ∧ 0 ≤ n ∧ i + n ≤ b.length then .ok ((b.drop i.toNat).take n.toNat)
  else .error .outOfBounds

theorem loadAt_nat {b : Bytes} {i n : Int} {j m : Nat} (hi : i = j) (hn : n = m)
    (h : j + m ≤ b.length) : loadAt b i n = .ok ((b.drop j).take m) := by
  subst hi hn
  exact if_pos ⟨Int.natCast_nonneg j, Int.natCast_nonneg m, by omega⟩

namespace ProtobufCodecLite

variable {M : Type} (c : ProtobufCodecLite M)

/-- `validateChecksum` of the `len` bytes at `i`. -/
def validateChecksumAt (b : Bytes) (i len : Int) : Except Fault Bool := do
  let expected ← loadAt b (i + len - kChecksumLen) kChecksumLen
  let checked ← loadAt b i (len - kChecksumLen)
  .ok (c.checksum checked = asInt32 expected)

/-- `parse` of the `len` bytes at `i`. -/
def parseAt (b : Bytes) (i len : Int) : Except Fault (Except ErrorCode M) := do
  if ← c.validateChecksumAt b i len then
    let tag ← loadAt b i c.tag.length
    if tag = c.tag then
      let dataLen := len - kChecksumLen - c.tag.length
      let data ← loadAt b (i + c.tag.length) dataLen
      match c.runtime.parseFromArray data with
      | some message => .ok (.ok message)
      | none => .ok (.error .kParseError)
    else .ok (.error .kUnknownMessageType)
  else .ok (.error .kCheckSumError)

/-- `onMessage` with every read checked against the readable bytes. -/
def onMessageAt (s : Received M) (buf : Bytes) : Except Fault (Received M × Bytes) :=
  if c.kMinMessageLen + kHeaderLen ≤ buf.length then do
    let header ← loadAt buf 0 kHeaderLen
    let len := peekInt32 header
    if len > kMaxMessageLen ∨ len < c.kMinMessageLen then
      .ok ({ s with errors := s.errors ++ [.kInvalidLength] }, buf)
    else
      let total ← intAdd kHeaderLen len
      if sizeOfInt total ≤ buf.length then
        let raw ← loadAt buf 0 total
        if c.rawCb.any fun cb => !cb raw then onMessageAt s (buf.drop (kHeaderLen + len.toNat))
        else
          match ← c.parseAt buf kHeaderLen len with
          | .ok message =>
            onMessageAt { s with messages := s.messages ++ [message] }
              (buf.drop (kHeaderLen + len.toNat))
          | .error errorCode => .ok ({ s with errors := s.errors ++ [errorCode] }, buf)
      else .ok (s, buf)
  else .ok (s, buf)
termination_by buf.length
decreasing_by
  all_goals
    simp only [List.length_drop]
    unfold kHeaderLen at *
    omega

variable {c} {buf : Bytes} {len : Nat}

theorem parseAt_eq (hlen : c.kMinMessageLen ≤ len) (hle : kHeaderLen + len ≤ buf.length) :
    c.parseAt buf kHeaderLen len = .ok (c.parse ((buf.drop kHeaderLen).take len)) := by
  unfold kMinMessageLen at hlen
  have hbody : ((buf.drop kHeaderLen).take len).length = len := by
    rw [List.length_take, List.length_drop]
    omega
  have hsum : loadAt buf ((kHeaderLen : Int) + len - kChecksumLen) kChecksumLen =
      .ok ((buf.drop (kHeaderLen + (len - kChecksumLen))).take kChecksumLen) :=
    loadAt_nat (by omega) rfl (by omega)
  have hchecked : loadAt buf (kHeaderLen : Int) ((len : Int) - kChecksumLen) =
      .ok ((buf.drop kHeaderLen).take (len - kChecksumLen)) := loadAt_nat rfl (by omega) (by omega)
  have htag : loadAt buf (kHeaderLen : Int) c.tag.length =
      .ok ((buf.drop kHeaderLen).take c.tag.length) := loadAt_nat rfl rfl (by omega)
  have hdata : loadAt buf ((kHeaderLen : Int) + c.tag.length)
      ((len : Int) - kChecksumLen - c.tag.length) =
      .ok ((buf.drop (kHeaderLen + c.tag.length)).take (len - kChecksumLen - c.tag.length)) :=
    loadAt_nat (by omega) (by omega) (by omega)
  have hvalid : c.validateChecksumAt buf kHeaderLen len =
      .ok (c.validateChecksum ((buf.drop kHeaderLen).take len)) := by
    have hcut : ((buf.drop kHeaderLen).take len).drop (len - kChecksumLen) =
        (buf.drop (kHeaderLen + (len - kChecksumLen))).take kChecksumLen := by
      rw [List.drop_take, List.drop_drop]
      congr 1
      omega
    simp only [validateChecksumAt, hsum, hchecked, ok_bind, validateChecksum, hbody, hcut,
      List.take_take, Nat.min_eq_left (Nat.sub_le len kChecksumLen)]
  have htake : ((buf.drop kHeaderLen).take len).take c.tag.length =
      (buf.drop kHeaderLen).take c.tag.length := by
    rw [List.take_take, Nat.min_eq_left (by omega)]
  have hpayload : (((buf.drop kHeaderLen).take len).drop c.tag.length).take
      (len - kChecksumLen - c.tag.length) =
      (buf.drop (kHeaderLen + c.tag.length)).take (len - kChecksumLen - c.tag.length) := by
    rw [List.drop_take, List.drop_drop, List.take_take, Nat.min_eq_left (by omega)]
  simp only [parseAt, hvalid, htag, hdata, ok_bind, parse, hbody, htake, hpayload]
  split
  · split
    · generalize c.runtime.parseFromArray _ = message
      cases message <;> rfl
    · rfl
  · rfl

/-- Whatever the bytes are, no read goes past the readable ones, and no sum overflows. -/
theorem onMessageAt_eq (s : Received M) (buf : Bytes) : c.onMessageAt s buf = c.onMessage s buf := by
  induction hl : buf.length using Nat.strongRecOn generalizing s buf with
  | ind l ih =>
    rw [onMessageAt, onMessage]
    by_cases hmin : c.kMinMessageLen + kHeaderLen ≤ buf.length
    · have hheader : loadAt buf 0 kHeaderLen = .ok (buf.take kHeaderLen) :=
        loadAt_nat (j := 0) rfl rfl (by omega)
      have hpeek : peekInt32 (buf.take kHeaderLen) = peekInt32 buf := peekInt32_take _ (Nat.le_refl 4)
      rw [if_pos hmin, if_pos hmin, hheader, ok_bind, hpeek]
      by_cases hrange : peekInt32 buf > kMaxMessageLen ∨ peekInt32 buf < c.kMinMessageLen
      · rw [if_pos hrange, if_pos hrange]
      · rw [if_neg hrange, if_neg hrange]
        obtain ⟨len, hlen⟩ := Int.eq_ofNat_of_zero_le (a := peekInt32 buf) (by omega)
        have hmax : kMaxMessageLen = 67108864 := rfl
        have hk : kHeaderLen = 4 := rfl
        have hsum : intAdd kHeaderLen (len : Int) = .ok ((kHeaderLen + len : Nat) : Int) :=
          intAdd_of_lt (by omega) (by omega)
        have hsize : sizeOfInt ((kHeaderLen + len : Nat) : Int) = kHeaderLen + len :=
          sizeOfInt_natCast (by omega)
        rw [hlen, hsum, ok_bind, hsize, Int.toNat_natCast]
        by_cases hall : kHeaderLen + len ≤ buf.length
        · have hraw : loadAt buf 0 ((kHeaderLen + len : Nat) : Int) =
              .ok (buf.take (kHeaderLen + len)) := loadAt_nat (j := 0) rfl rfl (by omega)
          have hnext : ∀ s, c.onMessageAt s (buf.drop (kHeaderLen + len)) =
              c.onMessage s (buf.drop (kHeaderLen + len)) := fun s =>
            ih _ (by rw [List.length_drop]; omega) s _ rfl
          rw [if_pos hall, if_pos hall, hraw, ok_bind, parseAt_eq (by omega) hall, ok_bind]
          refine if_congr Iff.rfl (hnext _) ?_
          generalize c.parse _ = parsed
          cases parsed with
          | ok m => exact hnext _
          | error e => rfl
        · rw [if_neg hall, if_neg hall]
    · rw [if_neg hmin, if_neg hmin]

variable (c)

/-- The wire format: size, content and checksum. -/
structure IsFrame (f content sum : Bytes) : Prop where
  bytes : f = BigEndian.encode 4 (content.length + kChecksumLen) ++ (content ++ sum)
  sum : sum.length = kChecksumLen
  least : c.tag.length ≤ content.length
  most : content.length + kChecksumLen ≤ kMaxMessageLen

/-- A frame that holds a message. -/
def Accepts (f : Bytes) (m : M) : Prop :=
  ∃ payload sum, c.IsFrame f (c.tag ++ payload) sum ∧
    c.checksum (c.tag ++ payload) = asInt32 sum ∧ c.runtime.parseFromArray payload = some m

/-- The next bytes are no acceptable frame, for the first of the reasons in this order. -/
def FailsWith (rest : Bytes) : ErrorCode → Prop
  | .kInvalidLength => c.tag.length + 8 ≤ rest.length ∧
      (asInt32 rest < (c.tag.length + 4 : Nat) ∨ asInt32 rest > kMaxMessageLen)
  | .kCheckSumError => ∃ f content sum, c.IsFrame f content sum ∧ f <+: rest ∧
      c.checksum content ≠ asInt32 sum
  | .kUnknownMessageType => ∃ f content sum, c.IsFrame f content sum ∧ f <+: rest ∧
      c.checksum content = asInt32 sum ∧ ¬c.tag <+: content
  | .kParseError => ∃ f payload sum, c.IsFrame f (c.tag ++ payload) sum ∧ f <+: rest ∧
      c.checksum (c.tag ++ payload) = asInt32 sum ∧ c.runtime.parseFromArray payload = none
  | .kNoError | .kInvalidNameLen => False

variable {c} {f f' content content' sum sum' rest : Bytes} {m : M}

theorem IsFrame.length (h : c.IsFrame f content sum) :
    f.length = kHeaderLen + (content.length + kChecksumLen) := by
  rw [h.bytes, List.length_append, List.length_append, BigEndian.encode_length, h.sum, kHeaderLen]

theorem IsFrame.peek (h : c.IsFrame f content sum) (hp : f <+: rest) :
    peekInt32 rest = (content.length + kChecksumLen : Nat) := by
  have hmost := h.most
  unfold kMaxMessageLen at hmost
  obtain ⟨more, rfl⟩ := hp
  rw [h.bytes, List.append_assoc]
  exact peekInt32_encode (by omega) _

/-- The size tells the frame at the front apart. -/
theorem IsFrame.unique (h : c.IsFrame f content sum) (hp : f <+: rest)
    (h' : c.IsFrame f' content' sum') (hp' : f' <+: rest) :
    f = f' ∧ content = content' ∧ sum = sum' := by
  have hpeek := (h.peek hp).symm.trans (h'.peek hp')
  have hlen := h.length
  have hlen' := h'.length
  have hf : f = f' :=
    (List.prefix_of_prefix_length_le hp hp' (by omega)).eq_of_length (by omega)
  have hbytes := h.bytes.symm.trans (hf.trans h'.bytes)
  have hcontent : content.length = content'.length := by omega
  rw [hcontent] at hbytes
  obtain ⟨hc, hs⟩ := List.append_inj (List.append_cancel_left hbytes) hcontent
  exact ⟨hf, hc, hs⟩

theorem body_parts (b : Bytes) (len : Nat) :
    b.take (len - kChecksumLen) ++ (b.take len).drop (len - kChecksumLen) = b.take len := by
  have htake : b.take (len - kChecksumLen) = (b.take len).take (len - kChecksumLen) := by
    rw [List.take_take, Nat.min_eq_left (Nat.sub_le ..)]
  rw [htake, List.take_append_drop]

/-- Where the size is in range and all of its bytes are there, a frame stands. -/
theorem frame_exists (hleast : c.kMinMessageLen ≤ len) (hmost : len ≤ kMaxMessageLen)
    (hlen : peekInt32 buf = len) (hall : kHeaderLen + len ≤ buf.length) :
    c.IsFrame (buf.take (kHeaderLen + len)) ((buf.drop kHeaderLen).take (len - kChecksumLen))
      (((buf.drop kHeaderLen).take len).drop (len - kChecksumLen)) := by
  have hk : kHeaderLen = 4 := rfl
  have hmax : kMaxMessageLen = 67108864 := rfl
  unfold kMinMessageLen at hleast
  have hcontent : ((buf.drop kHeaderLen).take (len - kChecksumLen)).length = len - kChecksumLen := by
    rw [List.length_take, List.length_drop]
    omega
  have hbody := body_parts (buf.drop kHeaderLen) len
  have hsize : BigEndian.encode 4 len = buf.take kHeaderLen := by
    rw [hk, ← encode_peekInt32 (b := buf) (by omega), hlen, Word.ofSigned_natCast 32 (by omega)]
  refine ⟨?_, ?_, by omega, by omega⟩
  · rw [hcontent, hbody, Nat.sub_add_cancel (by omega), hsize, List.take_add]
  · rw [List.length_drop, List.length_take, List.length_drop]
    omega

section

variable (h : c.IsFrame f content sum) (hp : f <+: rest)
include h hp

theorem IsFrame.not_length : ¬c.FailsWith rest .kInvalidLength := by
  have hpeek := h.peek hp
  have hleast := h.least
  have hmost := h.most
  rintro ⟨_, hrange⟩
  unfold asInt32 kChecksumLen at *
  omega

theorem IsFrame.fails_checkSum :
    c.FailsWith rest .kCheckSumError ↔ c.checksum content ≠ asInt32 sum := by
  constructor
  · rintro ⟨f', content', sum', h', hp', hne⟩
    obtain ⟨rfl, rfl, rfl⟩ := h.unique hp h' hp'
    exact hne
  · intro hne
    exact ⟨f, content, sum, h, hp, hne⟩

theorem IsFrame.fails_tag : c.FailsWith rest .kUnknownMessageType ↔
    c.checksum content = asInt32 sum ∧ ¬c.tag <+: content := by
  constructor
  · rintro ⟨f', content', sum', h', hp', hrest⟩
    obtain ⟨rfl, rfl, rfl⟩ := h.unique hp h' hp'
    exact hrest
  · intro hrest
    exact ⟨f, content, sum, h, hp, hrest⟩

theorem IsFrame.fails_parse : c.FailsWith rest .kParseError ↔ ∃ payload,
    content = c.tag ++ payload ∧ c.checksum content = asInt32 sum ∧
      c.runtime.parseFromArray payload = none := by
  constructor
  · rintro ⟨f', payload, sum', h', hp', hrest⟩
    obtain ⟨rfl, rfl, rfl⟩ := h.unique hp h' hp'
    exact ⟨payload, rfl, hrest⟩
  · rintro ⟨payload, rfl, hrest⟩
    exact ⟨f, payload, sum, h, hp, hrest⟩

theorem IsFrame.accepts_iff (m : M) : (∃ f', c.Accepts f' m ∧ f' <+: rest) ↔ ∃ payload,
    content = c.tag ++ payload ∧ c.checksum content = asInt32 sum ∧
      c.runtime.parseFromArray payload = some m := by
  constructor
  · rintro ⟨f', ⟨payload, sum', h', hrest⟩, hp'⟩
    obtain ⟨rfl, rfl, rfl⟩ := h.unique hp h' hp'
    exact ⟨payload, rfl, hrest⟩
  · rintro ⟨payload, rfl, hrest⟩
    exact ⟨f, ⟨payload, sum, h, hrest⟩, hp⟩

end

/-- Behind a whole frame's size, its three tests decide. -/
theorem IsFrame.parse_cases (h : c.IsFrame f content sum) :
    (c.checksum content ≠ asInt32 sum ∧ c.parse (content ++ sum) = .error .kCheckSumError) ∨
    (c.checksum content = asInt32 sum ∧ ¬c.tag <+: content ∧
      c.parse (content ++ sum) = .error .kUnknownMessageType) ∨
    ∃ payload, content = c.tag ++ payload ∧ c.checksum content = asInt32 sum ∧
      ((c.runtime.parseFromArray payload = none ∧
          c.parse (content ++ sum) = .error .kParseError) ∨
        ∃ m, c.runtime.parseFromArray payload = some m ∧ c.parse (content ++ sum) = .ok m) := by
  have hleast := h.least
  have hcut : (content ++ sum).length - kChecksumLen = content.length := by
    rw [List.length_append, h.sum, Nat.add_sub_cancel]
  have htake : (content ++ sum).take c.tag.length = content.take c.tag.length :=
    List.take_append_of_le_length hleast
  by_cases hsum : c.checksum content = asInt32 sum
  · by_cases htag : c.tag <+: content
    · refine .inr (.inr ?_)
      obtain ⟨payload, rfl⟩ := htag
      have hdata : ((c.tag ++ payload ++ sum).drop c.tag.length).take
          ((c.tag ++ payload).length - c.tag.length) = payload := by
        rw [List.append_assoc, List.drop_left, List.length_append, Nat.add_sub_cancel_left,
          List.take_left]
      refine ⟨payload, rfl, hsum, ?_⟩
      simp only [ProtobufCodecLite.parse, validateChecksum, hcut, List.take_left, List.drop_left,
        htake, hdata, hsum, decide_true, if_true]
      cases hparse : c.runtime.parseFromArray payload with
      | none => exact .inl ⟨rfl, rfl⟩
      | some m => exact .inr ⟨m, rfl, rfl⟩
    · have hne : content.take c.tag.length ≠ c.tag := fun heq =>
        htag (List.prefix_iff_eq_take.mpr heq.symm)
      refine .inr (.inl ⟨hsum, htag, ?_⟩)
      simp only [ProtobufCodecLite.parse, validateChecksum, hcut, List.take_left, List.drop_left,
        htake, hsum, decide_true, if_true, if_neg hne]
  · refine .inl ⟨hsum, ?_⟩
    simp only [ProtobufCodecLite.parse, validateChecksum, hcut, List.take_left, List.drop_left,
      hsum, decide_false, Bool.false_eq_true, if_false]

/-- A whole frame is accepted, or refused for exactly one reason. -/
theorem IsFrame.outcome (h : c.IsFrame f content sum) (hp : f <+: rest) :
    (∃ m, c.parse (content ++ sum) = .ok m ∧ c.Accepts f m) ∨
    ∃ e, c.parse (content ++ sum) = .error e ∧ (∀ e', e = e' ↔ c.FailsWith rest e') ∧
      ∀ f' m, c.Accepts f' m → ¬f' <+: rest := by
  have hcheckSum := h.fails_checkSum hp
  have htag := h.fails_tag hp
  have hparse := h.fails_parse hp
  have hlength := h.not_length hp
  have haccepts := h.accepts_iff hp
  rcases h.parse_cases with ⟨hne, hp⟩ | ⟨hsum, hno, hp⟩ |
    ⟨payload, rfl, hsum, ⟨hnone, hp⟩ | ⟨m, hm, hp⟩⟩
  · refine .inr ⟨_, hp, fun e' => ⟨?_, fun he => ?_⟩, fun f' m ha hf => ?_⟩
    · rintro rfl
      exact hcheckSum.mpr hne
    · cases e' with
      | kNoError | kInvalidNameLen => exact he.elim
      | kInvalidLength => exact absurd he hlength
      | kCheckSumError => rfl
      | kUnknownMessageType => exact absurd (htag.mp he).1 hne
      | kParseError =>
        obtain ⟨_, _, hsum, _⟩ := hparse.mp he
        exact absurd hsum hne
    · obtain ⟨payload, _, hsum, _⟩ := (haccepts m).mp ⟨f', ha, hf⟩
      exact hne hsum
  · refine .inr ⟨_, hp, fun e' => ⟨?_, fun he => ?_⟩, fun f' m ha hf => ?_⟩
    · rintro rfl
      exact htag.mpr ⟨hsum, hno⟩
    · cases e' with
      | kNoError | kInvalidNameLen => exact he.elim
      | kInvalidLength => exact absurd he hlength
      | kCheckSumError => exact absurd hsum (hcheckSum.mp he)
      | kUnknownMessageType => rfl
      | kParseError =>
        obtain ⟨_, rfl, _⟩ := hparse.mp he
        exact absurd (List.prefix_append _ _) hno
    · obtain ⟨payload, rfl, _, _⟩ := (haccepts m).mp ⟨f', ha, hf⟩
      exact hno (List.prefix_append _ _)
  · refine .inr ⟨_, hp, fun e' => ⟨?_, fun he => ?_⟩, fun f' m ha hf => ?_⟩
    · rintro rfl
      exact hparse.mpr ⟨payload, rfl, hsum, hnone⟩
    · cases e' with
      | kNoError | kInvalidNameLen => exact he.elim
      | kInvalidLength => exact absurd he hlength
      | kCheckSumError => exact absurd hsum (hcheckSum.mp he)
      | kUnknownMessageType => exact absurd (List.prefix_append _ _) (htag.mp he).2
      | kParseError => rfl
    · obtain ⟨payload', heq, _, hm⟩ := (haccepts m).mp ⟨f', ha, hf⟩
      obtain rfl := List.append_cancel_left heq
      cases hnone.symm.trans hm
  · exact .inl ⟨m, hp, payload, sum, h, hsum, hm⟩

/-- With no whole frame at the front, only the size can fail. -/
theorem fails_frameless (h : ∀ f content sum, c.IsFrame f content sum → ¬f <+: rest)
    {e : ErrorCode} (he : c.FailsWith rest e) : e = .kInvalidLength := by
  cases e with
  | kNoError | kInvalidNameLen => exact he.elim
  | kInvalidLength => rfl
  | kCheckSumError =>
    obtain ⟨f, content, sum, hf, hp, _⟩ := he
    exact absurd hp (h f content sum hf)
  | kUnknownMessageType =>
    obtain ⟨f, content, sum, hf, hp, _⟩ := he
    exact absurd hp (h f content sum hf)
  | kParseError =>
    obtain ⟨f, payload, sum, hf, hp, _⟩ := he
    exact absurd hp (h f _ sum hf)

theorem IsFrame.least_length (h : c.IsFrame f content sum) (hp : f <+: rest) :
    c.tag.length + 8 ≤ rest.length := by
  have hlen := h.length
  have hleast := h.least
  have hle := hp.length_le
  unfold kHeaderLen kChecksumLen at hlen
  omega

/-- One turn of the loop: it takes an acceptable frame off the front, or it ends, with the error
callback called once if the next bytes are to be refused. -/
theorem onMessage_turn (hraw : c.rawCb = none) (s : Received M) (buf : Bytes) :
    (∃ f m more, buf = f ++ more ∧ f ≠ [] ∧ c.Accepts f m ∧
      c.onMessage s buf = c.onMessage { s with messages := s.messages ++ [m] } more) ∨
    ∃ errs, c.onMessage s buf = .ok ({ s with errors := s.errors ++ errs }, buf) ∧
      errs.length ≤ 1 ∧ (∀ e, errs = [e] ↔ c.FailsWith buf e) ∧
      ∀ f m, c.Accepts f m → ¬f <+: buf := by
  have hmax : kMaxMessageLen = 67108864 := rfl
  have hk : kHeaderLen = 4 := rfl
  have hmin : c.kMinMessageLen = c.tag.length + 4 := rfl
  have hlift : (∀ f content sum, c.IsFrame f content sum → ¬f <+: buf) →
      ∀ f m, c.Accepts f m → ¬f <+: buf := by
    rintro hno f m ⟨payload, sum, hf, _⟩
    exact hno f _ sum hf
  by_cases hlong : c.kMinMessageLen + kHeaderLen ≤ buf.length
  · by_cases hrange : peekInt32 buf > kMaxMessageLen ∨ peekInt32 buf < c.kMinMessageLen
    · -- the size is out of range
      have hno : ∀ f content sum, c.IsFrame f content sum → ¬f <+: buf := by
        intro f content sum hf hp
        have hpeek := hf.peek hp
        have hleast := hf.least
        have hmost := hf.most
        unfold kChecksumLen at *
        omega
      have hfails : c.FailsWith buf .kInvalidLength := by
        refine ⟨by omega, ?_⟩
        unfold asInt32
        omega
      refine .inr ⟨[.kInvalidLength], ?_, Nat.le_refl 1, fun e => ?_, hlift hno⟩
      · rw [onMessage, if_pos hlong]
        simp only [if_pos hrange]
      · rw [List.cons.injEq, and_iff_left rfl]
        exact ⟨fun he => he ▸ hfails, fun he => (fails_frameless hno he).symm⟩
    · obtain ⟨len, hlen⟩ := Int.eq_ofNat_of_zero_le (a := peekInt32 buf) (by omega)
      by_cases hall : kHeaderLen + len ≤ buf.length
      · have hleast : c.kMinMessageLen ≤ len := by omega
        have hframe := frame_exists hleast (by omega) hlen hall
        have hp : buf.take (kHeaderLen + len) <+: buf := List.take_prefix _ _
        have hbody := body_parts (buf.drop kHeaderLen) len
        have hturn : c.onMessage s buf =
            match c.parse ((buf.drop kHeaderLen).take len) with
            | .ok message => c.onMessage { s with messages := s.messages ++ [message] }
                (buf.drop (kHeaderLen + len))
            | .error errorCode => .ok ({ s with errors := s.errors ++ [errorCode] }, buf) := by
          rw [onMessage, if_pos hlong]
          simp only [if_neg hrange]
          rw [hlen, Int.toNat_natCast, if_pos hall]
          refine (if_neg (by simp [hraw])).trans ?_
          generalize c.parse _ = parsed
          cases parsed <;> rfl
        rw [hturn, ← hbody]
        rcases hframe.outcome hp with ⟨m, hparse, ha⟩ | ⟨e, hparse, hfails, hno⟩
        · refine .inl ⟨_, m, buf.drop (kHeaderLen + len), (List.take_append_drop _ _).symm, ?_, ha,
            by rw [hparse]⟩
          intro hnil
          have hflen := hframe.length
          rw [hnil, List.length_nil] at hflen
          omega
        · refine .inr ⟨[e], by rw [hparse], Nat.le_refl 1, fun e' => ?_, hno⟩
          rw [List.cons.injEq, and_iff_left rfl]
          exact hfails e'
      · -- the frame is not complete
        have hno : ∀ f content sum, c.IsFrame f content sum → ¬f <+: buf := by
          intro f content sum hf hp
          have hpeek := hf.peek hp
          have hflen := hf.length
          have hle := hp.length_le
          omega
        refine .inr ⟨[], ?_, Nat.zero_le 1, fun e => ⟨fun he => (nomatch he), fun he => ?_⟩, hlift hno⟩
        · rw [onMessage, if_pos hlong]
          simp only [if_neg hrange]
          rw [hlen, Int.toNat_natCast, if_neg hall, List.append_nil]
        · obtain rfl := fails_frameless hno he
          obtain ⟨_, hbad⟩ := he
          unfold asInt32 at hbad
          omega
  · -- fewer bytes than the smallest frame
    have hno : ∀ f content sum, c.IsFrame f content sum → ¬f <+: buf := by
      intro f content sum hf hp
      have hleast := hf.least_length hp
      omega
    refine .inr ⟨[], ?_, Nat.zero_le 1, fun e => ⟨fun he => (nomatch he), fun he => ?_⟩, hlift hno⟩
    · rw [onMessage, if_neg hlong, List.append_nil]
    · obtain rfl := fails_frameless hno he
      have := he.1
      omega

/-- One call delivers the messages of the longest run of acceptable frames, leaves the buffer
behind them, and refuses what follows at most once and for the right reason. -/
theorem accepts_exactly (hraw : c.rawCb = none) (s : Received M) (buf : Bytes) :
    ∃ frames messages errors rest,
      c.onMessageAt s buf = .ok (⟨s.messages ++ messages, s.errors ++ errors⟩, rest) ∧
      buf = frames.flatten ++ rest ∧ List.Forall₂ c.Accepts frames messages ∧
      (∀ f m, c.Accepts f m → ¬f <+: rest) ∧
      errors.length ≤ 1 ∧ ∀ e, errors = [e] ↔ c.FailsWith rest e := by
  rw [onMessageAt_eq]
  induction hl : buf.length using Nat.strongRecOn generalizing s buf with
  | ind l ih =>
    rcases onMessage_turn hraw s buf with ⟨f, m, more, rfl, hne, ha, hturn⟩ |
      ⟨errs, hturn, hle, hfails, hno⟩
    · have hpos := List.length_pos_iff.mpr hne
      obtain ⟨frames, messages, errors, rest, hrun, hsplit, hall, hno, hle, hfails⟩ :=
        ih more.length (by rw [List.length_append] at hl; omega)
          { s with messages := s.messages ++ [m] } more rfl
      refine ⟨f :: frames, m :: messages, errors, rest, ?_, ?_, .cons ha hall, hno, hle, hfails⟩
      · rw [hturn, hrun, List.append_assoc, List.singleton_append]
      · rw [List.flatten_cons, List.append_assoc, ← hsplit]
    · exact ⟨[], [], errs, buf, by rw [hturn, List.append_nil], rfl, .nil, hno, hle, hfails⟩

/-- A frame, one with a broken checksum, and more. -/
def sampleBytes : Bytes :=
  sampleCodec.frame ⟨5, by decide⟩ ++ ([0, 0, 0, 8, 82, 80, 67, 48, 0, 0, 0, 0] ++ [0, 0])

theorem accepts_exactly_sample :
    ∃ frames messages errors rest,
      sampleCodec.onMessageAt ⟨[], []⟩ sampleBytes =
        .ok (⟨[] ++ messages, [] ++ errors⟩, rest) ∧
      sampleBytes = frames.flatten ++ rest ∧ List.Forall₂ sampleCodec.Accepts frames messages ∧
      (∀ f m, sampleCodec.Accepts f m → ¬f <+: rest) ∧
      errors.length ≤ 1 ∧ ∀ e, errors = [e] ↔ sampleCodec.FailsWith rest e :=
  accepts_exactly rfl ⟨[], []⟩ sampleBytes

example : sampleCodec.onMessage ⟨[], []⟩ sampleBytes =
    .ok (⟨[5], [.kCheckSumError]⟩, [0, 0, 0, 8, 82, 80, 67, 48, 0, 0, 0, 0, 0, 0]) := by
  decide +kernel

end ProtobufCodecLite

end Muduo.Net
