import Muduo.Examples.Codec
import Muduo.Lib.Loop

namespace Muduo.Examples.Codec
open Muduo.Lib Muduo.Net

/-- The callbacks act on a world of their own; the error callback has the buffer as well. -/
abbrev MessageCallback (σ M : Type) := σ → M → σ

abbrev ErrorCallback (σ : Type) := σ → Bytes → ErrorCode → σ × Bytes

/-- The callback leaves the buffer alone. -/
def LeavesBuffer {σ : Type} (cb : ErrorCallback σ) : Prop :=
  ∀ world buff errorCode, (cb world buff errorCode).2 = buff

/-- The members `messageCallback_` and `errorCallback_`; an empty `std::function` is `none`. -/
structure Members (σ M : Type) where
  messageCallback : MessageCallback σ M
  errorCallback : Option (ErrorCallback σ)

def errorCodeToString : ErrorCode → Bytes
  | .kNoError => ascii "NoError"
  | .kInvalidLength => ascii "InvalidLength"
  | .kCheckSumError => ascii "CheckSumError"
  | .kInvalidNameLen => ascii "InvalidNameLen"
  | .kUnknowMessageType => ascii "UnknowMessageTypeError"
  | .kParseError => ascii "ParseError"

/-- What the default callback uses of a connection; `logged` are the names and error texts. -/
structure Connection where
  name : Bytes
  connected : Bool
  shutdowns : Nat
  logged : List (Bytes × Bytes)
  deriving DecidableEq, Repr

def defaultErrorCallback : ErrorCallback Connection := fun conn buff errorCode =>
  let conn := { conn with logged := conn.logged ++ [(conn.name, errorCodeToString errorCode)] }
  (if conn.connected then { conn with connected := false, shutdowns := conn.shutdowns + 1 }
    else conn, buff)

variable {σ D M : Type} (p : Protobuf D M)

/-- The constructor, whose second argument is not used. -/
def new (cb : MessageCallback σ M) (_ : ErrorCallback σ) : Members σ M := ⟨cb, none⟩

/-- A call of `onMessage` where a round of its loop begins; `errors` are the calls of
`errorCallback_` so far, each with the bytes that were readable. -/
structure Call (σ : Type) where
  world : σ
  buff : Bytes
  errors : List (ErrorCode × Bytes)
  deriving DecidableEq

def callError (c : Members σ M) (s : Call σ) (errorCode : ErrorCode) : Except Thrown (Call σ) :=
  match c.errorCallback with
  | none => .error (.badFunctionCall errorCode)
  | some cb =>
    let (world, buff) := cb s.world s.buff errorCode
    .ok ⟨world, buff, s.errors ++ [(errorCode, s.buff)]⟩

/-- The body of the loop of `onMessage`, with the test of the loop before it. The branch for a
length out of range has no `break`. -/
def round (c : Members σ M) (s : Call σ) : Except Thrown (Turn (Call σ)) :=
  if kMinMessageLen + kHeaderLen ≤ s.buff.length then
    let len := peekInt32 s.buff
    if len > kMaxMessageLen ∨ len < kMinMessageLen then do
      let s ← callError c s .kInvalidLength
      .ok (.again s)
    else if kHeaderLen + len.toNat ≤ s.buff.length then
      match parse p ((s.buff.drop kHeaderLen).take len.toNat) with
      | .ok message =>
        .ok (.again { s with
          world := c.messageCallback s.world message
          buff := s.buff.drop (kHeaderLen + len.toNat) })
      | .error errorCode => do
        let s ← callError c s errorCode
        .ok (.done s)
    else .ok (.done s)
  else .ok (.done s)

/-- A whole frame: its length, and a body of that length. -/
structure Whole (f body : Bytes) : Prop where
  bytes : f = BigEndian.encode 4 body.length ++ body
  least : kMinMessageLen ≤ body.length
  most : body.length ≤ kMaxMessageLen

/-- The frame at the front is malformed: its length is out of range, or it is refused whole. -/
inductive Malformed (buff : Bytes) : ErrorCode → Prop
  | length : kMinMessageLen + kHeaderLen ≤ buff.length →
    (peekInt32 buff > kMaxMessageLen ∨ peekInt32 buff < kMinMessageLen) →
    Malformed buff .kInvalidLength
  | frame (f body : Bytes) {errorCode : ErrorCode} : Whole f body → f <+: buff →
    parse p body = .error errorCode → Malformed buff errorCode

/-- Whole frames with these messages stand at the front, the rest behind them. -/
inductive Takes : Bytes → List M → Bytes → Prop
  | nil (buff : Bytes) : Takes buff [] buff
  | cons (f body more : Bytes) {m : M} {ms : List M} {rest : Bytes} : Whole f body →
    parse p body = .ok m → Takes more ms rest → Takes (f ++ more) (m :: ms) rest

/-- The code gets to a malformed frame. -/
def MeetsMalformed (buff : Bytes) : Prop :=
  ∃ ms rest errorCode, Takes p buff ms rest ∧ Malformed p rest errorCode

/-- What is asked of a call: it returns, each round but the last takes a whole frame off the
front, and for a malformed frame the callback given to the constructor is called, once. -/
structure Survives (cb : MessageCallback σ M) (errorCb : ErrorCallback σ) (s : Call σ) : Prop where
  consumes : ∀ t u, Heads (round p (new cb errorCb)) s t →
    round p (new cb errorCb) t = .ok (.again u) → ∃ f body, Whole f body ∧ t.buff = f ++ u.buff
  returns : ∃ fuel ms t, loop (round p (new cb errorCb)) fuel s = some (.ok t) ∧
    Takes p s.buff ms t.buff ∧
    (∀ errorCode, Malformed p t.buff errorCode →
      t.world = (errorCb (ms.foldl cb s.world) t.buff errorCode).1 ∧
        t.errors = s.errors ++ [(errorCode, t.buff)]) ∧
    ((∀ errorCode, ¬Malformed p t.buff errorCode) →
      t.world = ms.foldl cb s.world ∧ t.errors = s.errors)

variable {p} {c : Members σ M} {s : Call σ} {f f' body body' buff rest : Bytes} {m : M}
  {ms : List M} {e e' : ErrorCode}

theorem defaultErrorCallback_leaves : LeavesBuffer defaultErrorCallback := fun _ _ _ => rfl

theorem Whole.length (h : Whole f body) : f.length = kHeaderLen + body.length := by
  rw [h.bytes, List.length_append, BigEndian.encode_length, kHeaderLen]

theorem Whole.peek (h : Whole f body) (hp : f <+: buff) : peekInt32 buff = body.length := by
  have hmost := h.most
  unfold kMaxMessageLen at hmost
  obtain ⟨more, rfl⟩ := hp
  rw [h.bytes, List.append_assoc]
  exact peekInt32_encode (by omega) _

/-- The length in front tells the frame apart. -/
theorem Whole.unique (h : Whole f body) (hp : f <+: buff) (h' : Whole f' body')
    (hp' : f' <+: buff) : f = f' ∧ body = body' := by
  have hpeek := (h.peek hp).symm.trans (h'.peek hp')
  have hlen := h.length
  have hlen' := h'.length
  have hf : f = f' :=
    (List.prefix_of_prefix_length_le hp hp' (by omega)).eq_of_length (by omega)
  have hbytes := h.bytes.symm.trans (hf.trans h'.bytes)
  have hbody : body.length = body'.length := by omega
  rw [hbody] at hbytes
  exact ⟨hf, List.append_cancel_left hbytes⟩

theorem Whole.body_eq (h : Whole f body) (more : Bytes) :
    ((f ++ more).drop kHeaderLen).take body.length = body := by
  rw [h.bytes, List.append_assoc, List.drop_left' (by rw [BigEndian.encode_length, kHeaderLen]),
    List.take_left]

/-- Where the length is in range and all of its bytes are there, a whole frame stands. -/
theorem whole_exists {len : Nat} (hleast : kMinMessageLen ≤ len) (hmost : len ≤ kMaxMessageLen)
    (hlen : peekInt32 buff = len) (hall : kHeaderLen + len ≤ buff.length) :
    Whole (buff.take (kHeaderLen + len)) ((buff.drop kHeaderLen).take len) := by
  have hk : kHeaderLen = 4 := rfl
  have hmax : kMaxMessageLen = 67108864 := rfl
  have hbody : ((buff.drop kHeaderLen).take len).length = len := by
    rw [List.length_take, List.length_drop]
    omega
  have hsize : BigEndian.encode 4 len = buff.take kHeaderLen := by
    rw [hk, ← encode_peekInt32 (b := buff) (by omega), hlen, Word.ofSigned_natCast 32 (by omega)]
  refine ⟨?_, by omega, by omega⟩
  rw [hbody, hsize, List.take_add]

/-- With a whole frame at the front, the body decides. -/
theorem round_whole (h : Whole f body) {more : Bytes} (hs : s.buff = f ++ more) :
    round p c s = match parse p body with
      | .ok message => .ok (.again { s with
          world := c.messageCallback s.world message, buff := more })
      | .error errorCode => callError c s errorCode >>= fun t => .ok (.done t) := by
  have hpeek := h.peek (show f <+: s.buff from hs ▸ List.prefix_append f more)
  have hleast := h.least
  have hmost := h.most
  have hlen := h.length
  have htotal : s.buff.length = f.length + more.length := by rw [hs, List.length_append]
  have hrange : ¬((body.length : Int) > kMaxMessageLen ∨ (body.length : Int) < kMinMessageLen) := by
    omega
  have hdrop : s.buff.drop (kHeaderLen + body.length) = more := by
    rw [hs, ← hlen, List.drop_left]
  have hbody : (s.buff.drop kHeaderLen).take body.length = body := by
    rw [hs]
    exact h.body_eq more
  rw [round, if_pos (by omega)]
  simp only [hpeek]
  rw [if_neg hrange, Int.toNat_natCast, if_pos (by omega), hbody, hdrop]

theorem round_length (hmin : kMinMessageLen + kHeaderLen ≤ s.buff.length)
    (hrange : peekInt32 s.buff > kMaxMessageLen ∨ peekInt32 s.buff < kMinMessageLen) :
    round p c s = callError c s .kInvalidLength >>= fun t => .ok (.again t) := by
  rw [round, if_pos hmin]
  exact if_pos hrange

/-- One round takes a frame, has the error callback called for a malformed one, or finds that
there is nothing more to do. -/
theorem round_cases (c : Members σ M) (s : Call σ) :
    (∃ f body m more, Whole f body ∧ parse p body = .ok m ∧ s.buff = f ++ more ∧
      round p c s = .ok (.again { s with world := c.messageCallback s.world m, buff := more })) ∨
    (∃ (e : ErrorCode) (next : Call σ → Turn (Call σ)), Malformed p s.buff e ∧
      round p c s = callError c s e >>= fun t => .ok (next t)) ∨
    ((∀ e, ¬Malformed p s.buff e) ∧ round p c s = .ok (.done s)) := by
  have hmax : kMaxMessageLen = 67108864 := rfl
  have hk : kHeaderLen = 4 := rfl
  by_cases hmin : kMinMessageLen + kHeaderLen ≤ s.buff.length
  · by_cases hrange : peekInt32 s.buff > kMaxMessageLen ∨ peekInt32 s.buff < kMinMessageLen
    · exact .inr (.inl ⟨_, _, .length hmin hrange, round_length hmin hrange⟩)
    · obtain ⟨len, hlen⟩ := Int.eq_ofNat_of_zero_le (a := peekInt32 s.buff) (by omega)
      by_cases hall : kHeaderLen + len ≤ s.buff.length
      · have hwhole := whole_exists (by omega) (by omega) hlen hall
        have hsplit := (List.take_append_drop (kHeaderLen + len) s.buff).symm
        have hround := round_whole (p := p) (c := c) hwhole hsplit
        cases hparse : parse p ((s.buff.drop kHeaderLen).take len) with
        | ok m =>
          rw [hparse] at hround
          exact .inl ⟨_, _, m, _, hwhole, hparse, hsplit, hround⟩
        | error e =>
          rw [hparse] at hround
          exact .inr (.inl ⟨e, _, .frame _ _ hwhole (List.take_prefix _ _) hparse, hround⟩)
      · -- the frame is not complete
        refine .inr (.inr ⟨fun e he => ?_, ?_⟩)
        · cases he with
          | length _ hbad => exact hrange hbad
          | frame f body hwhole hp _ =>
            have hpeek := hwhole.peek hp
            have hflen := hwhole.length
            have hle := hp.length_le
            omega
        · rw [round, if_pos hmin]
          simp only
          rw [if_neg hrange, hlen, Int.toNat_natCast, if_neg hall]
  · -- fewer bytes than the smallest frame
    refine .inr (.inr ⟨fun e he => ?_, if_neg hmin⟩)
    cases he with
    | length hle _ => exact hmin hle
    | frame f body hwhole hp _ =>
      have hleast := hwhole.least
      have hflen := hwhole.length
      have hle := hp.length_le
      omega

section

variable (cb : MessageCallback σ M) (errorCb : ErrorCallback σ)

theorem round_malformed (he : Malformed p s.buff e) :
    round p (new cb errorCb) s = .error (.badFunctionCall e) := by
  cases he with
  | length hmin hrange => exact round_length hmin hrange
  | frame f body hwhole hp hparse =>
    obtain ⟨more, hmore⟩ := hp
    rw [round_whole hwhole hmore.symm, hparse]
    rfl

/-- Once the frames in front are taken, a malformed one makes the call throw. -/
theorem loop_throws (ht : Takes p buff ms rest) (he : Malformed p rest e) (world : σ)
    (errors : List (ErrorCode × Bytes)) :
    ∃ fuel, loop (round p (new cb errorCb)) fuel ⟨world, buff, errors⟩ =
      some (.error (.badFunctionCall e)) := by
  induction ht generalizing world with
  | nil buff => exact ⟨1, loop_error (round_malformed cb errorCb he)⟩
  | cons f body more hwhole hparse _ ih =>
    obtain ⟨fuel, hfuel⟩ := ih he (cb world _)
    have hround := round_whole (p := p) (c := new cb errorCb)
      (s := ⟨world, f ++ more, errors⟩) hwhole rfl
    rw [hparse] at hround
    exact ⟨fuel + 1, (loop_again hround).trans hfuel⟩

/-- With no malformed frame on its way the call takes all whole frames and returns. -/
theorem loop_returns (s : Call σ) (h : ¬MeetsMalformed p s.buff) :
    ∃ fuel ms t, loop (round p (new cb errorCb)) fuel s = some (.ok t) ∧ Takes p s.buff ms t.buff ∧
      t.world = ms.foldl cb s.world ∧ t.errors = s.errors := by
  induction hl : s.buff.length using Nat.strongRecOn generalizing s with
  | ind l ih =>
    rcases round_cases (p := p) (new cb errorCb) s with ⟨f, body, m, more, hwhole, hparse, hs, hround⟩ |
      ⟨e, _, he, _⟩ | ⟨_, hround⟩
    · have hmore : more.length < l := by
        rw [← hl, hs, List.length_append, hwhole.length, kHeaderLen]
        omega
      have hno : ¬MeetsMalformed p more := by
        rintro ⟨ms, rest, e, ht, he⟩
        exact h ⟨m :: ms, rest, e, hs ▸ .cons f body more hwhole hparse ht, he⟩
      obtain ⟨fuel, ms, t, hloop, ht, hworld, herrors⟩ :=
        ih more.length hmore { s with world := cb s.world m, buff := more } hno rfl
      exact ⟨fuel + 1, m :: ms, t, (loop_again hround).trans hloop,
        hs ▸ .cons f body more hwhole hparse ht, hworld, herrors⟩
    · exact absurd ⟨[], s.buff, e, .nil _, he⟩ h
    · exact ⟨1, [], s, loop_done hround, .nil _, rfl, rfl⟩

/-- On every input the call ends, by returning or by throwing. -/
theorem new_terminates (s : Call σ) :
    ∃ fuel r, loop (round p (new cb errorCb)) fuel s = some r := by
  by_cases h : MeetsMalformed p s.buff
  · obtain ⟨ms, rest, e, ht, he⟩ := h
    obtain ⟨fuel, hfuel⟩ := loop_throws cb errorCb ht he s.world s.errors
    exact ⟨fuel, _, hfuel⟩
  · obtain ⟨fuel, ms, t, hfuel, _⟩ := loop_returns cb errorCb s h
    exact ⟨fuel, _, hfuel⟩

theorem meets_not_survives (h : MeetsMalformed p s.buff) : ¬Survives p cb errorCb s := by
  obtain ⟨ms, rest, e, ht, he⟩ := h
  intro hs
  obtain ⟨fuel, hfuel⟩ := loop_throws cb errorCb ht he s.world s.errors
  obtain ⟨fuel', _, t, hfuel', _⟩ := hs.returns
  cases loop_unique hfuel hfuel'

/-- The call does what it should exactly when it meets no malformed frame. -/
theorem survives_iff (s : Call σ) : Survives p cb errorCb s ↔ ¬MeetsMalformed p s.buff := by
  constructor
  · intro hs h
    exact meets_not_survives cb errorCb h hs
  · intro h
    constructor
    · intro t u _ hround
      rcases round_cases (p := p) (new cb errorCb) t with
        ⟨f, body, m, more, hwhole, _, ht, hagain⟩ | ⟨e, _, _, herror⟩ | ⟨_, hdone⟩
      · cases hagain.symm.trans hround
        exact ⟨f, body, hwhole, ht⟩
      · cases herror.symm.trans hround
      · cases hdone.symm.trans hround
    · obtain ⟨fuel, ms, t, hloop, ht, hworld, herrors⟩ := loop_returns cb errorCb s h
      refine ⟨fuel, ms, t, hloop, ht, fun e he => ?_, fun _ => ⟨hworld, herrors⟩⟩
      exact absurd ⟨ms, t.buff, e, ht, he⟩ h

end

/-- A length field of zero, and the ten bytes the loop waits for. -/
def zeroLength : Bytes := List.replicate 14 0

def sampleCall : Call Connection := ⟨⟨ascii "conn", true, 0, []⟩, zeroLength, []⟩

theorem zeroLength_malformed : Malformed sampleProtobuf zeroLength .kInvalidLength :=
  .length (by decide) (.inr (by decide))

theorem default_callback_dropped : LeavesBuffer defaultErrorCallback ∧
    ¬Survives sampleProtobuf (fun conn _ => conn) defaultErrorCallback sampleCall :=
  ⟨defaultErrorCallback_leaves,
    meets_not_survives _ _ ⟨[], zeroLength, _, .nil _, zeroLength_malformed⟩⟩

/-- A codec that kept its callback would turn for ever on a length out of range. -/
theorem kept_spins {c : Members σ M} {errorCb : ErrorCallback σ} (hc : c.errorCallback = some errorCb)
    (hcb : LeavesBuffer errorCb) (ht : Takes p s.buff ms rest)
    (hmin : kMinMessageLen + kHeaderLen ≤ rest.length)
    (hrange : peekInt32 rest > kMaxMessageLen ∨ peekInt32 rest < kMinMessageLen) (fuel : Nat) :
    loop (round p c) fuel s = none := by
  refine loop_never (I := fun s => ∃ ms, Takes p s.buff ms rest) ?_ ⟨ms, ht⟩ fuel
  rintro ⟨world, buff, errors⟩ ⟨ms, ht⟩
  cases ht with
  | nil =>
    refine ⟨⟨(errorCb world buff .kInvalidLength).1, buff, errors ++ [(.kInvalidLength, buff)]⟩, ?_,
      [], .nil buff⟩
    rw [round_length hmin hrange, callError, hc]
    simp only [hcb world buff .kInvalidLength, ok_bind]
  | cons f body more hwhole hparse ht =>
    have hround := round_whole (p := p) (c := c) (s := ⟨world, f ++ more, errors⟩) hwhole rfl
    rw [hparse] at hround
    exact ⟨_, hround, _, ht⟩

/-- With the messages for its world, the loop is `onMessage`. -/
theorem loop_onMessage (errorCb : ErrorCallback (List M)) (received : List M) (buff : Bytes) :
    ∃ fuel, loop (round p (new (fun ms m => ms ++ [m]) errorCb)) fuel ⟨received, buff, []⟩ =
      some ((onMessage p received buff).map fun r => ⟨r.1, r.2, []⟩) := by
  induction received, buff using onMessage.induct p with
  | case1 received buff hmin len hrange =>
    have hround := round_malformed (p := p) (s := ⟨received, buff, []⟩) (fun ms m => ms ++ [m])
      errorCb (.length hmin hrange)
    refine ⟨1, (loop_error hround).trans ?_⟩
    rw [onMessage, if_pos hmin]
    simp only
    rw [if_pos hrange]
    rfl
  | case2 received buff hmin len hrange hall message hparse ih =>
    obtain ⟨fuel, hfuel⟩ := ih
    have hcall : onMessage p received buff =
        onMessage p (received ++ [message]) (buff.drop (kHeaderLen + len.toNat)) := by
      rw [onMessage, if_pos hmin]
      simp only
      rw [if_neg hrange, if_pos hall, hparse]
    refine ⟨fuel + 1, (loop_again ?_).trans (hfuel.trans (by rw [hcall]))⟩
    rw [round, if_pos hmin]
    simp only
    rw [if_neg hrange, if_pos hall, hparse]
    rfl
  | case3 received buff hmin len hrange hall errorCode hparse =>
    refine ⟨1, (loop_error (f := .badFunctionCall errorCode) ?_).trans ?_⟩
    · rw [round, if_pos hmin]
      simp only
      rw [if_neg hrange, if_pos hall, hparse]
      rfl
    · rw [onMessage, if_pos hmin]
      simp only
      rw [if_neg hrange, if_pos hall, hparse]
      rfl
  | case4 received buff hmin len hrange hall =>
    refine ⟨1, (loop_done (t := ⟨received, buff, []⟩) ?_).trans ?_⟩
    · rw [round, if_pos hmin]
      simp only
      rw [if_neg hrange, if_neg hall]
    · rw [onMessage, if_pos hmin]
      simp only
      rw [if_neg hrange, if_neg hall]
      rfl
  | case5 received buff hmin =>
    refine ⟨1, (loop_done (t := ⟨received, buff, []⟩) ?_).trans ?_⟩
    · rw [round, if_neg hmin]
    · rw [onMessage, if_neg hmin]
      rfl

end Muduo.Examples.Codec
