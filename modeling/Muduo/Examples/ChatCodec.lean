import Muduo.Lib.Framing
import Muduo.Net.Basic

namespace Muduo.Examples
open Muduo.Lib Muduo.Net

/-- The receiving side of a chat connection: what `messageCallback_` got, and how often the
codec told the connection to close. -/
structure ChatReceiver where
  messages : List Bytes
  forceCloses : Nat
  deriving DecidableEq, Repr

namespace ChatReceiver

def headerLen : Nat := 4
def uint16Max : Nat := 2 ^ 16 - 1

/-- What `Codec::send` hands to the connection: the body is appended to a fresh buffer, and its
length, cut to 32 bits, prepended. -/
def send (message : Bytes) : Bytes := BigEndian.encode 4 message.length ++ message

/-- `Codec::onMessage` on the readable bytes of `buff`; returns what it leaves of them. -/
def onMessage (c : ChatReceiver) (buff : Bytes) : Except Fault (ChatReceiver × Bytes) :=
  if headerLen ≤ buff.length then
    let len := Word.ofSigned 32 (peekInt32 buff)
    if len > uint16Max then .ok ({ c with forceCloses := c.forceCloses + 1 }, buff)
    else if len + headerLen ≤ buff.length then
      let body := buff.drop headerLen
      onMessage { c with messages := c.messages ++ [body.take len] } (body.drop len)
    else .ok (c, buff)
  else .ok (c, buff)
termination_by buff.length
decreasing_by
  simp only [List.length_drop]
  unfold headerLen at *
  omega

/-- Messages whose length the receiver admits. -/
def Admitted (m : Bytes) : Prop := m.length ≤ uint16Max

instance (m : Bytes) : Decidable (Admitted m) := inferInstanceAs (Decidable (_ ≤ _))

def receiver : Receiver ChatReceiver Bytes UInt8 Fault where
  encode := send
  deliver c m := { c with messages := c.messages ++ [m] }
  run := onMessage

variable {m : Bytes}

theorem send_length (m : Bytes) : (send m).length = headerLen + m.length := by
  rw [send, List.length_append, BigEndian.encode_length, headerLen]

theorem peek_length (hm : m.length < 2 ^ 31) (rest : Bytes) :
    Word.ofSigned 32 (peekInt32 (send m ++ rest)) = m.length := by
  rw [send, List.append_assoc, peekInt32_encode hm]
  exact Word.ofSigned_natCast 32 (by omega)

theorem onMessage_frame (c : ChatReceiver) (h : Admitted m) (rest : Bytes) :
    c.onMessage (send m ++ rest) =
      onMessage { c with messages := c.messages ++ [m] } rest := by
  have hlen := send_length m
  have hmax : m.length ≤ 65535 := h
  have htotal : (send m ++ rest).length = headerLen + m.length + rest.length := by
    rw [List.length_append, hlen]
  have hbody : (send m ++ rest).drop headerLen = m ++ rest := by
    rw [send, List.append_assoc, List.drop_left' (by simp [headerLen])]
  rw [onMessage, if_pos (by omega)]
  simp only [peek_length (by omega : m.length < 2 ^ 31), hbody]
  rw [if_neg (not_lt.mpr h), if_pos (by omega), List.take_left, List.drop_left]

theorem onMessage_incomplete (c : ChatReceiver) (h : Admitted m) {k : Nat}
    (hk : k < (send m).length) :
    c.onMessage ((send m).take k) = .ok (c, (send m).take k) := by
  have hlen := send_length m
  have hmax : m.length ≤ 65535 := h
  have htake : ((send m).take k).length = k := by
    rw [List.length_take, Nat.min_eq_left (Nat.le_of_lt hk)]
  rw [onMessage]
  split
  · rename_i hheader
    -- the whole length field is there
    have hpeek : Word.ofSigned 32 (peekInt32 ((send m).take k)) = m.length := by
      have h4 : ((send m).take k).take 4 = (send m ++ []).take 4 := by
        rw [List.take_take, List.append_nil,
          Nat.min_eq_left (by unfold headerLen at hheader; omega)]
      rw [← peek_length (by omega : m.length < 2 ^ 31) [], peekInt32, peekInt32, h4]
    simp only [hpeek, htake]
    rw [if_neg (not_lt.mpr h), if_neg (by omega)]
  · rfl

/-- The receiver closes the connection at a length it does not admit. -/
theorem onMessage_long (c : ChatReceiver) (h : ¬Admitted m) (hm : m.length < 2 ^ 31)
    (rest : Bytes) : c.onMessage (send m ++ rest) =
      .ok ({ c with forceCloses := c.forceCloses + 1 }, send m ++ rest) := by
  rw [onMessage, if_pos (by rw [List.length_append, send_length]; omega)]
  simp only [peek_length hm]
  rw [if_pos (not_le.mp h)]

theorem receiver_exact : receiver.Exact Admitted := by
  refine ⟨fun m _ => ?_, fun c m rest h => onMessage_frame c h rest,
    fun c m k h hk => onMessage_incomplete c h hk, fun c => ?_⟩
  · intro hnil
    have hlen := send_length m
    rw [show send m = [] from hnil, List.length_nil] at hlen
    unfold headerLen at hlen
    omega
  · simp [receiver, onMessage, headerLen]

def idle : ChatReceiver := ⟨[], 0⟩

/-- However the frames of `ms` are cut, and after any part of them: the complete messages have
been handed over, in order, the connection stays open, and only an incomplete frame is left. -/
def RoundTrip (ms : List Bytes) : Prop :=
  (∀ chunks : List Bytes, chunks.flatten <+: ms.flatMap send →
    receiver.feed (idle, []) chunks =
      .ok (⟨receiver.completed ms chunks.flatten.length, 0⟩,
        receiver.remainder ms chunks.flatten.length)) ∧
    ∀ chunks : List Bytes, chunks.flatten = ms.flatMap send →
      receiver.feed (idle, []) chunks = .ok (⟨ms, 0⟩, [])

theorem foldl_deliver (ms : List Bytes) (c : ChatReceiver) :
    ms.foldl receiver.deliver c = ⟨c.messages ++ ms, c.forceCloses⟩ := by
  induction ms generalizing c with
  | nil => rw [List.foldl_nil, List.append_nil]
  | cons m ms ih =>
    rw [List.foldl_cons, ih]
    simp [receiver]

theorem admitted_round_trip {ms : List Bytes} (h : ∀ m ∈ ms, Admitted m) : RoundTrip ms := by
  have hpart : ∀ chunks : List Bytes, chunks.flatten <+: ms.flatMap send →
      receiver.feed (idle, []) chunks =
        .ok (⟨receiver.completed ms chunks.flatten.length, 0⟩,
          receiver.remainder ms chunks.flatten.length) := by
    intro chunks hc
    rw [receiver_exact.feed_frames h idle hc, foldl_deliver]
    rfl
  refine ⟨hpart, fun chunks hc => ?_⟩
  rw [hpart chunks (hc ▸ List.prefix_refl _), hc]
  have hall := receiver.completed_all ms
  have hrest := receiver.remainder_all ms
  simp only [receiver] at hall hrest ⊢
  rw [hall, hrest]

theorem admitted_round_trip_sample : RoundTrip [[], [104, 105], []] :=
  admitted_round_trip (by decide)

/-- A body of 65536 bytes is sent, and makes the receiver close the connection. -/
theorem long_message_closes : ¬∀ ms : List Bytes, (∀ m ∈ ms, m.length < 2 ^ 31) → RoundTrip ms := by
  intro hall
  have hlen : (List.replicate 65536 (0 : UInt8)).length = 65536 := List.length_replicate
  generalize List.replicate 65536 (0 : UInt8) = m at hlen
  have hm : m.length < 2 ^ 31 := by omega
  have hlong : ¬Admitted m := by
    unfold Admitted uint16Max
    omega
  have hfeed := (hall [m] (by simpa using hm)).2 [send m] (by simp)
  have hclose : onMessage idle ([] ++ send m) = .ok (⟨[], 1⟩, send m) := by
    rw [List.nil_append, ← List.append_nil (send m), onMessage_long idle hlong hm, idle]
  have hrun : receiver.feed (idle, []) [send m] = .ok (⟨[], 1⟩, send m) := by
    rw [Receiver.feed, List.foldlM_cons, Receiver.arrive]
    simp only [receiver, hclose, ok_bind]
    rfl
  rw [hrun] at hfeed
  simp at hfeed

end ChatReceiver

end Muduo.Examples
