import Muduo.Net.OutputStream

namespace Muduo.Net
open Muduo.Lib

namespace TcpConnection

/-- What an operation that moves no data leaves alone. -/
structure Still (c c' : TcpConnection) : Prop where
  sound : c'.Sound
  inputBuffer : c'.inputBuffer = c.inputBuffer
  outputBuffer : c'.outputBuffer = c.outputBuffer
  pendingFunctors : c'.pendingFunctors = c.pendingFunctors
  highWaterMark : c'.highWaterMark = c.highWaterMark
  highWaterMarkCallback : c'.highWaterMarkCallback = c.highWaterMarkCallback
  accepted : c'.log.accepted = c.log.accepted

variable {c c' : TcpConnection} {message rest : Bytes} {w : WriteResult}

theorem handleClose_still (hs : c.Sound) (h : c.handleClose = .ok c') :
    Still c c' ∧ c.state ≠ .kDisconnected ∧ c'.state = .kDisconnected := by
  unfold handleClose at h
  by_cases hst : c.state = .kConnected ∨ c.state = .kDisconnecting
  · rw [check_pos hst] at h
    simp only [ok_bind, Channel.disableAll_eq hs.channel] at h
    cases h
    exact ⟨⟨⟨hs.input, hs.output, Channel.settle_consistent _⟩, rfl, rfl, rfl, rfl, rfl, rfl⟩,
      up_ne hst, rfl⟩
  · rw [check_neg hst] at h
    exact nomatch h

theorem startReadInLoop_still (hs : c.Sound) (h : c.startReadInLoop = .ok c') :
    Still c c' ∧ c'.state = c.state := by
  unfold startReadInLoop at h
  split at h
  · rw [Channel.enableReading_eq hs.channel, ok_bind] at h
    cases h
    exact ⟨⟨⟨hs.input, hs.output, Channel.settle_consistent _⟩, rfl, rfl, rfl, rfl, rfl, rfl⟩, rfl⟩
  · cases h
    exact ⟨⟨hs, rfl, rfl, rfl, rfl, rfl, rfl⟩, rfl⟩

theorem stopReadInLoop_still (hs : c.Sound) (h : c.stopReadInLoop = .ok c') :
    Still c c' ∧ c'.state = c.state := by
  unfold stopReadInLoop at h
  split at h
  · rw [Channel.disableReading_eq hs.channel, ok_bind] at h
    cases h
    exact ⟨⟨⟨hs.input, hs.output, Channel.settle_consistent _⟩, rfl, rfl, rfl, rfl, rfl, rfl⟩, rfl⟩
  · cases h
    exact ⟨⟨hs, rfl, rfl, rfl, rfl, rfl, rfl⟩, rfl⟩

theorem removeChannel_still (hs : c.Sound) (h : c.removeChannel = .ok c') :
    Still c c' ∧ c'.state = c.state := by
  obtain ⟨channel, hc, h⟩ := bind_ok h
  cases h
  have hcon := ((Channel.remove_yields hs.channel).of_ok hc).1
  exact ⟨⟨⟨hs.input, hs.output, hcon⟩, rfl, rfl, rfl, rfl, rfl, rfl⟩, rfl⟩

theorem shutdownInLoop_still (hs : c.Sound) :
    Still c c.shutdownInLoop ∧ c.shutdownInLoop.state = c.state := by
  unfold shutdownInLoop
  split
  · exact ⟨⟨hs, rfl, rfl, rfl, rfl, rfl, rfl⟩, rfl⟩
  · exact ⟨⟨⟨hs.input, hs.output, hs.channel⟩, rfl, rfl, rfl, rfl, rfl, rfl⟩, rfl⟩

theorem shutdown_still (hs : c.Sound) : Still c c.shutdown ∧
    c.shutdown.state = if c.state = .kConnected then .kDisconnecting else c.state := by
  unfold shutdown
  split
  · obtain ⟨hstill, hstate⟩ := shutdownInLoop_still (c := { c with state := .kDisconnecting })
      ⟨hs.input, hs.output, hs.channel⟩
    exact ⟨⟨hstill.sound, hstill.inputBuffer, hstill.outputBuffer, hstill.pendingFunctors,
      hstill.highWaterMark, hstill.highWaterMarkCallback, hstill.accepted⟩, hstate⟩
  · exact ⟨⟨hs, rfl, rfl, rfl, rfl, rfl, rfl⟩, rfl⟩

/-- What sending and writing leave alone. -/
structure Moves (c c' : TcpConnection) : Prop where
  sound : c'.Sound
  state : c'.state = c.state
  inputBuffer : c'.inputBuffer = c.inputBuffer
  highWaterMark : c'.highWaterMark = c.highWaterMark
  highWaterMarkCallback : c'.highWaterMarkCallback = c.highWaterMarkCallback

theorem queueHighWaterMark_frame (oldLen newLen : Nat) :
    (c.queueHighWaterMark oldLen newLen).state = c.state ∧
    (c.queueHighWaterMark oldLen newLen).inputBuffer = c.inputBuffer ∧
    (c.queueHighWaterMark oldLen newLen).highWaterMark = c.highWaterMark ∧
    (c.queueHighWaterMark oldLen newLen).highWaterMarkCallback = c.highWaterMarkCallback := by
  unfold queueHighWaterMark
  split <;> exact ⟨rfl, rfl, rfl, rfl⟩

/-- What is queued with output that grows from `oldLen` to `newLen`: the callback of the mark
when the output reaches it from below, and only then. -/
theorem queueHighWaterMark_queues (hcb : c.highWaterMarkCallback = true) (oldLen newLen : Nat) :
    (c.queueHighWaterMark oldLen newLen).pendingFunctors = c.pendingFunctors ∧
        (newLen < c.highWaterMark ∨ c.highWaterMark ≤ oldLen) ∨
      c.highWaterMark ≤ newLen ∧ ∃ n, (c.queueHighWaterMark oldLen newLen).pendingFunctors =
        c.pendingFunctors ++ [.highWaterMarkCallback n] := by
  unfold queueHighWaterMark
  split
  · rename_i hcross
    exact .inr ⟨hcross.1, newLen, rfl⟩
  · rename_i hcross
    simp only [hcb, and_true] at hcross
    exact .inl ⟨rfl, by omega⟩

theorem keepRemaining_queues (hs : c.Sound) (hr : rest.length ≤ maxSize)
    (hcb : c.highWaterMarkCallback = true) (h : c.keepRemaining rest = .ok c') : Moves c c' ∧
    c'.outputBuffer.readableBytes = c.outputBuffer.readableBytes + rest.length ∧
    (c'.pendingFunctors = c.pendingFunctors ∧ (c'.outputBuffer.readableBytes < c.highWaterMark ∨
        c.highWaterMark ≤ c.outputBuffer.readableBytes) ∨
      c.highWaterMark ≤ c'.outputBuffer.readableBytes ∧
        ∃ n, c'.pendingFunctors = c.pendingFunctors ++ [.highWaterMarkCallback n]) := by
  obtain ⟨hsound, hout, -, hcontents, -⟩ := (keepRemaining_yields hs hr).of_ok h
  have hlen : c'.outputBuffer.readableBytes = c.outputBuffer.readableBytes + rest.length := by
    rw [hsound.output.readable_length, hcontents, List.length_append, hs.output.readable_length]
  have hold : c.outputBuffer.readableBytes ≤ maxSize := by
    obtain ⟨-, hfits, -, hsmall⟩ := hs.output
    rw [hs.output.readable]
    omega
  have hsum : sizeAdd c.outputBuffer.readableBytes rest.length =
      c.outputBuffer.readableBytes + rest.length :=
    sizeAdd_of_lt (by have := maxSize_lt; omega)
  have hqueues := queueHighWaterMark_queues hcb c.outputBuffer.readableBytes
    (c.outputBuffer.readableBytes + rest.length)
  obtain ⟨hst, hin, hmark, hcall⟩ := queueHighWaterMark_frame (c := c)
    c.outputBuffer.readableBytes (c.outputBuffer.readableBytes + rest.length)
  simp only [keepRemaining, hsum] at h
  obtain ⟨outputBuffer, -, h⟩ := bind_ok h
  split at h
  · cases h
    refine ⟨⟨hsound, hst, hin, hmark, hcall⟩, hlen, ?_⟩
    rw [hlen]
    exact hqueues
  · obtain ⟨channel, -, h⟩ := bind_ok h
    cases h
    refine ⟨⟨hsound, hst, hin, hmark, hcall⟩, hlen, ?_⟩
    rw [hlen]
    exact hqueues

/-- What an operation that sends may queue: nothing, with the mark not crossed upwards, the
write-complete callback with no output left, or the callback of the mark, with the output at it. -/
def Queues (c c' : TcpConnection) : Prop :=
  c'.pendingFunctors = c.pendingFunctors ∧ (c'.outputBuffer.readableBytes < c.highWaterMark ∨
      c.highWaterMark ≤ c.outputBuffer.readableBytes) ∨
    c'.pendingFunctors = c.pendingFunctors ++ [.writeCompleteCallback] ∧
      c'.outputBuffer.readableBytes = 0 ∨
    c.highWaterMark ≤ c'.outputBuffer.readableBytes ∧
      ∃ n, c'.pendingFunctors = c.pendingFunctors ++ [.highWaterMarkCallback n]

theorem sendRemaining_queues {n : Nat} {fault : Bool} (hs : c.Sound)
    (hm : message.length ≤ maxSize) (hn : n ≤ message.length)
    (hcb : c.highWaterMarkCallback = true) (h : c.sendRemaining message n fault = .ok c') :
    Moves c c' ∧
      c'.outputBuffer.readableBytes ≤ c.outputBuffer.readableBytes + message.length ∧
      (n = message.length → c' = c) ∧ Queues c c' := by
  have hsub : sizeSub message.length n = message.length - n :=
    sizeSub_of_le hn (by have := maxSize_lt; omega)
  unfold sendRemaining at h
  obtain ⟨-, -, h⟩ := bind_ok h
  split at h
  · rename_i hrem
    have hdrop : (message.drop n).length = message.length - n := List.length_drop
    obtain ⟨hmoves, hlen, hqueues⟩ := keepRemaining_queues hs (by omega) hcb h
    refine ⟨hmoves, by omega, fun he => ?_, hqueues.imp_right .inr⟩
    have hzero : sizeSub message.length n = 0 := by omega
    simp [hzero] at hrem
  · cases h
    exact ⟨⟨hs, rfl, rfl, rfl, rfl⟩, by omega, fun _ => rfl, .inl ⟨rfl, by omega⟩⟩

theorem sendInLoop_queues (hs : c.Sound) (hsends : System.Sends message w)
    (hst : c.state ≠ .kDisconnected) (hcb : c.highWaterMarkCallback = true)
    (h : c.sendInLoop message w = .ok c') : Moves c c' ∧
      c'.outputBuffer.readableBytes ≤ c.outputBuffer.readableBytes + message.length ∧
      Queues c c' := by
  obtain ⟨hm, hn⟩ := hsends
  have hlog : Sound { c with log.accepted := c.log.accepted ++ message } :=
    ⟨hs.input, hs.output, hs.channel⟩
  simp only [sendInLoop, if_neg hst] at h
  split at h
  · rename_i hdirect
    have hempty : c.outputBuffer.readableBytes = 0 := by
      simp only [writesDirectly, Bool.and_eq_true, decide_eq_true_eq] at hdirect
      exact hdirect.2
    cases w with
    | failed errno =>
      obtain ⟨hmoves, hlen, -, hqueues⟩ := sendRemaining_queues hlog hm (Nat.zero_le _) hcb h
      exact ⟨⟨hmoves.sound, hmoves.state, hmoves.inputBuffer, hmoves.highWaterMark,
        hmoves.highWaterMarkCallback⟩, hlen, hqueues⟩
    | wrote n =>
      have hle : n ≤ message.length := hn
      have hsub : sizeSub message.length n = message.length - n :=
        sizeSub_of_le hle (by have := maxSize_lt; omega)
      simp only [writeDirectly, hsub] at h
      split at h
      · rename_i hall
        dsimp only at h
        obtain ⟨hmoves, hlen, hsame, -⟩ := sendRemaining_queues
          (by exact ⟨hs.input, hs.output, hs.channel⟩) hm hle (by exact hcb) h
        refine ⟨⟨hmoves.sound, hmoves.state, hmoves.inputBuffer, hmoves.highWaterMark,
          hmoves.highWaterMarkCallback⟩, hlen, .inr (.inl ?_)⟩
        rw [hsame (by omega)]
        exact ⟨rfl, hempty⟩
      · dsimp only at h
        obtain ⟨hmoves, hlen, -, hqueues⟩ := sendRemaining_queues
          (by exact ⟨hs.input, hs.output, hs.channel⟩) hm hle (by exact hcb) h
        exact ⟨⟨hmoves.sound, hmoves.state, hmoves.inputBuffer, hmoves.highWaterMark,
          hmoves.highWaterMarkCallback⟩, hlen, hqueues⟩
  · obtain ⟨hmoves, hlen, -, hqueues⟩ := sendRemaining_queues hlog hm (Nat.zero_le _) hcb h
    exact ⟨⟨hmoves.sound, hmoves.state, hmoves.inputBuffer, hmoves.highWaterMark,
      hmoves.highWaterMarkCallback⟩, hlen, hqueues⟩

theorem sendRemaining_fills {q : Bytes} (hs : c.Sound) (hq : c.outputBuffer.Filling q)
    (hl : kCheapPrepend + q.length + message.length ≤ maxSize) (hm : message ≠ []) :
    ∃ c', c.sendRemaining message 0 false = .ok c' ∧ c'.outputBuffer.Filling (q ++ message) := by
  have hsub : sizeSub message.length 0 = message.length :=
    sizeSub_of_le (Nat.zero_le _) (by have := maxSize_lt; omega)
  have hpos : 0 < message.length := List.length_pos_iff.mpr hm
  obtain ⟨outputBuffer, hout, hfilling⟩ := hq.append message hl
  unfold sendRemaining
  dsimp only
  rw [hsub, check_pos (Nat.le_refl _), ok_bind, if_pos (by simpa using hpos), List.drop_zero]
  obtain ⟨fs, hfs⟩ : ∃ fs, c.queueHighWaterMark c.outputBuffer.readableBytes
      (sizeAdd c.outputBuffer.readableBytes message.length) = { c with pendingFunctors := fs } := by
    unfold queueHighWaterMark
    split
    · exact ⟨_, rfl⟩
    · exact ⟨_, rfl⟩
  simp only [keepRemaining, hfs, hout, ok_bind]
  split
  · exact ⟨_, rfl, hfilling⟩
  · rw [Channel.enableWriting_eq hs.channel, ok_bind]
    exact ⟨_, rfl, hfilling⟩

/-- What `write(2)` does not take is kept, and no fault comes of it. -/
theorem sendInLoop_fills {q : Bytes} (hs : c.Sound) (hst : c.state ≠ .kDisconnected)
    (hq : c.outputBuffer.Filling q) (hl : kCheapPrepend + q.length + message.length ≤ maxSize)
    (hm : message ≠ []) : ∃ c', c.sendInLoop message (.wrote 0) = .ok c' ∧
      c'.outputBuffer.Filling (q ++ message) := by
  have hsub : sizeSub message.length 0 = message.length :=
    sizeSub_of_le (Nat.zero_le _) (by have := maxSize_lt; omega)
  have hpos : message.length ≠ 0 := fun h => hm (List.eq_nil_of_length_eq_zero h)
  simp only [sendInLoop, if_neg hst]
  split
  · simp only [writeDirectly, hsub, hpos, false_and, if_false]
    exact sendRemaining_fills (by exact ⟨hs.input, hs.output, hs.channel⟩) hq hl hm
  · exact sendRemaining_fills (by exact ⟨hs.input, hs.output, hs.channel⟩) hq hl hm

theorem drained_queues (hs : c.Sound) (h : c.drained = .ok c') : Moves c c' ∧
    c'.log.accepted = c.log.accepted ∧ c'.outputBuffer = c.outputBuffer ∧
    (c'.pendingFunctors = c.pendingFunctors ∨
      c'.pendingFunctors = c.pendingFunctors ++ [.writeCompleteCallback]) := by
  have hshut : ∀ {b : TcpConnection}, b.Sound → Still b (if b.state = .kDisconnecting then
      b.shutdownInLoop else b) ∧ (if b.state = .kDisconnecting then b.shutdownInLoop else b).state =
        b.state := by
    intro b hb
    split
    · exact shutdownInLoop_still hb
    · exact ⟨⟨hb, rfl, rfl, rfl, rfl, rfl, rfl⟩, rfl⟩
  obtain ⟨channel, hchannel, h⟩ := bind_ok h
  have hcon : channel.Consistent := by
    rw [Channel.disableWriting_eq hs.channel] at hchannel
    cases hchannel
    exact Channel.settle_consistent _
  cases h
  split
  · obtain ⟨hstill, hstate⟩ := hshut
      (b := queueInLoop { c with channel := channel } .writeCompleteCallback)
      ⟨hs.input, hs.output, hcon⟩
    exact ⟨⟨hstill.sound, hstate, hstill.inputBuffer, hstill.highWaterMark,
      hstill.highWaterMarkCallback⟩, hstill.accepted, hstill.outputBuffer,
      .inr hstill.pendingFunctors⟩
  · obtain ⟨hstill, hstate⟩ := hshut (b := { c with channel := channel })
      ⟨hs.input, hs.output, hcon⟩
    exact ⟨⟨hstill.sound, hstate, hstill.inputBuffer, hstill.highWaterMark,
      hstill.highWaterMarkCallback⟩, hstill.accepted, hstill.outputBuffer,
      .inl hstill.pendingFunctors⟩

/-- A writable event only takes output away, and queues the write-complete callback when none
is left. -/
theorem handleWrite_queues (hs : c.Sound) (hn : w.taken ≤ c.outputBuffer.readableBytes)
    (h : c.handleWrite w = .ok c') : Moves c c' ∧ c'.log.accepted = c.log.accepted ∧
      c'.outputBuffer.readableBytes ≤ c.outputBuffer.readableBytes ∧
      (c'.pendingFunctors = c.pendingFunctors ∨
        c'.pendingFunctors = c.pendingFunctors ++ [.writeCompleteCallback] ∧
          c'.outputBuffer.readableBytes = 0) := by
  obtain ⟨hsound, hout, haccepted, -, -⟩ := (handleWrite_yields hs hn).of_ok h
  unfold handleWrite at h
  split at h
  · rw [Buffer.load_contents hs.output, ok_bind] at h
    match w with
    | .failed _ => cases h; exact ⟨⟨hs, rfl, rfl, rfl, rfl⟩, rfl, Nat.le_refl _, .inl rfl⟩
    | .wrote 0 => cases h; exact ⟨⟨hs, rfl, rfl, rfl, rfl⟩, rfl, Nat.le_refl _, .inl rfl⟩
    | .wrote (n + 1) =>
      have hle : n + 1 ≤ c.outputBuffer.readableBytes := hn
      obtain ⟨b, hb, hv, hcontents⟩ := Buffer.retrieve_holds hs.output hle
      have hlen : b.readableBytes ≤ c.outputBuffer.readableBytes := by
        rw [hv.readable_length, hs.output.readable_length, hcontents, List.length_drop]
        omega
      simp only [hb, ok_bind] at h
      split at h
      · rename_i hzero
        obtain ⟨hmoves, hacc, hsame, hqueues⟩ := drained_queues
          (by exact ⟨hs.input, hv, hs.channel⟩) h
        refine ⟨⟨hmoves.sound, hmoves.state, hmoves.inputBuffer, hmoves.highWaterMark,
          hmoves.highWaterMarkCallback⟩, hacc, ?_, ?_⟩
        · rw [hsame]
          exact hlen
        · rw [hsame]
          exact hqueues.imp_right fun hq => ⟨hq, hzero⟩
      · cases h
        exact ⟨⟨hsound, rfl, rfl, rfl, rfl⟩, rfl, hlen, .inl rfl⟩
  · cases h
    exact ⟨⟨hs, rfl, rfl, rfl, rfl⟩, rfl, Nat.le_refl _, .inl rfl⟩

end TcpConnection

end Muduo.Net
