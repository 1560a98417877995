import Muduo.Net.TcpConnection

namespace Muduo.Net
open Muduo.Lib

namespace TcpConnection

/-- What every operation relies on: valid buffers, and a channel the poller agrees with. -/
structure Sound (c : TcpConnection) : Prop where
  input : c.inputBuffer.Valid
  output : c.outputBuffer.Valid
  channel : c.channel.Consistent

/-- What sending and writing leave alone: they touch the buffered output, the write
interest and nothing that closing looks at. -/
structure OutputOnly (c c' : TcpConnection) : Prop where
  state : c'.state = c.state
  reading : c'.reading = c.reading
  channel : c'.channel = c.channel ∨ ∃ w, (c.channel.isWriting = true ∨ w = true) ∧
    c'.channel = c.channel.settle ⟨c.channel.events.reading, w⟩
  closes : c'.log.handleCloses = c.log.handleCloses ∧ c'.log.downs = c.log.downs ∧
    c'.log.closeCallbacks = c.log.closeCallbacks
  pending : ∃ fs, c'.pendingFunctors = c.pendingFunctors ++ fs ∧ .connectDestroyed ∉ fs

/-- A direct write of `sendInLoop` that fails in a way it gives up on. -/
def Resets (c : TcpConnection) (w : WriteResult) : Prop :=
  c.state ≠ .kDisconnected ∧ c.writesDirectly = true ∧
    (w = .failed .EPIPE ∨ w = .failed .ECONNRESET)

instance (c : TcpConnection) (w : WriteResult) : Decidable (c.Resets w) :=
  inferInstanceAs (Decidable (_ ∧ _ ∧ _))

variable {c : TcpConnection} {message rest : Bytes} {w : WriteResult}

theorem up_ne (h : c.state = .kConnected ∨ c.state = .kDisconnecting) :
    c.state ≠ .kDisconnected := by
  rcases h with h | h <;> simp [h]

theorem OutputOnly.refl (c : TcpConnection) : OutputOnly c c :=
  ⟨rfl, rfl, .inl rfl, ⟨rfl, rfl, rfl⟩, [], by simp, by simp⟩

theorem readFd_valid {b : Buffer} {read : Option Bytes} (h : b.Valid)
    (hd : (read.getD []).length ≤ b.iovBytes) :
    Yields Buffer.Valid (· = Fault.lengthError) (b.readFd read) := by
  cases read with
  | none => exact h
  | some data => exact (Buffer.readFd_holds h hd).mono fun _ hb => hb.1

/-- Every connection starts alike once it is established. -/
theorem established_eq {s : System} (h : System.Established s) :
    ∃ (writeComplete highWater : Bool) (mark : Nat), s = System.start
      ⟨.kConnected, true, ⟨⟨true, false⟩, .kAdded, true, true, some ⟨true, false⟩⟩,
        writeComplete, highWater, mark, ⟨List.replicate 1032 0, 8, 8⟩,
        ⟨List.replicate 1032 0, 8, 8⟩, [], ⟨[], [], 0, 0, 1, 0, 0⟩⟩ := by
  obtain ⟨writeComplete, highWater, mark, c₀, c, hn, he, rfl⟩ := h
  simp only [new, Buffer.new_initial, ok_bind] at hn
  cases hn
  simp only [connectEstablished, check, if_true, Channel.enableReading_eq Channel.new_consistent,
    ok_bind] at he
  cases he
  exact ⟨writeComplete, highWater, mark, rfl⟩

/-- A connection to run examples on. -/
def sampleStart : System := System.start
  ⟨.kConnected, true, ⟨⟨true, false⟩, .kAdded, true, true, some ⟨true, false⟩⟩, true, true, 4,
    ⟨List.replicate 1032 0, 8, 8⟩, ⟨List.replicate 1032 0, 8, 8⟩, [], ⟨[], [], 0, 0, 1, 0, 0⟩⟩

theorem sampleStart_established : System.Established sampleStart := by
  refine ⟨true, true, 4, ⟨.kConnecting, true, Channel.new, true, true, 4,
    ⟨List.replicate 1032 0, 8, 8⟩, ⟨List.replicate 1032 0, 8, 8⟩, [], ⟨[], [], 0, 0, 0, 0, 0⟩⟩,
    sampleStart.conn, ?_, ?_, rfl⟩
  · simp only [new, Buffer.new_initial, ok_bind]
  · rfl

theorem initial_holds : Buffer.Valid ⟨List.replicate 1032 0, 8, 8⟩ ∧
    Buffer.contents ⟨List.replicate 1032 0, 8, 8⟩ = [] := by
  have h := (Buffer.new_yields (by decide)).of_ok Buffer.new_initial
  exact ⟨h.1, h.2.1⟩

theorem established_sound {s : System} (h : System.Established s) : s.conn.Sound := by
  obtain ⟨writeComplete, highWater, mark, rfl⟩ := established_eq h
  have hc := Channel.settle_consistent (c := Channel.new) ⟨true, false⟩
  exact ⟨initial_holds.1, initial_holds.1, hc⟩

theorem writesDirectly_empty (h : c.Sound) (hd : c.writesDirectly = true) :
    c.outputBuffer.contents = [] := by
  simp only [writesDirectly, Bool.and_eq_true, decide_eq_true_eq] at hd
  have hl := h.output.readable_length
  exact List.length_eq_zero_iff.mp (hl ▸ hd.2)

theorem queueHighWaterMark_eq (c : TcpConnection) (oldLen newLen : Nat) :
    ∃ fs : List Functor, .connectDestroyed ∉ fs ∧ c.queueHighWaterMark oldLen newLen =
      { c with pendingFunctors := c.pendingFunctors ++ fs } := by
  unfold queueHighWaterMark
  split
  · exact ⟨[.highWaterMarkCallback newLen], by simp, rfl⟩
  · exact ⟨[], by simp, by simp⟩

theorem writeDirectly_wrote (c : TcpConnection) (message : Bytes) (n : Nat) :
    ∃ fs : List Functor, .connectDestroyed ∉ fs ∧ c.writeDirectly message (.wrote n) =
      ({ c with log.written := c.log.written ++ message.take n,
                pendingFunctors := c.pendingFunctors ++ fs }, n, false) := by
  simp only [writeDirectly]
  split
  · exact ⟨[.writeCompleteCallback], by simp, rfl⟩
  · exact ⟨[], by simp, by simp⟩

theorem keepRemaining_yields (h : c.Sound) (hr : rest.length ≤ maxSize) :
    Yields (fun c' => c'.Sound ∧ OutputOnly c c' ∧ c'.log = c.log ∧
        c'.outputBuffer.contents = c.outputBuffer.contents ++ rest ∧ c'.channel.isWriting = true)
      (· = Fault.lengthError) (c.keepRemaining rest) := by
  obtain ⟨fs, hfs, hq⟩ := queueHighWaterMark_eq c c.outputBuffer.readableBytes
    (sizeAdd c.outputBuffer.readableBytes rest.length)
  simp only [keepRemaining, hq]
  refine (Buffer.append_holds h.output (h.output.fits_of_le hr)).bind fun output ho => ?_
  split
  · rename_i hw
    exact ⟨⟨h.input, ho.1, h.channel⟩, ⟨rfl, rfl, .inl rfl, ⟨rfl, rfl, rfl⟩, fs, rfl, hfs⟩, rfl,
      ho.2, hw⟩
  · have hset := Channel.enableWriting_eq h.channel
    simp only [hset, ok_bind]
    exact ⟨⟨h.input, ho.1, Channel.settle_consistent _⟩,
      ⟨rfl, rfl, .inr ⟨true, .inr rfl, rfl⟩, ⟨rfl, rfl, rfl⟩, fs, rfl, hfs⟩, rfl, ho.2,
      by simp [Channel.isWriting]⟩

theorem sendRemaining_yields {n : Nat} {fault : Bool} (h : c.Sound)
    (hm : message.length ≤ maxSize) (hn : n ≤ message.length) :
    Yields (fun c' => c'.Sound ∧ OutputOnly c c' ∧ c'.log = c.log ∧
        (fault = false →
          c'.outputBuffer.contents = c.outputBuffer.contents ++ message.drop n) ∧
        (c'.channel.isWriting = true ∧ c'.outputBuffer.contents ≠ [] ∨
          c'.channel = c.channel ∧ c'.outputBuffer.contents = c.outputBuffer.contents))
      (· = Fault.lengthError) (c.sendRemaining message n fault) := by
  have hrem : sizeSub message.length n = message.length - n :=
    sizeSub_of_le hn (by have := maxSize_lt; omega)
  have hle : sizeSub message.length n ≤ message.length := by omega
  simp only [sendRemaining, check_pos hle, ok_bind]
  have hd : (message.drop n).length = message.length - n := List.length_drop
  split
  · rename_i hpos
    simp only [hrem, Bool.and_eq_true, decide_eq_true_eq] at hpos
    refine (keepRemaining_yields h (hd ▸ by omega)).mono fun c' hc => ?_
    obtain ⟨hsound, hout, hlog, hcont, hwr⟩ := hc
    refine ⟨hsound, hout, hlog, fun _ => hcont, .inl ⟨hwr, ?_⟩⟩
    rw [hcont]
    intro he
    have hnil : message.drop n = [] := (List.append_eq_nil_iff.mp he).2
    rw [hnil, List.length_nil] at hd
    omega
  · rename_i hpos
    refine ⟨h, .refl c, rfl, fun hf => ?_, .inr ⟨rfl, rfl⟩⟩
    simp only [hf, hrem, Bool.not_false, Bool.true_and, decide_eq_true_eq] at hpos
    rw [List.length_eq_zero_iff.mp (show (message.drop n).length = 0 by omega), List.append_nil]

theorem OutputOnly.after {c₁ c' : TcpConnection} {fs : List Functor} (h : OutputOnly c₁ c')
    (hfs : .connectDestroyed ∉ fs)
    (he : c₁ = { c with log := { c.log with accepted := c₁.log.accepted, written := c₁.log.written }
                        pendingFunctors := c.pendingFunctors ++ fs }) : OutputOnly c c' := by
  rw [he] at h
  obtain ⟨gs, hp, hgs⟩ := h.pending
  refine ⟨h.state, h.reading, h.channel, h.closes, fs ++ gs, by rw [hp, List.append_assoc], ?_⟩
  simp only [List.mem_append, not_or]
  exact ⟨hfs, hgs⟩

/-- `sendInLoop` on a connection that is up: unless the write resets, what `write(2)` took
and what stays buffered grow by the message. -/
theorem sendInLoop_yields (h : c.Sound) (hs : System.Sends message w)
    (hst : c.state ≠ .kDisconnected) :
    Yields (fun c' => c'.Sound ∧ OutputOnly c c' ∧ c'.log.accepted = c.log.accepted ++ message ∧
        (¬c.Resets w →
          c'.log.written ++ c'.outputBuffer.contents =
            c.log.written ++ c.outputBuffer.contents ++ message) ∧
        ((c.channel.isWriting = true ↔ c.outputBuffer.contents ≠ []) →
          (c'.channel.isWriting = true ↔ c'.outputBuffer.contents ≠ [])))
      (· = Fault.lengthError) (c.sendInLoop message w) := by
  obtain ⟨hm, hn⟩ := hs
  have hkeep {c₁ c' : TcpConnection} (hch : c₁.channel = c.channel)
      (hb : c₁.outputBuffer = c.outputBuffer)
      (hcase : c'.channel.isWriting = true ∧ c'.outputBuffer.contents ≠ [] ∨
        c'.channel = c₁.channel ∧ c'.outputBuffer.contents = c₁.outputBuffer.contents)
      (hi : c.channel.isWriting = true ↔ c.outputBuffer.contents ≠ []) :
      c'.channel.isWriting = true ↔ c'.outputBuffer.contents ≠ [] := by
    rcases hcase with ⟨hw, hne⟩ | ⟨hc, hcont⟩
    · exact ⟨fun _ => hne, fun _ => hw⟩
    · rw [hc, hcont, hch, hb]
      exact hi
  simp only [sendInLoop, if_neg hst]
  split
  · rename_i hd
    have hempty := writesDirectly_empty h hd
    cases w with
    | wrote k =>
      obtain ⟨fs, hfs, hwd⟩ := writeDirectly_wrote
        { c with log.accepted := c.log.accepted ++ message } message k
      simp only [hwd]
      refine Yields.mono (sendRemaining_yields ?_ hm hn) fun c' hc => ?_
      · exact ⟨h.input, h.output, h.channel⟩
      obtain ⟨hsound, hout, hlog, hcont, hcase⟩ := hc
      refine ⟨hsound, hout.after hfs rfl, by rw [hlog], fun _ => ?_, hkeep rfl rfl hcase⟩
      rw [hlog, hcont rfl, hempty]
      simp
    | failed errno =>
      simp only [writeDirectly]
      refine Yields.mono (sendRemaining_yields ?_ hm (Nat.zero_le _)) fun c' hc => ?_
      · exact ⟨h.input, h.output, h.channel⟩
      obtain ⟨hsound, hout, hlog, hcont, hcase⟩ := hc
      refine ⟨hsound, hout.after List.not_mem_nil (by simp), by rw [hlog], fun hr => ?_,
        hkeep rfl rfl hcase⟩
      have hne : ¬(errno = .EPIPE ∨ errno = .ECONNRESET) := fun he =>
        hr ⟨hst, hd, he.imp (congrArg _) (congrArg _)⟩
      rw [hlog, hcont (by simpa using hne)]
      simp
  · refine Yields.mono (sendRemaining_yields ?_ hm (Nat.zero_le _)) fun c' hc => ?_
    · exact ⟨h.input, h.output, h.channel⟩
    obtain ⟨hsound, hout, hlog, hcont, hcase⟩ := hc
    refine ⟨hsound, hout.after List.not_mem_nil (by simp), by rw [hlog], fun _ => ?_,
      hkeep rfl rfl hcase⟩
    rw [hlog, hcont rfl]
    simp

/-- The piece of a queued string reaches behind the string. -/
def Overruns (c : TcpConnection) (message : Bytes) : Prop :=
  c.state ≠ .kDisconnected ∧ message.length < pieceSize message.length

theorem sendPiece_ok {c' : TcpConnection} (h : c.sendPiece message w = .ok c') :
    ∃ d accepted, c.sendInLoop (message.take (pieceSize message.length)) w = .ok d ∧
      c' = { d with log.accepted := accepted } := by
  unfold sendPiece at h
  split at h
  · rename_i hst
    cases h
    exact ⟨c, c.log.accepted, by rw [sendInLoop, if_pos hst], rfl⟩
  · obtain ⟨data, hdata, h⟩ := bind_ok h
    obtain ⟨d, hd, h⟩ := bind_ok h
    cases h
    cases stringPiece_cases message with
    | inl hpiece =>
      cases hdata.symm.trans hpiece
      exact ⟨d, _, hd, rfl⟩
    | inr hover => cases hdata.symm.trans hover.2

/-- What holds however much was accepted, a queued string does to a connection as its piece does. -/
theorem sendPiece_yields {P : TcpConnection → Prop} {b : Fault → Prop}
    (h : Yields P b (c.sendInLoop (message.take (pieceSize message.length)) w))
    (hlog : ∀ c' accepted, P c' → P { c' with log.accepted := accepted }) :
    Yields P (fun f => b f ∨ f = .outOfBounds ∧ c.Overruns message) (c.sendPiece message w) := by
  unfold sendPiece
  split
  · rename_i hst
    rw [sendInLoop, if_pos hst] at h
    exact h
  · rename_i hst
    cases stringPiece_cases message with
    | inl hpiece =>
      rw [hpiece, ok_bind]
      exact (h.weaken fun f hf => .inl hf).bind fun c' hc => hlog c' _ hc
    | inr hover =>
      rw [hover.2]
      exact .inr ⟨rfl, hst, hover.1⟩

/-- A queued string that an `int` can count is sent whole. -/
theorem sendPiece_eq (h : c.Sound) (hs : c.state ≠ .kDisconnected → System.Sends message w)
    (hlen : c.state ≠ .kDisconnected → message.length < 2 ^ 31) :
    c.sendPiece message w = c.sendInLoop message w := by
  unfold sendPiece
  split
  · rename_i hst
    rw [sendInLoop, if_pos hst]
  · rename_i hst
    rw [stringPiece_of_lt (hlen hst), ok_bind]
    have hyields := sendInLoop_yields h (hs hst) hst
    cases hsend : c.sendInLoop message w with
    | error f => rfl
    | ok c' =>
      rw [hsend] at hyields
      rw [ok_bind, ← hyields.2.2.1]

theorem drained_eq (h : c.Sound) :
    ∃ (fs : List Functor) (k : Nat), .connectDestroyed ∉ fs ∧ c.drained = .ok { c with
      channel := c.channel.settle { c.channel.events with writing := false }
      pendingFunctors := c.pendingFunctors ++ fs
      log := { c.log with shutdownWrites := k } } := by
  have hset := Channel.disableWriting_eq h.channel
  simp only [drained, hset, ok_bind, shutdownInLoop, queueInLoop]
  have hoff : (c.channel.settle { c.channel.events with writing := false }).isWriting = false := by
    simp [Channel.isWriting]
  by_cases hcb : c.writeCompleteCallback = true <;> by_cases hst : c.state = .kDisconnecting
  · exact ⟨[.writeCompleteCallback], c.log.shutdownWrites + 1, by simp, by simp [hcb, hst, hoff]⟩
  · exact ⟨[.writeCompleteCallback], c.log.shutdownWrites, by simp, by simp [hcb, hst]⟩
  · exact ⟨[], c.log.shutdownWrites + 1, by simp, by simp [hcb, hst, hoff]⟩
  · exact ⟨[], c.log.shutdownWrites, by simp, by simp [hcb, hst]⟩

/-- A writable event moves bytes from the buffer to the socket and keeps the write interest
for as long as bytes are left. -/
theorem handleWrite_yields (h : c.Sound)
    (hn : w.taken ≤ c.outputBuffer.readableBytes) :
    Yields (fun c' => c'.Sound ∧ OutputOnly c c' ∧ c'.log.accepted = c.log.accepted ∧
        c'.log.written ++ c'.outputBuffer.contents = c.log.written ++ c.outputBuffer.contents ∧
        ((c.channel.isWriting = true ↔ c.outputBuffer.contents ≠ []) →
          (c'.channel.isWriting = true ↔ c'.outputBuffer.contents ≠ [])))
      (fun _ => False) (c.handleWrite w) := by
  have hsame : c.Sound ∧ OutputOnly c c ∧ c.log.accepted = c.log.accepted ∧
      c.log.written ++ c.outputBuffer.contents = c.log.written ++ c.outputBuffer.contents ∧
      ((c.channel.isWriting = true ↔ c.outputBuffer.contents ≠ []) →
        (c.channel.isWriting = true ↔ c.outputBuffer.contents ≠ [])) :=
    ⟨h, .refl c, rfl, rfl, id⟩
  unfold handleWrite
  split
  · rename_i hw
    rw [Buffer.load_contents h.output, ok_bind]
    match w with
    | .failed _ => exact hsame
    | .wrote 0 => exact hsame
    | .wrote (n + 1) =>
      have hle : n + 1 ≤ c.outputBuffer.readableBytes := hn
      obtain ⟨b, hb, hv, hc⟩ := Buffer.retrieve_holds h.output hle
      simp only [hb, ok_bind]
      have hlen := hv.readable_length
      split
      · rename_i hzero
        have hnil : b.contents = [] := List.length_eq_zero_iff.mp (hlen ▸ hzero)
        obtain ⟨fs, k, hfs, hd⟩ := drained_eq (c := { c with
          outputBuffer := b, log.written := c.log.written ++ c.outputBuffer.contents.take (n + 1) })
          ⟨h.input, hv, h.channel⟩
        rw [hd]
        refine ⟨⟨h.input, hv, Channel.settle_consistent _⟩,
          ⟨rfl, rfl, .inr ⟨false, .inl hw, rfl⟩, ⟨rfl, rfl, rfl⟩, fs, rfl, hfs⟩, rfl, ?_, ?_⟩
        · simp only [hc, List.append_assoc, List.take_append_drop]
        · simp [Channel.isWriting, hnil]
      · rename_i hsome
        refine ⟨⟨h.input, hv, h.channel⟩, ⟨rfl, rfl, .inl rfl, ⟨rfl, rfl, rfl⟩, [], by simp, by simp⟩,
          rfl, ?_, fun _ => ⟨fun _ hnil => ?_, fun _ => hw⟩⟩
        · simp only [hc, List.append_assoc, List.take_append_drop]
        · rw [hlen, List.length_eq_zero_iff] at hsome
          exact hsome hnil
  · exact hsame

end TcpConnection

end Muduo.Net
