import Muduo.Net.ConnectionSound

namespace Muduo.Net
open Muduo.Lib

namespace TcpConnection

/-- The output invariant: what the socket took and what is still buffered are the messages
in order, and the loop watches for writability exactly while something is buffered. -/
structure Intact (c : TcpConnection) : Prop extends Sound c where
  stream : c.log.written ++ c.outputBuffer.contents = c.log.accepted
  writing : c.state ≠ .kDisconnected →
    (c.channel.isWriting = true ↔ c.outputBuffer.contents ≠ [])

variable {c : TcpConnection} {message : Bytes} {w : WriteResult}

/-- Changing the read interest leaves the output alone. -/
theorem Intact.settle (h : c.Intact) (r : Bool) (reading : Bool) :
    Intact { c with
      channel := c.channel.settle { c.channel.events with reading := r }, reading := reading } := by
  refine ⟨⟨h.input, h.output, Channel.settle_consistent _⟩, h.stream, fun hs => ?_⟩
  have hw := h.writing hs
  simpa [Channel.isWriting] using hw

theorem sendInLoop_intact (h : c.Intact) (hs : c.state ≠ .kDisconnected → System.Sends message w)
    (hr : ¬c.Resets w) :
    Yields Intact (· = Fault.lengthError) (c.sendInLoop message w) := by
  by_cases hst : c.state = .kDisconnected
  · rw [sendInLoop, if_pos hst]
    exact h
  · refine (sendInLoop_yields h.toSound (hs hst) hst).mono fun c' hc => ?_
    obtain ⟨hsound, hout, hacc, hstream, hwr⟩ := hc
    refine ⟨hsound, ?_, fun _ => hwr (h.writing hst)⟩
    rw [hstream hr, h.stream, hacc]

theorem handleWrite_intact (h : c.Intact)
    (hn : w.taken ≤ c.outputBuffer.readableBytes) :
    Yields Intact (fun _ => False) (c.handleWrite w) := by
  refine (handleWrite_yields h.toSound hn).mono fun c' hc => ?_
  obtain ⟨hsound, hout, hacc, hstream, hwr⟩ := hc
  refine ⟨hsound, ?_, fun hs => hwr (h.writing (hout.state ▸ hs))⟩
  rw [hstream, h.stream, hacc]

theorem handleClose_intact (h : c.Intact) : Yields Intact (· = Fault.assertion) c.handleClose := by
  unfold handleClose
  by_cases hst : c.state = .kConnected ∨ c.state = .kDisconnecting
  · rw [check_pos hst]
    simp only [ok_bind, Channel.disableAll_eq h.channel]
    exact ⟨⟨h.input, h.output, Channel.settle_consistent _⟩, h.stream, fun hs => absurd rfl hs⟩
  · rw [check_neg hst]
    rfl

theorem handleRead_intact {read : Option Bytes} (h : c.Intact)
    (hd : (read.getD []).length ≤ c.inputBuffer.iovBytes) :
    Yields Intact (fun f => f = .assertion ∧ read = some [] ∨ f = .lengthError)
      (c.handleRead read) := by
  unfold handleRead
  refine ((readFd_valid h.input hd).weaken fun f hf => .inr hf).bind fun b hb => ?_
  have hc : Intact { c with inputBuffer := b } := ⟨⟨hb, h.output, h.channel⟩, h.stream, h.writing⟩
  split
  · rename_i hnil
    exact (handleClose_intact hc).weaken fun f hf => .inl ⟨hf, hnil⟩
  · exact hc

theorem startReadInLoop_intact (h : c.Intact) :
    Yields Intact (fun _ => False) c.startReadInLoop := by
  unfold startReadInLoop
  split
  · rw [Channel.enableReading_eq h.channel, ok_bind]
    exact h.settle true true
  · exact h

theorem stopReadInLoop_intact (h : c.Intact) :
    Yields Intact (fun _ => False) c.stopReadInLoop := by
  unfold stopReadInLoop
  split
  · rw [Channel.disableReading_eq h.channel, ok_bind]
    exact h.settle false false
  · exact h

/-- Steps of the state that stop short of `kDisconnected`. -/
theorem Intact.withState (h : c.Intact) {st : StateE} (hst : c.state ≠ .kDisconnected) :
    Intact { c with state := st } :=
  ⟨⟨h.input, h.output, h.channel⟩, h.stream, fun _ => h.writing hst⟩

theorem Intact.queueInLoop (h : c.Intact) (f : Functor) : Intact (c.queueInLoop f) :=
  ⟨⟨h.input, h.output, h.channel⟩, h.stream, h.writing⟩

theorem shutdownInLoop_intact (h : c.Intact) : c.shutdownInLoop.Intact := by
  unfold shutdownInLoop
  split
  · exact h
  · exact ⟨⟨h.input, h.output, h.channel⟩, h.stream, h.writing⟩

theorem shutdown_intact (h : c.Intact) : c.shutdown.Intact := by
  unfold shutdown
  split
  · rename_i hst
    exact shutdownInLoop_intact (h.withState (by simp [hst]))
  · exact h

theorem forceClose_intact (h : c.Intact) : c.forceClose.Intact := by
  unfold forceClose
  split
  · rename_i hst
    exact (h.withState (up_ne hst)).queueInLoop _
  · exact h

theorem forceCloseWithDelay_intact (h : c.Intact) : c.forceCloseWithDelay.Intact := by
  unfold forceCloseWithDelay
  split
  · rename_i hst
    exact h.withState (up_ne hst)
  · exact h

theorem disconnect_intact (h : c.Intact) : Yields Intact (fun _ => False) c.disconnect := by
  unfold disconnect
  rw [Channel.disableAll_eq h.channel, ok_bind]
  exact ⟨⟨h.input, h.output, Channel.settle_consistent _⟩, h.stream, fun hs => absurd rfl hs⟩

theorem removeChannel_intact (h : c.Intact) :
    Yields Intact (· = Fault.assertion) c.removeChannel := by
  unfold removeChannel
  refine (Channel.remove_yields h.channel).bind fun ch hch => ?_
  refine ⟨⟨h.input, h.output, hch.1⟩, h.stream, fun hs => ?_⟩
  have hw := h.writing hs
  simpa [Channel.isWriting, hch.2] using hw

theorem retrieveInput_intact {len : Nat} (h : c.Intact)
    (hl : len ≤ c.inputBuffer.readableBytes) :
    Yields Intact (fun _ => False) (c.retrieveInput len) := by
  obtain ⟨b, hb, hv, _⟩ := Buffer.retrieve_holds h.input hl
  rw [retrieveInput, hb, ok_bind]
  exact ⟨⟨hv, h.output, h.channel⟩, h.stream, h.writing⟩

end TcpConnection

namespace System
open TcpConnection

variable {s : System}

/-- The next functor is a `sendInLoop`. -/
def sendsNext : List Functor → Bool
  | .sendInLoop _ :: _ => true
  | _ => false

/-- No direct write of `sendInLoop` in this step fails with `EPIPE` or `ECONNRESET`. -/
def NoReset (s : System) : Event → Prop
  | .call (.send _ w) => ¬s.conn.Resets w
  | .functor w => sendsNext s.conn.pendingFunctors = true → ¬s.conn.Resets w
  | _ => True

instance : (s : System) → (e : Event) → Decidable (s.NoReset e)
  | _, .call (.send _ _) => inferInstanceAs (Decidable (¬_))
  | _, .functor _ => inferInstanceAs (Decidable (_ → _))
  | _, .call .shutdown | _, .call .forceClose | _, .call .forceCloseWithDelay
  | _, .call .startRead | _, .call .stopRead | _, .call (.retrieveInput _) | _, .otherSend _
  | _, .otherQueue _ | _, .poll _ | _, .handle _ _ | _, .queueConnectDestroyed
  | _, .finishConnectDestroyed => isTrue trivial

/-- The steps that run `handleClose` or `Channel::remove`. -/
def Closes (s : System) : Event → Prop
  | .handle read _ => s.callbacks.head? = some .close ∨
    s.callbacks.head? = some .read ∧ read = some []
  | .functor _ => s.conn.pendingFunctors.head? = some .forceCloseInLoop ∨
    s.conn.pendingFunctors.head? = some .connectDestroyed
  | .finishConnectDestroyed => True
  | _ => False

/-- The steps that make a buffer longer. -/
def Fills (s : System) : Event → Prop
  | .call (.send _ _) => True
  | .handle _ _ => s.callbacks.head? = some .read
  | .functor _ => sendsNext s.conn.pendingFunctors = true
  | _ => False

/-- How a step may fail: in an assertion of `handleClose` or `Channel::remove`, or when a buffer
cannot grow any more. -/
def MayFail (s : System) (e : Event) (f : Fault) : Prop :=
  f = .assertion ∧ s.Closes e ∨ f = .lengthError ∧ s.Fills e

/-- A string that the next functor sends is no longer than the `int` of a `StringPiece` can say. -/
def FitsNext (c : TcpConnection) : List Functor → Prop
  | .sendInLoop message :: _ => c.state ≠ .kDisconnected → message.length < 2 ^ 31
  | _ => True

/-- No queued string is cut. -/
def Whole (s : System) : Event → Prop
  | .functor _ => FitsNext s.conn s.conn.pendingFunctors
  | _ => True

instance (c : TcpConnection) : (fs : List Functor) → Decidable (FitsNext c fs)
  | .sendInLoop _ :: _ => inferInstanceAs (Decidable (_ → _))
  | [] | .writeCompleteCallback :: _ | .highWaterMarkCallback _ :: _ | .forceCloseInLoop :: _
  | .connectDestroyed :: _ => isTrue trivial

instance : (s : System) → (e : Event) → Decidable (s.Whole e)
  | s, .functor _ => inferInstanceAs (Decidable (FitsNext s.conn s.conn.pendingFunctors))
  | _, .call _ | _, .otherSend _ | _, .otherQueue _ | _, .poll _ | _, .handle _ _
  | _, .queueConnectDestroyed | _, .finishConnectDestroyed => isTrue trivial

theorem FitsNext.sends {c : TcpConnection} {message : Bytes} {fs : List Functor} {w : WriteResult}
    (h : FitsNext c (.sendInLoop message :: fs)) (hs : SendsFunctor w (.sendInLoop message :: fs)) :
    c.state ≠ .kDisconnected → Sends message w := by
  intro hst
  have hlen : message.length < 2 ^ 31 := h hst
  simpa only [SendsFunctor, pieceSize_of_lt hlen, List.take_length] using hs

theorem call_intact (h : s.conn.Intact) {k : Call} (hk : s.CallAllowed k)
    (hr : s.NoReset (.call k)) : Yields Intact (s.MayFail (.call k)) (callStep s.conn k) := by
  cases k with
  | send message w =>
    simp only [callStep, send]
    split
    · exact (sendInLoop_intact h (fun _ => hk) hr).weaken fun f hf => .inr ⟨hf, trivial⟩
    · exact h
  | shutdown => exact shutdown_intact h
  | forceClose => exact forceClose_intact h
  | forceCloseWithDelay => exact forceCloseWithDelay_intact h
  | startRead => exact (startReadInLoop_intact h).safe
  | stopRead => exact (stopReadInLoop_intact h).safe
  | retrieveInput len => exact (retrieveInput_intact h hk).safe

/-- The bytes in the kernel and in `outputBuffer_` are those of the messages, and a connection
that is not down watches for `POLLOUT` exactly while it has output. -/
structure OutgoingStream (c : TcpConnection) : Prop where
  stream : c.log.written ++ c.outputBuffer.contents = c.log.accepted
  writing : c.state ≠ .kDisconnected →
    (c.channel.isWriting = true ↔ c.outputBuffer.readableBytes ≠ 0)

theorem handle_intact {read : Option Bytes} {w : WriteResult} (h : s.conn.Intact)
    (he : s.enabled (.handle read w)) :
    Yields (fun t => t.conn.Intact) (s.MayFail (.handle read w)) (s.step (.handle read w)) := by
  obtain ⟨_, _, hread, hwrite⟩ := he
  simp only [step]
  split
  · exact h
  · rename_i callback callbacks hcb
    have hhead : s.callbacks.head? = some callback := by rw [hcb]; rfl
    refine Yields.bind (m := Intact) ?_ fun c hc => hc
    cases callback with
    | close => exact (handleClose_intact h).weaken fun f hf => .inl ⟨hf, .inl hhead⟩
    | error => exact h
    | read =>
      apply (handleRead_intact h hread).weaken
      intro f hf
      cases hf with
      | inl hf => exact .inl ⟨hf.1, .inr ⟨hhead, hf.2⟩⟩
      | inr hf => exact .inr ⟨hf, hhead⟩
    | write => exact (handleWrite_intact h hwrite).safe

theorem functor_intact {w : WriteResult} (h : s.conn.Intact) (he : s.enabled (.functor w))
    (hr : s.NoReset (.functor w)) (hw : s.Whole (.functor w)) :
    Yields (fun t => t.conn.Intact) (s.MayFail (.functor w)) (s.step (.functor w)) := by
  obtain ⟨_, _, hs⟩ := he
  simp only [step]
  split
  · exact h
  · rename_i f fs hfs
    have h' : Intact { s.conn with pendingFunctors := fs } :=
      ⟨⟨h.input, h.output, h.channel⟩, h.stream, h.writing⟩
    have hhead : s.conn.pendingFunctors.head? = some f := by rw [hfs]; rfl
    refine Yields.bind (m := Intact) ?_ fun c hc => hc
    cases f with
    | sendInLoop message =>
      have hnext : sendsNext s.conn.pendingFunctors = true := by rw [hfs]; rfl
      have hfits : FitsNext s.conn s.conn.pendingFunctors := hw
      rw [hfs] at hfits hs
      rw [functorStep, sendPiece_eq h'.toSound (hfits.sends hs) hfits]
      exact (sendInLoop_intact h' (hfits.sends hs) (hr hnext)).weaken fun f hf => .inr ⟨hf, hnext⟩
    | writeCompleteCallback => exact h'
    | highWaterMarkCallback len => exact h'
    | forceCloseInLoop =>
      simp only [functorStep, forceCloseInLoop]
      split
      · exact (handleClose_intact h').weaken fun f hf => .inl ⟨hf, .inl hhead⟩
      · exact h'
    | connectDestroyed =>
      simp only [functorStep]
      split
      · exact (disconnect_intact h').safe
      · exact (removeChannel_intact h').weaken fun f hf => .inl ⟨hf, .inr hhead⟩

theorem step_intact {e : Event} (h : s.conn.Intact) (he : s.enabled e) (hr : s.NoReset e)
    (hw : s.Whole e) : Yields (fun t => t.conn.Intact) (s.MayFail e) (s.step e) := by
  cases e with
  | call k => exact (call_intact h he hr).bind fun c hc => hc
  | otherSend message => exact h
  | otherQueue message => exact h.queueInLoop _
  | poll r => exact h
  | handle read w => exact handle_intact h he
  | functor w => exact functor_intact h he hr hw
  | queueConnectDestroyed => exact h.queueInLoop _
  | finishConnectDestroyed =>
    exact ((removeChannel_intact h).weaken fun f hf => .inl ⟨hf, trivial⟩).bind fun c hc => hc

theorem intact_outgoing {c : TcpConnection} (h : c.Intact) : OutgoingStream c := by
  refine ⟨h.stream, fun hs => ?_⟩
  rw [h.output.readable_length, h.writing hs]
  exact not_congr List.length_eq_zero_iff.symm

theorem established_intact (h : Established s) : s.conn.Intact := by
  have hs := established_sound h
  obtain ⟨writeComplete, highWater, mark, rfl⟩ := established_eq h
  exact ⟨hs, initial_holds.2, fun _ => ⟨(nomatch ·), fun hne => (hne initial_holds.2).elim⟩⟩

/-- Whatever the order of sends, writable events and closing, the socket is given the
messages in order, and the rest of them is what `outputBuffer_` holds, unless a queued string is
longer than an `int` can say. -/
theorem outgoing_stream_intact {es : List Event} (h : Established s)
    (hl : machine.Legal (fun s e => s.NoReset e ∧ s.Whole e) s es) :
    Yields (fun t => OutgoingStream t.conn) (machine.FailsAt MayFail s es) (machine.run s es) := by
  have hrun := Machine.run_keeps_at (I := fun s : System => s.conn.Intact) (b := MayFail)
    (fun s e hi hen hc => step_intact hi hen hc.1 hc.2) (established_intact h) hl
  exact hrun.mono fun t ht => intact_outgoing ht

/-- A short direct write, a message of another thread queued behind it, a writable event that
drains half of the rest, and a hang-up. -/
def sampleSends : List Event :=
  [.otherSend [4, 5, 6], .call (.send [1, 2, 3] (.wrote 1)), .otherQueue [4, 5, 6],
    .poll ⟨false, false, true, false, false, false, false⟩, .handle none (.wrote 1),
    .functor (.failed .other), .functor (.failed .EPIPE),
    .poll ⟨false, false, false, true, false, false, false⟩, .handle none (.wrote 0)]

theorem outgoing_stream_intact_sample :
    machine.Legal (fun s e => s.NoReset e ∧ s.Whole e) sampleStart sampleSends ∧
      Yields (fun t => OutgoingStream t.conn) (machine.FailsAt MayFail sampleStart sampleSends)
        (machine.run sampleStart sampleSends) := by
  have hl : machine.Legal (fun s e => s.NoReset e ∧ s.Whole e) sampleStart sampleSends := by
    decide +kernel
  exact ⟨hl, outgoing_stream_intact sampleStart_established hl⟩

/-- Another thread sends the content of a buffer. -/
def sendsBuffer (message : Bytes) : List Event :=
  [.otherSend message, .otherQueue message, .functor (.wrote 1)]

theorem sendsBuffer_run {message : Bytes} (hlen : message.length = 2 ^ 32 + 1)
    (hfirst : message.take 1 = [7]) :
    ∃ t, machine.Reaches NoReset sampleStart (sendsBuffer message) t ∧
      t.conn.log.accepted = message ∧
      t.conn.log.written ++ t.conn.outputBuffer.contents = [7] := by
  have hsize : pieceSize message.length = 1 := by
    rw [hlen]
    rfl
  have hpiece : stringPiece message = .ok [7] := by
    cases stringPiece_cases message with
    | inl h => rw [h, hsize, hfirst]
    | inr h => omega
  have hmax : maxSize = 2 ^ 63 - 1 := rfl
  have hsends : SendsFunctor (.wrote 1) [.sendInLoop message] := by
    change Sends (message.take (pieceSize message.length)) (.wrote 1)
    rw [hsize, hfirst]
    decide
  have hcut : (sampleStart.conn.sendInLoop [7] (.wrote 1)).map
      (fun c => c.log.written ++ c.outputBuffer.contents) = .ok [7] := by
    decide +kernel
  cases hsend : sampleStart.conn.sendInLoop [7] (.wrote 1) with
  | error f =>
    rw [hsend] at hcut
    cases hcut
  | ok c =>
    rw [hsend] at hcut
    have hfunctor : sampleStart.conn.sendPiece message (.wrote 1) =
        .ok { c with log.accepted := message } := by
      rw [sendPiece, if_neg (by decide), hpiece, ok_bind, hsend]
      rfl
    have hqueue : System.step ⟨sampleStart.conn, [], false, [message], false⟩ (.otherQueue message) =
        .ok ⟨sampleStart.conn.queueInLoop (.sendInLoop message), [], false, [], false⟩ := by
      have herase : [message].erase message = [] := by simp
      simp only [step, herase]
    have hstep : System.step
        ⟨sampleStart.conn.queueInLoop (.sendInLoop message), [], false, [], false⟩
        (.functor (.wrote 1)) = .ok ⟨{ c with log.accepted := message }, [], false, [], false⟩ := by
      change (sampleStart.conn.sendPiece message (.wrote 1) >>= _) = _
      rw [hfunctor]
      rfl
    refine ⟨_, .cons ⟨by omega, rfl⟩ trivial rfl (.cons (List.mem_singleton_self message) trivial
      hqueue (.cons ⟨⟨rfl, rfl⟩, by simp [TcpConnection.queueInLoop], hsends⟩ ?_ hstep (.refl _))),
      rfl, Except.ok.inj hcut⟩
    intro _ hr
    exact hr.2.2.elim (by simp) (by simp)

/-- Of a buffer of 2^32 + 1 bytes the loop sends the first. -/
theorem buffer_cut :
    ¬∀ (s : System) (es : List Event), Established s → machine.Legal NoReset s es →
      Yields (fun t => OutgoingStream t.conn) (machine.FailsAt MayFail s es)
        (machine.run s es) := by
  intro h
  obtain ⟨message, hlen, hfirst⟩ : ∃ message : Bytes, message.length = 2 ^ 32 + 1 ∧
      message.take 1 = [7] := by
    refine ⟨List.replicate (2 ^ 32 + 1) 7, List.length_replicate, ?_⟩
    rw [List.take_replicate]
    rfl
  obtain ⟨t, hreaches, haccepted, hsent⟩ := sendsBuffer_run hlen hfirst
  have hstream := ((h _ _ sampleStart_established hreaches.1).of_ok hreaches.2).stream
  rw [hsent, haccepted] at hstream
  rw [← hstream] at hlen
  cases hlen

end System

end Muduo.Net
