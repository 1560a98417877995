import Muduo.Net.OutputStream

namespace Muduo.Net
open Muduo.Lib

namespace TcpConnection

/-- What sending leaves alone: the half-close, and the messages of other threads. -/
structure Sending (c c' : TcpConnection) : Prop where
  shutdownWrites : c'.log.shutdownWrites = c.log.shutdownWrites
  pending : ∀ message, .sendInLoop message ∈ c'.pendingFunctors →
    .sendInLoop message ∈ c.pendingFunctors

variable {c c' : TcpConnection} {message rest : Bytes} {w : WriteResult}

theorem Sending.refl (c : TcpConnection) : Sending c c := ⟨rfl, fun _ => id⟩

theorem Sending.trans {c'' : TcpConnection} (h : Sending c c') (h' : Sending c' c'') :
    Sending c c'' :=
  ⟨h'.shutdownWrites.trans h.shutdownWrites, fun m hm => h.pending m (h'.pending m hm)⟩

theorem queueInLoop_sending {f : Functor} (hf : ∀ message, f ≠ .sendInLoop message) :
    Sending c (c.queueInLoop f) := by
  refine ⟨rfl, fun m hm => ?_⟩
  rcases List.mem_append.mp hm with hm | hm
  · exact hm
  · exact absurd (List.mem_singleton.mp hm).symm (hf m)

theorem keepRemaining_sending (c : TcpConnection) (rest : Bytes) :
    Yields (Sending c) (fun _ => True) (c.keepRemaining rest) := by
  have hmark : ∀ newLen, Sending c (c.queueHighWaterMark c.outputBuffer.readableBytes newLen) := by
    intro newLen
    unfold queueHighWaterMark
    split
    · exact queueInLoop_sending nofun
    · exact .refl c
  simp only [keepRemaining]
  refine (yields_any _).bind fun output _ => ?_
  have hkept := hmark (sizeAdd c.outputBuffer.readableBytes rest.length)
  split
  · exact ⟨hkept.shutdownWrites, hkept.pending⟩
  · exact (yields_any _).bind fun channel _ => ⟨hkept.shutdownWrites, hkept.pending⟩

theorem sendRemaining_sending (c : TcpConnection) (message : Bytes) (n : Nat) (fault : Bool) :
    Yields (Sending c) (fun _ => True) (c.sendRemaining message n fault) := by
  simp only [sendRemaining]
  refine (yields_any _).bind fun _ _ => ?_
  split
  · exact keepRemaining_sending c _
  · exact .refl c

theorem writeDirectly_sending (c : TcpConnection) (message : Bytes) (w : WriteResult) :
    Sending c (c.writeDirectly message w).1 := by
  cases w with
  | failed errno => exact .refl c
  | wrote n =>
    simp only [writeDirectly]
    split
    · exact ⟨rfl, (queueInLoop_sending (c := c) (f := .writeCompleteCallback) (by simp)).pending⟩
    · exact ⟨rfl, fun _ => id⟩

theorem sendInLoop_sending (c : TcpConnection) (message : Bytes) (w : WriteResult) :
    Yields (Sending c) (fun _ => True) (c.sendInLoop message w) := by
  unfold sendInLoop
  split
  · exact .refl c
  · have hlog : Sending c { c with log.accepted := c.log.accepted ++ message } := ⟨rfl, fun _ => id⟩
    simp only
    split
    · refine (sendRemaining_sending _ message _ _).mono fun c' hc => ?_
      exact (hlog.trans (writeDirectly_sending _ message w)).trans hc
    · exact (sendRemaining_sending _ message _ _).mono fun c' hc => hlog.trans hc

/-- A writable event that leaves no output shuts the writing side of a connection that is to
be shut down, and no other does. -/
theorem handleWrite_half (h : c.Sound) (hn : w.taken ≤ c.outputBuffer.readableBytes) :
    Yields (fun c' => c'.state = c.state ∧
        (∀ message, .sendInLoop message ∈ c'.pendingFunctors →
          .sendInLoop message ∈ c.pendingFunctors) ∧
        c'.log.shutdownWrites = c.log.shutdownWrites +
          if c.channel.isWriting = true ∧ c.state = .kDisconnecting ∧ 0 < w.taken ∧
            c'.outputBuffer.contents = [] then 1 else 0)
      (fun _ => True) (c.handleWrite w) := by
  unfold handleWrite
  split
  · rename_i hw
    rw [Buffer.load_contents h.output, ok_bind]
    match w with
    | .failed _ => simp [WriteResult.taken]
    | .wrote 0 => simp [WriteResult.taken]
    | .wrote (n + 1) =>
      have hle : n + 1 ≤ c.outputBuffer.readableBytes := hn
      obtain ⟨b, hb, hv, hc⟩ := Buffer.retrieve_holds h.output hle
      simp only [hb, ok_bind]
      have hlen := hv.readable_length
      split
      · rename_i hzero
        have hnil : b.contents = [] := List.length_eq_zero_iff.mp (hlen ▸ hzero)
        have hset := Channel.disableWriting_eq h.channel
        have hoff : (c.channel.settle { c.channel.events with writing := false }).isWriting =
            false := by
          simp [Channel.isWriting]
        simp only [drained, hset, ok_bind, shutdownInLoop, queueInLoop, WriteResult.taken, hw]
        by_cases hcb : c.writeCompleteCallback = true <;> by_cases hst : c.state = .kDisconnecting <;>
          simp [hcb, hst, hoff, hnil]
      · rename_i hsome
        have hne : b.contents ≠ [] := by
          intro hnil
          rw [hlen, hnil, List.length_nil] at hsome
          exact hsome rfl
        simp [hne]
  · rename_i hw
    simp [hw]

/-- The half-close comes once, when everything that was accepted is written; and a connection
that is down does not watch for writability. -/
structure HalfClosed (c : TcpConnection) : Prop extends Intact c where
  once : c.log.shutdownWrites ≤ 1
  done : 0 < c.log.shutdownWrites → c.state ≠ .kConnected ∧ c.outputBuffer.contents = []
  down : c.state = .kDisconnected → c.channel.isWriting = false
  own : ∀ message, .sendInLoop message ∉ c.pendingFunctors
  established : c.state ≠ .kConnecting

/-- `shutdown` and the forced closes have no way back to `kConnected`. -/
def Leaving (c : TcpConnection) : Prop := c.state = .kDisconnecting ∨ c.state = .kDisconnected

theorem HalfClosed.not_writing (h : c.HalfClosed) (hd : 0 < c.log.shutdownWrites) :
    c.channel.isWriting = false := by
  by_cases hst : c.state = .kDisconnected
  · exact h.down hst
  · have hw := not_congr (h.writing hst)
    simpa [(h.done hd).2] using hw

theorem HalfClosed.handleClose (h : c.HalfClosed) :
    Yields (fun c' => c'.HalfClosed ∧ Leaving c') (· = Fault.assertion) c.handleClose := by
  suffices hclose : Yields (fun c' => c'.Intact → c'.HalfClosed ∧ Leaving c') (fun _ => True)
      c.handleClose from
    ((handleClose_intact h.toIntact).and hclose).mono fun c' hc => hc.2 hc.1
  unfold TcpConnection.handleClose
  refine (yields_any _).bind fun _ _ => ?_
  simp only [Channel.disableAll_eq h.channel, ok_bind]
  refine fun hi => ⟨⟨hi, h.once, fun hd => ⟨nofun, (h.done hd).2⟩, fun _ => ?_, h.own, nofun⟩, .inr rfl⟩
  simp [Channel.isWriting, kNoneEvent]

theorem HalfClosed.settleReading (h : c.HalfClosed) (r reading : Bool) :
    HalfClosed { c with
      channel := c.channel.settle { c.channel.events with reading := r }, reading := reading } := by
  refine ⟨h.settle r reading, h.once, h.done, fun hd => ?_, h.own, h.established⟩
  have hw := h.down hd
  simpa [Channel.isWriting] using hw

/-- `shutdown`: with output pending the half-close waits. -/
theorem HalfClosed.shutdown (h : c.HalfClosed) :
    c.shutdown.HalfClosed ∧ Leaving c.shutdown := by
  have hi := shutdown_intact h.toIntact
  unfold TcpConnection.shutdown at hi ⊢
  by_cases hst : c.state = .kConnected
  · have hzero : c.log.shutdownWrites = 0 := by
      by_contra hne
      exact (h.done (Nat.pos_of_ne_zero hne)).1 hst
    rw [if_pos hst] at hi ⊢
    unfold shutdownInLoop at hi ⊢
    by_cases hw : c.channel.isWriting = true
    · rw [if_pos hw] at hi ⊢
      exact ⟨⟨hi, h.once, fun hd => absurd hzero (Nat.ne_of_gt hd), nofun, h.own, nofun⟩, .inl rfl⟩
    · rw [if_neg hw] at hi ⊢
      have hnil : c.outputBuffer.contents = [] := by
        have := not_congr (h.writing (by rw [hst]; nofun))
        exact not_not.mp (this.mp hw)
      refine ⟨⟨hi, ?_, fun _ => ⟨nofun, hnil⟩, nofun, h.own, nofun⟩, .inl rfl⟩
      change c.log.shutdownWrites + 1 ≤ 1
      omega
  · rw [if_neg hst]
    refine ⟨h, ?_⟩
    unfold Leaving
    cases hs : c.state with
    | kDisconnected => exact .inr rfl
    | kConnecting => exact absurd hs h.established
    | kConnected => exact absurd hs hst
    | kDisconnecting => exact .inl rfl

theorem HalfClosed.sendInLoop (h : c.HalfClosed) (hst : c.state = .kConnected)
    (hs : System.Sends message w) (hr : ¬c.Resets w) :
    Yields HalfClosed (· = Fault.lengthError) (c.sendInLoop message w) := by
  have hup : c.state ≠ .kDisconnected := by
    rw [hst]
    nofun
  refine (((sendInLoop_yields h.toSound hs hup).and (sendInLoop_intact h.toIntact (fun _ => hs) hr)).and
    (sendInLoop_sending c message w)).mono fun c' hc => ?_
  obtain ⟨⟨⟨-, hout, -⟩, hi⟩, hsend⟩ := hc
  have hzero : c.log.shutdownWrites = 0 := by
    by_contra hne
    exact (h.done (Nat.pos_of_ne_zero hne)).1 hst
  have hzero' : c'.log.shutdownWrites = 0 := hsend.shutdownWrites.trans hzero
  refine ⟨hi, by omega, fun hd => by omega, fun hd => ?_, fun m hm => h.own m (hsend.pending m hm),
    hout.state ▸ h.established⟩
  rw [hout.state] at hd
  exact absurd hd hup

theorem handleWrite_idle (h : c.Sound) (hw : c.channel.isWriting = false ∨ w.taken = 0) :
    c.handleWrite w = .ok c := by
  unfold TcpConnection.handleWrite
  split
  · rename_i hon
    rw [Buffer.load_contents h.output, ok_bind]
    match w with
    | .failed _ => rfl
    | .wrote 0 => rfl
    | .wrote (n + 1) => simp [hon, WriteResult.taken] at hw
  · rfl

theorem HalfClosed.handleWrite (h : c.HalfClosed) (hn : w.taken ≤ c.outputBuffer.readableBytes) :
    Yields (fun c' => c'.HalfClosed ∧ (Leaving c → Leaving c') ∧
        (c.state = .kDisconnecting → c.outputBuffer.contents ≠ [] → c'.outputBuffer.contents = [] →
          c'.log.shutdownWrites = 1))
      (fun _ => False) (c.handleWrite w) := by
  by_cases hidle : c.channel.isWriting = false ∨ w.taken = 0
  · rw [handleWrite_idle h.toSound hidle]
    exact ⟨h, id, fun _ hne hnil => absurd hnil hne⟩
  · obtain ⟨hoff, htaken⟩ := not_or.mp hidle
    have hw : c.channel.isWriting = true := by simpa using hoff
    have hzero : c.log.shutdownWrites = 0 := by
      by_contra hne
      exact hoff (h.not_writing (Nat.pos_of_ne_zero hne))
    refine ((handleWrite_intact h.toIntact hn).and (handleWrite_half h.toSound hn)).mono
      fun c' hc => ?_
    obtain ⟨hi, hstate, hpending, hcount⟩ := hc
    rw [hzero, Nat.zero_add] at hcount
    refine ⟨⟨hi, ?_, fun hd => ?_, fun hd => ?_, fun m hm => h.own m (hpending m hm),
      hstate ▸ h.established⟩, fun hl => ?_,
      fun hst _ hnil => ?_⟩
    · rw [hcount]
      split <;> omega
    · rw [hcount] at hd
      split at hd
      · rename_i hcond
        rw [hstate, hcond.2.1]
        exact ⟨nofun, hcond.2.2.2⟩
      · exact absurd hd (Nat.lt_irrefl 0)
    · exact absurd (h.down (hstate ▸ hd)) hoff
    · unfold Leaving
      rw [hstate]
      exact hl
    · rw [hcount, if_pos ⟨hw, hst, Nat.pos_of_ne_zero htaken, hnil⟩]

end TcpConnection

namespace System
open TcpConnection

variable {s : System}

/-- User code stays on the loop's thread, and no write of `send` fails with `EPIPE` or
`ECONNRESET`. -/
def OnLoop (_ : System) : Event → Prop
  | .otherSend _ | .otherQueue _ => False
  | .call (.send _ w) => w ≠ .failed .EPIPE ∧ w ≠ .failed .ECONNRESET
  | _ => True

instance (s : System) : (e : Event) → Decidable (s.OnLoop e)
  | .otherSend _ | .otherQueue _ => isFalse id
  | .call (.send _ _) => inferInstanceAs (Decidable (_ ∧ _))
  | .call .shutdown | .call .forceClose | .call .forceCloseWithDelay | .call .startRead
  | .call .stopRead | .call (.retrieveInput _) | .poll _ | .handle _ _ | .functor _
  | .queueConnectDestroyed | .finishConnectDestroyed => isTrue trivial

/-- The step makes a `write(2)`. -/
def attemptsWrite (s : System) : Event → Bool
  | .call (.send _ _) => s.conn.state = .kConnected ∧ s.conn.writesDirectly = true
  | .handle _ _ => s.callbacks.head? = some .write ∧ s.conn.channel.isWriting = true
  | .functor _ => sendsNext s.conn.pendingFunctors = true ∧ s.conn.state ≠ .kDisconnected ∧
    s.conn.writesDirectly = true
  | _ => false

/-- The same event with another answer of `write(2)`. -/
def answer (w : WriteResult) : Event → Event
  | .call (.send message _) => .call (.send message w)
  | .handle read _ => .handle read w
  | .functor _ => .functor w
  | e => e

theorem not_resets {c : TcpConnection} {w : WriteResult}
    (h : w ≠ .failed .EPIPE ∧ w ≠ .failed .ECONNRESET) : ¬c.Resets w :=
  fun hr => hr.2.2.elim h.1 h.2

/-- A step that makes no `write(2)` does not depend on its answer. -/
theorem step_answer {e : Event} (h : s.attemptsWrite e = false) (w : WriteResult) :
    s.step (answer w e) = s.step e := by
  have hsend : ∀ (c : TcpConnection) (message : Bytes) (w' : WriteResult),
      (c.state ≠ .kDisconnected → c.writesDirectly = false) →
      c.sendInLoop message w = c.sendInLoop message w' := by
    intro c message w' hc
    unfold sendInLoop
    by_cases hst : c.state = .kDisconnected
    · rw [if_pos hst, if_pos hst]
    · have hoff : ¬TcpConnection.writesDirectly
          { c with log.accepted := c.log.accepted ++ message } = true := by
        rw [show TcpConnection.writesDirectly { c with log.accepted := c.log.accepted ++ message } =
          c.writesDirectly from rfl, hc hst]
        nofun
      simp only [if_neg hst, if_neg hoff]
  have hpiece : ∀ (c : TcpConnection) (message : Bytes) (w' : WriteResult),
      (c.state ≠ .kDisconnected → c.writesDirectly = false) →
      c.sendPiece message w = c.sendPiece message w' := by
    intro c message w' hc
    have hsame : ∀ data, c.sendInLoop data w = c.sendInLoop data w' :=
      fun data => hsend c data w' hc
    simp only [sendPiece, hsame]
  cases e with
  | call k =>
    cases k with
    | send message w' =>
      simp only [answer, step, callStep, send]
      by_cases hst : s.conn.state = .kConnected
      · rw [hsend s.conn message w' fun _ => by simpa [attemptsWrite, hst] using h]
      · rw [if_neg hst, if_neg hst]
    | _ => rfl
  | handle read w' =>
    simp only [answer, step]
    cases hcb : s.callbacks with
    | nil => rfl
    | cons callback callbacks =>
      cases callback with
      | write =>
        have hoff : ¬s.conn.channel.isWriting = true := by simpa [attemptsWrite, hcb] using h
        simp only [callbackStep, handleWrite, if_neg hoff]
      | _ => rfl
  | functor w' =>
    simp only [answer, step]
    cases hf : s.conn.pendingFunctors with
    | nil => rfl
    | cons f fs =>
      cases f with
      | sendInLoop message =>
        simp only [functorStep]
        rw [hpiece { s.conn with pendingFunctors := fs } message w' fun hst => ?_]
        have hst' : s.conn.state ≠ .kDisconnected := hst
        change s.conn.writesDirectly = false
        simpa [attemptsWrite, hf, sendsNext, hst'] using h
      | _ => rfl
  | _ => rfl

/-- What a step keeps of the connection. -/
structure Closing (c c' : TcpConnection) : Prop where
  half : c'.HalfClosed
  leaving : Leaving c → Leaving c'

theorem call_closing (h : s.conn.HalfClosed) {k : Call} (he : s.CallAllowed k)
    (ho : s.OnLoop (.call k)) :
    Yields (Closing s.conn) (s.MayFail (.call k)) (callStep s.conn k) := by
  cases k with
  | send message w =>
    simp only [callStep, send]
    split
    · rename_i hst
      refine ((h.sendInLoop hst he (not_resets ho)).weaken fun f hf => .inr ⟨hf, trivial⟩).mono
        fun c' hc => ⟨hc, fun hl => ?_⟩
      rcases hl with hl | hl <;> rw [hst] at hl <;> cases hl
    · exact ⟨h, id⟩
  | shutdown => exact ⟨h.shutdown.1, fun _ => h.shutdown.2⟩
  | forceClose =>
    have hi := forceClose_intact h.toIntact
    simp only [callStep, forceClose] at hi ⊢
    split
    · rename_i hst
      rw [if_pos hst] at hi
      refine ⟨⟨hi, h.once, fun hd => ⟨(fun hst => by cases hst), (h.done hd).2⟩,
        (fun hst => by cases hst), fun m hm => ?_, (fun hst => by cases hst)⟩,
        fun _ => .inl rfl⟩
      exact h.own m
        ((queueInLoop_sending (c := s.conn) (f := .forceCloseInLoop) (by simp)).pending m hm)
    · exact ⟨h, id⟩
  | forceCloseWithDelay =>
    have hi := forceCloseWithDelay_intact h.toIntact
    simp only [callStep, forceCloseWithDelay] at hi ⊢
    split
    · rename_i hst
      rw [if_pos hst] at hi
      exact ⟨⟨hi, h.once, fun hd => ⟨by simp, (h.done hd).2⟩, by simp, h.own, by simp⟩,
        fun _ => .inl rfl⟩
    · exact ⟨h, id⟩
  | startRead =>
    simp only [callStep, startReadInLoop]
    split
    · rw [Channel.enableReading_eq h.channel, ok_bind]
      exact ⟨h.settleReading true true, id⟩
    · exact ⟨h, id⟩
  | stopRead =>
    simp only [callStep, stopReadInLoop]
    split
    · rw [Channel.disableReading_eq h.channel, ok_bind]
      exact ⟨h.settleReading false false, id⟩
    · exact ⟨h, id⟩
  | retrieveInput len =>
    obtain ⟨b, hb, hv, _⟩ := Buffer.retrieve_holds h.input he
    rw [callStep, retrieveInput, hb, ok_bind]
    exact ⟨⟨⟨⟨hv, h.output, h.channel⟩, h.stream, h.writing⟩, h.once, h.done, h.down, h.own,
      h.established⟩, id⟩

theorem handleRead_closing {c : TcpConnection} {read : Option Bytes} (h : c.HalfClosed)
    (hd : (read.getD []).length ≤ c.inputBuffer.iovBytes) :
    Yields (Closing c) (fun f => f = .assertion ∧ read = some [] ∨ f = .lengthError)
      (c.handleRead read) := by
  unfold handleRead
  refine ((readFd_valid h.input hd).weaken fun f hf => .inr hf).bind fun b hb => ?_
  have hc : HalfClosed { c with inputBuffer := b } :=
    ⟨⟨⟨hb, h.output, h.channel⟩, h.stream, h.writing⟩, h.once, h.done, h.down, h.own, h.established⟩
  split
  · rename_i hnil
    exact (hc.handleClose.mono fun c' hc' => ⟨hc'.1, fun _ => hc'.2⟩).weaken
      fun f hf => .inl ⟨hf, hnil⟩
  · exact ⟨hc, id⟩

theorem removeChannel_closing {c : TcpConnection} (h : c.HalfClosed) :
    Yields (Closing c) (· = Fault.assertion) c.removeChannel := by
  suffices hremove : Yields (fun c' => c'.Intact → Closing c c') (fun _ => True)
      c.removeChannel from
    ((removeChannel_intact h.toIntact).and hremove).mono fun c' hc => hc.2 hc.1
  unfold removeChannel
  by_cases hr : c.channel.isNoneEvent = true
  · have hoff : c.channel.events = kNoneEvent := by simpa [Channel.isNoneEvent] using hr
    refine Yields.bind ((Channel.remove_yields h.channel).weaken fun _ _ => trivial) fun ch hch => ?_
    refine fun hi => ⟨⟨hi, h.once, h.done, fun _ => ?_, h.own, h.established⟩, id⟩
    simp [Channel.isWriting, hch.2, hoff, kNoneEvent]
  · have hne : c.channel.events ≠ kNoneEvent := by simpa [Channel.isNoneEvent] using hr
    rw [Channel.remove_enabled hne]
    trivial

theorem functor_closing {c : TcpConnection} (h : c.HalfClosed) {w : WriteResult} {f : Functor}
    (hf : ∀ message, f ≠ .sendInLoop message) :
    Yields (Closing c)
      (fun why => why = Fault.assertion ∧ (f = .forceCloseInLoop ∨ f = .connectDestroyed))
      (functorStep c w f) := by
  cases f with
  | sendInLoop message => exact absurd rfl (hf message)
  | writeCompleteCallback => exact ⟨h, id⟩
  | highWaterMarkCallback len => exact ⟨h, id⟩
  | forceCloseInLoop =>
    simp only [functorStep, forceCloseInLoop]
    split
    · exact (h.handleClose.mono fun c' hc' => ⟨hc'.1, fun _ => hc'.2⟩).weaken
        fun why hwhy => ⟨hwhy, by simp⟩
    · exact ⟨h, id⟩
  | connectDestroyed =>
    simp only [functorStep]
    split
    · have hi := disconnect_intact h.toIntact
      unfold disconnect at hi ⊢
      rw [Channel.disableAll_eq h.channel, ok_bind] at hi ⊢
      refine ⟨⟨hi, h.once, fun hd => ⟨by simp, (h.done hd).2⟩, fun _ => ?_, h.own, by simp⟩,
        fun _ => .inr rfl⟩
      simp [Channel.isWriting, kNoneEvent]
    · exact (removeChannel_closing h).weaken fun why hwhy => ⟨hwhy, by simp⟩

/-- A step keeps the half-close in order, and one that drains the output of a connection on
its way out makes it. -/
theorem step_closing {e : Event} (h : s.conn.HalfClosed) (he : s.enabled e) (ho : s.OnLoop e) :
    Yields (fun t => Closing s.conn t.conn) (s.MayFail e) (s.step e) := by
  cases e with
  | call k => exact (call_closing h he ho).bind fun c hc => hc
  | otherSend message => exact ho.elim
  | otherQueue message => exact ho.elim
  | poll r => exact ⟨h, id⟩
  | handle read w =>
    obtain ⟨-, -, hread, hwrite⟩ := he
    simp only [step]
    split
    · exact ⟨h, id⟩
    · rename_i callback callbacks hcb
      have hhead : s.callbacks.head? = some callback := by rw [hcb]; rfl
      refine Yields.bind (m := Closing s.conn) ?_ fun c hc => hc
      cases callback with
      | close =>
        exact (h.handleClose.mono fun c' hc' => ⟨hc'.1, fun _ => hc'.2⟩).weaken
          fun f hf => .inl ⟨hf, .inl hhead⟩
      | error => exact ⟨h, id⟩
      | read =>
        apply (handleRead_closing h hread).weaken
        intro f hf
        cases hf with
        | inl hf => exact .inl ⟨hf.1, .inr ⟨hhead, hf.2⟩⟩
        | inr hf => exact .inr ⟨hf, hhead⟩
      | write => exact (h.handleWrite hwrite).safe.mono fun c' hc' => ⟨hc'.1, hc'.2.1⟩
  | functor w =>
    simp only [step]
    split
    · exact ⟨h, id⟩
    · rename_i f fs hfs
      have hmem : f ∈ s.conn.pendingFunctors := by
        rw [hfs]
        exact List.mem_cons_self
      have h' : HalfClosed { s.conn with pendingFunctors := fs } := by
        refine ⟨⟨⟨h.input, h.output, h.channel⟩, h.stream, h.writing⟩, h.once, h.done, h.down,
          fun m hm => h.own m ?_, h.established⟩
        rw [hfs]
        exact List.mem_cons_of_mem _ hm
      have hhead : s.conn.pendingFunctors.head? = some f := by rw [hfs]; rfl
      refine Yields.bind (m := Closing s.conn) ?_ fun c hc => hc
      apply ((functor_closing h' fun m hm => h.own m (hm ▸ hmem)).mono fun c' hc' =>
        ⟨hc'.half, hc'.leaving⟩).weaken
      intro why hwhy
      obtain ⟨hassert, hclose⟩ := hwhy
      refine .inl ⟨hassert, ?_⟩
      cases hclose with
      | inl hclose => exact .inl (hclose ▸ hhead)
      | inr hclose => exact .inr (hclose ▸ hhead)
  | queueConnectDestroyed =>
    refine ⟨⟨h.toIntact.queueInLoop _, h.once, h.done, h.down, fun m hm => ?_, h.established⟩, id⟩
    exact h.own m
      ((queueInLoop_sending (c := s.conn) (f := .connectDestroyed) (by simp)).pending m hm)
  | finishConnectDestroyed =>
    exact ((removeChannel_closing h).weaken fun f hf => .inl ⟨hf, trivial⟩).bind
      fun c hc => ⟨hc.half, hc.leaving⟩

/-- Only sending and writing touch the output. -/
theorem handleClose_output (c : TcpConnection) :
    Yields (fun c' => c'.outputBuffer = c.outputBuffer) (fun _ => True) c.handleClose :=
  (yields_any _).bind fun _ _ => (yields_any _).bind fun _ _ => rfl

theorem callStep_output {c : TcpConnection} (hst : c.state ≠ .kConnected) (k : Call) :
    Yields (fun c' => c'.outputBuffer = c.outputBuffer) (fun _ => True) (callStep c k) := by
  cases k with
  | send message w =>
    rw [callStep, send, if_neg hst]
    rfl
  | shutdown =>
    rw [callStep, shutdown, if_neg hst]
    rfl
  | forceClose =>
    simp only [callStep, forceClose]
    split <;> rfl
  | forceCloseWithDelay =>
    simp only [callStep, forceCloseWithDelay]
    split <;> rfl
  | startRead =>
    simp only [callStep, startReadInLoop]
    split
    · exact (yields_any _).bind fun _ _ => rfl
    · rfl
  | stopRead =>
    simp only [callStep, stopReadInLoop]
    split
    · exact (yields_any _).bind fun _ _ => rfl
    · rfl
  | retrieveInput len => exact (yields_any _).bind fun _ _ => rfl

theorem functorStep_output (c : TcpConnection) (w : WriteResult) {f : Functor}
    (hf : ∀ message, f ≠ .sendInLoop message) :
    Yields (fun c' => c'.outputBuffer = c.outputBuffer) (fun _ => True) (functorStep c w f) := by
  cases f with
  | sendInLoop message => exact absurd rfl (hf message)
  | writeCompleteCallback => rfl
  | highWaterMarkCallback len => rfl
  | forceCloseInLoop =>
    simp only [functorStep, forceCloseInLoop]
    split
    · exact handleClose_output c
    · rfl
  | connectDestroyed =>
    simp only [functorStep]
    split
    · exact (yields_any _).bind fun _ _ => rfl
    · exact (yields_any _).bind fun _ _ => rfl

/-- The step that empties the output of a connection that was told to go shuts its writing
side. -/
theorem step_drains {e : Event} (h : s.conn.HalfClosed) (he : s.enabled e) (ho : s.OnLoop e)
    (hst : s.conn.state = .kDisconnecting) (hne : s.conn.outputBuffer.contents ≠ []) :
    Yields (fun t => t.conn.outputBuffer.contents = [] → t.conn.log.shutdownWrites = 1)
      (fun _ => True) (s.step e) := by
  have hkept : ∀ {c' : TcpConnection}, c'.outputBuffer = s.conn.outputBuffer →
      c'.outputBuffer.contents = [] → c'.log.shutdownWrites = 1 := by
    intro c' hout hnil
    rw [hout] at hnil
    exact absurd hnil hne
  cases e with
  | call k => exact (callStep_output (by rw [hst]; nofun) k).bind fun c hc => hkept hc
  | otherSend message => exact ho.elim
  | otherQueue message => exact ho.elim
  | poll r => exact hkept rfl
  | handle read w =>
    obtain ⟨-, -, -, hwrite⟩ := he
    simp only [step]
    split
    · exact hkept rfl
    · rename_i callback callbacks _
      cases callback with
      | close => exact (handleClose_output _).bind fun c hc => hkept hc
      | error => exact hkept rfl
      | read =>
        refine Yields.bind (m := fun c => c.outputBuffer = s.conn.outputBuffer) ?_
          fun c hc => hkept hc
        simp only [callbackStep, handleRead]
        refine (yields_any _).bind fun b _ => ?_
        split
        · exact handleClose_output _
        · rfl
      | write =>
        exact (h.handleWrite hwrite).safe.bind fun c hc => hc.2.2 hst hne
  | functor w =>
    simp only [step]
    split
    · exact hkept rfl
    · rename_i f fs hfs
      have hmem : f ∈ s.conn.pendingFunctors := by
        rw [hfs]
        exact List.mem_cons_self
      refine (functorStep_output { s.conn with pendingFunctors := fs } w fun m hm => ?_).bind
        fun c hc => hkept hc
      exact h.own m (hm ▸ hmem)
  | queueConnectDestroyed => exact hkept rfl
  | finishConnectDestroyed =>
    refine Yields.bind (m := fun c => c.outputBuffer = s.conn.outputBuffer) ?_ fun c hc => hkept hc
    exact (yields_any _).bind fun _ _ => rfl

/-- The half-close is made at most once, and then the kernel has every byte that was accepted and
no event makes a `write(2)` any more. -/
structure Graceful (s : System) : Prop where
  once : s.conn.log.shutdownWrites ≤ 1
  complete : 0 < s.conn.log.shutdownWrites →
    s.conn.log.written = s.conn.log.accepted ∧ s.conn.outputBuffer.readableBytes = 0
  silent : 0 < s.conn.log.shutdownWrites → ∀ e, s.attemptsWrite e = false

theorem closing_graceful (h : s.conn.HalfClosed) : s.Graceful := by
  have hread := h.output.readable_length
  refine ⟨h.once, fun hd => ?_, fun hd e => ?_⟩
  · obtain ⟨-, hnil⟩ := h.done hd
    have hstream := h.stream
    rw [hnil, List.append_nil] at hstream
    rw [hread, hnil]
    exact ⟨hstream, rfl⟩
  · have hoff := h.not_writing hd
    have hup := (h.done hd).1
    cases e with
    | call k =>
      cases k with
      | send message w => simp [attemptsWrite, hup]
      | _ => rfl
    | handle read w => simp [attemptsWrite, hoff]
    | functor w =>
      have hsend : sendsNext s.conn.pendingFunctors = false := by
        have hown := h.own
        revert hown
        cases s.conn.pendingFunctors with
        | nil => exact fun _ => rfl
        | cons f fs =>
          intro hown
          cases f with
          | sendInLoop message => exact absurd List.mem_cons_self (hown message)
          | _ => rfl
      simp [attemptsWrite, hsend]
    | _ => rfl

theorem established_halfClosed (h : Established s) : s.conn.HalfClosed := by
  have hi := established_intact h
  obtain ⟨writeComplete, highWater, mark, rfl⟩ := established_eq h
  exact ⟨hi, Nat.zero_le _, fun hd => absurd hd (Nat.lt_irrefl 0), nofun, nofun, nofun⟩

theorem run_halfClosed {es : List Event} (h : s.conn.HalfClosed) (hl : machine.Legal OnLoop s es) :
    Yields (fun t => Closing s.conn t.conn) (machine.FailsAt MayFail s es) (machine.run s es) := by
  refine Machine.run_keeps_at (I := fun t : System => Closing s.conn t.conn)
    (fun t e ht he ho => ?_) ⟨h, id⟩ hl
  exact (step_closing ht.half he ho).mono fun u hu => ⟨hu.half, fun hs => hu.leaving (ht.leaving hs)⟩

/-- The half-close never cuts the output off, and after `shutdown` it is made by the very step
that empties the output, unless the connection was closed before. -/
theorem shutdown_graceful {es : List Event} (h : Established s) (hl : machine.Legal OnLoop s es) :
    Yields Graceful (machine.FailsAt MayFail s es) (machine.run s es) ∧
      ∀ fs gs e u, fs ++ .call .shutdown :: gs ++ [e] <+: es →
        machine.run s (fs ++ .call .shutdown :: gs) = .ok u →
        u.conn.state ≠ .kDisconnected → u.conn.outputBuffer.readableBytes ≠ 0 →
        u.conn.log.shutdownWrites = 0 ∧
          Yields (fun t => t.conn.outputBuffer.readableBytes = 0 → t.conn.log.shutdownWrites = 1)
            (u.MayFail e) (u.step e) := by
  have hstart := established_halfClosed h
  refine ⟨(run_halfClosed hstart hl).mono fun t ht => closing_graceful ht.half, ?_⟩
  rintro fs gs e u ⟨rest, rfl⟩ hrun hup hpending
  have hleft := hl.left.left
  obtain ⟨he, ho, -⟩ := hl.left.right hrun
  -- the state that `shutdown` leaves
  rw [Machine.run_append] at hrun
  obtain ⟨v, hv, hrun⟩ := bind_ok hrun
  rw [Machine.run_cons] at hrun
  obtain ⟨x, hx, hrun⟩ := bind_ok hrun
  have hvhalf := ((run_halfClosed hstart hleft.left).of_ok hv).half
  obtain ⟨hxhalf, hleaving⟩ := hvhalf.shutdown
  obtain rfl : { v with conn := v.conn.shutdown } = x := Except.ok.inj hx
  have hu := (run_halfClosed hxhalf ((hleft.right hv).2.2 _ rfl)).of_ok hrun
  have hst := (hu.leaving hleaving).resolve_right hup
  have hne : u.conn.outputBuffer.contents ≠ [] := by
    rw [hu.half.output.readable_length] at hpending
    exact fun hnil => hpending (by rw [hnil, List.length_nil])
  refine ⟨?_, ((step_closing hu.half he ho).and (step_drains hu.half he ho hst hne)).mono
    fun t ht hzero => ht.2 ?_⟩
  · by_contra hd
    exact hne (hu.half.done (Nat.pos_of_ne_zero hd)).2
  · rw [ht.1.half.output.readable_length] at hzero
    exact List.length_eq_zero_iff.mp hzero

/-- A short write, `shutdown` and a forced close behind it, and two writable events. -/
def sampleShutdown : List Event :=
  [.call (.send [1, 2, 3] (.wrote 1)), .call .shutdown, .call .forceCloseWithDelay,
    .poll ⟨false, false, true, false, false, false, false⟩, .handle none (.wrote 1),
    .poll ⟨false, false, true, false, false, false, false⟩, .handle none (.wrote 1),
    .call (.send [4] (.wrote 1))]

theorem shutdown_graceful_sample :
    Yields Graceful (machine.FailsAt MayFail sampleStart sampleShutdown)
        (machine.run sampleStart sampleShutdown) ∧
      ∀ fs gs e u, fs ++ .call .shutdown :: gs ++ [e] <+: sampleShutdown →
        machine.run sampleStart (fs ++ .call .shutdown :: gs) = .ok u →
        u.conn.state ≠ .kDisconnected → u.conn.outputBuffer.readableBytes ≠ 0 →
        u.conn.log.shutdownWrites = 0 ∧
          Yields (fun t => t.conn.outputBuffer.readableBytes = 0 → t.conn.log.shutdownWrites = 1)
            (u.MayFail e) (u.step e) :=
  shutdown_graceful sampleStart_established (by decide +kernel)

-- the second writable event makes the half-close
example : (machine.run sampleStart sampleShutdown).map
    (fun t => (t.conn.log.written, t.conn.log.shutdownWrites)) = .ok ([1, 2, 3], 1) := by
  decide +kernel

end System

end Muduo.Net
