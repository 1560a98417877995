import Muduo.Net.Closing
import Muduo.Net.HighWater
import Muduo.Net.Teardown

namespace Muduo.Net
open Muduo.Lib

namespace TcpConnection

variable {c c' : TcpConnection} {message rest : Bytes} {w : WriteResult} {halts reopens : Prop}

/-- An operation that does not take the connection down: at most it begins to close one that is
open, if it `halts`, or has one that is down read again, if it `reopens`. -/
structure Keeps (halts reopens : Prop) (c c' : TcpConnection) : Prop where
  sound : c'.Sound
  state : c'.state = c.state ∨ halts ∧ c.state = .kConnected ∧ c'.state = .kDisconnecting
  registered : c.channel.registered = true → c'.channel.registered = true
  quiet : ¬reopens → c.state = .kDisconnected → c.channel.events = kNoneEvent →
    c'.channel.events = kNoneEvent
  log : c'.log.ups = c.log.ups ∧ c'.log.downs = c.log.downs ∧
    c'.log.closeCallbacks = c.log.closeCallbacks
  queued : ∀ f ∈ c'.pendingFunctors, f ∈ c.pendingFunctors ∨
    f ≠ .connectDestroyed ∧ (f = .forceCloseInLoop → c'.state = .kDisconnecting)

/-- `handleClose`. -/
structure Falls (c c' : TcpConnection) : Prop where
  sound : c'.Sound
  up : c.state = .kConnected ∨ c.state = .kDisconnecting
  down : c'.state = .kDisconnected
  registered : c'.channel.registered = true
  log : c'.log.ups = c.log.ups ∧ c'.log.downs = c.log.downs + 1 ∧
    c'.log.closeCallbacks ≠ c.log.closeCallbacks
  queued : c'.pendingFunctors = c.pendingFunctors

theorem Keeps.refl (hs : c.Sound) : Keeps halts reopens c c :=
  ⟨hs, .inl rfl, id, fun _ _ => id, ⟨rfl, rfl, rfl⟩, fun _ => .inl⟩

/-- What sending and writing queue, and that they call no connection callback. -/
structure Notifies (c c' : TcpConnection) : Prop where
  ups : c'.log.ups = c.log.ups
  queued : ∀ f ∈ c'.pendingFunctors, f ∈ c.pendingFunctors ∨ f = .writeCompleteCallback ∨
    ∃ n, f = .highWaterMarkCallback n

theorem queueHighWaterMark_notifies (oldLen newLen : Nat) :
    ∃ fs, c.queueHighWaterMark oldLen newLen = { c with pendingFunctors := c.pendingFunctors ++ fs } ∧
      ∀ f ∈ fs, ∃ n, f = .highWaterMarkCallback n := by
  unfold queueHighWaterMark
  split
  · refine ⟨[.highWaterMarkCallback newLen], rfl, fun f hf => ⟨newLen, ?_⟩⟩
    exact List.mem_singleton.mp hf
  · exact ⟨[], by rw [List.append_nil], nofun⟩

theorem keepRemaining_notifies (h : c.keepRemaining rest = .ok c') : Notifies c c' := by
  obtain ⟨fs, heq, hfs⟩ := @queueHighWaterMark_notifies c c.outputBuffer.readableBytes
    (sizeAdd c.outputBuffer.readableBytes rest.length)
  have hqueued : ∀ f ∈ c.pendingFunctors ++ fs, f ∈ c.pendingFunctors ∨
      f = .writeCompleteCallback ∨ ∃ n, f = .highWaterMarkCallback n := fun f hf =>
    (List.mem_append.mp hf).imp_right fun hf => .inr (hfs f hf)
  simp only [keepRemaining, heq] at h
  obtain ⟨output, -, h⟩ := bind_ok h
  split at h
  · cases h
    exact ⟨rfl, hqueued⟩
  · obtain ⟨channel, -, h⟩ := bind_ok h
    cases h
    exact ⟨rfl, hqueued⟩

theorem sendRemaining_notifies {n : Nat} {fault : Bool}
    (h : c.sendRemaining message n fault = .ok c') : Notifies c c' := by
  obtain ⟨-, -, h⟩ := bind_ok h
  split at h
  · exact keepRemaining_notifies h
  · cases h
    exact ⟨rfl, fun _ => .inl⟩

theorem writeDirectly_notifies : Notifies c (c.writeDirectly message w).1 := by
  cases w with
  | wrote n =>
    simp only [writeDirectly]
    split
    · refine ⟨rfl, fun f hf => (List.mem_append.mp hf).imp_right fun hf => .inl ?_⟩
      exact List.mem_singleton.mp hf
    · exact ⟨rfl, fun _ => .inl⟩
  | failed errno => exact ⟨rfl, fun _ => .inl⟩

theorem Notifies.trans {c'' : TcpConnection} (h : Notifies c c') (h' : Notifies c' c'') :
    Notifies c c'' :=
  ⟨h'.ups.trans h.ups, fun f hf => (h'.queued f hf).elim (h.queued f) .inr⟩

theorem sendInLoop_notifies (h : c.sendInLoop message w = .ok c') : Notifies c c' := by
  unfold sendInLoop at h
  split at h
  · cases h
    exact ⟨rfl, fun _ => .inl⟩
  · dsimp only at h
    split at h
    · have hwrite := @writeDirectly_notifies
        { c with log.accepted := c.log.accepted ++ message } message w
      exact .trans ⟨hwrite.ups, hwrite.queued⟩ (sendRemaining_notifies h)
    · have hrest := sendRemaining_notifies h
      exact ⟨hrest.ups, hrest.queued⟩

theorem drained_notifies (h : c.drained = .ok c') : Notifies c c' := by
  have hshut : ∀ b : TcpConnection, (if b.state = .kDisconnecting then b.shutdownInLoop else b).log.ups =
      b.log.ups ∧ (if b.state = .kDisconnecting then b.shutdownInLoop else b).pendingFunctors =
        b.pendingFunctors := by
    intro b
    unfold shutdownInLoop
    split
    · split <;> exact ⟨rfl, rfl⟩
    · exact ⟨rfl, rfl⟩
  obtain ⟨channel, -, h⟩ := bind_ok h
  cases h
  split
  · obtain ⟨hups, hpending⟩ := hshut (queueInLoop { c with channel := channel } .writeCompleteCallback)
    refine ⟨hups, fun f hf => ?_⟩
    rw [hpending] at hf
    exact (List.mem_append.mp hf).imp_right fun hf => .inl (List.mem_singleton.mp hf)
  · obtain ⟨hups, hpending⟩ := hshut { c with channel := channel }
    refine ⟨hups, fun f hf => .inl ?_⟩
    rw [hpending] at hf
    exact hf

theorem handleWrite_notifies (h : c.handleWrite w = .ok c') : Notifies c c' := by
  unfold handleWrite at h
  split at h
  · obtain ⟨data, -, h⟩ := bind_ok h
    match w with
    | .failed _ =>
      cases h
      exact ⟨rfl, fun _ => .inl⟩
    | .wrote 0 =>
      cases h
      exact ⟨rfl, fun _ => .inl⟩
    | .wrote (n + 1) =>
      obtain ⟨output, -, h⟩ := bind_ok h
      dsimp only at h
      split at h
      · have hdrained := drained_notifies h
        exact ⟨hdrained.ups, hdrained.queued⟩
      · cases h
        exact ⟨rfl, fun _ => .inl⟩
  · cases h
    exact ⟨rfl, fun _ => .inl⟩

theorem OutputOnly.keeps (ho : OutputOnly c c') (hs : c'.Sound) (hn : Notifies c c')
    (hst : c.state ≠ .kDisconnected) : Keeps halts reopens c c' := by
  refine ⟨hs, .inl ho.state, ho.calm.registered, fun _ hdown => absurd hdown hst,
    ⟨hn.ups, ho.closes.2⟩, fun f hf => ?_⟩
  rcases hn.queued f hf with hf | rfl | ⟨n, rfl⟩
  · exact .inl hf
  · exact .inr ⟨nofun, nofun⟩
  · exact .inr ⟨nofun, nofun⟩

theorem sendInLoop_keeps (hs : c.Sound) (hsends : System.Sends message w) :
    Yields (Keeps halts reopens c) (· = Fault.lengthError) (c.sendInLoop message w) := by
  by_cases hst : c.state = .kDisconnected
  · rw [sendInLoop, if_pos hst]
    exact .refl hs
  have hyields := sendInLoop_yields hs hsends hst
  cases h : c.sendInLoop message w with
  | error f =>
    rw [h] at hyields
    exact hyields
  | ok c' =>
    rw [h] at hyields
    exact hyields.2.1.keeps hyields.1 (sendInLoop_notifies h) hst

/-- A channel without events has nothing to write. -/
theorem handleWrite_quiet (h : c.channel.events = kNoneEvent) : c.handleWrite w = .ok c := by
  rw [handleWrite, if_neg]
  rw [Channel.isWriting, h]
  decide

theorem handleWrite_keeps (hs : c.Sound) (hn : w.taken ≤ c.outputBuffer.readableBytes) :
    Yields (Keeps halts reopens c) (· = Fault.lengthError) (c.handleWrite w) := by
  have hyields := handleWrite_yields hs hn
  cases h : c.handleWrite w with
  | error f =>
    rw [h] at hyields
    exact hyields.elim
  | ok c' =>
    rw [h] at hyields
    obtain ⟨hsound, hout, -⟩ := hyields
    have hnotifies := handleWrite_notifies h
    refine ⟨hsound, .inl hout.state, hout.calm.registered, fun _ _ hquiet => ?_,
      ⟨hnotifies.ups, hout.closes.2⟩, fun f hf => ?_⟩
    · rw [handleWrite_quiet hquiet] at h
      cases h
      exact hquiet
    · rcases hnotifies.queued f hf with hf | rfl | ⟨n, rfl⟩
      · exact .inl hf
      · exact .inr ⟨nofun, nofun⟩
      · exact .inr ⟨nofun, nofun⟩

theorem startReadInLoop_keeps (hs : c.Sound) :
    Yields (Keeps halts True c) (fun _ => False) c.startReadInLoop := by
  unfold startReadInLoop
  split
  · rw [Channel.enableReading_eq hs.channel, ok_bind]
    exact ⟨⟨hs.input, hs.output, Channel.settle_consistent _⟩, .inl rfl,
      fun _ => Channel.settle_registered _, fun hnot => absurd trivial hnot, ⟨rfl, rfl, rfl⟩,
      fun _ => .inl⟩
  · exact .refl hs

theorem stopReadInLoop_keeps (hs : c.Sound) :
    Yields (Keeps halts reopens c) (fun _ => False) c.stopReadInLoop := by
  unfold stopReadInLoop
  split
  · rw [Channel.disableReading_eq hs.channel, ok_bind]
    refine ⟨⟨hs.input, hs.output, Channel.settle_consistent _⟩, .inl rfl,
      fun _ => Channel.settle_registered _, fun _ _ hquiet => ?_, ⟨rfl, rfl, rfl⟩, fun _ => .inl⟩
    change (c.channel.settle _).events = _
    rw [Channel.settle_events, hquiet]
    rfl
  · exact .refl hs

theorem shutdown_keeps (hs : c.Sound) : Keeps True reopens c c.shutdown := by
  unfold shutdown
  split
  · rename_i hst
    unfold shutdownInLoop
    split
    · exact ⟨⟨hs.input, hs.output, hs.channel⟩, .inr ⟨trivial, hst, rfl⟩, id, fun _ _ => id,
        ⟨rfl, rfl, rfl⟩, fun _ => .inl⟩
    · exact ⟨⟨hs.input, hs.output, hs.channel⟩, .inr ⟨trivial, hst, rfl⟩, id, fun _ _ => id,
        ⟨rfl, rfl, rfl⟩, fun _ => .inl⟩
  · exact .refl hs

theorem forceClose_keeps (hs : c.Sound) : Keeps True reopens c c.forceClose := by
  unfold forceClose
  split
  · rename_i hst
    refine ⟨⟨hs.input, hs.output, hs.channel⟩, ?_, id, fun _ _ => id, ⟨rfl, rfl, rfl⟩,
      fun f hf => ?_⟩
    · cases hst with
      | inl hst => exact .inr ⟨trivial, hst, rfl⟩
      | inr hst => exact .inl hst.symm
    · refine (List.mem_append.mp hf).imp_right fun hf => ?_
      rw [List.mem_singleton.mp hf]
      exact ⟨nofun, fun _ => rfl⟩
  · exact .refl hs

theorem forceCloseWithDelay_keeps (hs : c.Sound) : Keeps True reopens c c.forceCloseWithDelay := by
  unfold forceCloseWithDelay
  split
  · rename_i hst
    refine ⟨⟨hs.input, hs.output, hs.channel⟩, ?_, id, fun _ _ => id, ⟨rfl, rfl, rfl⟩, fun _ => .inl⟩
    cases hst with
    | inl hst => exact .inr ⟨trivial, hst, rfl⟩
    | inr hst => exact .inl hst.symm
  · exact .refl hs

theorem retrieveInput_keeps {len : Nat} (hs : c.Sound) (hl : len ≤ c.inputBuffer.readableBytes) :
    Yields (Keeps halts reopens c) (fun _ => False) (c.retrieveInput len) := by
  obtain ⟨b, hb, hv, -⟩ := Buffer.retrieve_holds hs.input hl
  rw [retrieveInput, hb, ok_bind]
  exact ⟨⟨hv, hs.output, hs.channel⟩, .inl rfl, id, fun _ _ => id, ⟨rfl, rfl, rfl⟩, fun _ => .inl⟩

/-- Whatever user code calls, the connection does not go down at once. -/
theorem call_keeps (hs : c.Sound) {call : Call} (hcall : (System.start c).CallAllowed call) :
    Yields (Keeps call.Halts call.Reopens c)
      (fun f => f = .lengthError ∧ ∃ message w, call = .send message w)
      (System.callStep c call) := by
  cases call with
  | send message w =>
    simp only [System.callStep, send]
    split
    · exact (sendInLoop_keeps hs hcall).weaken fun f hf => ⟨hf, message, w, rfl⟩
    · exact .refl hs
  | shutdown => exact shutdown_keeps hs
  | forceClose => exact forceClose_keeps hs
  | forceCloseWithDelay => exact forceCloseWithDelay_keeps hs
  | startRead => exact (startReadInLoop_keeps hs).safe
  | stopRead => exact (stopReadInLoop_keeps hs).safe
  | retrieveInput len => exact (retrieveInput_keeps hs hcall).safe

theorem handleClose_falls (hs : c.Sound) (hup : c.state = .kConnected ∨ c.state = .kDisconnecting) :
    ∃ c', c.handleClose = .ok c' ∧ Falls c c' := by
  unfold handleClose
  rw [check_pos hup, ok_bind]
  dsimp only
  rw [Channel.disableAll_eq hs.channel, ok_bind]
  refine ⟨_, rfl, ⟨hs.input, hs.output, Channel.settle_consistent _⟩, hup, rfl,
    Channel.settle_registered _, ⟨rfl, rfl, ?_⟩, rfl⟩
  exact Nat.succ_ne_self _

/-- `handleClose` asserts that the connection is not down. -/
theorem handleClose_yields (hs : c.Sound) :
    Yields (Falls c) (· = Fault.assertion) c.handleClose := by
  by_cases hup : c.state = .kConnected ∨ c.state = .kDisconnecting
  · obtain ⟨c', heq, hfalls⟩ := handleClose_falls hs hup
    rw [heq]
    exact hfalls
  · rw [handleClose, check_neg hup]
    rfl

/-- A callback that the channel makes. -/
theorem callback_keeps {read : Option Bytes} {callback : Channel.Callback} (hs : c.Sound)
    (hd : (read.getD []).length ≤ c.inputBuffer.iovBytes)
    (hn : w.taken ≤ c.outputBuffer.readableBytes) :
    Yields (fun c' => Keeps False False c c' ∨ callback.Closes read ∧ Falls c c')
      (fun f => f = .lengthError ∨ callback.Closes read) (System.callbackStep c read w callback) := by
  cases callback with
  | close =>
    refine ((handleClose_yields hs).mono fun c' hc => .inr ⟨.inl rfl, hc⟩).weaken fun f _ => ?_
    exact .inr (.inl rfl)
  | error => exact .inl (.refl hs)
  | read =>
    simp only [System.callbackStep, handleRead]
    refine ((readFd_valid hs.input hd).weaken fun f hf => .inl hf).bind fun b hb => ?_
    split
    · rename_i hnil
      have hfalls := handleClose_yields (c := { c with inputBuffer := b }) ⟨hb, hs.output, hs.channel⟩
      refine (hfalls.mono fun c' hc => .inr ⟨.inr ⟨rfl, hnil⟩, ?_⟩).weaken fun f _ =>
        .inr (.inr ⟨rfl, hnil⟩)
      exact ⟨hc.sound, hc.up, hc.down, hc.registered, hc.log, hc.queued⟩
    · exact .inl ⟨⟨hb, hs.output, hs.channel⟩, .inl rfl, id, fun _ _ => id, ⟨rfl, rfl, rfl⟩,
        fun _ => .inl⟩
  | write =>
    exact ((handleWrite_keeps hs hn).mono fun c' hc => .inl hc).weaken fun f hf => .inl hf

theorem functor_keeps {f : Functor} (hs : c.Sound) (hf : f ≠ .connectDestroyed)
    (hown : ∀ message, f ≠ .sendInLoop message) :
    Yields (fun c' => Keeps False False c c' ∨ f = .forceCloseInLoop ∧ Falls c c')
      (· = Fault.lengthError) (System.functorStep c w f) := by
  cases f with
  | sendInLoop message => exact absurd rfl (hown message)
  | writeCompleteCallback => exact .inl (.refl hs)
  | highWaterMarkCallback len => exact .inl (.refl hs)
  | forceCloseInLoop =>
    change Yields _ _ c.forceCloseInLoop
    unfold forceCloseInLoop
    split
    · rename_i hup
      obtain ⟨c', heq, hfalls⟩ := handleClose_falls hs hup
      rw [heq]
      exact .inr ⟨rfl, hfalls⟩
    · exact .inl (.refl hs)
  | connectDestroyed => exact absurd rfl hf

/-- `connectEstablished` calls the connection callback of a connection that came up. -/
theorem connectEstablished_rises (hs : c.Sound) (hst : c.state = .kConnecting) : ∃ c',
    c.connectEstablished = .ok c' ∧ c'.Sound ∧ c'.state = .kConnected ∧
      c'.channel.registered = true ∧ c'.pendingFunctors = c.pendingFunctors ∧
      c'.log.ups = c.log.ups + 1 ∧ c'.log.downs = c.log.downs ∧
      c'.log.closeCallbacks = c.log.closeCallbacks := by
  unfold connectEstablished
  rw [check_pos hst, ok_bind, Channel.enableReading_eq hs.channel, ok_bind]
  exact ⟨_, rfl, ⟨hs.input, hs.output, Channel.settle_consistent _⟩, rfl,
    Channel.settle_registered _, rfl, rfl, rfl, rfl⟩

/-- `connectDestroyed` of a connection that is open takes it down and calls its callback. -/
theorem connectDestroyed_open (hs : c.Sound) (hst : c.state = .kConnected) : ∃ c',
    c.connectDestroyed = .ok c' ∧ c'.Sound ∧ c'.state = .kDisconnected ∧
      c'.pendingFunctors = c.pendingFunctors ∧ c'.log.ups = c.log.ups ∧
      c'.log.downs = c.log.downs + 1 ∧ c'.log.closeCallbacks = c.log.closeCallbacks := by
  have hremove : (c.channel.settle kNoneEvent).remove = .ok Channel.new :=
    Channel.remove_eq (Channel.settle_consistent _) (Channel.settle_registered _)
      (Channel.settle_events _)
  unfold connectDestroyed
  rw [if_pos hst, disconnect, Channel.disableAll_eq hs.channel, ok_bind, ok_bind, removeChannel,
    hremove, ok_bind]
  exact ⟨_, rfl, ⟨hs.input, hs.output, Channel.new_consistent⟩, rfl, rfl, rfl, rfl, rfl⟩

/-- `connectDestroyed` of a connection that is down already only removes its channel. -/
theorem connectDestroyed_down (hs : c.Sound) (hst : c.state = .kDisconnected)
    (h : c.connectDestroyed = .ok c') : c'.Sound ∧ c'.state = .kDisconnected ∧
      c'.pendingFunctors = c.pendingFunctors ∧ c'.log = c.log := by
  rw [TcpConnection.connectDestroyed, if_neg (by rw [hst]; exact nofun)] at h
  obtain ⟨hstill, hstate⟩ := removeChannel_still hs h
  obtain ⟨channel, -, h⟩ := bind_ok h
  cases h
  exact ⟨hstill.sound, hst, rfl, rfl⟩

theorem connectDestroyed_quiet (hs : c.Sound) (hst : c.state = .kDisconnected)
    (hr : c.channel.registered = true) (hq : c.channel.events = kNoneEvent) :
    ∃ c', c.connectDestroyed = .ok c' := by
  refine ⟨{ c with channel := Channel.new }, ?_⟩
  rw [TcpConnection.connectDestroyed, if_neg (by rw [hst]; exact nofun), removeChannel,
    Channel.remove_eq hs.channel hr hq, ok_bind]

end TcpConnection

end Muduo.Net
