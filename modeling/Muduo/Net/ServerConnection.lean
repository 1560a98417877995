import Muduo.Net.Closing
import Muduo.Net.TcpServer

namespace Muduo.Net
open Muduo.Lib

namespace TcpConnection

variable {c c' : TcpConnection} {message : Bytes} {w : WriteResult}

/-- A connection before `connectEstablished`. -/
structure Fresh (c : TcpConnection) : Prop where
  state : c.state = .kConnecting
  channel : c.channel = Channel.new
  reading : c.reading = true
  input : c.inputBuffer.Valid
  output : c.outputBuffer.Valid
  closes : c.log.handleCloses = 0 ∧ c.log.downs = 0 ∧ c.log.closeCallbacks = 0

/-- A connection from `connectEstablished` on, on which `stopRead` is not used. -/
structure Alive (c : TcpConnection) : Prop extends Tidy c where
  reads : c.reading = true

/-- The operation does not take the connection down. -/
structure Kept (c c' : TcpConnection) : Prop extends Frame c c' where
  alive : c'.Alive
  state : c'.state = .kDisconnected ↔ c.state = .kDisconnected
  downs : c'.log.downs = c.log.downs
  closeCallbacks : c'.log.closeCallbacks = c.log.closeCallbacks

/-- The operation takes the connection down, and makes both callbacks of that. -/
structure Closed (c c' : TcpConnection) : Prop extends Frame c c' where
  alive : c'.Alive
  up : c.state ≠ .kDisconnected
  closed : c'.state = .kDisconnected
  downs : c.log.downs = 0 ∧ c'.log.downs = 1
  closeCallbacks : c.log.closeCallbacks = 0 ∧ c'.log.closeCallbacks = 1

theorem Kept.refl (h : c.Alive) : Kept c c := ⟨(Calm.refl c).toFrame, h, .rfl, rfl, rfl⟩

theorem Alive.drained (h : c.Alive) : Alive { c with pendingFunctors := [] } :=
  ⟨⟨⟨h.input, h.output, h.channel⟩, h.established, h.reading, h.added, h.fresh, h.once, h.quiet,
    h.gone⟩, h.reads⟩

theorem Alive.enabled (h : c.Alive) (hst : c.state ≠ .kDisconnected) : c.Enabled := by
  intro hne
  have hr := h.reading hst
  rw [h.reads, Channel.isReading, hne] at hr
  cases hr

theorem OutputOnly.kept (ho : OutputOnly c c') (h : c.Alive) (ht : c'.Tidy) : Kept c c' :=
  ⟨ho.calm.toFrame, ⟨ht, ho.reading.trans h.reads⟩, by rw [ho.state], ho.closes.2.1, ho.closes.2.2⟩

theorem sendInLoop_kept (h : c.Alive) (hs : System.Sends message w) :
    Yields (Kept c) (· = Fault.lengthError) (c.sendInLoop message w) := by
  by_cases hst : c.state = .kDisconnected
  · rw [sendInLoop, if_pos hst]
    exact .refl h
  · exact ((sendInLoop_tidy h.toTidy hs).and (sendInLoop_yields h.toSound hs hst)).mono
      fun c' hc => hc.2.2.1.kept h hc.1.1

theorem handleWrite_kept (h : c.Alive) (hn : w.taken ≤ c.outputBuffer.readableBytes) :
    Yields (Kept c) (· = Fault.lengthError) (c.handleWrite w) :=
  ((handleWrite_tidy h.toTidy hn).and (handleWrite_yields h.toSound hn)).mono fun _ hc =>
    hc.2.2.1.kept h hc.1.1

theorem Calm.kept (hc : Calm c c') (ht : c'.Tidy) (hr : c'.reading = true)
    (hl : c'.log.downs = c.log.downs ∧ c'.log.closeCallbacks = c.log.closeCallbacks) : Kept c c' :=
  ⟨hc.toFrame, ⟨ht, hr⟩, ⟨hc.up, hc.down⟩, hl.1, hl.2⟩

theorem shutdown_kept (h : c.Alive) : Kept c c.shutdown := by
  obtain ⟨ht, hc⟩ := shutdown_tidy h.toTidy
  refine hc.kept ht ?_ ?_ <;> unfold shutdown shutdownInLoop
  · split
    · split <;> exact h.reads
    · exact h.reads
  · split
    · split <;> exact ⟨rfl, rfl⟩
    · exact ⟨rfl, rfl⟩

theorem forceClose_kept (h : c.Alive) : Kept c c.forceClose := by
  obtain ⟨ht, hc⟩ := forceClose_tidy h.toTidy
  refine hc.kept ht ?_ ?_ <;> unfold forceClose <;> split
  · exact h.reads
  · exact h.reads
  · exact ⟨rfl, rfl⟩
  · exact ⟨rfl, rfl⟩

theorem forceCloseWithDelay_kept (h : c.Alive) : Kept c c.forceCloseWithDelay := by
  obtain ⟨ht, hc⟩ := forceCloseWithDelay_tidy h.toTidy
  refine hc.kept ht ?_ ?_ <;> unfold forceCloseWithDelay <;> split
  · exact h.reads
  · exact h.reads
  · exact ⟨rfl, rfl⟩
  · exact ⟨rfl, rfl⟩

theorem retrieveInput_kept {len : Nat} (h : c.Alive) (hl : len ≤ c.inputBuffer.readableBytes) :
    Yields (Kept c) (· = Fault.lengthError) (c.retrieveInput len) := by
  have hold : Yields (fun c' => c'.reading = c.reading ∧ c'.log = c.log) (fun _ => True)
      (c.retrieveInput len) := by
    unfold retrieveInput
    exact (yields_any _).bind fun b _ => ⟨rfl, rfl⟩
  refine ((retrieveInput_tidy h.toTidy hl).and hold).mono fun c' hc => ?_
  exact hc.1.2.kept hc.1.1 (hc.2.1.trans h.reads) ⟨by rw [hc.2.2], by rw [hc.2.2]⟩

theorem handleClose_closed (h : c.Alive) (hst : c.state ≠ .kDisconnected) :
    Yields (Closed c) (· = Fault.lengthError) c.handleClose := by
  have hold : Yields (fun c' => c'.reading = c.reading ∧ c'.state = .kDisconnected ∧
      c'.log.downs = c.log.downs + 1 ∧ c'.log.closeCallbacks = c.log.closeCallbacks + 1)
      (fun _ => True) c.handleClose := by
    unfold handleClose
    exact (yields_any _).bind fun _ _ => (yields_any _).bind fun _ _ => ⟨rfl, rfl, rfl, rfl⟩
  obtain ⟨-, hcallbacks, hdowns⟩ := h.fresh hst
  refine ((handleClose_tidy h.toTidy hst (h.enabled hst)).and hold).mono fun c' hc => ?_
  obtain ⟨⟨ht, hf⟩, hr, hdown, hd, hk⟩ := hc
  exact ⟨hf, ⟨ht, hr.trans h.reads⟩, hst, hdown, ⟨hdowns, by omega⟩, ⟨hcallbacks, by omega⟩⟩

theorem handleRead_life {read : Option Bytes} (h : c.Alive) (hst : c.state ≠ .kDisconnected)
    (hd : (read.getD []).length ≤ c.inputBuffer.iovBytes) :
    Yields (fun c' => Kept c c' ∨ Closed c c') (· = Fault.lengthError) (c.handleRead read) := by
  unfold handleRead
  refine (readFd_valid h.input hd).bind fun b hb => ?_
  have hc : Alive { c with inputBuffer := b } :=
    ⟨⟨⟨hb, h.output, h.channel⟩, h.established, h.reading, h.added, h.fresh, h.once, h.quiet,
      h.gone⟩, h.reads⟩
  split
  · exact (handleClose_closed hc hst).mono fun c' hc' =>
      .inr ⟨⟨hc'.registered, hc'.pending, hc'.down⟩, hc'.alive, hc'.up, hc'.closed, hc'.downs,
        hc'.closeCallbacks⟩
  · exact .inl ⟨⟨id, Nat.le_refl _, id⟩, hc, .rfl, rfl, rfl⟩

theorem call_kept (h : c.Alive) {k : Call} (hk : TcpServer.CallAllowed c k) :
    Yields (Kept c) (· = Fault.lengthError) (System.callStep c k) := by
  cases k with
  | send message w =>
    simp only [System.callStep, send]
    split
    · exact sendInLoop_kept h hk
    · exact .refl h
  | shutdown => exact shutdown_kept h
  | forceClose => exact forceClose_kept h
  | forceCloseWithDelay => exact forceCloseWithDelay_kept h
  | startRead => exact hk.elim
  | stopRead => exact hk.elim
  | retrieveInput len => exact retrieveInput_kept h hk

/-- Only the callbacks that may close do, and they are made only while the connection is up. -/
theorem callback_life {read : Option Bytes} {cb : Channel.Callback} (h : c.Alive)
    (hup : System.closing cb = true → c.state ≠ .kDisconnected)
    (hd : (read.getD []).length ≤ c.inputBuffer.iovBytes)
    (hn : w.taken ≤ c.outputBuffer.readableBytes) :
    Yields (fun c' => Kept c c' ∨ System.closing cb = true ∧ Closed c c') (· = Fault.lengthError)
      (System.callbackStep c read w cb) := by
  cases cb with
  | close => exact (handleClose_closed h (hup rfl)).mono fun c' hc => .inr ⟨rfl, hc⟩
  | error => exact .inl (.refl h)
  | read => exact (handleRead_life h (hup rfl) hd).mono fun c' hc => hc.imp_right fun hc => ⟨rfl, hc⟩
  | write => exact (handleWrite_kept h hn).mono fun c' hc => .inl hc

theorem functor_life {f : Functor} (h : c.Alive) (hf : f ≠ .connectDestroyed)
    (hs : ∀ message, f ≠ .sendInLoop message) :
    Yields (fun c' => Kept c c' ∨ Closed c c') (· = Fault.lengthError)
      (System.functorStep c w f) := by
  cases f with
  | sendInLoop message => exact absurd rfl (hs message)
  | writeCompleteCallback => exact .inl (.refl h)
  | highWaterMarkCallback len => exact .inl (.refl h)
  | forceCloseInLoop =>
    simp only [System.functorStep, forceCloseInLoop]
    split
    · rename_i hst
      exact (handleClose_closed h (up_ne hst)).mono fun c' hc => .inr hc
    · exact .inl (.refl h)
  | connectDestroyed => exact absurd rfl hf

theorem new_fresh (writeComplete highWater : Bool) (mark : Nat) :
    ∃ c, TcpConnection.new writeComplete highWater mark = .ok c ∧ c.Fresh ∧
      c.pendingFunctors = [] := by
  refine ⟨_, by simp only [TcpConnection.new, Buffer.new_initial, ok_bind]; rfl, ?_, rfl⟩
  exact ⟨rfl, rfl, rfl, initial_holds.1, initial_holds.1, rfl, rfl, rfl⟩

/-- Before it is established, what user code calls on a connection does nothing. -/
theorem Fresh.call (h : c.Fresh) {k : Call} (hk : TcpServer.CallAllowed c k) :
    Yields (fun c' => c'.Fresh ∧ c'.pendingFunctors = c.pendingFunctors ∧ c'.log = c.log)
      (· = Fault.lengthError) (System.callStep c k) := by
  have hstate := h.state
  cases k with
  | send message w =>
    simp only [System.callStep, send, hstate, reduceCtorEq, if_false]
    exact ⟨h, rfl, rfl⟩
  | shutdown =>
    simp only [System.callStep, shutdown, hstate, reduceCtorEq, if_false]
    exact ⟨h, rfl, rfl⟩
  | forceClose =>
    simp only [System.callStep, forceClose, hstate, reduceCtorEq, or_self, if_false]
    exact ⟨h, rfl, rfl⟩
  | forceCloseWithDelay =>
    simp only [System.callStep, forceCloseWithDelay, hstate, reduceCtorEq, or_self, if_false]
    exact ⟨h, rfl, rfl⟩
  | startRead => exact hk.elim
  | stopRead => exact hk.elim
  | retrieveInput len =>
    obtain ⟨b, hb, hv, _⟩ := Buffer.retrieve_holds h.input (hk : len ≤ _)
    simp only [System.callStep, retrieveInput, hb, ok_bind]
    exact ⟨⟨h.state, h.channel, h.reading, hv, h.output, h.closes⟩, rfl, rfl⟩

theorem Fresh.connectEstablished (h : c.Fresh) : ∃ c', c.connectEstablished = .ok c' ∧ c'.Alive ∧
    c'.state ≠ .kDisconnected ∧ c'.channel.registered = true ∧
    c'.pendingFunctors = c.pendingFunctors ∧ c'.log.downs = c.log.downs ∧
    c'.log.closeCallbacks = c.log.closeCallbacks := by
  obtain ⟨hcloses, hdowns, hcallbacks⟩ := h.closes
  have hset : c.channel.enableReading = .ok (Channel.new.settle ⟨true, false⟩) := by
    rw [h.channel]
    exact Channel.enableReading_eq Channel.new_consistent
  refine ⟨{ c with
    state := .kConnected, channel := Channel.new.settle ⟨true, false⟩, log.ups := c.log.ups + 1 },
    ?_, ⟨⟨⟨h.input, h.output, Channel.settle_consistent (c := Channel.new) _⟩, nofun, fun _ => h.reading,
      fun _ => ⟨fun _ => nofun, fun _ => rfl⟩, fun _ => ⟨hcloses, hcallbacks, hdowns⟩, ?_, nofun,
      nofun⟩, h.reading⟩, nofun, rfl, rfl, rfl, rfl⟩
  · rw [TcpConnection.connectEstablished, check_pos h.state]
    simp only [hset, ok_bind]
  · change c.log.handleCloses ≤ 1 ∧ c.log.closeCallbacks ≤ 1 ∧ c.log.downs ≤ 1
    omega

/-- `connectDestroyed` on a connection that is down. -/
theorem Alive.connectDestroyed (h : c.Alive) (hst : c.state = .kDisconnected)
    (hr : c.channel.registered = true) : ∃ c', c.connectDestroyed = .ok c' ∧ c'.Alive ∧
      c'.state = .kDisconnected ∧ c'.pendingFunctors = c.pendingFunctors ∧ c'.log = c.log := by
  have heq : c.connectDestroyed = .ok { c with channel := Channel.new } := by
    rw [TcpConnection.connectDestroyed, if_neg (by rw [hst]; exact nofun), removeChannel,
      Channel.remove_eq h.channel hr (h.quiet hst), ok_bind]
  obtain ⟨c', hc', ht, hstate, hpending⟩ := removeChannel_tidy h.toTidy (h.quiet hst) hr
  have hc'' : c.removeChannel = .ok { c with channel := Channel.new } := by
    rw [removeChannel, Channel.remove_eq h.channel hr (h.quiet hst), ok_bind]
  obtain rfl := Except.ok.inj (hc''.symm.trans hc')
  exact ⟨_, heq, ⟨ht, h.reads⟩, hst, rfl, rfl⟩

end TcpConnection

end Muduo.Net
