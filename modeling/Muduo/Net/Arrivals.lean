import Muduo.Net.ConnectionStages
import Muduo.Net.HalfClose
import Muduo.Net.Steady

namespace Muduo.Net
open Muduo.Lib

namespace TcpConnection

variable {c c' : TcpConnection} {message rest : Bytes} {w : WriteResult}

/-- No message is taken or queued, and no input comes or goes; buffered output may go out. -/
structure Silent (c c' : TcpConnection) : Prop where
  accepted : c'.log.accepted = c.log.accepted
  written : c.log.written <+: c'.log.written
  pending : ∀ message, .sendInLoop message ∈ c'.pendingFunctors →
    .sendInLoop message ∈ c.pendingFunctors
  input : c'.inputBuffer = c.inputBuffer

theorem Silent.refl (c : TcpConnection) : Silent c c := ⟨rfl, List.prefix_rfl, fun _ => id, rfl⟩

theorem Silent.trans {c'' : TcpConnection} (h : Silent c c') (h' : Silent c' c'') : Silent c c'' :=
  ⟨h'.accepted.trans h.accepted, h.written.trans h'.written,
    fun m hm => h.pending m (h'.pending m hm), h'.input.trans h.input⟩

theorem queueInLoop_silent {f : Functor} (hf : ∀ message, f ≠ .sendInLoop message) :
    Silent c (c.queueInLoop f) :=
  ⟨rfl, List.prefix_rfl, (queueInLoop_sending hf).pending, rfl⟩

theorem shutdownInLoop_silent (c : TcpConnection) : Silent c c.shutdownInLoop := by
  unfold shutdownInLoop
  split
  · exact .refl c
  · exact ⟨rfl, List.prefix_rfl, fun _ => id, rfl⟩

theorem shutdown_silent (c : TcpConnection) : Silent c c.shutdown := by
  unfold shutdown
  split
  · have hstate : Silent c { c with state := .kDisconnecting } :=
      ⟨rfl, List.prefix_rfl, fun _ => id, rfl⟩
    exact hstate.trans (shutdownInLoop_silent _)
  · exact .refl c

theorem forceClose_silent (c : TcpConnection) : Silent c c.forceClose := by
  unfold forceClose
  split
  · have hstate : Silent c { c with state := .kDisconnecting } :=
      ⟨rfl, List.prefix_rfl, fun _ => id, rfl⟩
    exact hstate.trans (queueInLoop_silent (by simp))
  · exact .refl c

theorem forceCloseWithDelay_silent (c : TcpConnection) : Silent c c.forceCloseWithDelay := by
  unfold forceCloseWithDelay
  split
  · exact ⟨rfl, List.prefix_rfl, fun _ => id, rfl⟩
  · exact .refl c

theorem startReadInLoop_silent (hok : c.startReadInLoop = .ok c') : Silent c c' := by
  unfold startReadInLoop at hok
  split at hok
  · obtain ⟨channel, -, hok⟩ := bind_ok hok
    cases hok
    exact ⟨rfl, List.prefix_rfl, fun _ => id, rfl⟩
  · cases hok
    exact .refl c

theorem stopReadInLoop_silent (hok : c.stopReadInLoop = .ok c') : Silent c c' := by
  unfold stopReadInLoop at hok
  split at hok
  · obtain ⟨channel, -, hok⟩ := bind_ok hok
    cases hok
    exact ⟨rfl, List.prefix_rfl, fun _ => id, rfl⟩
  · cases hok
    exact .refl c

theorem handleClose_silent (hok : c.handleClose = .ok c') : Silent c c' := by
  obtain ⟨-, -, hok⟩ := bind_ok hok
  obtain ⟨channel, -, hok⟩ := bind_ok hok
  cases hok
  exact ⟨rfl, List.prefix_rfl, fun _ => id, rfl⟩

theorem disconnect_silent (hok : c.disconnect = .ok c') : Silent c c' := by
  obtain ⟨channel, -, hok⟩ := bind_ok hok
  cases hok
  exact ⟨rfl, List.prefix_rfl, fun _ => id, rfl⟩

theorem removeChannel_silent (hok : c.removeChannel = .ok c') : Silent c c' := by
  obtain ⟨channel, -, hok⟩ := bind_ok hok
  cases hok
  exact ⟨rfl, List.prefix_rfl, fun _ => id, rfl⟩

theorem drained_silent (hok : c.drained = .ok c') : Silent c c' := by
  obtain ⟨channel, -, hok⟩ := bind_ok hok
  cases hok
  have hchannel : Silent c { c with channel := channel } := ⟨rfl, List.prefix_rfl, fun _ => id, rfl⟩
  have hfinal : ∀ b : TcpConnection, Silent c b →
      Silent c (if b.state = .kDisconnecting then b.shutdownInLoop else b) := by
    intro b hb
    split
    · exact hb.trans (shutdownInLoop_silent b)
    · exact hb
  split
  · exact hfinal _ (hchannel.trans (queueInLoop_silent (f := .writeCompleteCallback) (by simp)))
  · exact hfinal _ hchannel

theorem handleWrite_silent (hok : c.handleWrite w = .ok c') : Silent c c' := by
  unfold handleWrite at hok
  split at hok
  · obtain ⟨data, -, hok⟩ := bind_ok hok
    cases w with
    | failed errno =>
      cases hok
      exact .refl c
    | wrote n =>
      cases n with
      | zero =>
        cases hok
        exact .refl c
      | succ n =>
        obtain ⟨output, -, hok⟩ := bind_ok hok
        simp only at hok
        have hwritten : c.log.written <+: c.log.written ++ data.take (n + 1) :=
          List.prefix_append ..
        split at hok
        · have hdrained := drained_silent hok
          exact ⟨hdrained.accepted, hwritten.trans hdrained.written, hdrained.pending,
            hdrained.input⟩
        · cases hok
          exact ⟨rfl, hwritten, fun _ => id, rfl⟩
  · cases hok
    exact .refl c

theorem sendRemaining_log (c : TcpConnection) (message : Bytes) (n : Nat) (fault : Bool) :
    Yields (fun c' => c'.log = c.log) (fun _ => True) (c.sendRemaining message n fault) := by
  simp only [sendRemaining]
  refine (yields_any _).bind fun _ _ => ?_
  split
  · obtain ⟨fs, -, hqueue⟩ := queueHighWaterMark_eq c c.outputBuffer.readableBytes
      (sizeAdd c.outputBuffer.readableBytes (message.drop n).length)
    simp only [keepRemaining, hqueue]
    refine (yields_any _).bind fun output _ => ?_
    split
    · rfl
    · exact (yields_any _).bind fun channel _ => rfl
  · rfl

theorem sendInLoop_written (c : TcpConnection) (message : Bytes) (w : WriteResult) :
    Yields (fun c' => c.log.written <+: c'.log.written) (fun _ => True)
      (c.sendInLoop message w) := by
  unfold sendInLoop
  split
  · exact List.prefix_rfl
  · simp only
    split
    · cases w with
      | failed errno =>
        apply (sendRemaining_log _ message _ _).mono
        intro c' hc
        exact hc ▸ List.prefix_rfl
      | wrote n =>
        obtain ⟨fs, -, hwrote⟩ := writeDirectly_wrote
          { c with log.accepted := c.log.accepted ++ message } message n
        simp only [hwrote]
        apply (sendRemaining_log _ message _ _).mono
        intro c' hc
        rw [hc]
        exact List.prefix_append ..
    · apply (sendRemaining_log _ message _ _).mono
      intro c' hc
      exact hc ▸ List.prefix_rfl

end TcpConnection

namespace System
open TcpConnection

variable {s t : System} {e : Event}

/-- How any step may fail. -/
def MayStop (s : System) (e : Event) (f : Fault) : Prop :=
  s.MayFail e f ∨ f = .outOfBounds ∧ s.Overruns e

theorem handle_sound {read : Option Bytes} {w : WriteResult} (h : s.conn.Sound)
    (he : s.enabled (.handle read w)) :
    Yields (fun t => t.conn.Sound) (s.MayFail (.handle read w)) (s.step (.handle read w)) := by
  obtain ⟨-, -, hread, hwrite⟩ := he
  simp only [step]
  split
  · exact h
  · rename_i callback callbacks hcb
    have hhead : s.callbacks.head? = some callback := by rw [hcb]; rfl
    refine Yields.bind (m := fun c => c.Sound) ?_ fun c hc => hc
    cases callback with
    | close =>
      exact ((handleClose_yields h).mono fun c hc => hc.sound).weaken
        fun f hf => .inl ⟨hf, .inl hhead⟩
    | error => exact h
    | read =>
      refine ((readFd_valid h.input hread).weaken fun f hf => .inr ⟨hf, hhead⟩).bind fun b hb => ?_
      have hc : Sound { s.conn with inputBuffer := b } := ⟨hb, h.output, h.channel⟩
      split
      · rename_i hnil
        exact ((handleClose_yields hc).mono fun c hc => hc.sound).weaken
          fun f hf => .inl ⟨hf, .inr ⟨hhead, hnil⟩⟩
      · exact hc
    | write => exact (handleWrite_yields h hwrite).safe.mono fun c hc => hc.1

theorem functor_sound {w : WriteResult} (h : s.conn.Sound) (he : s.enabled (.functor w)) :
    Yields (fun t => t.conn.Sound) (s.MayStop (.functor w)) (s.step (.functor w)) := by
  obtain ⟨-, -, hsends⟩ := he
  simp only [step]
  split
  · exact h
  · rename_i f fs hfs
    have hpopped : Sound { s.conn with pendingFunctors := fs } := ⟨h.input, h.output, h.channel⟩
    have hhead : s.conn.pendingFunctors.head? = some f := by rw [hfs]; rfl
    refine Yields.bind (m := fun c => c.Sound) ?_ fun c hc => hc
    cases f with
    | sendInLoop message =>
      rw [hfs] at hsends
      have hnext : sendsNext s.conn.pendingFunctors = true := by rw [hfs]; rfl
      have hkeeps : Yields (TcpConnection.Keeps False False _) _ _ := sendInLoop_keeps hpopped hsends
      have hsent := hkeeps.mono fun c hc => hc.sound
      apply (sendPiece_yields hsent fun c _ hc => ⟨hc.input, hc.output, hc.channel⟩).weaken
      intro f hf
      cases hf with
      | inl hf => exact .inl (.inr ⟨hf, hnext⟩)
      | inr hf =>
        refine .inr ⟨hf.1, ?_⟩
        change OverrunsNext _ _
        rw [hfs]
        exact hf.2
    | writeCompleteCallback => exact hpopped
    | highWaterMarkCallback len => exact hpopped
    | forceCloseInLoop =>
      simp only [functorStep, forceCloseInLoop]
      split
      · exact ((handleClose_yields hpopped).mono fun c hc => hc.sound).weaken
          fun f hf => .inl (.inl ⟨hf, .inl hhead⟩)
      · exact hpopped
    | connectDestroyed =>
      simp only [functorStep]
      split
      · simp only [disconnect, Channel.disableAll_eq hpopped.channel, ok_bind]
        exact ⟨h.input, h.output, Channel.settle_consistent _⟩
      · refine ((Channel.remove_yields h.channel).weaken fun f hf =>
          .inl (.inl ⟨hf, .inr hhead⟩)).bind fun ch hch => ?_
        exact ⟨h.input, h.output, hch.1⟩

/-- Whatever happens, the connection stays sound or stops for one of these reasons. -/
theorem step_sound (h : s.conn.Sound) (he : s.enabled e) :
    Yields (fun t => t.conn.Sound) (s.MayStop e) (s.step e) := by
  cases e with
  | call k =>
    apply (((call_keeps h he).mono fun c hc => hc.sound).weaken ?_).bind
    · intro c hc
      exact hc
    · intro f hf
      obtain ⟨hlength, message, w, rfl⟩ := hf
      exact .inl (.inr ⟨hlength, trivial⟩)
  | otherSend message => exact h
  | otherQueue message => exact ⟨h.input, h.output, h.channel⟩
  | poll r => exact h
  | handle read w => exact (handle_sound h he).weaken fun f hf => .inl hf
  | functor w => exact functor_sound h he
  | queueConnectDestroyed => exact ⟨h.input, h.output, h.channel⟩
  | finishConnectDestroyed =>
    have hremoved : Yields (fun c => c.Sound) (· = Fault.assertion) s.conn.removeChannel :=
      (Channel.remove_yields h.channel).bind fun ch hch => ⟨h.input, h.output, hch.1⟩
    exact (hremoved.weaken fun f hf => .inl (.inl ⟨hf, trivial⟩)).bind fun c hc => hc

/-- The bytes that a step reads from the socket. -/
def chunk (s : System) : Event → Bytes
  | .handle read _ =>
    match s.callbacks with
    | .read :: _ => read.getD []
    | _ => []
  | _ => []

/-- Input comes from the socket only, unless user code takes some of it. -/
theorem step_input (h : s.conn.Sound) (he : s.enabled e) (hr : ∀ len, e ≠ .call (.retrieveInput len))
    (hok : s.step e = .ok t) :
    t.conn.inputBuffer.contents = s.conn.inputBuffer.contents ++ s.chunk e := by
  have hsilent : ∀ {c : TcpConnection}, c.inputBuffer = s.conn.inputBuffer →
      c.inputBuffer.contents = s.conn.inputBuffer.contents ++ [] := by
    intro c hc
    rw [hc, List.append_nil]
  cases e with
  | call k =>
    obtain ⟨c, hc, rfl⟩ := call_ok hok
    cases k with
    | send message w =>
      simp only [callStep, send] at hc
      split at hc
      · exact hsilent ((sendInLoop_input _ message w).of_ok hc)
      · cases hc
        exact hsilent rfl
    | shutdown =>
      cases hc
      exact hsilent (shutdown_silent _).input
    | forceClose =>
      cases hc
      exact hsilent (forceClose_silent _).input
    | forceCloseWithDelay =>
      cases hc
      exact hsilent (forceCloseWithDelay_silent _).input
    | startRead => exact hsilent (startReadInLoop_silent hc).input
    | stopRead => exact hsilent (stopReadInLoop_silent hc).input
    | retrieveInput len => exact absurd rfl (hr len)
  | otherSend message =>
    cases hok
    exact hsilent rfl
  | otherQueue message =>
    cases hok
    exact hsilent rfl
  | poll r =>
    cases hok
    exact hsilent rfl
  | handle read w =>
    obtain ⟨callback, callbacks, hcb⟩ := List.exists_cons_of_ne_nil he.1
    obtain ⟨c, hc, rfl⟩ := handle_cons hcb hok
    simp only [chunk, hcb]
    cases callback with
    | close => exact hsilent (handleClose_silent hc).input
    | error =>
      cases hc
      exact hsilent rfl
    | write => exact hsilent (handleWrite_silent hc).input
    | read =>
      obtain ⟨b, hb, hc⟩ := bind_ok hc
      have hcontents : b.contents = s.conn.inputBuffer.contents ++ read.getD [] := by
        cases read with
        | none =>
          cases hb
          simp
        | some data => exact ((Buffer.readFd_holds h.input he.2.2.1).of_ok hb).2
      split at hc
      · rw [(handleClose_silent hc).input]
        exact hcontents
      · cases hc
        exact hcontents
  | functor w =>
    obtain ⟨f, fs, hfs⟩ := List.exists_cons_of_ne_nil he.2.1
    obtain ⟨c, hc, rfl⟩ := functor_cons hfs hok
    cases f with
    | sendInLoop message =>
      obtain ⟨d, accepted, hd, rfl⟩ := sendPiece_ok hc
      have hsame := (sendInLoop_input { s.conn with pendingFunctors := fs } _ w).of_ok hd
      exact hsilent hsame
    | writeCompleteCallback =>
      cases hc
      exact hsilent rfl
    | highWaterMarkCallback len =>
      cases hc
      exact hsilent rfl
    | forceCloseInLoop =>
      simp only [functorStep, forceCloseInLoop] at hc
      split at hc
      · exact hsilent (handleClose_silent hc).input
      · cases hc
        exact hsilent rfl
    | connectDestroyed =>
      simp only [functorStep] at hc
      split at hc
      · exact hsilent (disconnect_silent hc).input
      · exact hsilent (removeChannel_silent hc).input
  | queueConnectDestroyed =>
    cases hok
    exact hsilent rfl
  | finishConnectDestroyed =>
    obtain ⟨c, hc, hok⟩ := bind_ok hok
    cases hok
    exact hsilent (removeChannel_silent hc).input

/-- Everything that is to be sent, or was, is one of the messages that `P` allows. -/
structure Speaks (P : Bytes → Prop) (s : System) : Prop where
  accepted : ∃ ms : List Bytes, (∀ m ∈ ms, P m) ∧ s.conn.log.accepted = ms.flatten
  pending : ∀ message, .sendInLoop message ∈ s.conn.pendingFunctors → P message
  offered : ∀ message ∈ s.offered, P message

/-- User code sends what `P` allows. -/
def Says (P : Bytes → Prop) : Event → Prop
  | .call (.send message _) | .otherSend message => P message
  | _ => True

variable {P : Bytes → Prop}

theorem Speaks.silent (h : Speaks P s) {c : TcpConnection} (hc : Silent s.conn c)
    {callbacks : List Channel.Callback} {destroying destroyQueued : Bool} :
    Speaks P ⟨c, callbacks, destroying, s.offered, destroyQueued⟩ ∧
      s.conn.log.written <+: c.log.written := by
  refine ⟨⟨?_, fun m hm => h.pending m (hc.pending m hm), h.offered⟩, hc.written⟩
  obtain ⟨ms, hms, he⟩ := h.accepted
  exact ⟨ms, hms, hc.accepted.trans he⟩

theorem Speaks.sent (h : Speaks P s) {c c' : TcpConnection} {message : Bytes} {w : WriteResult}
    (hc : Silent s.conn c) (hsound : c.Sound) (hP : P message)
    (hs : c.state ≠ .kDisconnected → Sends message w)
    (hok : c.sendInLoop message w = .ok c') {callbacks : List Channel.Callback}
    {destroying destroyQueued : Bool} :
    Speaks P ⟨c', callbacks, destroying, s.offered, destroyQueued⟩ ∧
      s.conn.log.written <+: c'.log.written := by
  obtain ⟨ms, hms, he⟩ := h.accepted
  have hpending := ((sendInLoop_sending c message w).of_ok hok).pending
  have hwritten := (sendInLoop_written c message w).of_ok hok
  refine ⟨⟨?_, fun m hm => h.pending m (hc.pending m (hpending m hm)), h.offered⟩,
    hc.written.trans hwritten⟩
  by_cases hst : c.state = .kDisconnected
  · rw [sendInLoop, if_pos hst] at hok
    cases hok
    exact ⟨ms, hms, hc.accepted.trans he⟩
  · have hgrown := ((sendInLoop_yields hsound (hs hst) hst).of_ok hok).2.2.1
    refine ⟨ms ++ [message], ?_, ?_⟩
    · intro m hm
      rcases List.mem_append.mp hm with hm | hm
      · exact hms m hm
      · rwa [List.mem_singleton.mp hm]
    · rw [hgrown, hc.accepted, he]
      simp

theorem Speaks.step (h : Speaks P s) (hsound : s.conn.Sound) (he : s.enabled e) (hsaid : Says P e)
    (hwhole : s.Whole e) (hok : System.step s e = .ok t) :
    Speaks P t ∧ s.conn.log.written <+: t.conn.log.written := by
  cases e with
  | call k =>
    obtain ⟨c, hc, rfl⟩ := call_ok hok
    cases k with
    | send message w =>
      simp only [callStep, send] at hc
      split at hc
      · exact h.sent (.refl _) hsound hsaid (fun _ => he) hc
      · cases hc
        exact ⟨h, List.prefix_rfl⟩
    | shutdown =>
      cases hc
      exact h.silent (shutdown_silent _)
    | forceClose =>
      cases hc
      exact h.silent (forceClose_silent _)
    | forceCloseWithDelay =>
      cases hc
      exact h.silent (forceCloseWithDelay_silent _)
    | startRead => exact h.silent (startReadInLoop_silent hc)
    | stopRead => exact h.silent (stopReadInLoop_silent hc)
    | retrieveInput len =>
      obtain ⟨b, -, hc⟩ := bind_ok hc
      cases hc
      exact ⟨⟨h.accepted, h.pending, h.offered⟩, List.prefix_rfl⟩
  | otherSend message =>
    cases hok
    refine ⟨⟨h.accepted, h.pending, ?_⟩, List.prefix_rfl⟩
    intro m hm
    rcases List.mem_cons.mp hm with he | hm
    · rw [he]
      exact hsaid
    · exact h.offered m hm
  | otherQueue message =>
    cases hok
    refine ⟨⟨h.accepted, ?_, fun m hm => h.offered m (List.mem_of_mem_erase hm)⟩,
      List.prefix_rfl⟩
    intro m hm
    rcases List.mem_append.mp hm with hm | hm
    · exact h.pending m hm
    · cases List.mem_singleton.mp hm
      exact h.offered message he
  | poll r =>
    cases hok
    exact h.silent (.refl _)
  | handle read w =>
    obtain ⟨callback, callbacks, hcb⟩ := List.exists_cons_of_ne_nil he.1
    obtain ⟨c, hc, rfl⟩ := handle_cons hcb hok
    cases callback with
    | close => exact h.silent (handleClose_silent hc)
    | error =>
      cases hc
      exact h.silent (.refl _)
    | write => exact h.silent (handleWrite_silent hc)
    | read =>
      obtain ⟨b, -, hc⟩ := bind_ok hc
      split at hc
      · have hclose := handleClose_silent hc
        obtain ⟨ms, hms, he⟩ := h.accepted
        exact ⟨⟨⟨ms, hms, hclose.accepted.trans he⟩,
          fun m hm => h.pending m (hclose.pending m hm), h.offered⟩, hclose.written⟩
      · cases hc
        exact ⟨⟨h.accepted, h.pending, h.offered⟩, List.prefix_rfl⟩
  | functor w =>
    obtain ⟨f, fs, hfs⟩ := List.exists_cons_of_ne_nil he.2.1
    obtain ⟨c, hc, rfl⟩ := functor_cons hfs hok
    have hpopped : Silent s.conn { s.conn with pendingFunctors := fs } := by
      refine ⟨rfl, List.prefix_rfl, fun m hm => ?_, rfl⟩
      rw [hfs]
      exact List.mem_cons_of_mem f hm
    cases f with
    | sendInLoop message =>
      have hP : P message := by
        apply h.pending
        rw [hfs]
        exact List.mem_cons_self
      have hsends := he.2.2
      have hfits : FitsNext s.conn s.conn.pendingFunctors := hwhole
      rw [hfs] at hsends hfits
      have hpop : Sound { s.conn with pendingFunctors := fs } :=
        ⟨hsound.input, hsound.output, hsound.channel⟩
      rw [functorStep, sendPiece_eq hpop (hfits.sends hsends) hfits] at hc
      exact h.sent hpopped hpop hP (hfits.sends hsends) hc
    | writeCompleteCallback =>
      cases hc
      exact h.silent hpopped
    | highWaterMarkCallback len =>
      cases hc
      exact h.silent hpopped
    | forceCloseInLoop =>
      simp only [functorStep, forceCloseInLoop] at hc
      split at hc
      · exact h.silent (hpopped.trans (handleClose_silent hc))
      · cases hc
        exact h.silent hpopped
    | connectDestroyed =>
      simp only [functorStep] at hc
      split at hc
      · exact h.silent (hpopped.trans (disconnect_silent hc))
      · exact h.silent (hpopped.trans (removeChannel_silent hc))
  | queueConnectDestroyed =>
    cases hok
    exact h.silent (queueInLoop_silent (by simp))
  | finishConnectDestroyed =>
    obtain ⟨c, hc, hok⟩ := bind_ok hok
    cases hok
    exact h.silent (removeChannel_silent hc)

end System

end Muduo.Net
