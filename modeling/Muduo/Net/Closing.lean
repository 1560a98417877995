import Muduo.Net.ConnectionSound

namespace Muduo.Net
open Muduo.Lib

namespace Channel

variable {c : Channel}

/-- Unless nothing was enabled before and nothing is after, being added means having events. -/
theorem settle_added {e : Events} (h : c.index = .kAdded ∨ e ≠ kNoneEvent) :
    (c.settle e).index = .kAdded ↔ e ≠ kNoneEvent := by
  by_cases he : e = kNoneEvent
  · have hi : c.index = .kAdded := h.resolve_right fun hne => hne he
    subst he
    simp [settle_none hi]
  · simp [settle_some he, he]

end Channel

namespace TcpConnection

/-- The closing invariant. A connection that is not down has not closed yet, and sits in the
interest set exactly when it has events; one that is down has none and is out of the set. -/
structure Tidy (c : TcpConnection) : Prop extends Sound c where
  established : c.state ≠ .kConnecting
  reading : c.state ≠ .kDisconnected → c.reading = c.channel.isReading
  added : c.state ≠ .kDisconnected →
    (c.channel.index = .kAdded ↔ c.channel.events ≠ kNoneEvent)
  fresh : c.state ≠ .kDisconnected →
    c.log.handleCloses = 0 ∧ c.log.closeCallbacks = 0 ∧ c.log.downs = 0
  once : c.log.handleCloses ≤ 1 ∧ c.log.closeCallbacks ≤ 1 ∧ c.log.downs ≤ 1
  quiet : c.state = .kDisconnected → c.channel.events = kNoneEvent
  gone : c.state = .kDisconnected → c.channel.index ≠ .kAdded

variable {c c' : TcpConnection} {w : WriteResult} {message : Bytes}

theorem Tidy.afterOutput (h : c.Tidy) (hst : c.state ≠ .kDisconnected) (hs : c'.Sound)
    (ho : OutputOnly c c') : c'.Tidy := by
  obtain ⟨hc, hd, hk⟩ := ho.closes
  have hchannel : c'.channel.isReading = c.channel.isReading ∧
      (c'.channel.index = .kAdded ↔ c'.channel.events ≠ kNoneEvent) := by
    rcases ho.channel with heq | ⟨b, hb, heq⟩
    · rw [heq]
      exact ⟨rfl, h.added hst⟩
    · rw [heq, Channel.settle_events]
      refine ⟨by simp [Channel.isReading], Channel.settle_added ?_⟩
      rcases hb with hw | rfl
      · refine .inl ((h.added hst).mpr fun hne => ?_)
        simp [Channel.isWriting, hne, kNoneEvent] at hw
      · exact .inr (by simp [kNoneEvent])
  refine ⟨hs, ?_, fun _ => ?_, fun _ => hchannel.2, fun _ => ?_, ?_, fun hq => ?_, fun hq => ?_⟩
  · rw [ho.state]
    exact h.established
  · rw [ho.reading, hchannel.1, h.reading hst]
  · rw [hc, hd, hk]
    exact h.fresh hst
  · rw [hc, hd, hk]
    exact h.once
  · exact absurd (ho.state ▸ hq) hst
  · exact absurd (ho.state ▸ hq) hst

theorem Tidy.queueInLoop (h : c.Tidy) (f : Functor) : (c.queueInLoop f).Tidy :=
  ⟨⟨h.input, h.output, h.channel⟩, h.established, h.reading, h.added, h.fresh, h.once, h.quiet,
    h.gone⟩

/-- What the loop relies on across an operation: the channel stays registered, no
`connectDestroyed` is queued, and a connection that is down stays down. -/
structure Frame (c c' : TcpConnection) : Prop where
  registered : c.channel.registered = true → c'.channel.registered = true
  pending : c'.pendingFunctors.count .connectDestroyed ≤ c.pendingFunctors.count .connectDestroyed
  down : c.state = .kDisconnected → c'.state = .kDisconnected

/-- An operation that does not close the connection. -/
structure Calm (c c' : TcpConnection) : Prop extends Frame c c' where
  up : c'.state = .kDisconnected → c.state = .kDisconnected

theorem Calm.refl (c : TcpConnection) : Calm c c := ⟨⟨id, Nat.le_refl _, id⟩, id⟩

theorem OutputOnly.calm (ho : OutputOnly c c') : Calm c c' := by
  refine ⟨⟨fun hr => ?_, ?_, fun hd => ho.state ▸ hd⟩, fun hd => ho.state ▸ hd⟩
  · rcases ho.channel with heq | ⟨b, _, heq⟩
    · rw [heq]
      exact hr
    · rw [heq, Channel.settle_registered]
  · obtain ⟨fs, hp, hfs⟩ := ho.pending
    rw [hp, List.count_append, List.count_eq_zero.mpr hfs]
    exact Nat.le_refl _

theorem sendInLoop_tidy (h : c.Tidy) (hs : System.Sends message w) :
    Yields (fun c' => c'.Tidy ∧ Calm c c') (· = Fault.lengthError) (c.sendInLoop message w) := by
  by_cases hst : c.state = .kDisconnected
  · rw [sendInLoop, if_pos hst]
    exact ⟨h, .refl c⟩
  · exact (sendInLoop_yields h.toSound hs hst).mono fun c' hc =>
      ⟨h.afterOutput hst hc.1 hc.2.1, hc.2.1.calm⟩

theorem sendPiece_tidy (h : c.Tidy)
    (hs : System.Sends (message.take (pieceSize message.length)) w) :
    Yields (fun c' => c'.Tidy ∧ Calm c c') (fun f => f = .lengthError ∨
      f = .outOfBounds ∧ c.Overruns message) (c.sendPiece message w) := by
  apply sendPiece_yields (sendInLoop_tidy h hs)
  intro c' accepted hc
  obtain ⟨ht, hcalm⟩ := hc
  exact ⟨⟨⟨ht.input, ht.output, ht.channel⟩, ht.established, ht.reading, ht.added, ht.fresh, ht.once,
    ht.quiet, ht.gone⟩, ⟨hcalm.registered, hcalm.pending, hcalm.down⟩, hcalm.up⟩

theorem handleWrite_tidy (h : c.Tidy) (hn : w.taken ≤ c.outputBuffer.readableBytes) :
    Yields (fun c' => c'.Tidy ∧ Calm c c') (· = Fault.lengthError) (c.handleWrite w) := by
  by_cases hst : c.state = .kDisconnected
  · have hw : ¬c.channel.isWriting = true := by simp [Channel.isWriting, h.quiet hst, kNoneEvent]
    rw [handleWrite, if_neg hw]
    exact ⟨h, .refl c⟩
  · exact (handleWrite_yields h.toSound hn).safe.mono fun c' hc =>
      ⟨h.afterOutput hst hc.1 hc.2.1, hc.2.1.calm⟩

/-- `shutdown`, `forceClose` and `forceCloseWithDelay` move a connection that is up to
`kDisconnecting` and may queue a functor or shut the socket's writing side. -/
theorem Tidy.disconnecting (h : c.Tidy) (hst : c.state ≠ .kDisconnected) (fs : List Functor)
    (k : Nat) (hfs : .connectDestroyed ∉ fs) :
    Tidy { c with
        state := .kDisconnecting, pendingFunctors := c.pendingFunctors ++ fs
        log := { c.log with shutdownWrites := k } } ∧
      Calm c { c with
        state := .kDisconnecting, pendingFunctors := c.pendingFunctors ++ fs
        log := { c.log with shutdownWrites := k } } := by
  refine ⟨⟨⟨h.input, h.output, h.channel⟩, by simp, fun _ => h.reading hst, fun _ => h.added hst,
    fun _ => h.fresh hst, h.once, nofun, nofun⟩, ⟨id, ?_, fun hd => absurd hd hst⟩, nofun⟩
  simp [List.count_append, List.count_eq_zero.mpr hfs]

theorem shutdown_tidy (h : c.Tidy) : c.shutdown.Tidy ∧ Calm c c.shutdown := by
  unfold shutdown
  split
  · rename_i hst
    have hup : c.state ≠ .kDisconnected := by simp [hst]
    unfold shutdownInLoop
    split
    · simpa using h.disconnecting hup [] c.log.shutdownWrites (by simp)
    · simpa using h.disconnecting hup [] (c.log.shutdownWrites + 1) (by simp)
  · exact ⟨h, .refl c⟩

theorem forceClose_tidy (h : c.Tidy) : c.forceClose.Tidy ∧ Calm c c.forceClose := by
  unfold forceClose
  split
  · rename_i hst
    exact h.disconnecting (up_ne hst) [.forceCloseInLoop] c.log.shutdownWrites (by simp)
  · exact ⟨h, .refl c⟩

theorem forceCloseWithDelay_tidy (h : c.Tidy) :
    c.forceCloseWithDelay.Tidy ∧ Calm c c.forceCloseWithDelay := by
  unfold forceCloseWithDelay
  split
  · rename_i hst
    simpa using h.disconnecting (up_ne hst) [] c.log.shutdownWrites (by simp)
  · exact ⟨h, .refl c⟩

/-- Changing the read interest of a connection that is up. -/
theorem Tidy.settleReading (h : c.Tidy) (hst : c.state ≠ .kDisconnected) (r : Bool)
    (hset : c.channel.index = .kAdded ∨ r = true) :
    Tidy { c with
        channel := c.channel.settle { c.channel.events with reading := r }, reading := r } ∧
      Calm c { c with
        channel := c.channel.settle { c.channel.events with reading := r }, reading := r } := by
  have hadd : c.channel.index = .kAdded ∨ { c.channel.events with reading := r } ≠ kNoneEvent := by
    refine hset.imp_right fun hr => ?_
    simp [hr, kNoneEvent]
  refine ⟨⟨⟨h.input, h.output, Channel.settle_consistent _⟩, h.established, fun _ => ?_,
    fun _ => ?_, h.fresh, h.once, fun hd => absurd hd hst, fun hd => absurd hd hst⟩,
    ⟨fun _ => Channel.settle_registered _, Nat.le_refl _, id⟩, id⟩
  · simp [Channel.isReading]
  · rw [Channel.settle_events]
    exact Channel.settle_added hadd

theorem startReadInLoop_tidy (h : c.Tidy) (hst : c.state ≠ .kDisconnected) :
    Yields (fun c' => c'.Tidy ∧ Calm c c') (· = Fault.lengthError) c.startReadInLoop := by
  unfold startReadInLoop
  split
  · rw [Channel.enableReading_eq h.channel, ok_bind]
    exact h.settleReading hst true (.inr rfl)
  · exact ⟨h, .refl c⟩

theorem stopReadInLoop_tidy (h : c.Tidy) (hst : c.state = .kDisconnected → c.reading = false) :
    Yields (fun c' => c'.Tidy ∧ Calm c c') (· = Fault.lengthError) c.stopReadInLoop := by
  unfold stopReadInLoop
  split
  · rename_i hr
    have hup : c.state ≠ .kDisconnected := fun hd => by
      simp [hst hd, Channel.isReading, h.quiet hd, kNoneEvent] at hr
    have hre := h.reading hup
    have hidx : c.channel.index = .kAdded := (h.added hup).mpr fun hne => by
      simp [hre, Channel.isReading, hne, kNoneEvent] at hr
    rw [Channel.disableReading_eq h.channel, ok_bind]
    exact h.settleReading hup false (.inl hidx)
  · exact ⟨h, .refl c⟩

theorem retrieveInput_tidy {len : Nat} (h : c.Tidy) (hl : len ≤ c.inputBuffer.readableBytes) :
    Yields (fun c' => c'.Tidy ∧ Calm c c') (· = Fault.lengthError) (c.retrieveInput len) := by
  obtain ⟨b, hb, hv, _⟩ := Buffer.retrieve_holds h.input hl
  rw [retrieveInput, hb, ok_bind]
  exact ⟨⟨⟨hv, h.output, h.channel⟩, h.established, h.reading, h.added, h.fresh, h.once, h.quiet,
    h.gone⟩, ⟨id, Nat.le_refl _, id⟩, id⟩

/-- `disableAll` finds events to disable, so that it takes the channel out of the poller. -/
def Enabled (c : TcpConnection) : Prop := c.channel.events ≠ kNoneEvent

instance (c : TcpConnection) : Decidable c.Enabled := inferInstanceAs (Decidable (_ ≠ _))

/-- Going down with events enabled. -/
theorem Tidy.goesDown (h : c.Tidy) (hst : c.state ≠ .kDisconnected) (he : c.Enabled)
    {closes callbacks : Nat} (hc : closes ≤ 1) (hk : callbacks ≤ 1) :
    Tidy { c with
        state := .kDisconnected, channel := c.channel.settle kNoneEvent
        log := { c.log with
          handleCloses := closes, downs := c.log.downs + 1, closeCallbacks := callbacks } } ∧
      Frame c { c with
        state := .kDisconnected, channel := c.channel.settle kNoneEvent
        log := { c.log with
          handleCloses := closes, downs := c.log.downs + 1, closeCallbacks := callbacks } } := by
  have hidx := (h.added hst).mpr he
  obtain ⟨_, _, hdowns⟩ := h.fresh hst
  refine ⟨⟨⟨h.input, h.output, Channel.settle_consistent _⟩, by simp, fun hd => absurd rfl hd,
    fun hd => absurd rfl hd, fun hd => absurd rfl hd, ⟨hc, hk, by simp [hdowns]⟩, fun _ => ?_,
    fun _ => ?_⟩, fun _ => Channel.settle_registered _, Nat.le_refl _, fun _ => rfl⟩
  · exact Channel.settle_events _
  · simp [Channel.settle_none hidx]

/-- `handleClose` on a connection that is up, with something enabled. -/
theorem handleClose_tidy (h : c.Tidy) (hst : c.state ≠ .kDisconnected) (he : c.Enabled) :
    Yields (fun c' => c'.Tidy ∧ Frame c c') (· = Fault.lengthError) c.handleClose := by
  have hup : c.state = .kConnected ∨ c.state = .kDisconnecting := by
    have hne := h.established
    cases hs : c.state <;> simp_all
  obtain ⟨hcloses, hcallbacks, _⟩ := h.fresh hst
  unfold handleClose
  rw [check_pos hup]
  simp only [ok_bind, Channel.disableAll_eq h.channel]
  exact h.goesDown hst he (by omega) (by omega)

theorem handleRead_tidy {read : Option Bytes} (h : c.Tidy) (hst : c.state ≠ .kDisconnected)
    (he : read = some [] → c.Enabled) (hd : (read.getD []).length ≤ c.inputBuffer.iovBytes) :
    Yields (fun c' => c'.Tidy ∧ Frame c c') (· = Fault.lengthError) (c.handleRead read) := by
  unfold handleRead
  refine (readFd_valid h.input hd).bind fun b hb => ?_
  have hc : Tidy { c with inputBuffer := b } :=
    ⟨⟨hb, h.output, h.channel⟩, h.established, h.reading, h.added, h.fresh, h.once, h.quiet, h.gone⟩
  split
  · rename_i hr
    exact (handleClose_tidy hc hst (he hr)).mono fun _ h' =>
      ⟨h'.1, h'.2.registered, h'.2.pending, h'.2.down⟩
  · exact ⟨hc, id, Nat.le_refl _, id⟩

theorem disconnect_tidy (h : c.Tidy) (hst : c.state = .kConnected) (he : c.Enabled) :
    Yields (fun c' => c'.Tidy ∧ Frame c c' ∧ c'.state = .kDisconnected) (· = Fault.lengthError)
      c.disconnect := by
  have hup : c.state ≠ .kDisconnected := by simp [hst]
  unfold disconnect
  rw [Channel.disableAll_eq h.channel, ok_bind]
  have hd := h.goesDown hup he h.once.1 h.once.2.1
  exact ⟨hd.1, hd.2, rfl⟩

/-- With nothing enabled the assertions of `Channel::remove` hold, and the poller forgets the
channel. -/
theorem removeChannel_tidy (h : c.Tidy) (he : c.channel.events = kNoneEvent)
    (hr : c.channel.registered = true) :
    ∃ c', c.removeChannel = .ok c' ∧ c'.Tidy ∧ c'.state = c.state ∧
      c'.pendingFunctors = c.pendingFunctors := by
  refine ⟨{ c with channel := Channel.new }, ?_, ?_, rfl, rfl⟩
  · rw [removeChannel, Channel.remove_eq h.channel hr he, ok_bind]
  · refine ⟨⟨h.input, h.output, Channel.new_consistent⟩, h.established, fun hst => ?_, fun _ => ?_,
      h.fresh, h.once, fun _ => rfl, fun _ => nofun⟩
    · rw [h.reading hst, Channel.isReading, he]
      rfl
    · exact ⟨nofun, fun hne => absurd rfl hne⟩

end TcpConnection

namespace System
open TcpConnection

/-- The callbacks that may close the connection. -/
def closing : Channel.Callback → Bool
  | .close | .read => true
  | .error | .write => false

/-- The closing invariant of the loop: one of the callbacks to come may close a connection
that is up, none one that is down, and `connectDestroyed` is queued, under way or done once. -/
structure Orderly (s : System) : Prop where
  conn : s.conn.Tidy
  callbacks : s.callbacks.countP closing ≤ 1
  closed : s.conn.state = .kDisconnected → s.callbacks.countP closing = 0
  destroying : s.destroying = true → s.conn.state = .kDisconnected
  once : s.conn.pendingFunctors.count .connectDestroyed + s.destroying.toNat +
    (!s.conn.channel.registered).toNat ≤ s.destroyQueued.toNat

variable {s : System}

/-- A hang-up without data makes no read callback. -/
theorem reports_closing {r : Revents} {interest : Option Events} (h : Reports r interest) :
    (Channel.handleEventWithGuard r).countP closing ≤ 1 := by
  cases interest with
  | none => exact h.elim
  | some e =>
    obtain ⟨_, _, _, hrd, hpri⟩ := h
    obtain ⟨pollin, pri, out, hup, rdhup, err, nval⟩ := r
    simp only at hrd hpri
    subst hrd
    -- either the close callback or the read callback, according to `pollin` and `hup`
    have htail : (if err || nval then [.error] else [] : List Channel.Callback).countP closing = 0 ∧
        (if out then [.write] else [] : List Channel.Callback).countP closing = 0 := by
      constructor <;> split <;> rfl
    simp only [Channel.handleEventWithGuard, List.countP_append, htail, Bool.or_false]
    cases pollin <;> cases hup <;> cases pri <;> simp_all [closing]

/-- A callback that closes the connection finds events to disable. -/
def Handles (c : TcpConnection) (read : Option Bytes) : List Channel.Callback → Prop
  | .close :: _ => c.Enabled
  | .read :: _ => read = some [] → c.Enabled
  | _ => True

/-- A functor that takes the connection down finds events to disable, and `connectDestroyed`
does not meet a connection half closed. -/
def Destroys (c : TcpConnection) : List Functor → Prop
  | .forceCloseInLoop :: _ => c.state ≠ .kDisconnected → c.Enabled
  | .connectDestroyed :: _ =>
    (c.state = .kConnected → c.Enabled) ∧ (c.state = .kDisconnecting → ¬c.Enabled)
  | _ => True

/-- What keeps a connection closed, step by step: besides the above, `startRead` and, while
`reading_` is set, `stopRead` are not called on it any more. -/
def Keeps (s : System) : Event → Prop
  | .call .startRead => s.conn.state ≠ .kDisconnected
  | .call .stopRead => s.conn.state = .kDisconnected → s.conn.reading = false
  | .handle read _ => Handles s.conn read s.callbacks
  | .functor _ => Destroys s.conn s.conn.pendingFunctors
  | _ => True

instance (c : TcpConnection) (read : Option Bytes) :
    (callbacks : List Channel.Callback) → Decidable (Handles c read callbacks)
  | .close :: _ => inferInstanceAs (Decidable c.Enabled)
  | .read :: _ => inferInstanceAs (Decidable (_ → _))
  | [] | .error :: _ | .write :: _ => isTrue trivial

instance (c : TcpConnection) : (fs : List Functor) → Decidable (Destroys c fs)
  | .forceCloseInLoop :: _ => inferInstanceAs (Decidable (_ → _))
  | .connectDestroyed :: _ => inferInstanceAs (Decidable (_ ∧ _))
  | [] | .sendInLoop _ :: _ | .writeCompleteCallback :: _ | .highWaterMarkCallback _ :: _ =>
    isTrue trivial

instance : (s : System) → (e : Event) → Decidable (s.Keeps e)
  | _, .call .startRead => inferInstanceAs (Decidable (_ ≠ _))
  | _, .call .stopRead => inferInstanceAs (Decidable (_ → _))
  | s, .handle read _ => inferInstanceAs (Decidable (Handles s.conn read s.callbacks))
  | s, .functor _ => inferInstanceAs (Decidable (Destroys s.conn s.conn.pendingFunctors))
  | _, .call (.send _ _) | _, .call .shutdown | _, .call .forceClose
  | _, .call .forceCloseWithDelay | _, .call (.retrieveInput _) | _, .otherSend _
  | _, .otherQueue _ | _, .poll _ | _, .queueConnectDestroyed | _, .finishConnectDestroyed =>
    isTrue trivial

/-- The next functor sends a string, of which it reads more than there is. -/
def OverrunsNext (c : TcpConnection) : List Functor → Prop
  | .sendInLoop message :: _ => c.Overruns message
  | _ => False

def Overruns (s : System) : Event → Prop
  | .functor _ => OverrunsNext s.conn s.conn.pendingFunctors
  | _ => False

/-- How a step may fail that closes nothing twice: a buffer cannot grow any more, or a queued
string is longer than an `int` can say. -/
def Exhausts (s : System) (e : Event) (f : Fault) : Prop :=
  f = .lengthError ∨ f = .outOfBounds ∧ s.Overruns e

/-- A connection that reads as long as it is up has events to disable. -/
theorem Orderly.enabled (h : s.Orderly) (hr : s.conn.reading = true)
    (hst : s.conn.state ≠ .kDisconnected) : s.conn.Enabled := by
  intro hnone
  have hreading := (h.conn.reading hst).symm.trans hr
  rw [Channel.isReading, hnone] at hreading
  cases hreading

/-- A callback that may close the connection finds it up. -/
theorem Orderly.up (h : s.Orderly) {callback : Channel.Callback}
    {callbacks : List Channel.Callback} (hcb : s.callbacks = callback :: callbacks)
    (hcl : closing callback = true) : s.conn.state ≠ .kDisconnected := by
  intro hst
  have hzero := h.closed hst
  rw [hcb, List.countP_cons, if_pos hcl] at hzero
  omega

theorem Orderly.keeps_handle (h : s.Orderly) (hr : s.conn.reading = true) (read : Option Bytes)
    (w : WriteResult) : s.Keeps (.handle read w) := by
  change Handles _ _ _
  cases hcb : s.callbacks with
  | nil => trivial
  | cons callback callbacks =>
    cases callback with
    | close => exact h.enabled hr (h.up hcb rfl)
    | read => exact fun _ => h.enabled hr (h.up hcb rfl)
    | error => trivial
    | write => trivial

theorem call_tidy (h : s.conn.Tidy) {k : Call} (hk : s.CallAllowed k) (hc : s.Keeps (.call k)) :
    Yields (fun c' => c'.Tidy ∧ Calm s.conn c') (· = Fault.lengthError) (callStep s.conn k) := by
  cases k with
  | send message w =>
    simp only [callStep, send]
    split
    · exact sendInLoop_tidy h hk
    · exact ⟨h, .refl _⟩
  | shutdown => exact shutdown_tidy h
  | forceClose => exact forceClose_tidy h
  | forceCloseWithDelay => exact forceCloseWithDelay_tidy h
  | startRead => exact startReadInLoop_tidy h hc
  | stopRead => exact stopReadInLoop_tidy h hc
  | retrieveInput len => exact retrieveInput_tidy h hk

theorem Frame.once {c c' : TcpConnection} (h : Frame c c') :
    c'.pendingFunctors.count .connectDestroyed + (!c'.channel.registered).toNat ≤
      c.pendingFunctors.count .connectDestroyed + (!c.channel.registered).toNat := by
  have hp := h.pending
  have hr : (!c'.channel.registered).toNat ≤ (!c.channel.registered).toNat := by
    have := h.registered
    cases hc : c.channel.registered <;> cases hc' : c'.channel.registered <;> simp_all
  omega

/-- A calm operation, with callbacks still to come of which there were no fewer before. -/
theorem Orderly.calm (h : s.Orderly) {c' : TcpConnection} (ht : c'.Tidy) (hc : Calm s.conn c')
    {callbacks : List Channel.Callback} (hcb : callbacks.countP closing ≤ s.callbacks.countP closing) :
    Orderly { s with conn := c', callbacks := callbacks } := by
  refine ⟨ht, Nat.le_trans hcb h.callbacks, fun hd => ?_, fun hd => hc.down (h.destroying hd), ?_⟩
  · have := h.closed (hc.up hd)
    exact Nat.le_zero.mp (this ▸ hcb)
  · have := Frame.once hc.toFrame
    have := h.once
    simp only
    omega

/-- The loop makes the next callback. -/
theorem handle_orderly (h : s.Orderly) {read : Option Bytes} {w : WriteResult}
    (he : s.enabled (.handle read w)) (hk : s.Keeps (.handle read w)) :
    Yields Orderly (· = Fault.lengthError) (s.step (.handle read w)) := by
  obtain ⟨_, hdestroying, hread, hwrite⟩ := he
  simp only [step]
  split
  · exact h
  · rename_i callback callbacks hcb
    have hcount : s.callbacks.countP closing =
        callbacks.countP closing + if closing callback = true then 1 else 0 := by
      rw [hcb, List.countP_cons]
    have hle : callbacks.countP closing ≤ s.callbacks.countP closing := by omega
    have hone := h.callbacks
    simp only [Keeps, hcb, Handles] at hk
    -- after a callback that may close, none that may close is left
    have hframe (hcl : closing callback = true) {c' : TcpConnection}
        (hc : c'.Tidy ∧ Frame s.conn c') :
        Orderly { s with conn := c', callbacks := callbacks } := by
      rw [if_pos hcl] at hcount
      have hzero : callbacks.countP closing = 0 := by omega
      refine ⟨hc.1, by simp [hzero], fun _ => hzero, fun hd => hc.2.down (h.destroying hd), ?_⟩
      have := Frame.once hc.2
      have := h.once
      simp only
      omega
    have hup (hcl : closing callback = true) : s.conn.state ≠ .kDisconnected := fun hd => by
      have := h.closed hd
      rw [if_pos hcl] at hcount
      omega
    cases callback with
    | close => exact (handleClose_tidy h.conn (hup rfl) hk).bind fun c' hc => hframe rfl hc
    | error => exact h.calm h.conn (.refl _) hle
    | read => exact (handleRead_tidy h.conn (hup rfl) hk hread).bind fun c' hc => hframe rfl hc
    | write => exact (handleWrite_tidy h.conn hwrite).bind fun c' hc => h.calm hc.1 hc.2 hle

/-- The loop runs the next functor. -/
theorem functor_orderly (h : s.Orderly) {w : WriteResult} (he : s.enabled (.functor w))
    (hk : s.Keeps (.functor w)) :
    Yields Orderly (s.Exhausts (.functor w)) (s.step (.functor w)) := by
  obtain ⟨⟨hcb, hdestroying⟩, _, hs⟩ := he
  have honce := h.once
  have hlength : ∀ f, f = .lengthError → s.Exhausts (.functor w) f := fun f hf => .inl hf
  simp only [step]
  split
  · exact h
  · rename_i f fs hfs
    simp only [Keeps, hfs] at hk
    rw [hfs] at hs
    have ht : Tidy { s.conn with pendingFunctors := fs } :=
      ⟨⟨h.conn.input, h.conn.output, h.conn.channel⟩, h.conn.established, h.conn.reading,
        h.conn.added, h.conn.fresh, h.conn.once, h.conn.quiet, h.conn.gone⟩
    have hcount : s.conn.pendingFunctors.count .connectDestroyed =
        fs.count .connectDestroyed + if f = .connectDestroyed then 1 else 0 := by
      rw [hfs, List.count_cons]
      simp only [beq_iff_eq]
    simp only [hdestroying, Bool.toNat_false, Nat.add_zero] at honce
    have hframe (hf : f ≠ .connectDestroyed) {c' : TcpConnection}
        (hc : c'.Tidy ∧ Frame { s.conn with pendingFunctors := fs } c') :
        Orderly { s with conn := c', destroying := callsBack s.conn f } := by
      have hcalls : callsBack s.conn f = false := by simp [callsBack, hf]
      refine ⟨hc.1, by simp [hcb], fun _ => by simp [hcb], fun hd => ?_, ?_⟩
      · simp [hcalls] at hd
      · have := Frame.once hc.2
        simp only [hcalls, Bool.toNat_false, Nat.add_zero]
        simp only at this
        omega
    cases f with
    | sendInLoop message =>
      apply ((sendPiece_tidy ht hs).weaken ?_).bind
      · intro c' hc
        exact hframe (by simp) ⟨hc.1, hc.2.toFrame⟩
      · intro f hf
        apply hf.imp_right
        intro hover
        change _ ∧ OverrunsNext _ _
        rw [hfs]
        exact hover
    | writeCompleteCallback => exact hframe (by simp) ⟨ht, (Calm.refl _).toFrame⟩
    | highWaterMarkCallback len => exact hframe (by simp) ⟨ht, (Calm.refl _).toFrame⟩
    | forceCloseInLoop =>
      simp only [functorStep, forceCloseInLoop]
      split
      · rename_i hst
        exact ((handleClose_tidy ht (up_ne hst) (hk (up_ne hst))).weaken hlength).bind
          fun c' hc => hframe (by simp) hc
      · exact hframe (by simp) ⟨ht, (Calm.refl _).toFrame⟩
    | connectDestroyed =>
      rw [if_pos rfl] at hcount
      have hbound : s.destroyQueued.toNat ≤ 1 := Bool.toNat_le _
      have hregistered : s.conn.channel.registered = true := by
        cases hr : s.conn.channel.registered with
        | true => rfl
        | false =>
          simp only [hr, Bool.not_false, Bool.toNat_true] at honce
          omega
      simp only [functorStep]
      split
      · rename_i hst
        refine ((disconnect_tidy ht hst (hk.1 hst)).weaken hlength).bind fun c' hc => ?_
        obtain ⟨htidy, hfr, hdown⟩ := hc
        have hcalls : callsBack s.conn .connectDestroyed = true := by simp [callsBack, hst]
        refine ⟨htidy, by simp [hcb], fun _ => by simp [hcb], fun _ => hdown, ?_⟩
        have hf := Frame.once hfr
        simp only [hcalls, Bool.toNat_true]
        simp only at hf
        omega
      · rename_i hst
        have hevents : s.conn.channel.events = kNoneEvent := by
          cases hs : s.conn.state with
          | kDisconnected => exact h.conn.quiet hs
          | kConnecting => exact absurd hs h.conn.established
          | kConnected => exact absurd hs hst
          | kDisconnecting => exact not_not.mp (hk.2 hs)
        obtain ⟨c', hc', htidy, hstate, hpending⟩ := removeChannel_tidy ht hevents hregistered
        have hcalls : callsBack s.conn .connectDestroyed = false := by
          have : ¬s.conn.state = .kConnected := hst
          simp [callsBack, this]
        rw [hc', ok_bind]
        refine ⟨htidy, by simp [hcb], fun _ => by simp [hcb], fun hd => ?_, ?_⟩
        · simp [hcalls] at hd
        · have hle : (!c'.channel.registered).toNat ≤ 1 := Bool.toNat_le _
          simp only [hcalls, hpending, Bool.toNat_false]
          omega

/-- One step of a loop that keeps a closed connection closed. -/
theorem step_orderly {e : Event} (h : s.Orderly) (he : s.enabled e) (hk : s.Keeps e) :
    Yields Orderly (s.Exhausts e) (s.step e) := by
  have honce := h.once
  have hlength : ∀ f, f = .lengthError → s.Exhausts e f := fun f hf => .inl hf
  cases e with
  | call k =>
    exact ((call_tidy h.conn he hk).weaken hlength).bind fun c' hc =>
      h.calm hc.1 hc.2 (Nat.le_refl _)
  | otherSend message => exact ⟨h.conn, h.callbacks, h.closed, h.destroying, h.once⟩
  | otherQueue message =>
    refine ⟨h.conn.queueInLoop _, h.callbacks, h.closed, h.destroying, ?_⟩
    simpa [queueInLoop, List.count_append] using honce
  | poll r =>
    obtain ⟨_, hr⟩ := he
    refine ⟨h.conn, reports_closing hr, fun hd => ?_, h.destroying, h.once⟩
    -- a channel that is down is out of the interest set
    have hnone : s.conn.channel.interest.isSome = false := by
      have := mt h.conn.channel.interest.mp (h.conn.gone hd)
      simpa using this
    rw [Option.isSome_eq_false_iff, Option.isNone_iff_eq_none] at hnone
    rw [hnone] at hr
    exact hr.elim
  | handle read w => exact (handle_orderly h he hk).weaken hlength
  | functor w => exact functor_orderly h he hk
  | queueConnectDestroyed =>
    have hq : s.destroyQueued = false := he
    rw [hq, Bool.toNat_false] at honce
    refine ⟨h.conn.queueInLoop _, h.callbacks, h.closed, h.destroying, ?_⟩
    simp only [queueInLoop, List.count_append, List.count_singleton_self, Bool.toNat_true]
    omega
  | finishConnectDestroyed =>
    have hd : s.destroying = true := he
    have hdown := h.destroying hd
    have hbound : s.destroyQueued.toNat ≤ 1 := Bool.toNat_le _
    rw [hd, Bool.toNat_true] at honce
    have hregistered : s.conn.channel.registered = true := by
      cases hr : s.conn.channel.registered with
      | true => rfl
      | false =>
        simp only [hr, Bool.not_false, Bool.toNat_true] at honce
        omega
    obtain ⟨c', hc', htidy, hstate, hpending⟩ :=
      removeChannel_tidy h.conn (h.conn.quiet hdown) hregistered
    simp only [step, hc', ok_bind]
    refine ⟨htidy, h.callbacks, fun hs => h.closed (hstate ▸ hs), by simp, ?_⟩
    have hle : (!c'.channel.registered).toNat ≤ 1 := Bool.toNat_le _
    simp only [hpending, Bool.toNat_false]
    omega

theorem step_orderly_within {e : Event} (h : s.Orderly) (he : s.enabled e) (hk : s.Keeps e)
    (hover : ¬s.Overruns e) : Yields Orderly (· = Fault.lengthError) (s.step e) :=
  (step_orderly h he hk).weaken fun _ hf => hf.resolve_right fun hf => hover hf.2

theorem established_orderly (h : Established s) : s.Orderly := by
  have hs := established_sound h
  obtain ⟨writeComplete, highWater, mark, rfl⟩ := established_eq h
  refine ⟨⟨hs, nofun, fun _ => rfl, fun _ => ⟨fun _ => nofun, fun _ => rfl⟩,
    fun _ => ⟨rfl, rfl, rfl⟩, ⟨Nat.zero_le _, Nat.zero_le _, Nat.zero_le _⟩, nofun, nofun⟩, ?_,
    fun _ => rfl, nofun, ?_⟩
  · exact Nat.zero_le _
  · exact Nat.le_refl _

/-- Nothing that closing does was done twice, and a connection that is down has no enabled events
and is out of the poller's interest set. -/
structure StaysClosed (c : TcpConnection) : Prop where
  handleClose : c.log.handleCloses ≤ 1
  closeCallback : c.log.closeCallbacks ≤ 1
  down : c.log.downs ≤ 1
  events : c.state = .kDisconnected → c.channel.events = kNoneEvent
  interest : c.state = .kDisconnected → c.channel.interest = none

theorem tidy_staysClosed {c : TcpConnection} (h : c.Tidy) : StaysClosed c := by
  refine ⟨h.once.1, h.once.2.1, h.once.2.2, h.quiet, fun hd => ?_⟩
  have hnone := mt h.channel.interest.mp (h.gone hd)
  simpa using hnone

/-- A closed connection stays closed in every run whose steps all keep it so, and no assertion
or `epoll_ctl` fails on the way. -/
theorem closed_stays_closed {s : System} {es : List Event} (h : Established s)
    (hl : machine.Legal Keeps s es) :
    Yields (fun t => StaysClosed t.conn) (machine.FailsAt Exhausts s es) (machine.run s es) := by
  have hrun := Machine.run_keeps_at (I := Orderly) (b := Exhausts)
    (fun s e hi he hk => step_orderly hi he hk) (established_orderly h) hl
  exact hrun.mono fun t ht => tidy_staysClosed ht.conn

/-- The peer closes, the server queues `connectDestroyed`, user code still calls `send` and
`forceClose`, and the channel is removed. -/
def sampleClose : List Event :=
  [.poll ⟨true, false, false, true, false, false, false⟩, .handle (some []) (.wrote 0),
    .queueConnectDestroyed, .call (.send [1] (.wrote 1)), .call .forceClose, .functor (.wrote 0)]

theorem closed_stays_closed_sample :
    machine.Legal Keeps sampleStart sampleClose ∧
      Yields (fun t => StaysClosed t.conn) (machine.FailsAt Exhausts sampleStart sampleClose)
        (machine.run sampleStart sampleClose) := by
  have hl : machine.Legal Keeps sampleStart sampleClose := by decide +kernel
  exact ⟨hl, closed_stays_closed sampleStart_established hl⟩

/-- A hang-up closes the connection, a write-complete callback that was queued before calls
`startRead`, and `connectDestroyed` finds the channel reading again. -/
def restartAfterClose : List Event :=
  [.call (.send [1] (.wrote 1)), .poll ⟨false, false, false, true, false, false, false⟩,
    .handle none (.wrote 0), .functor (.wrote 0), .call .startRead, .queueConnectDestroyed,
    .functor (.wrote 0)]

theorem restart_reopens :
    ¬∀ (s : System) (es : List Event), Established s → machine.Legal (fun _ _ => True) s es →
      Yields (fun t => StaysClosed t.conn) (machine.FailsAt Exhausts s es) (machine.run s es) := by
  intro h
  have hl : machine.Legal (fun _ _ => True) sampleStart restartAfterClose := by decide +kernel
  have hf : machine.run sampleStart restartAfterClose = .error .assertion := by decide +kernel
  have hrun := h sampleStart restartAfterClose sampleStart_established hl
  rw [hf] at hrun
  obtain ⟨_, _, _, _, _, _, hb⟩ := yields_error.mp hrun
  simp [Exhausts] at hb

-- closing after `stopRead`: `disableAll` has nothing to disable and adds the channel again
example : (machine.run sampleStart
    [.call .stopRead, .call .forceClose, .functor (.wrote 0)]).map
      (fun t => (t.conn.state, t.conn.channel.interest)) =
    .ok (.kDisconnected, some kNoneEvent) := by decide +kernel

end System

end Muduo.Net
