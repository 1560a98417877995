import Muduo.Net.ConnectionSound

namespace Muduo.Net
open Muduo.Lib

namespace TcpConnection

/-- What an operation leaves alone that does not touch reading: the connection reads on, what it
was called back with is not forgotten, and it goes down with a DOWN callback only. -/
structure Steady (c c' : TcpConnection) : Prop where
  reading : c'.reading = c.reading
  downs : c.log.downs ≤ c'.log.downs
  down : c'.state = .kDisconnected → c.state = .kDisconnected ∨ c.log.downs < c'.log.downs

variable {c c' : TcpConnection} {message rest : Bytes} {w : WriteResult}

theorem Steady.refl (c : TcpConnection) : Steady c c := ⟨rfl, Nat.le_refl _, .inl⟩

theorem OutputOnly.steady (h : OutputOnly c c') : Steady c c' := by
  obtain ⟨-, hdowns, -⟩ := h.closes
  exact ⟨h.reading, Nat.le_of_eq hdowns.symm, fun hst => .inl (h.state ▸ hst)⟩

theorem sendInLoop_steady (h : c.Sound) (hs : System.Sends message w)
    (hok : c.sendInLoop message w = .ok c') : Steady c c' := by
  by_cases hst : c.state = .kDisconnected
  · rw [sendInLoop, if_pos hst] at hok
    cases hok
    exact .refl c
  · exact ((sendInLoop_yields h hs hst).of_ok hok).2.1.steady

theorem shutdown_steady (c : TcpConnection) : Steady c c.shutdown := by
  unfold shutdown
  split
  · unfold shutdownInLoop
    split
    · exact ⟨rfl, Nat.le_refl _, nofun⟩
    · exact ⟨rfl, Nat.le_refl _, nofun⟩
  · exact .refl c

theorem forceClose_steady (c : TcpConnection) : Steady c c.forceClose := by
  unfold forceClose
  split
  · exact ⟨rfl, Nat.le_refl _, nofun⟩
  · exact .refl c

theorem forceCloseWithDelay_steady (c : TcpConnection) : Steady c c.forceCloseWithDelay := by
  unfold forceCloseWithDelay
  split
  · exact ⟨rfl, Nat.le_refl _, nofun⟩
  · exact .refl c

theorem handleClose_steady (hok : c.handleClose = .ok c') : Steady c c' := by
  obtain ⟨-, -, hok⟩ := bind_ok hok
  obtain ⟨channel, -, hok⟩ := bind_ok hok
  cases hok
  exact ⟨rfl, Nat.le_succ _, fun _ => .inr (Nat.lt_succ_self _)⟩

theorem disconnect_steady (hok : c.disconnect = .ok c') : Steady c c' := by
  obtain ⟨channel, -, hok⟩ := bind_ok hok
  cases hok
  exact ⟨rfl, Nat.le_succ _, fun _ => .inr (Nat.lt_succ_self _)⟩

theorem removeChannel_steady (hok : c.removeChannel = .ok c') : Steady c c' := by
  obtain ⟨channel, -, hok⟩ := bind_ok hok
  cases hok
  exact ⟨rfl, Nat.le_refl _, .inl⟩

theorem retrieveInput_steady {len : Nat} (hok : c.retrieveInput len = .ok c') : Steady c c' := by
  obtain ⟨inputBuffer, -, hok⟩ := bind_ok hok
  cases hok
  exact ⟨rfl, Nat.le_refl _, .inl⟩

theorem handleRead_steady {read : Option Bytes} (hok : c.handleRead read = .ok c') :
    Steady c c' := by
  obtain ⟨inputBuffer, -, hok⟩ := bind_ok hok
  dsimp only at hok
  split at hok
  · have hclose := handleClose_steady hok
    exact ⟨hclose.reading, hclose.downs, hclose.down⟩
  · cases hok
    exact ⟨rfl, Nat.le_refl _, .inl⟩

/-- Sending leaves the input alone. -/
theorem sendInLoop_input (c : TcpConnection) (message : Bytes) (w : WriteResult) :
    Yields (fun c' => c'.inputBuffer = c.inputBuffer) (fun _ => True)
      (c.sendInLoop message w) := by
  have hremaining (b : TcpConnection) (n : Nat) (fault : Bool)
      (hb : b.inputBuffer = c.inputBuffer) :
      Yields (fun c' => c'.inputBuffer = c.inputBuffer) (fun _ => True)
        (b.sendRemaining message n fault) := by
    simp only [sendRemaining]
    refine (yields_any _).bind fun _ _ => ?_
    split
    · obtain ⟨fs, -, hqueue⟩ := queueHighWaterMark_eq b b.outputBuffer.readableBytes
        (sizeAdd b.outputBuffer.readableBytes (message.drop n).length)
      simp only [keepRemaining, hqueue]
      refine (yields_any _).bind fun output _ => ?_
      split
      · exact hb
      · exact (yields_any _).bind fun channel _ => hb
    · exact hb
  unfold sendInLoop
  split
  · rfl
  · simp only
    split
    · cases w with
      | failed errno => exact hremaining _ _ _ rfl
      | wrote n =>
        obtain ⟨fs, -, hwrote⟩ := writeDirectly_wrote
          { c with log.accepted := c.log.accepted ++ message } message n
        simp only [hwrote]
        exact hremaining _ _ _ rfl
    · exact hremaining _ _ _ rfl

end TcpConnection

namespace System
open TcpConnection

variable {s t : System}

/-- The events that touch reading. -/
def TouchesReading : Event → Prop
  | .call .startRead | .call .stopRead => True
  | _ => False

theorem step_steady {e : Event} (h : s.conn.Sound) (he : s.enabled e) (hr : ¬TouchesReading e)
    (hok : s.step e = .ok t) : Steady s.conn t.conn := by
  cases e with
  | call k =>
    obtain ⟨c, hc, rfl⟩ := call_ok hok
    cases k with
    | send message w =>
      simp only [callStep, TcpConnection.send] at hc
      split at hc
      · exact sendInLoop_steady h he hc
      · cases hc
        exact .refl _
    | shutdown =>
      cases hc
      exact shutdown_steady _
    | forceClose =>
      cases hc
      exact forceClose_steady _
    | forceCloseWithDelay =>
      cases hc
      exact forceCloseWithDelay_steady _
    | startRead => exact absurd trivial hr
    | stopRead => exact absurd trivial hr
    | retrieveInput len => exact retrieveInput_steady hc
  | otherSend message =>
    cases hok
    exact .refl _
  | otherQueue message =>
    cases hok
    exact ⟨rfl, Nat.le_refl _, .inl⟩
  | poll r =>
    cases hok
    exact .refl _
  | handle read w =>
    obtain ⟨callback, callbacks, hcb⟩ := List.exists_cons_of_ne_nil he.1
    obtain ⟨c, hc, rfl⟩ := handle_cons hcb hok
    cases callback with
    | close => exact handleClose_steady hc
    | error =>
      cases hc
      exact .refl _
    | read => exact handleRead_steady hc
    | write => exact ((handleWrite_yields h he.2.2.2).of_ok hc).2.1.steady
  | functor w =>
    obtain ⟨f, fs, hfs⟩ := List.exists_cons_of_ne_nil he.2.1
    obtain ⟨c, hc, rfl⟩ := functor_cons hfs hok
    have hs : SendsFunctor w (f :: fs) := hfs ▸ he.2.2
    have hsteady : Steady { s.conn with pendingFunctors := fs } c := by
      cases f with
      | sendInLoop message =>
        obtain ⟨d, accepted, hd, rfl⟩ := sendPiece_ok hc
        have hd := sendInLoop_steady (by exact ⟨h.input, h.output, h.channel⟩) hs hd
        exact ⟨hd.reading, hd.downs, hd.down⟩
      | writeCompleteCallback =>
        cases hc
        exact .refl _
      | highWaterMarkCallback len =>
        cases hc
        exact .refl _
      | forceCloseInLoop =>
        simp only [functorStep, forceCloseInLoop] at hc
        split at hc
        · exact handleClose_steady hc
        · cases hc
          exact .refl _
      | connectDestroyed =>
        simp only [functorStep] at hc
        split at hc
        · exact disconnect_steady hc
        · exact removeChannel_steady hc
    exact ⟨hsteady.reading, hsteady.downs, hsteady.down⟩
  | queueConnectDestroyed =>
    cases hok
    exact ⟨rfl, Nat.le_refl _, .inl⟩
  | finishConnectDestroyed =>
    obtain ⟨c, hc, hok⟩ := bind_ok hok
    cases hok
    exact removeChannel_steady hc

end System

end Muduo.Net
