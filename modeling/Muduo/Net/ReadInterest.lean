import Muduo.Net.HighWater

namespace Muduo.Net
open Muduo.Lib

/-- The kernel watches for bytes to read only if the channel asks for it. -/
def Channel.Shown (c : Channel) : Prop :=
  ∀ e ∈ c.interest, e.reading = true → c.isReading = true

theorem Channel.settle_shown (c : Channel) (e : Events) : (c.settle e).Shown := by
  unfold Channel.Shown Channel.isReading
  rw [Channel.settle_events]
  unfold Channel.settle
  split
  · simp
  · simp

namespace TcpConnection

/-- An operation that does not start reading. -/
structure Hushes (c c' : TcpConnection) : Prop where
  shown : c.channel.Shown → c'.channel.Shown
  reading : c'.channel.isReading = true → c.channel.isReading = true

variable {c c' c'' : TcpConnection} {message : Bytes} {w : WriteResult}

theorem Hushes.of_eq (h : c'.channel = c.channel) : Hushes c c' := by
  constructor
  · rw [h]
    exact id
  · rw [h]
    exact id

theorem Hushes.of_settle {e : Events} (h : c'.channel = c.channel.settle e)
    (he : e.reading = true → c.channel.isReading = true) : Hushes c c' := by
  constructor
  · intro _
    rw [h]
    exact Channel.settle_shown _ e
  · rw [h, Channel.isReading, Channel.settle_events]
    exact he

theorem Hushes.trans (h : Hushes c c') (h' : Hushes c' c'') : Hushes c c'' :=
  ⟨fun hs => h'.shown (h.shown hs), fun hr => h.reading (h'.reading hr)⟩

theorem OutputOnly.hushes (h : OutputOnly c c') : Hushes c c' := by
  cases h.channel with
  | inl heq => exact .of_eq heq
  | inr hset =>
    obtain ⟨w, -, heq⟩ := hset
    exact .of_settle heq id

theorem sendInLoop_hushes (hs : c.Sound) (hsends : System.Sends message w)
    (hst : c.state ≠ .kDisconnected) (h : c.sendInLoop message w = .ok c') : Hushes c c' :=
  ((sendInLoop_yields hs hsends hst).of_ok h).2.1.hushes

theorem handleWrite_hushes (hs : c.Sound) (hn : w.taken ≤ c.outputBuffer.readableBytes)
    (h : c.handleWrite w = .ok c') : Hushes c c' :=
  ((handleWrite_yields hs hn).of_ok h).2.1.hushes

theorem handleClose_hushes (hs : c.Sound) (h : c.handleClose = .ok c') : Hushes c c' := by
  unfold handleClose at h
  obtain ⟨-, -, h⟩ := bind_ok h
  simp only [Channel.disableAll_eq hs.channel, ok_bind] at h
  cases h
  exact .of_settle rfl (by simp [kNoneEvent])

theorem shutdown_hushes (c : TcpConnection) : Hushes c c.shutdown := by
  apply Hushes.of_eq
  unfold shutdown shutdownInLoop
  split
  · split
    · rfl
    · rfl
  · rfl

theorem removeChannel_hushes (hs : c.Sound) (h : c.removeChannel = .ok c') : Hushes c c' := by
  obtain ⟨channel, hc, h⟩ := bind_ok h
  cases h
  by_cases he : c.channel.events = kNoneEvent
  · cases hr : c.channel.registered with
    | true =>
      rw [Channel.remove_eq hs.channel hr he] at hc
      cases hc
      constructor
      · simp [Channel.Shown, Channel.new]
      · simp [Channel.isReading, Channel.new, kNoneEvent]
    | false =>
      simp [Channel.remove, Channel.isNoneEvent, he, EPollPoller.removeChannel, check, hr] at hc
  · rw [Channel.remove_enabled he] at hc
    cases hc

theorem startReadInLoop_ok (hs : c.Sound) : ∃ c', c.startReadInLoop = .ok c' := by
  unfold startReadInLoop
  split
  · rw [Channel.enableReading_eq hs.channel]
    exact ⟨_, rfl⟩
  · exact ⟨_, rfl⟩

theorem stopReadInLoop_ok (hs : c.Sound) : ∃ c', c.stopReadInLoop = .ok c' := by
  unfold stopReadInLoop
  split
  · rw [Channel.disableReading_eq hs.channel]
    exact ⟨_, rfl⟩
  · exact ⟨_, rfl⟩

/-- Stopping to read leaves the channel with no interest in it. -/
theorem stopReadInLoop_hushes (hs : c.Sound) (h : c.stopReadInLoop = .ok c') :
    Hushes c c' ∧ c'.channel.isReading = false := by
  unfold stopReadInLoop at h
  split at h
  · rw [Channel.disableReading_eq hs.channel, ok_bind] at h
    cases h
    refine ⟨.of_settle rfl (by simp), ?_⟩
    simp [Channel.isReading]
  · rename_i hoff
    cases h
    simp only [Bool.or_eq_true, not_or, Bool.not_eq_true] at hoff
    exact ⟨.of_eq rfl, hoff.2⟩

theorem startReadInLoop_shown (hs : c.Sound) (h : c.startReadInLoop = .ok c')
    (hshown : c.channel.Shown) : c'.channel.Shown := by
  unfold startReadInLoop at h
  split at h
  · rw [Channel.enableReading_eq hs.channel, ok_bind] at h
    cases h
    exact Channel.settle_shown _ _
  · cases h
    exact hshown

/-- A channel that does not ask for it gets no read callback. -/
theorem no_read_callback {r : Revents} (hshown : c.channel.Shown)
    (hoff : c.channel.isReading = false) (hr : System.Reports r c.channel.interest) :
    .read ∉ Channel.handleEventWithGuard r := by
  cases hi : c.channel.interest with
  | none =>
    rw [hi] at hr
    exact hr.elim
  | some e =>
    rw [hi] at hr
    obtain ⟨hin, hpri, -, hrdhup, -⟩ := hr
    have hquiet : ¬e.reading = true := by
      intro he
      have hon := hshown e hi he
      rw [hoff] at hon
      cases hon
    have hnothing : r.pollin = false ∧ r.pri = false :=
      ⟨Bool.eq_false_of_not_eq_true fun h => hquiet (hin h),
        Bool.eq_false_of_not_eq_true fun h => hquiet (hpri h)⟩
    unfold Channel.handleEventWithGuard
    rw [hnothing.1, hnothing.2, hrdhup]
    simp

end TcpConnection

end Muduo.Net
