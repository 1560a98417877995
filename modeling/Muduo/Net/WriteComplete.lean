import Muduo.Net.HalfClose
import Muduo.Net.HighWater

namespace Muduo.Net
open Muduo.Lib

namespace TcpConnection

/-- The write-complete callbacks to come: those in the queue, and the one that follows the output
that is buffered. -/
def dueCompletes (c : TcpConnection) : Nat :=
  c.pendingFunctors.count .writeCompleteCallback +
    if c.outputBuffer.readableBytes = 0 then 0 else 1

/-- A connection that reads until it is down, is only sent to and shut down, and has at most `n`
write-complete callbacks to come while it is up. -/
structure Counted (c : TcpConnection) (n : Nat) : Prop extends Sound c where
  reading : c.reading = true
  mark : c.highWaterMarkCallback = true
  kinds : ∀ f ∈ c.pendingFunctors, f = .writeCompleteCallback ∨
    (∃ k, f = .highWaterMarkCallback k) ∨ f = .connectDestroyed ∧ c.state = .kDisconnected
  writing : c.state ≠ .kDisconnected →
    (c.channel.isWriting = true ↔ c.outputBuffer.contents ≠ [])
  due : c.state ≠ .kDisconnected → c.dueCompletes ≤ n

variable {c c' : TcpConnection} {message : Bytes} {w : WriteResult} {n : Nat}

theorem Queues.due (h : Queues c c') : c'.dueCompletes ≤ c.dueCompletes + 1 := by
  unfold dueCompletes
  rcases h with ⟨hsame, -⟩ | ⟨hmore, hempty⟩ | ⟨-, k, hmark⟩
  · rw [hsame]
    split <;> omega
  · rw [hmore, hempty, List.count_append, List.count_singleton_self, if_pos rfl]
    omega
  · rw [hmark, List.count_append]
    have hzero : List.count Functor.writeCompleteCallback [.highWaterMarkCallback k] = 0 := rfl
    split <;> omega

theorem Queues.kinds (h : Queues c c') {f : Functor} (hf : f ∈ c'.pendingFunctors) :
    f ∈ c.pendingFunctors ∨ f = .writeCompleteCallback ∨ ∃ k, f = .highWaterMarkCallback k := by
  rcases h with ⟨hsame, -⟩ | ⟨hmore, -⟩ | ⟨-, k, hmark⟩
  · rw [hsame] at hf
    exact .inl hf
  · rw [hmore, List.mem_append, List.mem_singleton] at hf
    exact hf.imp_right .inl
  · rw [hmark, List.mem_append, List.mem_singleton] at hf
    exact hf.imp_right fun he => .inr ⟨k, he⟩

/-- What is sent is followed by one write-complete callback at most. -/
theorem Counted.sendInLoop (h : c.Counted n) (hst : c.state ≠ .kDisconnected)
    (hs : System.Sends message w) (hok : c.sendInLoop message w = .ok c') :
    c'.Counted (n + 1) ∧ c'.state = c.state := by
  obtain ⟨hsound, hout, -, -, hwriting⟩ := (sendInLoop_yields h.toSound hs hst).of_ok hok
  obtain ⟨hmoves, -, hqueues⟩ := sendInLoop_queues h.toSound hs hst h.mark hok
  refine ⟨⟨hsound, hout.reading.trans h.reading, hmoves.highWaterMarkCallback.trans h.mark,
    fun f hf => ?_, fun _ => hwriting (h.writing hst), fun _ => ?_⟩, hout.state⟩
  · rcases hqueues.kinds hf with hold | hwc | hmark
    · rw [hout.state]
      exact h.kinds f hold
    · exact .inl hwc
    · exact .inr (.inl hmark)
  · exact Nat.le_trans hqueues.due (Nat.succ_le_succ (h.due hst))

/-- The output that has been written is followed by the callback it was counted for. -/
theorem Counted.handleWrite (h : c.Counted n) (hn : w.taken ≤ c.outputBuffer.readableBytes)
    (hok : c.handleWrite w = .ok c') : c'.Counted n ∧ c'.state = c.state := by
  by_cases hw : c.channel.isWriting = true
  · obtain ⟨hsound, hout, -, -, hwriting⟩ := (handleWrite_yields h.toSound hn).of_ok hok
    obtain ⟨hmoves, -, hless, hqueues⟩ := handleWrite_queues h.toSound hn hok
    refine ⟨⟨hsound, hout.reading.trans h.reading, hmoves.highWaterMarkCallback.trans h.mark,
      fun f hf => ?_, fun hst => hwriting (h.writing (hout.state ▸ hst)), fun hst => ?_⟩,
      hout.state⟩
    · rw [hout.state]
      rcases hqueues with hsame | ⟨hmore, -⟩
      · exact h.kinds f (hsame ▸ hf)
      · rw [hmore, List.mem_append, List.mem_singleton] at hf
        rcases hf with hf | rfl
        · exact h.kinds f hf
        · exact .inl rfl
    · rw [hout.state] at hst
      have hcontents := (h.writing hst).mp hw
      have hfilled : c.outputBuffer.readableBytes ≠ 0 := by
        rw [h.output.readable_length]
        exact fun hz => hcontents (List.eq_nil_of_length_eq_zero hz)
      have hdue := h.due hst
      simp only [dueCompletes, if_neg hfilled] at hdue ⊢
      rcases hqueues with hsame | ⟨hmore, hempty⟩
      · rw [hsame]
        split <;> omega
      · rw [hmore, hempty, List.count_append, List.count_singleton_self, if_pos rfl]
        exact hdue
  · have hoff : c.channel.isWriting = false := by simpa using hw
    rw [handleWrite_idle h.toSound (.inl hoff)] at hok
    cases hok
    exact ⟨h, rfl⟩

theorem Counted.handleClose (h : c.Counted n) (hok : c.handleClose = .ok c') :
    c'.Counted n ∧ c'.state = .kDisconnected := by
  obtain ⟨hstill, -, hdown⟩ := handleClose_still h.toSound hok
  have hreading : c'.reading = c.reading := by
    obtain ⟨-, -, hok⟩ := bind_ok hok
    obtain ⟨channel, -, hok⟩ := bind_ok hok
    cases hok
    rfl
  refine ⟨⟨hstill.sound, hreading.trans h.reading, hstill.highWaterMarkCallback.trans h.mark,
    fun f hf => ?_, fun hst => absurd hdown hst, fun hst => absurd hdown hst⟩, hdown⟩
  rw [hstill.pendingFunctors] at hf
  exact (h.kinds f hf).imp_right (Or.imp_right fun hd => ⟨hd.1, hdown⟩)

theorem Counted.withInput (h : c.Counted n) {b : Buffer} (hb : b.Valid) :
    Counted { c with inputBuffer := b } n :=
  ⟨⟨hb, h.output, h.channel⟩, h.reading, h.mark, h.kinds, h.writing, h.due⟩

theorem Counted.shutdown (h : c.Counted n) :
    c.shutdown.Counted n ∧ (c.shutdown.state = .kDisconnected ↔ c.state = .kDisconnected) := by
  by_cases hst : c.state = .kConnected
  · have hup : c.state ≠ .kDisconnected := by simp [hst]
    have hcalm : Counted { c with state := .kDisconnecting } n :=
      ⟨⟨h.input, h.output, h.channel⟩, h.reading, h.mark,
        fun f hf => (h.kinds f hf).imp_right (Or.imp_right fun hd => absurd hd.2 hup),
        fun _ => h.writing hup, fun _ => h.due hup⟩
    rw [TcpConnection.shutdown, if_pos hst, shutdownInLoop]
    split
    · exact ⟨hcalm, by simp [hst]⟩
    · exact ⟨⟨⟨h.input, h.output, h.channel⟩, hcalm.reading, hcalm.mark, hcalm.kinds,
        hcalm.writing, hcalm.due⟩, by simp [hst]⟩
  · rw [TcpConnection.shutdown, if_neg hst]
    exact ⟨h, Iff.rfl⟩

theorem Counted.destroyed (h : c.Counted n) (hst : c.state = .kDisconnected) :
    (c.queueInLoop .connectDestroyed).Counted n := by
  refine ⟨⟨h.input, h.output, h.channel⟩, h.reading, h.mark, fun f hf => ?_,
    fun hup => absurd hst hup, fun hup => absurd hst hup⟩
  rcases List.mem_append.mp hf with hf | hf
  · exact h.kinds f hf
  · exact .inr (.inr ⟨List.mem_singleton.mp hf, hst⟩)

theorem Counted.removeChannel (h : c.Counted n) (hst : c.state = .kDisconnected)
    (hok : c.removeChannel = .ok c') : c'.Counted n ∧ c'.state = .kDisconnected := by
  have hsound := (removeChannel_still h.toSound hok).1.sound
  obtain ⟨channel, -, hok⟩ := bind_ok hok
  cases hok
  exact ⟨⟨hsound, h.reading, h.mark, h.kinds, fun hup => absurd hst hup,
    fun hup => absurd hst hup⟩, hst⟩

theorem Counted.pop (h : c.Counted n) {f : Functor} {fs : List Functor}
    (hfs : c.pendingFunctors = f :: fs) : Counted { c with pendingFunctors := fs }
      (if f = .writeCompleteCallback then n - 1 else n) := by
  refine ⟨⟨h.input, h.output, h.channel⟩, h.reading, h.mark,
    fun g hg => h.kinds g (hfs ▸ List.mem_cons_of_mem f hg), h.writing, fun hst => ?_⟩
  have hdue := h.due hst
  simp only [dueCompletes, hfs, List.count_cons, beq_iff_eq] at hdue ⊢
  by_cases hf : f = .writeCompleteCallback
  · rw [if_pos hf] at hdue ⊢
    omega
  · rw [if_neg hf] at hdue ⊢
    exact hdue

end TcpConnection

end Muduo.Net
