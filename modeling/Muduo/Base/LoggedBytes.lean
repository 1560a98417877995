import Muduo.Base.AsyncLogging

namespace Muduo.Base
open Muduo.Lib Muduo.Net

namespace AsyncLogging

variable {s : AsyncLogging} {logline : Bytes}

/-- The bytes in a list of buffers, in order. -/
def contents (ps : List BufferPtr) : Bytes := (ps.map fun p => p.getD []).flatten

@[simp] theorem contents_nil : contents [] = [] := rfl

@[simp] theorem contents_append (ps qs : List BufferPtr) :
    contents (ps ++ qs) = contents ps ++ contents qs := by
  simp [contents]

@[simp] theorem contents_cons (p : BufferPtr) (ps : List BufferPtr) :
    contents (p :: ps) = p.getD [] ++ contents ps := rfl

/-- The part of `buffersToWrite` that has not been passed to the log file. -/
def unwritten (s : AsyncLogging) : List BufferPtr :=
  match s.backend with
  | .writing i => s.buffersToWrite.drop i
  | _ => s.buffersToWrite

/-- The buffers the backend holds, place by place. -/
def Held (s : AsyncLogging) : Prop :=
  match s.backend with
  | .absent => s.buffersToWrite = []
  | .starting => s.running = true ∧ s.buffersToWrite = []
  | .done => s.buffersToWrite = []
  | .writing _ => s.newBuffer1 = none ∧ (s.newBuffer2 = some [] ∨
    s.newBuffer2 = none ∧ 2 ≤ s.buffersToWrite.length) ∧ s.buffersToWrite ≠ []
  | _ => s.newBuffer1 = some [] ∧ s.newBuffer2 = some [] ∧ s.buffersToWrite = []

/-- The invariant of the four buffers. A consumed `nextBuffer_` has left a buffer behind it. -/
structure Circulating (s : AsyncLogging) : Prop where
  stream : s.appended.flatten = s.output ++ contents s.unwritten ++ contents s.buffers ++
    s.currentBuffer.getD []
  current : ∃ b, s.currentBuffer = some b
  next : s.nextBuffer = some [] ∨ s.nextBuffer = none ∧ s.buffers ≠ []
  full : ∀ p ∈ s.buffers, ∃ b, p = some b
  writing : ∀ p ∈ s.buffersToWrite, ∃ b, p = some b
  held : Held s

theorem initial_circulating : Circulating initial where
  stream := rfl
  current := ⟨[], rfl⟩
  next := .inl rfl
  full := nofun
  writing := nofun
  held := rfl

theorem append_empty (h : logline.length < kLargeBuffer) :
    FixedBuffer.append [] logline = logline := by
  have havail : FixedBuffer.avail [] > logline.length := by
    simpa [FixedBuffer.avail] using h
  rw [FixedBuffer.append, if_pos havail, List.nil_append]

/-- However full the buffers are, the line goes behind everything else. -/
theorem Circulating.append (hs : Circulating s) (hl : logline.length < kLargeBuffer) :
    ∃ s', s.append logline = .ok s' ∧ Circulating s' := by
  obtain ⟨b, hb⟩ := hs.current
  have hstream := hs.stream
  simp only [hb, Option.getD_some] at hstream
  simp only [AsyncLogging.append, hb, deref, ok_bind]
  by_cases hfit : FixedBuffer.avail b > logline.length
  · rw [if_pos hfit]
    refine ⟨_, rfl, ?_, ⟨_, rfl⟩, hs.next, hs.full, hs.writing, hs.held⟩
    have happ : FixedBuffer.append b logline = b ++ logline := if_pos hfit
    change (s.appended ++ [logline]).flatten = _
    simp only [List.flatten_append, List.flatten_singleton, hstream, Option.getD_some, happ,
      List.append_assoc]
    rfl
  · rw [if_neg hfit]
    have hfull : ∀ p ∈ s.buffers ++ [some b], ∃ b, p = some b := by
      intro p hp
      rcases List.mem_append.mp hp with hp | hp
      · exact hs.full p hp
      · exact ⟨b, List.mem_singleton.mp hp⟩
    -- the buffer that becomes the current one is empty
    have hfresh : s.nextBuffer = some [] ∨ s.nextBuffer = none := hs.next.imp_right And.left
    rcases hfresh with hn | hn
    · simp only [hn, ok_bind, append_empty hl]
      refine ⟨_, rfl, ?_, ⟨_, rfl⟩, .inr ⟨rfl, by simp⟩, hfull, hs.writing, hs.held⟩
      change (s.appended ++ [logline]).flatten = _
      simp only [List.flatten_append, List.flatten_singleton, hstream, Option.getD_some,
        contents_append, contents_cons, contents_nil, List.append_nil, List.append_assoc]
      rfl
    · simp only [hn, ok_bind, append_empty hl]
      refine ⟨_, rfl, ?_, ⟨_, rfl⟩, .inr ⟨rfl, by simp⟩, hfull, hs.writing, hs.held⟩
      change (s.appended ++ [logline]).flatten = _
      simp only [List.flatten_append, List.flatten_singleton, hstream, Option.getD_some,
        contents_append, contents_cons, contents_nil, List.append_nil, List.append_assoc]
      rfl

/-- The swap hands everything the front end has collected to the backend, and leaves the
front end with empty buffers. -/
theorem Circulating.collect (hs : Circulating s) (h1 : s.newBuffer1 = some [])
    (h2 : s.newBuffer2 = some []) (hw : s.buffersToWrite = [])
    (hcount : s.buffers.length + 1 ≤ 25) (now : Bytes) :
    ∃ s', s.collect now = .ok s' ∧ Circulating s' := by
  have hne : s.buffers ++ [s.currentBuffer] ≠ [] := by simp
  have hfew : ¬(s.buffers ++ [s.currentBuffer]).length > 25 := by
    rw [List.length_append, List.length_singleton]
    omega
  have hfull : ∀ p ∈ s.buffers ++ [s.currentBuffer], ∃ b, p = some b := by
    intro p hp
    rcases List.mem_append.mp hp with hp | hp
    · exact hs.full p hp
    · obtain ⟨b, hb⟩ := hs.current
      exact ⟨b, by rw [List.mem_singleton.mp hp, hb]⟩
  have hstream : s.appended.flatten =
      s.output ++ (contents s.buffers ++ s.currentBuffer.getD []) := by
    have hnone : s.unwritten = [] := by
      unfold unwritten
      split <;> simp [hw]
    rw [hs.stream, hnone, contents_nil, List.append_nil, List.append_assoc]
  rcases hs.next with hn | ⟨hn, hb⟩
  · simp only [AsyncLogging.collect, hn, check_pos hne, if_neg hfew, ok_bind]
    refine ⟨_, rfl, ?_, ⟨[], h1⟩, .inl rfl, by simp [hw], hfull, rfl, .inl h2, hne⟩
    simp [unwritten, hstream, h1, hw]
  · simp only [AsyncLogging.collect, hn, check_pos hne, if_neg hfew, ok_bind]
    refine ⟨_, rfl, ?_, ⟨[], h1⟩, .inl h2, by simp [hw], hfull, rfl, .inr ⟨rfl, ?_⟩, hne⟩
    · simp [unwritten, hstream, h1, hw]
    · rw [List.length_append, List.length_singleton]
      have := List.length_pos_iff.mpr hb
      omega

theorem refill_none {ps : List BufferPtr} (hne : ps ≠ []) (hps : ∀ p ∈ ps, ∃ b, p = some b) :
    refill none ps = .ok (some [], ps.dropLast) := by
  obtain ⟨b, hb⟩ := hps _ (List.getLast_mem hne)
  have hlast : ps.getLastD none = some b := by
    rw [← hb, List.getLastD_eq_getLast?, List.getLast?_eq_some_getLast hne, Option.getD_some]
  simp only [refill, check_pos hne, hlast, deref, ok_bind]

/-- There are buffers enough to refill both spare ones. -/
theorem Circulating.endCycle (hs : Circulating s) {i : Nat} (hb : s.backend = .writing i)
    (hi : s.buffersToWrite.length ≤ i) : ∃ s', s.endCycle = .ok s' ∧ Circulating s' := by
  have hheld := hs.held
  simp only [Held, hb] at hheld
  obtain ⟨h1, h2, hne⟩ := hheld
  have hne' : s.buffersToWrite.take 2 ≠ [] := by
    simpa [List.take_eq_nil_iff] using hne
  have hsome : ∀ p ∈ s.buffersToWrite.take 2, ∃ b, p = some b :=
    fun p hp => hs.writing p (List.mem_of_mem_take hp)
  have hstream : s.appended.flatten =
      s.output ++ contents s.buffers ++ s.currentBuffer.getD [] := by
    have hnone : s.unwritten = [] := by
      simp only [unwritten, hb]
      exact List.drop_eq_nil_of_le hi
    rw [hs.stream, hnone, contents_nil, List.append_nil]
  rcases h2 with h2 | ⟨h2, hlen⟩
  · simp only [AsyncLogging.endCycle, h1, h2, refill_none hne' hsome, ok_bind]
    exact ⟨_, rfl, by simpa [unwritten] using hstream, hs.current, hs.next, hs.full, nofun, rfl,
      rfl, rfl⟩
  · have hne'' : (s.buffersToWrite.take 2).dropLast ≠ [] := by
      rw [← List.length_pos_iff, List.length_dropLast, List.length_take]
      omega
    have hsome' : ∀ p ∈ (s.buffersToWrite.take 2).dropLast, ∃ b, p = some b :=
      fun p hp => hsome p (List.dropLast_subset _ hp)
    simp only [AsyncLogging.endCycle, h1, h2, refill_none hne' hsome, refill_none hne'' hsome',
      ok_bind]
    exact ⟨_, rfl, by simpa [unwritten] using hstream, hs.current, hs.next, hs.full, nofun, rfl,
      rfl, rfl⟩

theorem Circulating.writeNext (hs : Circulating s) {i : Nat} (hb : s.backend = .writing i) :
    ∃ s', s.writeNext i = .ok s' ∧ Circulating s' := by
  cases hp : s.buffersToWrite[i]? with
  | none =>
    simp only [AsyncLogging.writeNext, hp]
    exact hs.endCycle hb (List.getElem?_eq_none_iff.mp hp)
  | some p =>
    obtain ⟨hi, hget⟩ := List.getElem?_eq_some_iff.mp hp
    obtain ⟨b, hsome⟩ := hs.writing p (List.mem_of_getElem? hp)
    have hdrop : s.buffersToWrite.drop i = p :: s.buffersToWrite.drop (i + 1) := by
      rw [List.drop_eq_getElem_cons hi, hget]
    have hstream := hs.stream
    simp only [unwritten, hb, hdrop, hsome, contents_cons, Option.getD_some] at hstream
    have hheld := hs.held
    simp only [Held, hb] at hheld
    simp only [AsyncLogging.writeNext, hp, hsome, deref, ok_bind]
    exact ⟨_, rfl, by simpa [unwritten] using hstream, hs.current, hs.next, hs.full, hs.writing,
      hheld⟩

theorem Circulating.beginCycle (hs : Circulating s) (hb : s.backend = .top) :
    ∃ s', s.beginCycle = .ok s' ∧ Circulating s' := by
  have hheld := hs.held
  simp only [Held, hb] at hheld
  obtain ⟨h1, h2, hw⟩ := hheld
  have hstream := hs.stream
  simp only [unwritten, hb] at hstream
  unfold AsyncLogging.beginCycle
  split
  · rw [check_pos ⟨[], h1, rfl⟩, check_pos ⟨[], h2, rfl⟩, check_pos hw]
    exact ⟨_, rfl, hstream, hs.current, hs.next, hs.full, hs.writing, h1, h2, hw⟩
  · exact ⟨_, rfl, hstream, hs.current, hs.next, hs.full, hs.writing, hw⟩

/-- The premises on a step: a line fits an empty buffer, and a cycle collects at most 25
buffers. -/
def InBounds (s : AsyncLogging) : Event → Prop
  | .append logline => logline.length < kLargeBuffer
  | .backend _ => s.backend = .collecting ∨ s.backend = .waiting → s.buffers.length + 1 ≤ 25
  | _ => True

theorem Circulating.step (hs : Circulating s) {e : Event} (he : machine.enabled s e)
    (hin : InBounds s e) : ∃ s', machine.step s e = .ok s' ∧ Circulating s' := by
  have hstream := hs.stream
  have hheld := hs.held
  cases e with
  | append logline => exact hs.append hin
  | start =>
    have hb : s.backend = .absent := he
    simp only [unwritten, Held, hb] at hstream hheld
    exact ⟨_, rfl, hstream, hs.current, hs.next, hs.full, hs.writing, rfl, hheld⟩
  | stop =>
    refine ⟨_, rfl, hstream, hs.current, hs.next, hs.full, hs.writing, ?_⟩
    cases hb : s.backend with
    | starting => exact absurd hb he.2
    | absent => exact absurd hb he.1
    | top => simpa [Held, hb, AsyncLogging.stop] using hheld
    | collecting => simpa [Held, hb, AsyncLogging.stop] using hheld
    | waiting => simpa [Held, hb, AsyncLogging.stop] using hheld
    | writing i => simpa [Held, hb, AsyncLogging.stop] using hheld
    | done => simpa [Held, hb, AsyncLogging.stop] using hheld
  | backend now =>
    cases hb : s.backend with
    | absent => exact absurd hb he.1
    | done => exact absurd hb he.2
    | starting =>
      simp only [Held, hb, unwritten] at hheld hstream
      obtain ⟨hrun, hw⟩ := hheld
      simp only [machine, AsyncLogging.step, hb, enterThread, check_pos hrun, ok_bind]
      rw [hw] at hstream
      exact ⟨_, rfl, hstream, hs.current, hs.next, hs.full, nofun, rfl, rfl, rfl⟩
    | top =>
      simp only [machine, AsyncLogging.step, hb]
      exact hs.beginCycle hb
    | collecting =>
      simp only [Held, hb] at hheld
      obtain ⟨h1, h2, hw⟩ := hheld
      simp only [machine, AsyncLogging.step, hb, lock]
      split
      · simp only [unwritten, hb] at hstream
        exact ⟨_, rfl, hstream, hs.current, hs.next, hs.full, hs.writing, h1, h2, hw⟩
      · exact hs.collect h1 h2 hw (hin (.inl hb)) now
    | waiting =>
      simp only [Held, hb] at hheld
      obtain ⟨h1, h2, hw⟩ := hheld
      simp only [machine, AsyncLogging.step, hb]
      exact hs.collect h1 h2 hw (hin (.inr hb)) now
    | writing i =>
      simp only [machine, AsyncLogging.step, hb]
      exact hs.writeNext hb

instance (s : AsyncLogging) : ∀ e, Decidable (InBounds s e)
  | .append logline => inferInstanceAs (Decidable (logline.length < kLargeBuffer))
  | .backend _ => inferInstanceAs
    (Decidable (s.backend = .collecting ∨ s.backend = .waiting → s.buffers.length + 1 ≤ 25))
  | .start => isTrue trivial
  | .stop => isTrue trivial

/-- Lines before the start, during the wait and while the buffers are written. -/
def sampleRun : List Event :=
  [.append [1, 2], .start, .backend [], .backend [], .backend [], .append [3], .backend [],
    .append [4], .backend [], .backend [], .stop, .backend []]

end AsyncLogging

end Muduo.Base
