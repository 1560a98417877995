import Muduo.Lib.Framing
import Muduo.Net.Arrivals
import Muduo.Net.ProtobufCodec

namespace Muduo.Net
open Muduo.Lib

/-- A connection on which frames are sent and its peer, which takes them apart in its
`messageCallback_`. What the socket of the one took comes out of the socket of the other in order;
the first `arrived` bytes have. -/
structure Delivery (σ : Type) where
  sender : System
  receiver : System
  arrived : Nat
  got : σ

namespace Delivery

variable {σ α : Type}

inductive Event
  | sender (e : Net.Event)
  | receiver (e : Net.Event)

/-- The bytes under way. -/
def wire (s : Delivery σ) : Bytes := s.sender.conn.log.written.drop s.arrived

/-- `messageCallback_`: the codec looks at the input buffer, and retrieves what it has used. -/
def messageCallback (r : Receiver σ α UInt8 Fault) (s : Delivery σ) :
    Except Fault (Delivery σ) := do
  let buf := s.receiver.conn.inputBuffer.contents
  let (got, rest) ← r.run s.got buf
  let conn ← s.receiver.conn.retrieveInput (buf.length - rest.length)
  .ok { s with receiver := { s.receiver with conn := conn }, got := got }

def step (r : Receiver σ α UInt8 Fault) (s : Delivery σ) : Event → Except Fault (Delivery σ)
  | .sender e => do
    let sender ← s.sender.step e
    .ok { s with sender := sender }
  | .receiver e => do
    let chunk := s.receiver.chunk e
    let receiver ← s.receiver.step e
    let s := { s with receiver := receiver, arrived := s.arrived + chunk.length }
    if chunk = [] then .ok s else s.messageCallback r

/-- A read gives what comes next. Only the codec takes bytes out of the input buffer. -/
def enabled (s : Delivery σ) : Event → Prop
  | .sender e => s.sender.enabled e
  | .receiver e => s.receiver.enabled e ∧ s.receiver.chunk e <+: s.wire ∧
    ∀ len, e ≠ .call (.retrieveInput len)

def machine (r : Receiver σ α UInt8 Fault) : Machine (Delivery σ) Event Fault := ⟨enabled, step r⟩

instance : ∀ e : Net.Event, Decidable (∀ len, e ≠ .call (.retrieveInput len))
  | .call (.retrieveInput len) => isFalse fun h => h len rfl
  | .call (.send _ _) | .call .shutdown | .call .forceClose | .call .forceCloseWithDelay
  | .call .startRead | .call .stopRead | .otherSend _ | .otherQueue _ | .poll _ | .handle _ _
  | .functor _ | .queueConnectDestroyed | .finishConnectDestroyed => isTrue (by simp)

instance (s : Delivery σ) : ∀ e, Decidable (s.enabled e)
  | .sender e => inferInstanceAs (Decidable (s.sender.enabled e))
  | .receiver _ => inferInstanceAs (Decidable (_ ∧ _ ∧ _))

instance (r : Receiver σ α UInt8 Fault) (s : Delivery σ) (e : Event) :
    Decidable ((machine r).enabled s e) := inferInstanceAs (Decidable (s.enabled e))

/-- The message is a frame that the receiver can take apart. -/
def IsFrame (r : Receiver σ α UInt8 Fault) (good : α → Prop) (message : Bytes) : Prop :=
  ∃ a, good a ∧ message = r.encode a

/-- The sender sends frames. -/
def Event.Says (r : Receiver σ α UInt8 Fault) (good : α → Prop) : Event → Prop
  | .sender e => System.Says (IsFrame r good) e
  | .receiver _ => True

/-- No write of the sender is reset. -/
def NoReset (s : Delivery σ) : Event → Prop
  | .sender e => s.sender.NoReset e
  | .receiver _ => True

def Talks (r : Receiver σ α UInt8 Fault) (good : α → Prop) (s : Delivery σ) (e : Event) : Prop :=
  e.Says r good ∧ s.NoReset e

instance (s : Delivery σ) : ∀ e, Decidable (s.NoReset e)
  | .sender e => inferInstanceAs (Decidable (s.sender.NoReset e))
  | .receiver _ => isTrue trivial

/-- Both connections are established and nothing has been said. -/
structure Begins (init : σ) (s : Delivery σ) : Prop where
  sender : System.Established s.sender
  receiver : System.Established s.receiver
  arrived : s.arrived = 0
  got : s.got = init

/-- How a step may fail. -/
def MayFail (s : Delivery σ) : Event → Fault → Prop
  | .sender e, f => s.sender.MayFail e f
  | .receiver e, f => s.receiver.MayStop e f

/-- Of the frames that the sender took, those that have arrived whole have been delivered, in
order. The rest of them is in the input buffer, on the wire, and in the output buffer. -/
structure Delivered (r : Receiver σ α UInt8 Fault) (init : σ) (s : Delivery σ) (sent : List α) :
    Prop where
  accepted : s.sender.conn.log.accepted = sent.flatMap r.encode
  got : s.got = (r.completed sent s.arrived).foldl r.deliver init
  waiting : s.receiver.conn.inputBuffer.contents = r.remainder sent s.arrived
  rest : s.receiver.conn.inputBuffer.contents ++ s.wire ++ s.sender.conn.outputBuffer.contents =
    (r.outstanding sent s.arrived).1.flatMap r.encode
  all : s.sender.conn.outputBuffer.readableBytes = 0 → s.wire = [] →
    s.arrived = (sent.flatMap r.encode).length

/-- The invariant: what the receiver was given, chunk by chunk, is the start of what the sender
wrote. -/
structure Sound (r : Receiver σ α UInt8 Fault) (good : α → Prop) (init : σ) (s : Delivery σ) :
    Prop where
  sender : s.sender.conn.Intact
  speaks : System.Speaks (IsFrame r good) s.sender
  receiver : s.receiver.conn.Sound
  fed : ∃ chunks : List Bytes, chunks.flatten <+: s.sender.conn.log.written ∧
    s.arrived = chunks.flatten.length ∧
    r.feed (init, []) chunks = .ok (s.got, s.receiver.conn.inputBuffer.contents)

variable {r : Receiver σ α UInt8 Fault} {good : α → Prop} {init : σ} {s t : Delivery σ} {e : Event}

/-- What was sent, as frames. -/
theorem speaks_frames {sender : System} (h : System.Speaks (IsFrame r good) sender) :
    ∃ sent : List α, (∀ a ∈ sent, good a) ∧ sender.conn.log.accepted = sent.flatMap r.encode := by
  obtain ⟨ms, hms, he⟩ := h.accepted
  rw [he]
  clear he
  induction ms with
  | nil => exact ⟨[], by simp, rfl⟩
  | cons m ms ih =>
    obtain ⟨a, ha, rfl⟩ := hms m List.mem_cons_self
    obtain ⟨sent, hsent, hflat⟩ := ih fun m hm => hms m (List.mem_cons_of_mem _ hm)
    refine ⟨a :: sent, ?_, by rw [List.flatten_cons, hflat, List.flatMap_cons]⟩
    intro b hb
    rcases List.mem_cons.mp hb with he | hb
    · rwa [he]
    · exact hsent b hb

theorem Sound.delivered (hr : r.Exact good) (h : Sound r good init s) :
    ∃ sent, Delivered r init s sent := by
  obtain ⟨sent, hgood, hsent⟩ := speaks_frames h.speaks
  obtain ⟨chunks, hchunks, harrived, hfeed⟩ := h.fed
  have hstream : s.sender.conn.log.written ++ s.sender.conn.outputBuffer.contents =
      sent.flatMap r.encode := by
    rw [h.sender.stream, hsent]
  have hprefix : chunks.flatten <+: sent.flatMap r.encode := by
    rw [← hstream]
    exact hchunks.trans (List.prefix_append ..)
  have hle : s.arrived ≤ (sent.flatMap r.encode).length := harrived ▸ hprefix.length_le
  have htake : chunks.flatten = (r.completed sent s.arrived).flatMap r.encode ++
      r.remainder sent s.arrived := by
    rw [← Receiver.take_stream sent hle, harrived]
    exact List.prefix_iff_eq_take.mp hprefix
  rw [hr.feed_frames hgood init hprefix, ← harrived, Except.ok.injEq, Prod.mk.injEq] at hfeed
  obtain ⟨hgot, hrest⟩ := hfeed
  have hwritten : s.sender.conn.log.written = chunks.flatten ++ s.wire := by
    rw [wire, harrived, List.prefix_iff_eq_append.mp hchunks]
  refine ⟨sent, hsent, hgot.symm, hrest.symm, ?_, ?_⟩
  · obtain ⟨hsplit, -, -⟩ := Receiver.stream_split (r := r) sent hle
    rw [← hstream, hwritten, htake, List.append_assoc, List.append_assoc,
      List.append_cancel_left_eq] at hsplit
    rw [← hsplit, ← hrest, List.append_assoc]
  · intro hout hwire
    have hnil : s.sender.conn.outputBuffer.contents = [] := by
      rw [h.sender.output.readable_length] at hout
      exact List.length_eq_zero_iff.mp hout
    rw [hwritten, hwire, hnil, List.append_nil, List.append_nil] at hstream
    rw [harrived, hstream]

/-- No frame is cut where a `StringPiece` refers to it. -/
theorem Sound.whole (hshort : ∀ a, good a → (r.encode a).length < 2 ^ 31)
    (h : Sound r good init s) (e : Net.Event) : s.sender.Whole e := by
  cases e with
  | functor w =>
    change System.FitsNext _ _
    cases hfs : s.sender.conn.pendingFunctors with
    | nil => trivial
    | cons f fs =>
      cases f with
      | sendInLoop message =>
        intro _
        obtain ⟨a, ha, rfl⟩ := h.speaks.pending message (by simp [hfs])
        exact hshort a ha
      | _ => trivial
  | _ => trivial

theorem Sound.sends (hshort : ∀ a, good a → (r.encode a).length < 2 ^ 31)
    (h : Sound r good init s) {e : Net.Event} (he : s.sender.enabled e)
    (hc : Talks r good s (.sender e)) :
    Yields (Sound r good init) (s.MayFail (.sender e)) (step r s (.sender e)) := by
  have hwhole := h.whole hshort e
  have hstep := System.step_intact h.sender he hc.2 hwhole
  simp only [step]
  cases hs : s.sender.step e with
  | error f =>
    rw [hs] at hstep
    simp only [error_bind]
    exact hstep
  | ok u =>
    rw [hs] at hstep
    obtain ⟨hspeaks, hwritten⟩ := h.speaks.step h.sender.toSound he hc.1 hwhole hs
    obtain ⟨chunks, hchunks, hfed⟩ := h.fed
    exact ⟨hstep, hspeaks, h.receiver, chunks, hchunks.trans hwritten, hfed⟩

/-- One more chunk arrives in full. -/
theorem fed_prefix {written : Bytes} {chunks : List Bytes} {chunk : Bytes}
    (h : chunks.flatten <+: written) (hc : chunk <+: written.drop chunks.flatten.length) :
    (chunks ++ [chunk]).flatten <+: written := by
  rw [List.flatten_append, List.flatten_singleton]
  obtain ⟨rest, hrest⟩ := h
  obtain ⟨rest', hrest'⟩ := hc
  rw [← hrest, List.drop_left] at hrest'
  exact ⟨rest', by rw [List.append_assoc, hrest', hrest]⟩

/-- The codec on what was left and the chunk behind it. -/
theorem Sound.runs (hr : r.Exact good) (h : Sound r good init s) {chunk : Bytes}
    (hchunk : chunk <+: s.wire) : ∃ got rest done,
      r.run s.got (s.receiver.conn.inputBuffer.contents ++ chunk) = .ok (got, rest) ∧
      s.receiver.conn.inputBuffer.contents ++ chunk = done ++ rest ∧
      ∃ chunks : List Bytes, chunks.flatten <+: s.sender.conn.log.written ∧
        s.arrived + chunk.length = chunks.flatten.length ∧
        r.feed (init, []) chunks = .ok (got, rest) := by
  obtain ⟨sent, hgood, hsent⟩ := speaks_frames h.speaks
  obtain ⟨chunks, hchunks, harrived, hfeed⟩ := h.fed
  have hwritten : s.sender.conn.log.written <+: sent.flatMap r.encode := by
    rw [← hsent, ← h.sender.stream]
    exact List.prefix_append ..
  have hmore : (chunks ++ [chunk]).flatten <+: s.sender.conn.log.written := by
    apply fed_prefix hchunks
    rwa [← harrived]
  have hlen : (chunks ++ [chunk]).flatten.length = s.arrived + chunk.length := by
    rw [List.flatten_append, List.flatten_singleton, List.length_append, harrived]
  have hnext := hr.feed_frames hgood init (hmore.trans hwritten)
  have hrun : r.feed (init, []) (chunks ++ [chunk]) =
      r.run s.got (s.receiver.conn.inputBuffer.contents ++ chunk) := by
    unfold Receiver.feed at hfeed ⊢
    rw [List.foldlM_append, hfeed, ok_bind, List.foldlM_cons]
    exact bind_pure _
  have hbefore : s.receiver.conn.inputBuffer.contents = r.remainder sent s.arrived := by
    rw [hr.feed_frames hgood init (hchunks.trans hwritten), ← harrived, Except.ok.injEq,
      Prod.mk.injEq] at hfeed
    exact hfeed.2.symm
  have hprefix : (sent.flatMap r.encode).take s.arrived ++ chunk <+: sent.flatMap r.encode := by
    have htake : (sent.flatMap r.encode).take s.arrived = chunks.flatten := by
      rw [harrived]
      exact (List.prefix_iff_eq_take.mp (hchunks.trans hwritten)).symm
    rw [htake]
    have := hmore.trans hwritten
    rwa [List.flatten_append, List.flatten_singleton] at this
  have hle : s.arrived ≤ (sent.flatMap r.encode).length := by
    rw [harrived]
    exact (hchunks.trans hwritten).length_le
  obtain ⟨done, hdone⟩ := r.remainder_suffix sent hprefix hle
  refine ⟨_, _, done, hrun.symm.trans hnext, ?_, chunks ++ [chunk], hmore, hlen.symm, hnext⟩
  rw [hbefore, hdone, hlen]

theorem Sound.receives (hr : r.Exact good) (h : Sound r good init s) {e : Net.Event}
    (he : s.enabled (.receiver e)) :
    Yields (Sound r good init) (s.MayFail (.receiver e)) (step r s (.receiver e)) := by
  obtain ⟨he, hchunk, huser⟩ := he
  have hstep := System.step_sound h.receiver he
  simp only [step]
  cases hs : s.receiver.step e with
  | error f =>
    rw [hs] at hstep
    simp only [error_bind]
    exact hstep
  | ok u =>
    rw [hs] at hstep
    have hinput := System.step_input h.receiver he huser hs
    simp only [ok_bind]
    by_cases hnil : s.receiver.chunk e = []
    · rw [if_pos hnil]
      obtain ⟨chunks, hchunks, harrived, hfeed⟩ := h.fed
      rw [hnil, List.append_nil] at hinput
      refine ⟨h.sender, h.speaks, hstep, chunks, hchunks, ?_, ?_⟩
      · simpa [hnil] using harrived
      · rw [hinput]
        exact hfeed
    · rw [if_neg hnil]
      obtain ⟨got, rest, done, hrun, hsplit, chunks, hchunks, harrived, hfeed⟩ := h.runs hr hchunk
      have hsub : (done ++ rest).length - rest.length = done.length := by
        rw [List.length_append]
        omega
      have hle : done.length ≤ u.conn.inputBuffer.readableBytes := by
        rw [hstep.input.readable_length, hinput, hsplit, List.length_append]
        omega
      obtain ⟨b, hb, hvalid, hcontents⟩ := Buffer.retrieve_holds hstep.input hle
      have hrest : b.contents = rest := by
        rw [hcontents, hinput, hsplit, List.drop_left]
      rw [hsplit] at hrun hinput
      simp only [messageCallback, hinput, hrun, ok_bind, hsub, TcpConnection.retrieveInput, hb]
      refine ⟨h.sender, h.speaks, ⟨hvalid, hstep.output, hstep.channel⟩, chunks, hchunks, harrived,
        ?_⟩
      rw [hrest]
      exact hfeed

theorem Begins.sound (h : s.Begins init) : Sound r good init s := by
  obtain ⟨hsender, hreceiver, harrived, hgot⟩ := h
  have hnothing := TcpConnection.initial_holds
  have hempty : s.receiver.conn.inputBuffer.contents = [] := by
    obtain ⟨writeComplete, highWater, mark, he⟩ := TcpConnection.established_eq hreceiver
    rw [he]
    exact hnothing.2
  refine ⟨System.established_intact hsender, ?_, TcpConnection.established_sound hreceiver,
    [], List.nil_prefix, by simpa using harrived, ?_⟩
  · obtain ⟨writeComplete, highWater, mark, he⟩ := TcpConnection.established_eq hsender
    rw [he]
    exact ⟨⟨[], fun m hm => absurd hm List.not_mem_nil, rfl⟩,
      fun m hm => absurd hm List.not_mem_nil, fun m hm => absurd hm List.not_mem_nil⟩
  · rw [hgot, hempty]
    rfl

/-- Whatever the two loops do, and however the bytes are cut on the way, frames are delivered
whole, once and in order. -/
theorem frames_delivered (hr : r.Exact good) (hshort : ∀ a, good a → (r.encode a).length < 2 ^ 31)
    (h : s.Begins init) {es : List Event} (hl : (machine r).Legal (Talks r good) s es) :
    Yields (fun t => ∃ sent, Delivered r init t sent) ((machine r).FailsAt MayFail s es)
      ((machine r).run s es) := by
  have hrun := Machine.run_keeps_at (I := Sound r good init) (b := MayFail) (fun t e hi he hc => by
    cases e with
    | sender e => exact hi.sends hshort he hc
    | receiver e => exact hi.receives hr he) h.sound hl
  exact hrun.mono fun t ht => ht.delivered hr

section Codec

variable {M : Type} {c : ProtobufCodecLite M}

/-- Of the messages `sent` with the codec so far, its peer was called back with all but `rest`. -/
structure Conversed (c : ProtobufCodecLite M) (s : Delivery (Received M)) (sent rest : List M) :
    Prop where
  accepted : ∃ frames, sent.mapM c.fillEmptyBuffer = .ok frames ∧
    s.sender.conn.log.accepted = frames.flatten
  called : sent = s.got.messages ++ rest
  errors : s.got.errors = []
  /-- The frames of the rest are under way: in both buffers and between them. -/
  under_way : ∃ frames, rest.mapM c.fillEmptyBuffer = .ok frames ∧
    s.receiver.conn.inputBuffer.contents ++ s.wire ++ s.sender.conn.outputBuffer.contents =
      frames.flatten
  all : s.sender.conn.outputBuffer.readableBytes = 0 → s.wire = [] →
    rest = [] ∧ s.receiver.conn.inputBuffer.contents = []

theorem frames_filled (ms : List M) : ms.mapM c.fillEmptyBuffer = .ok (ms.map c.frame) := by
  rw [funext (ProtobufCodecLite.fillEmptyBuffer_eq (c := c))]
  exact List.mapM_pure ..

theorem Delivered.conversed {sent : List M} {s : Delivery (Received M)}
    (h : Delivered c.receiver ⟨[], []⟩ s sent) :
    Conversed c s sent (c.receiver.outstanding sent s.arrived).1 := by
  have hdeliver : ∀ ms : List M, ms.foldl c.receiver.deliver ⟨[], []⟩ = ⟨ms, []⟩ := by
    intro ms
    exact (ProtobufCodecLite.foldl_deliver ms ⟨[], []⟩).trans (by simp)
  have hgot := h.got
  rw [hdeliver] at hgot
  refine ⟨⟨sent.map c.frame, frames_filled sent, ?_⟩, ?_, by rw [hgot],
    ⟨_, frames_filled _, ?_⟩, ?_⟩
  · rw [h.accepted, List.flatMap_def]
    rfl
  · rw [hgot]
    exact (Receiver.completed_append sent s.arrived).symm
  · rw [h.rest, List.flatMap_def]
    rfl
  · intro hout hwire
    have hall := h.all hout hwire
    have hcompleted := Receiver.completed_append (r := c.receiver) sent s.arrived
    rw [hall, c.receiver.completed_all] at hcompleted
    rw [h.waiting, hall, c.receiver.remainder_all]
    exact ⟨List.self_eq_append_right.mp hcompleted.symm, rfl⟩

/-- Two programs that talk through the codec: the messages sent on one side are called back on the
other once each, in order, with no error, and all of them once nothing is under way. -/
theorem messages_delivered (hraw : c.rawCb = none) {s : Delivery (Received M)}
    (h : s.Begins ⟨[], []⟩) {es : List Event}
    (hl : (machine c.receiver).Legal (Talks c.receiver c.Sendable) s es) :
    Yields (fun t => ∃ sent rest, Conversed c t sent rest)
      ((machine c.receiver).FailsAt MayFail s es) ((machine c.receiver).run s es) := by
  have hshort : ∀ m, c.Sendable m → (c.receiver.encode m).length < 2 ^ 31 := by
    intro m hm
    have hframe : (c.receiver.encode m).length = _ := ProtobufCodecLite.frame_length m
    have hbody := ProtobufCodecLite.body_length (c := c) m
    have hle := hm.short
    unfold ProtobufCodecLite.kMaxMessageLen at hle
    unfold ProtobufCodecLite.kHeaderLen at hframe
    omega
  apply (frames_delivered (ProtobufCodecLite.receiver_exact hraw) hshort h hl).mono
  intro t ht
  obtain ⟨sent, hsent⟩ := ht
  exact ⟨sent, _, hsent.conversed⟩

open ProtobufCodecLite (sampleCodec sampleRuntime) in
/-- A message that the socket takes in two parts, and the peer reads in three. -/
def sampleTalk : List Event :=
  let frame := sampleCodec.frame (Fin.last 127)
  let readable : Revents := ⟨true, false, false, false, false, false, false⟩
  [.sender (.call (.send frame (.wrote 5))), .receiver (.poll readable),
    .receiver (.handle (some (frame.take 3)) (.wrote 0)),
    .sender (.poll ⟨false, false, true, false, false, false, false⟩),
    .sender (.handle none (.wrote (frame.length - 5))), .receiver (.poll readable),
    .receiver (.handle (some ((frame.drop 3).take 4)) (.wrote 0)), .receiver (.poll readable),
    .receiver (.handle (some (frame.drop 7)) (.wrote 0))]

def sampleEnds : Delivery (Received (Fin 128)) :=
  ⟨TcpConnection.sampleStart, TcpConnection.sampleStart, 0, ⟨[], []⟩⟩

open ProtobufCodecLite (sampleCodec) in
theorem messages_delivered_sample :
    Yields (fun t => ∃ sent rest, Conversed sampleCodec t sent rest)
      ((machine sampleCodec.receiver).FailsAt MayFail sampleEnds sampleTalk)
      ((machine sampleCodec.receiver).run sampleEnds sampleTalk) := by
  have hbegins : sampleEnds.Begins ⟨[], []⟩ :=
    ⟨TcpConnection.sampleStart_established, TcpConnection.sampleStart_established, rfl, rfl⟩
  have hunreset : (machine sampleCodec.receiver).Legal NoReset sampleEnds sampleTalk := by
    decide +kernel
  have hsendable : sampleCodec.Sendable (Fin.last 127) := ⟨by decide, rfl⟩
  have hsaid : ∀ e ∈ sampleTalk, e.Says sampleCodec.receiver sampleCodec.Sendable := by
    simp only [sampleTalk, List.forall_mem_cons]
    exact ⟨⟨Fin.last 127, hsendable, rfl⟩, trivial, trivial, trivial, trivial, trivial, trivial, trivial,
      trivial, by simp⟩
  exact messages_delivered rfl hbegins ((hunreset.all hsaid).and hunreset)

end Codec

end Delivery

end Muduo.Net
