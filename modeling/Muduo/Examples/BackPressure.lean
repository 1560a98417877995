import Muduo.Examples.SocksPeers

namespace Muduo.Examples
open Muduo.Lib Muduo.Net

namespace SocksSession

variable {s t : SocksSession} {fs : List (Side × Functor)} {q : Bytes}

/-- Nothing was read from the side opposite to a congested one, and an output buffer holds no more
than the mark and what was read from the opposite side in the iteration in which the mark was
crossed. -/
structure Bounded (s : SocksSession) : Prop where
  paused : ∀ x, (s.traffic x).overrun = 0
  bound : ∀ x, s.output x ≤ maxBuffer + (s.traffic x).crossing

theorem Levels.bounded (h : Levels s) : Bounded s :=
  ⟨fun x => (h.level x).overrun, fun x => (h.level x).bound⟩

end SocksSession

namespace SocksPeers
open SocksSession

/-- While the peer opposite to a congested side waits, the buffers are bounded. -/
theorem output_bounded {p : SocksPeers} {es : List Event} (h : Starts p)
    (hl : machine.Legal PeersWait p es) :
    Yields (fun p => p.session.Bounded) (machine.FailsAt MayFail p es) (machine.run p es) := by
  have hrun : Yields Kept (machine.FailsAt MayFail p es) (machine.run p es) := by
    apply Machine.run_keeps_at _ h.kept hl
    intro p e hp he hw
    exact hp.step he hw
  exact hrun.mono fun p hp => hp.levels.bounded

end SocksPeers

namespace SocksSession

/-- 1024 bytes. -/
def chunk : Bytes := List.replicate 1024 0

theorem chunk_length : chunk.length = 1024 := List.length_replicate ..

theorem chunk_ne_nil : chunk ≠ [] := List.ne_nil_of_length_pos (by rw [chunk_length]; omega)

/-- Nothing is unread. -/
def caughtUp (s : SocksSession) : SocksPeers := ⟨s, fun _ => []⟩

/-- The client of the proxy sends them, and in an iteration of the loop they are read and the
destination takes none of them. -/
def flood : List SocksPeers.Event :=
  [.send .server chunk,
    .loop (.poll [⟨.server, ⟨true, false, false, false, false, false, false⟩, some chunk⟩]),
    .loop (.handle (.wrote 0)), .loop .doPendingFunctors]

/-- The session between two iterations, with `q` waiting for the destination. -/
structure Stuffed (s : SocksSession) (fs : List (Side × Functor)) (q : Bytes) : Prop where
  held : Held s
  up : ∀ x, (s.conn x).state = .kConnected
  connection : s.connection = true
  polled : s.polled = false
  functors : s.functors = fs
  pending : s.pendingFunctors = []
  reading : ∃ e, (s.conn .server).channel.interest = some e ∧ e.reading = true
  input : (s.conn .server).inputBuffer.Filling []
  room : kCheapPrepend + 1024 ≤ (s.conn .server).inputBuffer.buffer.length
  output : (s.conn .client).outputBuffer.Filling q

/-- The chunk is relayed, and stays in the output buffer. -/
theorem handleRead_floods (hs : Held s) (hdue : s.due = [])
    (hup : ∀ x, (s.conn x).state = .kConnected) (hconnection : s.connection = true)
    (hin : (s.conn .server).inputBuffer.Filling [])
    (hroom : kCheapPrepend + 1024 ≤ (s.conn .server).inputBuffer.buffer.length)
    (hout : (s.conn .client).outputBuffer.Filling q)
    (hl : kCheapPrepend + q.length + 1024 ≤ maxSize) : ∃ (b : Buffer) (peer : TcpConnection)
      (crossing : Nat), b.Filling chunk ∧
      b.buffer.length = (s.conn .server).inputBuffer.buffer.length ∧
      TcpConnection.Moves (s.conn .client) peer ∧ TcpConnection.Queues (s.conn .client) peer ∧
      peer.outputBuffer.Filling (q ++ chunk) ∧
      s.handleRead .server (some chunk) (.wrote 0) = .ok ((((s.received .server b 1024).updateTraffic
        .client ({ · with crossing })).put .client peer).put .server
          { s.conn .server with inputBuffer := b.retrieveAll }) := by
  have hwritable : chunk.length ≤ (s.conn .server).inputBuffer.writableBytes := by
    rw [chunk_length, hin.valid.writable, hin.writer, List.length_nil]
    omega
  obtain ⟨b, hread, hb, hlen⟩ := hin.readFd hwritable
  rw [List.nil_append] at hb
  have hheld : Held (s.received .server b 1024) := by
    refine hs.received hb.valid fun d hd => ?_
    rw [hdue] at hd
    exact nomatch hd
  have hown : (s.received .server b 1024).conn .server =
      { s.conn .server with inputBuffer := b } := by
    change ((s.put .server _).conn .server) = _
    rw [put_self, ← hs.emptied .server]
  have hother : (s.received .server b 1024).conn .client = s.conn .client :=
    @received_other s .server b 1024
  obtain ⟨peer, hsend, hfilling⟩ := TcpConnection.sendInLoop_fills (hs.sound .client)
    (by rw [hup]; exact nofun) hout (by rw [chunk_length]; exact hl) chunk_ne_nil
  obtain ⟨hmoves, -, hqueues⟩ := TcpConnection.sendInLoop_queues (hs.sound .client)
    ⟨by rw [chunk_length]; decide, Nat.zero_le _⟩ (by rw [hup]; exact nofun) (hs.callback .client)
    hsend
  have hload : load b.buffer b.peek b.readableBytes = .ok chunk := by
    rw [Buffer.load_contents hb.valid, hb.contents]
  refine ⟨b, peer, if peer.pendingFunctors.any isHighWater then
    ((s.received .server b 1024).traffic .server).read
    else ((s.received .server b 1024).traffic .client).crossing,
    hb, hlen, hmoves, hqueues, hfilling, ?_⟩
  have hrelay : (s.received .server b 1024).relay .server (.wrote 0) = .ok ((((s.received .server b
      1024).updateTraffic .client ({ · with crossing := if peer.pendingFunctors.any isHighWater then
        ((s.received .server b 1024).traffic .server).read
        else ((s.received .server b 1024).traffic .client).crossing })).put .client peer).put .server
          { s.conn .server with inputBuffer := b.retrieveAll }) := by
    have hupper : (s.conn .client).state = .kConnected := hup .client
    unfold relay
    rw [show Side.other .server = .client from rfl, hown, hother]
    dsimp only
    rw [if_pos hupper, hload]
    change (lift ((s.conn .client).sendInLoop chunk (.wrote 0)) >>= _) = _
    rw [hsend]
    rfl
  have hconn : (s.received .server b 1024).connection = true := hconnection
  rw [← hrelay, handleRead, hread]
  change (s.received .server b chunk.length).messageCallback .server (.wrote 0) = _
  rw [chunk_length, messageCallback, onServerMessage, if_pos hconn]

/-- What the iteration leaves to be run: the callback of the mark if it was crossed. -/
def Crossed (q : Bytes) (fs : List (Side × Functor)) : Prop :=
  fs = [] ∧ (q.length + 1024 < maxBuffer ∨ maxBuffer ≤ q.length) ∨
    maxBuffer ≤ q.length + 1024 ∧ ∃ n, fs = [(.client, .highWaterMarkCallback n)]

theorem Crossed.of_queues {c peer : TcpConnection} (hc : c.pendingFunctors = [])
    (hmark : c.highWaterMark = maxBuffer) (hout : c.outputBuffer.Filling q)
    (hfilling : peer.outputBuffer.Filling (q ++ chunk)) (hq : TcpConnection.Queues c peer) :
    Crossed q (peer.pendingFunctors.map (Side.client, ·)) := by
  have hold : c.outputBuffer.readableBytes = q.length := by
    rw [hout.valid.readable_length, hout.contents]
  have hnew : peer.outputBuffer.readableBytes = q.length + 1024 := by
    rw [hfilling.valid.readable_length, hfilling.contents, List.length_append, chunk_length]
  unfold TcpConnection.Queues at hq
  rw [hc, hmark, hold, hnew] at hq
  rcases hq with ⟨hq, hlow⟩ | ⟨-, hzero⟩ | ⟨hmax, n, hq⟩
  · rw [hq]
    exact .inl ⟨rfl, hlow⟩
  · omega
  · rw [hq]
    exact .inr ⟨hmax, n, rfl⟩

/-- The chunk has come. -/
def chunkReady : List Ready :=
  [⟨.server, ⟨true, false, false, false, false, false, false⟩, some chunk⟩]

/-- The session when `poll` has returned with it. -/
def polledChunk (s : SocksSession) : SocksSession :=
  { s with
    polled := true
    due := [⟨.server, .read, some chunk⟩]
    traffic := fun side => { s.traffic side with read := 0 } }

theorem Stuffed.polls (h : Stuffed s [] q) : s.enabled (.poll chunkReady) := by
  obtain ⟨e, hinterest, hreading⟩ := h.reading
  refine ⟨h.polled, h.functors, List.pairwise_singleton .., fun r hr => ?_⟩
  rw [List.mem_singleton.mp hr]
  refine ⟨?_, ?_⟩
  · rw [hinterest]
    exact ⟨fun _ => hreading, by simp, by simp, rfl, by simp⟩
  · change chunk.length ≤ _
    rw [chunk_length, Buffer.iovBytes, extrabufSize]
    have hwritable := h.input.valid.writable
    rw [h.input.writer, List.length_nil] at hwritable
    have hroom := h.room
    split <;> omega

theorem polledChunk_handles (s : SocksSession) : s.polledChunk.enabled (.handle (.wrote 0)) :=
  ⟨⟨.server, .read, some chunk⟩, rfl, Nat.zero_le _⟩

/-- The chunk that is due is read and relayed, and the functors are swapped. -/
theorem Stuffed.relays (h : Stuffed s [] q) (hl : kCheapPrepend + q.length + 1024 ≤ maxSize) :
    ∃ v t fs, s.polledChunk.step (.handle (.wrote 0)) = .ok v ∧ v.enabled .doPendingFunctors ∧
      v.step .doPendingFunctors = .ok t ∧ Stuffed t fs (q ++ chunk) ∧ Crossed q fs ∧
      (t.traffic .client).congested = (s.traffic .client).congested ∧
      (t.traffic .client).overrun = (s.traffic .client).overrun +
        if (s.traffic .client).congested then 1024 else 0 := by
  obtain ⟨e, hinterest, hreading⟩ := h.reading
  have hheld : Held s.polledChunk := h.held.step h.polls rfl
  obtain ⟨b, peer, crossing, hb, hlen, hmoves, hqueues, hfilling, hread⟩ :=
    handleRead_floods (hheld.popDue rfl) rfl h.up h.connection h.input h.room h.output hl
  have hrelayed := hheld.step s.polledChunk_handles hread
  generalize hv : (SocksSession.put _ .server _ : SocksSession) = v at hread hrelayed
  have hswap : v.enabled .doPendingFunctors := by
    rw [← hv]
    exact ⟨rfl, rfl⟩
  have hcross := Crossed.of_queues (h.held.emptied .client) (h.held.mark .client) h.output hfilling
    hqueues
  have hfunctors : v.pendingFunctors = peer.pendingFunctors.map (Side.client, ·) := by
    rw [← hv]
    change s.pendingFunctors ++ (s.conn .server).pendingFunctors.map _ ++
      peer.pendingFunctors.map _ ++ (s.conn .server).pendingFunctors.map _ = _
    rw [h.pending, h.held.emptied .server, List.map_nil, List.nil_append, List.append_nil]
    rfl
  have hserver : v.conn .server = { s.conn .server with
      inputBuffer := b.retrieveAll, pendingFunctors := [] } := by
    rw [← hv, put_self]
    rfl
  have hclient : v.conn .client = { peer with pendingFunctors := [] } := by
    rw [← hv]
    exact (@put_ne _ .server .client _ (by decide)).trans put_self
  have htraffic : v.traffic .client =
      { ({ s.polledChunk with due := [] }.received .server b 1024).traffic .client with
        crossing } := by
    rw [← hv, put_traffic, put_traffic, updateTraffic_self]
  have hcount := @received_traffic_other { s.polledChunk with due := [] } .server b 1024
  change SocksSession.traffic _ .client = _ at hcount
  rw [hcount] at htraffic
  refine ⟨v, { v with polled := false, functors := v.pendingFunctors, pendingFunctors := [] }, _,
    hread, hswap, rfl,
    ⟨hrelayed.step hswap rfl, ?_, ?_, rfl, hfunctors, rfl, ?_, ?_, ?_, ?_⟩, hcross, ?_, ?_⟩
  · intro x
    cases x with
    | server => exact (congrArg TcpConnection.state hserver).trans (h.up .server)
    | client =>
      exact (congrArg TcpConnection.state hclient).trans (hmoves.state.trans (h.up .client))
  · rw [← hv]
    exact h.connection
  · rw [hserver]
    exact ⟨e, hinterest, hreading⟩
  · rw [hserver]
    exact hb.retrieveAll
  · rw [hserver]
    exact Nat.le_trans h.room (Nat.le_of_eq hlen.symm)
  · rw [hclient]
    exact hfilling
  · change (v.traffic .client).congested = _
    rw [htraffic]
    rfl
  · change (v.traffic .client).overrun = _
    rw [htraffic]
    rfl

/-- With the peers: the client sends the chunk, and all of it is read. -/
theorem Stuffed.takes_flood {k : SocksPeers → SocksPeers.Event → Prop} (h : Stuffed s [] q)
    (hl : kCheapPrepend + q.length + 1024 ≤ maxSize)
    (hsend : k s.caughtUp (.send .server chunk))
    (hloop : ∀ p e, (∀ w, e ≠ .functor w) → k p (.loop e)) :
    ∃ t fs, SocksPeers.machine.Reaches k s.caughtUp flood t.caughtUp ∧
      Stuffed t fs (q ++ chunk) ∧
      Crossed q fs ∧ (t.traffic .client).congested = (s.traffic .client).congested ∧
      (t.traffic .client).overrun = (s.traffic .client).overrun +
        if (s.traffic .client).congested then 1024 else 0 := by
  obtain ⟨v, t, fs, hread, hswap, hswapped, ht⟩ := h.relays hl
  let unread : Side → Bytes := Function.update (fun _ => []) .server chunk
  have hunread : unread .server = chunk := Function.update_self ..
  have hfinds : SocksPeers.Finds ⟨s, unread⟩ (.poll chunkReady) := by
    intro r hr
    rw [List.mem_singleton.mp hr]
    change chunk <+: unread .server
    exact ⟨[], by rw [List.append_nil, hunread]⟩
  have hconsume : Function.update unread .server ((unread .server).drop chunk.length) =
      fun _ => [] := by
    rw [hunread, List.drop_length, Function.update_idem]
    exact Function.update_eq_self Side.server fun _ => []
  have hhandled : SocksPeers.machine.step ⟨s.polledChunk, unread⟩ (.loop (.handle (.wrote 0))) =
      .ok v.caughtUp := by
    simp only [SocksPeers.machine, SocksPeers.step, hread, ok_bind]
    exact congrArg (fun unread => Except.ok (SocksPeers.mk v unread)) hconsume
  have hlast : SocksPeers.machine.step v.caughtUp (.loop .doPendingFunctors) =
      .ok t.caughtUp := by
    have hswapped' : v.caughtUp.session.step .doPendingFunctors = .ok t := hswapped
    simp only [SocksPeers.machine, SocksPeers.step, hswapped', ok_bind]
    rfl
  have hpolls := hloop ⟨s, unread⟩ (.poll chunkReady) (by simp)
  have hhandles := hloop ⟨s.polledChunk, unread⟩ (.handle (.wrote 0)) (by simp)
  have hswaps := hloop v.caughtUp .doPendingFunctors (by simp)
  refine ⟨t, fs, ?_, ht⟩
  exact .cons trivial hsend rfl (.cons (t := ⟨s.polledChunk, unread⟩) ⟨h.polls, hfinds⟩ hpolls rfl
    (.cons ⟨s.polledChunk_handles, trivial⟩ hhandles hhandled
      (.cons ⟨hswap, trivial⟩ hswaps hlast (.refl _))))

/-- The callback of the mark stops the reading of the congested side itself. -/
theorem Stuffed.pauses {n : Nat} (h : Stuffed s [(.client, .highWaterMarkCallback n)] q) :
    ∃ t, SocksPeers.machine.Reaches SocksPeers.PeersWait s.caughtUp [.loop (.functor (.wrote 0))]
      t.caughtUp ∧ Stuffed t [] q ∧
      (t.traffic .client).congested = true := by
  have hpop := h.held.popFunctor h.functors
  obtain ⟨c, hstop⟩ := TcpConnection.stopReadInLoop_ok (h.held.sound .client)
  obtain ⟨hstill, hst⟩ := TcpConnection.stopReadInLoop_still (h.held.sound .client) hstop
  have hrun : s.step (.functor (.wrote 0)) = .ok
      (({ s with functors := [] }.put .client c).updateTraffic
      .client ({ · with congested := true })) := by
    simp only [SocksSession.step, h.functors, runFunctor, onHighWaterMark, hstop]
    rfl
  have he : s.enabled (.functor (.wrote 0)) := by
    refine ⟨?_, ?_⟩
    · rw [h.functors]
      simp
    · rw [h.functors]
      trivial
  generalize hv : SocksSession.updateTraffic _ .client _ = v at hrun
  have hserver : v.conn .server = s.conn .server := by
    rw [← hv]
    exact @put_ne _ .client .server c (by simp)
  have hclient : v.conn .client = { c with pendingFunctors := [] } := by
    rw [← hv]
    exact @put_self { s with functors := [] } .client c
  have hwait : SocksPeers.PeersWait s.caughtUp (.loop (.functor (.wrote 0))) := by
    change s.caughtUp.CaughtUp s.functors
    rw [h.functors]
    exact .inr rfl
  have hstep : SocksPeers.machine.step s.caughtUp (.loop (.functor (.wrote 0))) =
      .ok v.caughtUp := by
    simp only [SocksPeers.machine, SocksPeers.step, caughtUp, hrun, ok_bind]
    rfl
  refine ⟨v, .cons ⟨he, trivial⟩ hwait hstep (.refl _),
    ⟨h.held.step he hrun, ?_, ?_, ?_, ?_, ?_, ?_, ?_, ?_,
    ?_⟩, ?_⟩
  · intro x
    cases x with
    | server =>
      rw [hserver]
      exact h.up .server
    | client =>
      rw [hclient]
      exact hst.trans (h.up .client)
  · rw [← hv]
    exact h.connection
  · rw [← hv]
    exact h.polled
  · rw [← hv]
    rfl
  · rw [← hv]
    change s.pendingFunctors ++ c.pendingFunctors.map _ = []
    rw [h.pending, hstill.pendingFunctors, h.held.emptied .client]
    rfl
  · rw [hserver]
    exact h.reading
  · rw [hserver]
    exact h.input
  · rw [hserver]
    exact h.room
  · rw [hclient]
    change c.outputBuffer.Filling q
    rw [hstill.outputBuffer]
    exact h.output
  · rw [← hv, updateTraffic_self]

/-- As long as nobody is congested, the client may send. -/
theorem Stuffed.takes_calm_flood (h : Stuffed s [] q)
    (hl : kCheapPrepend + q.length + 1024 ≤ maxSize)
    (hcalm : (s.traffic .client).congested = false) :
    ∃ t fs, SocksPeers.machine.Reaches SocksPeers.PeersWait s.caughtUp flood t.caughtUp ∧
      Stuffed t fs (q ++ chunk) ∧ Crossed q fs ∧ (t.traffic .client).congested = false := by
  obtain ⟨t, fs, hreach, ht, hcross, hcongested, -⟩ :=
    h.takes_flood (k := SocksPeers.PeersWait) hl
      (fun hc => absurd (hcalm.symm.trans hc) nofun)
      (fun p e he => by cases e <;> first | trivial | exact absurd rfl (he _))
  exact ⟨t, fs, hreach, ht, hcross, hcongested.trans hcalm⟩

theorem Stuffed.floods (h : Stuffed s [] []) (hcalm : (s.traffic .client).congested = false)
    {n : Nat}
    (hn : 1024 * n < maxBuffer) : ∃ t q, SocksPeers.machine.Reaches SocksPeers.PeersWait s.caughtUp
      (List.replicate n flood).flatten t.caughtUp ∧ Stuffed t [] q ∧ q.length = 1024 * n ∧
      (t.traffic .client).congested = false := by
  induction n with
  | zero => exact ⟨s, [], .refl _, h, rfl, hcalm⟩
  | succ n ih =>
    obtain ⟨u, q, hreach, hu, hlen, hlow⟩ := ih (by omega)
    have hsmall : maxBuffer ≤ maxSize - kCheapPrepend - 1024 := by decide
    obtain ⟨t, fs, hround, ht, hcross, hcongested⟩ := hu.takes_calm_flood (by omega) hlow
    refine ⟨t, q ++ chunk, ?_, ?_, ?_, hcongested⟩
    · rw [List.replicate_succ', List.flatten_append, List.flatten_singleton]
      exact hreach.trans hround
    · rcases hcross with ⟨rfl, -⟩ | ⟨hmax, -⟩
      · exact ht
      · omega
    · rw [List.length_append, chunk_length, hlen]
      omega

end SocksSession

namespace SocksPeers
open SocksSession

instance (p : SocksPeers) : ∀ functors, Decidable (p.CaughtUp functors)
  | [] => isTrue trivial
  | (_, .highWaterMarkCallback _) :: _ => inferInstanceAs (Decidable (_ ∨ _))
  | (_, .writeCompleteCallback) :: _ => inferInstanceAs (Decidable (_ → _))
  | (_, .sendInLoop _) :: _ | (_, .forceCloseInLoop) :: _ | (_, .connectDestroyed) :: _ =>
    isTrue trivial

instance (p : SocksPeers) : ∀ e, Decidable (p.enabled e)
  | .send _ _ => isTrue trivial
  | .loop (.poll ready) => inferInstanceAs (Decidable (p.session.enabled (.poll ready) ∧
      ∀ r ∈ ready, r.read.getD [] <+: p.unread r.side))
  | .loop (.handle w) => inferInstanceAs (Decidable (p.session.enabled (.handle w) ∧ True))
  | .loop .doPendingFunctors =>
    inferInstanceAs (Decidable (p.session.enabled .doPendingFunctors ∧ True))
  | .loop (.functor w) => inferInstanceAs (Decidable (p.session.enabled (.functor w) ∧ True))
  | .loop .removeConnectionInLoop =>
    inferInstanceAs (Decidable (p.session.enabled .removeConnectionInLoop ∧ True))

instance (p : SocksPeers) (e : Event) : Decidable (machine.enabled p e) :=
  inferInstanceAs (Decidable (p.enabled e))

instance (p : SocksPeers) : ∀ e, Decidable (PeersWait p e)
  | .send side _ => inferInstanceAs (Decidable (p.congested side.other = true → _))
  | .loop (.functor _) => inferInstanceAs (Decidable (p.CaughtUp p.session.functors))
  | .loop (.poll _) | .loop (.handle _) | .loop .doPendingFunctors
  | .loop .removeConnectionInLoop => isTrue trivial

/-- The session begins, and its first functor is run. -/
def opening : List Event := [.loop .doPendingFunctors, .loop (.functor (.wrote 0))]

/-- The client of the proxy sends until the callback of the mark has been run, the destination
takes nothing, and then the client waits. -/
def congestion : List Event :=
  opening ++ ((List.replicate 10239 flood).flatten ++ (flood ++ [.loop (.functor (.wrote 0))]))

theorem sampleStart_opens : Starts sampleStart.caughtUp := by
  refine ⟨sampleStart_starts, ?_⟩
  intro x
  cases x with
  | server => exact fun e he hr => by cases he; exact hr
  | client => exact fun e he hr => by cases he; exact hr

theorem sampleStart_stuffed : ∃ s : SocksSession,
    machine.Reaches PeersWait sampleStart.caughtUp opening s.caughtUp ∧ Stuffed s [] [] ∧
      (s.traffic .client).congested = false := by
  have hlegal : machine.Legal PeersWait sampleStart.caughtUp opening := by decide +kernel
  have hend : Yields (fun p => (p.unread .server = [] ∧ p.unread .client = []) ∧
      ((p.session.conn .server).state = .kConnected ∧
      (p.session.conn .client).state = .kConnected) ∧ p.session.connection = true ∧
      p.session.polled = false ∧ p.session.functors = [] ∧ p.session.pendingFunctors = [] ∧
      (p.session.conn .server).channel.interest = some ⟨true, false⟩ ∧
      (p.session.conn .server).inputBuffer = ⟨List.replicate 1032 0, 8, 8⟩ ∧
      (p.session.conn .client).outputBuffer = ⟨List.replicate 1032 0, 8, 8⟩ ∧
      (p.session.traffic .client).congested = false) (fun _ => False)
        (machine.run sampleStart.caughtUp opening) := by
    decide +kernel
  obtain ⟨p, hrun, hunread, hup, hconnection, hpolled, hfunctors, hpending, hinterest, hin, hout,
    hcalm⟩ := hend.returns
  have hkept : Kept p := by
    apply Machine.Reaches.keeps _ ⟨hlegal, hrun⟩ sampleStart_opens.kept
    intro p e p' hp he hw hstep
    exact (hp.step he hw).of_ok hstep
  have hcaught : p = p.session.caughtUp := by
    obtain ⟨session, unread⟩ := p
    have hnone : unread = fun _ => [] := by
      funext x
      cases x with
      | server => exact hunread.1
      | client => exact hunread.2
    rw [hnone]
    rfl
  have hempty : (⟨List.replicate 1032 0, 8, 8⟩ : Buffer).Filling [] :=
    ⟨TcpConnection.initial_holds.1, TcpConnection.initial_holds.2, rfl⟩
  refine ⟨p.session, ⟨hlegal, hcaught ▸ hrun⟩, ⟨hkept.held, ?_, hconnection, hpolled, hfunctors,
    hpending, ⟨_, hinterest, rfl⟩, ?_, ?_, ?_⟩, hcalm⟩
  · intro x
    cases x with
    | server => exact hup.1
    | client => exact hup.2
  · rw [hin]
    exact hempty
  · rw [hin, List.length_replicate]
    exact Nat.le_refl _
  · rw [hout]
    exact hempty

theorem congestion_reaches : ∃ (s : SocksSession) (q : Bytes),
    machine.Reaches PeersWait sampleStart.caughtUp congestion s.caughtUp ∧ Stuffed s [] q ∧
      q.length = maxBuffer ∧ (s.traffic .client).congested = true := by
  obtain ⟨s, hstart, hs, hcalm⟩ := sampleStart_stuffed
  have hmax : maxBuffer = 1024 * 10239 + 1024 := by decide
  have hsmall : kCheapPrepend + 1024 * 10239 + 1024 ≤ maxSize := by decide
  obtain ⟨t, q, hfloods, ht, hlen, hlow⟩ := hs.floods hcalm (n := 10239) (by omega)
  obtain ⟨u, fs, hflood, hu, hcross, -⟩ := ht.takes_calm_flood (by omega) hlow
  obtain ⟨n, rfl⟩ : ∃ n, fs = [(.client, .highWaterMarkCallback n)] := by
    rcases hcross with ⟨-, hlow⟩ | ⟨-, hmark⟩
    · omega
    · exact hmark
  obtain ⟨v, hpause, hv, hcongested⟩ := hu.pauses
  refine ⟨v, q ++ chunk, ?_, hv, ?_, hcongested⟩
  · exact hstart.trans (hfloods.trans (hflood.trans hpause))
  · rw [List.length_append, chunk_length, hlen]
    omega

theorem output_bounded_sample : Yields (fun p => p.session.Bounded)
    (machine.FailsAt MayFail sampleStart.caughtUp congestion)
    (machine.run sampleStart.caughtUp congestion) := by
  obtain ⟨s, q, hreach, -⟩ := congestion_reaches
  exact output_bounded sampleStart_opens hreach.1

/-- The client goes on after the callback of the mark, and a flooded destination is not protected
by the pause. -/
theorem flood_not_paused : ¬∀ (p : SocksPeers) (es : List Event), Starts p →
    machine.Legal (fun _ _ => True) p es →
    Yields (fun p => p.session.Bounded) (fun _ => True) (machine.run p es) := by
  intro h
  obtain ⟨s, q, hcongestion, hs, hlen, hcongested⟩ := congestion_reaches
  have hsmall : kCheapPrepend + maxBuffer + 1024 ≤ maxSize := by decide
  obtain ⟨t, fs, hflood, -, -, -, hoverrun⟩ :=
    hs.takes_flood (k := fun _ _ => True) (by omega) trivial fun _ _ _ => trivial
  have hfree : machine.Legal (fun _ _ => True) sampleStart.caughtUp congestion :=
    Machine.Legal.imp (I := fun _ => True) (fun _ _ _ _ _ => trivial) (fun _ _ _ _ _ => trivial)
      trivial hcongestion.1
  have hall := Machine.Reaches.trans ⟨hfree, hcongestion.2⟩ hflood
  have hend := h sampleStart.caughtUp (congestion ++ flood) sampleStart_opens hall.1
  rw [hall.2] at hend
  have hnone := hend.paused .client
  change (t.traffic .client).overrun = 0 at hnone
  rw [hoverrun, hcongested, if_pos rfl] at hnone
  omega

end SocksPeers

end Muduo.Examples
