import Muduo.Examples.SocksSession
import Muduo.Net.HighWater

namespace Muduo.Examples
open Muduo.Lib Muduo.Net

theorem Side.other_ne (side : Side) : side.other ≠ side := by
  cases side <;> exact nofun

theorem Side.ne_other (side : Side) : side ≠ side.other := side.other_ne.symm

@[simp] theorem Side.other_other (side : Side) : side.other.other = side := by
  cases side <;> rfl

theorem Side.eq_or_other (side x : Side) : x = side ∨ x = side.other := by
  cases side <;> cases x <;> simp [Side.other]

namespace SocksSession

variable {s t : SocksSession} {side x : Side} {c : TcpConnection} {w : WriteResult}

theorem lift_ok {α : Type} {r : Except Fault α} {a : α} (h : lift r = .ok a) : r = .ok a := by
  cases r with
  | ok b => cases h; rfl
  | error f => exact nomatch h

@[simp] theorem put_self : (s.put side c).conn side = { c with pendingFunctors := [] } :=
  Function.update_self ..

theorem put_ne (h : x ≠ side) : (s.put side c).conn x = s.conn x := Function.update_of_ne h ..

@[simp] theorem put_other : (s.put side c).conn side.other = s.conn side.other :=
  put_ne side.other_ne

@[simp] theorem put_traffic : (s.put side c).traffic = s.traffic := rfl

@[simp] theorem updateTraffic_self {f : Traffic → Traffic} :
    (s.updateTraffic side f).traffic side = f (s.traffic side) := Function.update_self ..

theorem updateTraffic_ne {f : Traffic → Traffic} (h : x ≠ side) :
    (s.updateTraffic side f).traffic x = s.traffic x := Function.update_of_ne h ..

theorem put_conn (p : TcpConnection → Prop) (hself : x = side → p { c with pendingFunctors := [] })
    (hne : x ≠ side → p (s.conn x)) : p ((s.put side c).conn x) := by
  by_cases hx : x = side
  · rw [hx, put_self]
    exact hself hx
  · rw [put_ne hx]
    exact hne hx

/-- A functor of the session. -/
def Queued (s : SocksSession) (q : Side × Functor) : Prop :=
  q.2 = .writeCompleteCallback ∨ (∃ n, q.2 = .highWaterMarkCallback n) ∨
    q.2 = .connectDestroyed ∧ (s.conn q.1).state = .kDisconnected

/-- What the library needs of both connections, and the loop of its queues. -/
structure Held (s : SocksSession) : Prop where
  sound : ∀ x, (s.conn x).Sound
  emptied : ∀ x, (s.conn x).pendingFunctors = []
  mark : ∀ x, (s.conn x).highWaterMark = maxBuffer
  callback : ∀ x, (s.conn x).highWaterMarkCallback = true
  queued : ∀ q ∈ s.functors ++ s.pendingFunctors, s.Queued q
  removing : s.removing = true → (s.conn .server).state = .kDisconnected
  polled : s.due ≠ [] → s.polled = true
  running : s.functors ≠ [] → s.polled = false
  once : s.due.Pairwise fun d e => d.callback = .read → e.callback = .read → d.side ≠ e.side
  fits : ∀ d ∈ s.due, d.callback = .read →
    (d.read.getD []).length ≤ (s.conn d.side).inputBuffer.iovBytes

/-- What an operation on a connection may do to it. -/
structure Acts (c c' : TcpConnection) : Prop where
  sound : c'.Sound
  mark : c'.highWaterMark = c.highWaterMark
  callback : c'.highWaterMarkCallback = c.highWaterMarkCallback
  down : c.state = .kDisconnected → c'.state = .kDisconnected
  queued : ∀ f ∈ c'.pendingFunctors, f = .writeCompleteCallback ∨ ∃ n, f = .highWaterMarkCallback n

theorem Held.acts_still (hs : Held s) {c' : TcpConnection} (h : TcpConnection.Still (s.conn side) c')
    (hd : (s.conn side).state = .kDisconnected → c'.state = .kDisconnected) :
    Acts (s.conn side) c' := by
  refine ⟨h.sound, h.highWaterMark, h.highWaterMarkCallback, hd, ?_⟩
  rw [h.pendingFunctors, hs.emptied]
  nofun

theorem Held.acts_queues (hs : Held s) {c' : TcpConnection}
    (h : TcpConnection.Moves (s.conn side) c') (hq : TcpConnection.Queues (s.conn side) c') :
    Acts (s.conn side) c' := by
  refine ⟨h.sound, h.highWaterMark, h.highWaterMarkCallback, fun hd => h.state.trans hd, ?_⟩
  rcases hq with ⟨hq, -⟩ | ⟨hq, -⟩ | ⟨-, n, hq⟩
  · rw [hq, hs.emptied]
    nofun
  · rw [hq, hs.emptied]
    intro f hf
    exact .inl (List.mem_singleton.mp hf)
  · rw [hq, hs.emptied]
    intro f hf
    exact .inr ⟨n, List.mem_singleton.mp hf⟩

theorem Queued.put {q : Side × Functor} (h : s.Queued q) (ha : Acts (s.conn side) c) :
    (s.put side c).Queued q := by
  refine h.imp_right (Or.imp_right fun ⟨hf, hst⟩ => ⟨hf, ?_⟩)
  refine put_conn (·.state = .kDisconnected) (fun hq => ?_) fun _ => hst
  rw [hq] at hst
  exact ha.down hst

theorem Held.put (hs : Held s) (ha : Acts (s.conn side) c)
    (hin : ∀ d ∈ s.due, d.callback = .read → d.side = side →
      (d.read.getD []).length ≤ c.inputBuffer.iovBytes) : Held (s.put side c) where
  sound x := put_conn TcpConnection.Sound
    (fun _ => ⟨ha.sound.input, ha.sound.output, ha.sound.channel⟩) fun _ => hs.sound x
  emptied x := put_conn (·.pendingFunctors = []) (fun _ => rfl) fun _ => hs.emptied x
  mark x := put_conn (·.highWaterMark = maxBuffer) (fun _ => ha.mark.trans (hs.mark side))
    fun _ => hs.mark x
  callback x := put_conn (·.highWaterMarkCallback = true)
    (fun _ => ha.callback.trans (hs.callback side)) fun _ => hs.callback x
  queued q hq := by
    rcases List.mem_append.mp hq with hq | hq
    · exact (hs.queued q (List.mem_append_left _ hq)).put ha
    rcases List.mem_append.mp hq with hq | hq
    · exact (hs.queued q (List.mem_append_right _ hq)).put ha
    · obtain ⟨f, hf, rfl⟩ := List.mem_map.mp hq
      exact (ha.queued f hf).imp_right .inl
  removing hr := put_conn (·.state = .kDisconnected)
    (fun hx => ha.down (hx ▸ hs.removing hr)) fun _ => hs.removing hr
  polled := hs.polled
  running := hs.running
  once := hs.once
  fits d hd hread := put_conn (fun c => (d.read.getD []).length ≤ c.inputBuffer.iovBytes)
    (fun hx => hin d hd hread hx) fun _ => hs.fits d hd hread

/-- An operation that leaves the input buffer alone. -/
theorem Held.put_same (hs : Held s) (ha : Acts (s.conn side) c)
    (hin : c.inputBuffer = (s.conn side).inputBuffer) : Held (s.put side c) := by
  refine hs.put ha fun d hd hread hside => ?_
  rw [hin, ← hside]
  exact hs.fits d hd hread

theorem Held.shutdown (hs : Held s) : Held (s.shutdown side) := by
  obtain ⟨hstill, hst⟩ := TcpConnection.shutdown_still (hs.sound side)
  have hput := hs.put_same (hs.acts_still hstill fun hd => by rw [hst, hd]; rfl) hstill.inputBuffer
  exact ⟨hput.sound, hput.emptied, hput.mark, hput.callback, hput.queued, hput.removing,
    hput.polled, hput.running, hput.once, hput.fits⟩

theorem Held.connectionCallback (hs : Held s) : Held (s.connectionCallback side) := by
  cases side with
  | server =>
    simp only [SocksSession.connectionCallback]
    split
    · exact hs.shutdown
    · exact hs
  | client =>
    simp only [SocksSession.connectionCallback]
    split
    · exact hs.shutdown
    · exact hs

theorem Held.queueInLoop (hs : Held s) {f : Functor} (hf : s.Queued (side, f)) :
    Held (s.queueInLoop side f) := by
  refine ⟨hs.sound, hs.emptied, hs.mark, hs.callback, fun q hq => ?_, hs.removing, hs.polled,
    hs.running, hs.once, hs.fits⟩
  rcases List.mem_append.mp hq with hq | hq
  · exact hs.queued q (List.mem_append_left _ hq)
  rcases List.mem_append.mp hq with hq | hq
  · exact hs.queued q (List.mem_append_right _ hq)
  · rw [List.mem_singleton.mp hq]
    exact hf

theorem Held.updateTraffic (hs : Held s) (f : Traffic → Traffic) : Held (s.updateTraffic side f) :=
  ⟨hs.sound, hs.emptied, hs.mark, hs.callback, hs.queued, hs.removing, hs.polled, hs.running,
    hs.once, hs.fits⟩

/-- Callbacks that have been made. -/
theorem Held.popDue (hs : Held s) {d : Due} {due : List Due} (h : s.due = d :: due) :
    Held { s with due } := by
  have honce := hs.once
  rw [h, List.pairwise_cons] at honce
  refine ⟨hs.sound, hs.emptied, hs.mark, hs.callback, hs.queued, hs.removing, fun _ => ?_,
    hs.running, honce.2, fun e he => hs.fits e ?_⟩
  · exact hs.polled (by rw [h]; nofun)
  · rw [h]
    exact List.mem_cons_of_mem _ he

theorem Held.popFunctor (hs : Held s) {q : Side × Functor} {functors : List (Side × Functor)}
    (h : s.functors = q :: functors) : Held { s with functors } := by
  refine ⟨hs.sound, hs.emptied, hs.mark, hs.callback, fun p hp => hs.queued p ?_, hs.removing,
    hs.polled, fun _ => hs.running (by rw [h]; nofun), hs.once, hs.fits⟩
  rw [h, List.cons_append]
  exact List.mem_cons_of_mem _ hp

theorem shutdown_conn (hs : Held s) : TcpConnection.Still (s.conn side) ((s.shutdown side).conn side) ∧
    ((s.shutdown side).conn side).state =
      if (s.conn side).state = .kConnected then .kDisconnecting else (s.conn side).state := by
  obtain ⟨hstill, hst⟩ := TcpConnection.shutdown_still (hs.sound side)
  change TcpConnection.Still _ ((s.put side _).conn side) ∧ ((s.put side _).conn side).state = _
  rw [put_self]
  exact ⟨⟨⟨hstill.sound.input, hstill.sound.output, hstill.sound.channel⟩, hstill.inputBuffer,
    hstill.outputBuffer, (hs.emptied side).symm, hstill.highWaterMark,
    hstill.highWaterMarkCallback, hstill.accepted⟩, hst⟩

/-- A connection callback only touches the opposite side. -/
theorem connectionCallback_self : (s.connectionCallback side).conn side = s.conn side := by
  cases side with
  | server =>
    simp only [SocksSession.connectionCallback]
    split
    · exact @put_ne s .client .server (s.conn .client).shutdown nofun
    · rfl
  | client =>
    simp only [SocksSession.connectionCallback]
    split
    · exact @put_ne s .server .client (s.conn .server).shutdown nofun
    · rfl

theorem Held.goesDown (hs : Held s) (hd : (s.conn side).state = .kDisconnected)
    (h : s.goesDown side = .ok t) : Held t := by
  have hlog : Held { s with closes := s.closes ++ [(side, (s.conn side).log.accepted)] } :=
    ⟨hs.sound, hs.emptied, hs.mark, hs.callback, hs.queued, hs.removing, hs.polled, hs.running,
      hs.once, hs.fits⟩
  have hcall := @Held.connectionCallback _ side hlog
  have hself := @connectionCallback_self
    { s with closes := s.closes ++ [(side, (s.conn side).log.accepted)] } side
  rw [← show ((SocksSession.connectionCallback _ side).conn side) = s.conn side from hself] at hd
  unfold SocksSession.goesDown at h
  dsimp only at h
  generalize SocksSession.connectionCallback _ side = u at hcall hd h
  cases side with
  | server =>
    simp only [removeConnection] at h
    cases h
    exact ⟨hcall.sound, hcall.emptied, hcall.mark, hcall.callback, hcall.queued, fun _ => hd,
      hcall.polled, hcall.running, hcall.once, hcall.fits⟩
  | client =>
    simp only [removeConnection] at h
    obtain ⟨-, -, h⟩ := bind_ok h
    cases h
    have hgone : Held { u with connection := false } :=
      ⟨hcall.sound, hcall.emptied, hcall.mark, hcall.callback, hcall.queued, hcall.removing,
        hcall.polled, hcall.running, hcall.once, hcall.fits⟩
    exact hgone.queueInLoop (.inr (.inr ⟨rfl, hd⟩))

/-- What `handleClose` does, up to the callbacks it ends with. -/
theorem handleClose_cases (hs : Held s) (h : s.handleClose side = .ok t) : ∃ c,
    TcpConnection.Still (s.conn side) c ∧ (s.conn side).state ≠ .kDisconnected ∧
      c.state = .kDisconnected ∧ (s.put side c).goesDown side = .ok t := by
  obtain ⟨c, hc, h⟩ := bind_ok h
  obtain ⟨hstill, hup, hdown⟩ := TcpConnection.handleClose_still (hs.sound side) (lift_ok hc)
  exact ⟨c, hstill, hup, hdown, h⟩

theorem Held.handleClose (hs : Held s) (h : s.handleClose side = .ok t) : Held t := by
  obtain ⟨c, hstill, -, hdown, h⟩ := handleClose_cases hs h
  refine (hs.put_same (hs.acts_still hstill fun _ => hdown) hstill.inputBuffer).goesDown ?_ h
  rw [put_self]
  exact hdown

theorem messageCallback_relay (h : s.messageCallback side w = .ok t) : s.relay side w = .ok t := by
  cases side with
  | server =>
    simp only [messageCallback, onServerMessage] at h
    split at h
    · exact h
    · exact nomatch h
  | client =>
    simp only [messageCallback, onClientMessage] at h
    split at h
    · exact h
    · exact nomatch h

/-- All there is in the input buffer is a message that can be sent. -/
theorem contents_sends (hs : Held s) (hw : w.taken ≤ (s.conn side).inputBuffer.readableBytes) :
    System.Sends (s.conn side).inputBuffer.contents w := by
  have hlen := (hs.sound side).input.readable_length
  obtain ⟨-, hfits, -, hsmall⟩ := (hs.sound side).input
  refine ⟨?_, by omega⟩
  rw [(hs.sound side).input.contents_length]
  omega

/-- A relayed message is all there is in the input buffer, and it goes to a peer that is up. -/
theorem relay_cases (hs : Held s) (hw : w.taken ≤ (s.conn side).inputBuffer.readableBytes)
    (h : s.relay side w = .ok t) : (s.conn side.other).state ≠ .kConnected ∧ t = s ∨
    ∃ (peer : TcpConnection) (crossing : Nat), (s.conn side.other).state = .kConnected ∧
      TcpConnection.Moves (s.conn side.other) peer ∧
      peer.outputBuffer.readableBytes ≤ (s.conn side.other).outputBuffer.readableBytes +
        (s.conn side).inputBuffer.readableBytes ∧
      TcpConnection.Queues (s.conn side.other) peer ∧
      crossing = (if peer.pendingFunctors.any isHighWater then (s.traffic side).read
        else (s.traffic side.other).crossing) ∧
      t = ((s.updateTraffic side.other ({ · with crossing })).put side.other peer).put side
        { s.conn side with inputBuffer := (s.conn side).inputBuffer.retrieveAll } := by
  unfold relay at h
  dsimp only at h
  split at h
  · rename_i hup
    obtain ⟨data, hdata, h⟩ := bind_ok h
    obtain ⟨peer, hpeer, h⟩ := bind_ok h
    cases h
    rw [Buffer.load_contents (hs.sound side).input] at hdata
    cases hdata
    have hlen := (hs.sound side).input.readable_length
    obtain ⟨hmoves, hout, hqueues⟩ := TcpConnection.sendInLoop_queues (hs.sound side.other)
      (contents_sends hs hw) (by simp [hup]) (hs.callback side.other) (lift_ok hpeer)
    exact .inr ⟨peer, _, hup, hmoves, by rw [hlen]; exact hout, hqueues, rfl, rfl⟩
  · rename_i hdown
    cases h
    exact .inl ⟨hdown, rfl⟩

theorem Held.relay (hs : Held s) (hw : w.taken ≤ (s.conn side).inputBuffer.readableBytes)
    (hdue : ∀ d ∈ s.due, d.callback = .read → d.side ≠ side)
    (h : s.relay side w = .ok t) : Held t := by
  rcases relay_cases hs hw h with ⟨-, rfl⟩ | ⟨peer, crossing, -, hmoves, -, hqueues, -, rfl⟩
  · exact hs
  have htraffic : Held (s.updateTraffic side.other ({ · with crossing })) := hs.updateTraffic _
  have hpeer := htraffic.put_same (hs.acts_queues hmoves hqueues) hmoves.inputBuffer
  have hsound := hs.sound side
  have hown : ((s.updateTraffic side.other ({ · with crossing })).put side.other peer).conn side =
      s.conn side := put_ne side.ne_other
  refine hpeer.put ⟨⟨Buffer.retrieveAll_valid hsound.input, hsound.output, hsound.channel⟩, ?_, ?_, ?_,
    ?_⟩ fun d hd hread hside => absurd hside (hdue d hd hread)
  · rw [hown]
  · rw [hown]
  · rw [hown]
    exact id
  · change ∀ f ∈ (s.conn side).pendingFunctors, _
    rw [hs.emptied]
    nofun

theorem received_input {b : Buffer} {n : Nat} :
    ((s.received side b n).conn side).inputBuffer = b := by
  change ((s.put side _).conn side).inputBuffer = b
  rw [put_self]

theorem received_other {b : Buffer} {n : Nat} :
    (s.received side b n).conn side.other = s.conn side.other := put_other

theorem handleRead_cases {read : Option Bytes} (hs : Held s)
    (hd : (read.getD []).length ≤ (s.conn side).inputBuffer.iovBytes)
    (h : s.handleRead side read w = .ok t) : ∃ b : Buffer, b.Valid ∧
      b.readableBytes = (s.conn side).inputBuffer.readableBytes + (read.getD []).length ∧
      (read = none ∧ t = s.received side b 0 ∨
        read = some [] ∧ (s.received side b 0).handleClose side = .ok t ∨
        ∃ data, read = some data ∧ data ≠ [] ∧
          (s.received side b data.length).messageCallback side w = .ok t) := by
  obtain ⟨b, hb, h⟩ := bind_ok h
  have hinput := (hs.sound side).input
  cases read with
  | none =>
    have hread := lift_ok hb
    simp only [Buffer.readFd, Except.ok.injEq] at hread
    cases h
    refine ⟨b, ?_, ?_, .inl ⟨rfl, rfl⟩⟩
    · rw [← hread]
      exact hinput
    · rw [← hread]
      exact (Nat.add_zero _).symm
  | some data =>
    obtain ⟨hv, hcontents⟩ := (Buffer.readFd_holds hinput hd).of_ok (lift_ok hb)
    refine ⟨b, hv, ?_, .inr ?_⟩
    · rw [hv.readable_length, hcontents, List.length_append, hinput.readable_length,
        Option.getD_some]
    cases data with
    | nil => exact .inl ⟨rfl, h⟩
    | cons first rest => exact .inr ⟨_, rfl, by simp, h⟩

theorem Held.received {b : Buffer} {n : Nat} (hs : Held s) (hb : b.Valid)
    (hdue : ∀ d ∈ s.due, d.callback = .read → d.side ≠ side) : Held (s.received side b n) := by
  have hsound := hs.sound side
  have hacts : Acts (s.conn side) { s.conn side with inputBuffer := b } := by
    refine ⟨⟨hb, hsound.output, hsound.channel⟩, rfl, rfl, id, ?_⟩
    change ∀ f ∈ (s.conn side).pendingFunctors, _
    rw [hs.emptied]
    nofun
  have hput := hs.put hacts fun d hd hread hside => absurd hside (hdue d hd hread)
  unfold SocksSession.received countRead
  exact (hput.updateTraffic _).updateTraffic _

theorem Held.handleRead {read : Option Bytes} (hs : Held s)
    (hd : (read.getD []).length ≤ (s.conn side).inputBuffer.iovBytes)
    (hw : w.taken ≤ (s.conn side).inputBuffer.readableBytes + (read.getD []).length)
    (hdue : ∀ d ∈ s.due, d.callback = .read → d.side ≠ side)
    (h : s.handleRead side read w = .ok t) : Held t := by
  obtain ⟨b, hb, hlen, hcases⟩ := handleRead_cases hs hd h
  rcases hcases with ⟨-, rfl⟩ | ⟨-, h⟩ | ⟨data, rfl, -, h⟩
  · exact hs.received hb hdue
  · exact (hs.received hb hdue).handleClose h
  · refine (hs.received hb hdue).relay ?_ hdue (messageCallback_relay h)
    rw [received_input, hlen]
    exact hw

theorem Held.handleWrite (hs : Held s) (hw : w.taken ≤ (s.conn side).outputBuffer.readableBytes)
    (h : s.handleWrite side w = .ok t) : Held t := by
  obtain ⟨c, hc, h⟩ := bind_ok h
  cases h
  obtain ⟨hmoves, -, -, hqueues⟩ :=
    TcpConnection.handleWrite_queues (hs.sound side) hw (lift_ok hc)
  refine hs.put_same ⟨hmoves.sound, hmoves.highWaterMark, hmoves.highWaterMarkCallback,
    fun hd => hmoves.state.trans hd, ?_⟩ hmoves.inputBuffer
  rcases hqueues with hq | ⟨hq, -⟩
  · rw [hq, hs.emptied]
    nofun
  · rw [hq, hs.emptied]
    exact fun f hf => .inl (List.mem_singleton.mp hf)

theorem Held.handleEvent {d : Due} (hs : Held s) (hw : s.Takes d w)
    (hd : d.callback = .read → (d.read.getD []).length ≤ (s.conn d.side).inputBuffer.iovBytes)
    (hdue : d.callback = .read → ∀ e ∈ s.due, e.callback = .read → e.side ≠ d.side)
    (h : s.handleEvent d w = .ok t) : Held t := by
  simp only [SocksSession.handleEvent] at h
  cases hc : d.callback with
  | close =>
    rw [hc] at h
    exact hs.handleClose h
  | error =>
    rw [hc] at h
    cases h
    exact hs
  | read =>
    simp only [Takes, hc] at hw
    rw [hc] at h
    exact hs.handleRead (hd hc) hw (hdue hc) h
  | write =>
    simp only [Takes, hc] at hw
    rw [hc] at h
    exact hs.handleWrite hw h

theorem onHighWaterMark_cases (hs : Held s) (h : s.onHighWaterMark side = .ok t) : ∃ c,
    TcpConnection.Still (s.conn side) c ∧ c.state = (s.conn side).state ∧
      t = (s.put side c).updateTraffic side ({ · with congested := true }) := by
  obtain ⟨c, hc, h⟩ := bind_ok h
  cases h
  obtain ⟨hstill, hst⟩ := TcpConnection.stopReadInLoop_still (hs.sound side) (lift_ok hc)
  exact ⟨c, hstill, hst, rfl⟩

theorem onWriteComplete_cases (hs : Held s) (h : s.onWriteComplete side = .ok t) : ∃ c,
    TcpConnection.Still (s.conn side) c ∧ c.state = (s.conn side).state ∧
      t = (s.put side c).updateTraffic side ({ · with congested := false }) := by
  obtain ⟨c, hc, h⟩ := bind_ok h
  cases h
  obtain ⟨hstill, hst⟩ := TcpConnection.startReadInLoop_still (hs.sound side) (lift_ok hc)
  exact ⟨c, hstill, hst, rfl⟩

theorem connectDestroyed_cases (hs : Held s) (hd : (s.conn side).state = .kDisconnected)
    (h : s.connectDestroyed side = .ok t) : ∃ c, TcpConnection.Still (s.conn side) c ∧
      c.state = (s.conn side).state ∧ t = s.put side c := by
  unfold SocksSession.connectDestroyed at h
  rw [if_neg (by simp [hd]), ok_bind] at h
  obtain ⟨c, hc, h⟩ := bind_ok h
  cases h
  obtain ⟨hstill, hst⟩ := TcpConnection.removeChannel_still (hs.sound side) (lift_ok hc)
  exact ⟨c, hstill, hst, rfl⟩

/-- A functor only changes what its connection is interested in. -/
theorem runFunctor_cases {f : Functor} (hs : Held s) (hq : s.Queued (side, f))
    (h : s.runFunctor side f w = .ok t) : ∃ c, TcpConnection.Still (s.conn side) c ∧
      c.state = (s.conn side).state ∧
      (f = .writeCompleteCallback ∧
          t = (s.put side c).updateTraffic side ({ · with congested := false }) ∨
        (∃ n, f = .highWaterMarkCallback n) ∧
          t = (s.put side c).updateTraffic side ({ · with congested := true }) ∨
        f = .connectDestroyed ∧ t = s.put side c) := by
  rcases hq with hq | ⟨n, hq⟩ | ⟨hq, hd⟩
  · dsimp only at hq
    subst hq
    obtain ⟨c, hstill, hst, ht⟩ := onWriteComplete_cases hs h
    exact ⟨c, hstill, hst, .inl ⟨rfl, ht⟩⟩
  · dsimp only at hq
    subst hq
    obtain ⟨c, hstill, hst, ht⟩ := onHighWaterMark_cases hs h
    exact ⟨c, hstill, hst, .inr (.inl ⟨⟨n, rfl⟩, ht⟩)⟩
  · dsimp only at hq hd
    subst hq
    obtain ⟨c, hstill, hst, ht⟩ := connectDestroyed_cases hs hd h
    exact ⟨c, hstill, hst, .inr (.inr ⟨rfl, ht⟩)⟩

theorem Held.runFunctor {f : Functor} (hs : Held s) (hq : s.Queued (side, f))
    (h : s.runFunctor side f w = .ok t) : Held t := by
  obtain ⟨c, hstill, hst, hcases⟩ := runFunctor_cases hs hq h
  have hput := hs.put_same (hs.acts_still hstill hst.trans) hstill.inputBuffer
  rcases hcases with ⟨-, rfl⟩ | ⟨-, rfl⟩ | ⟨-, rfl⟩
  · exact hput.updateTraffic _
  · exact hput.updateTraffic _
  · exact hput

theorem handleEventWithGuard_once (r : Revents) :
    (Channel.handleEventWithGuard r).Pairwise fun a b => a = .read → b ≠ .read := by
  unfold Channel.handleEventWithGuard
  split <;> split <;> split <;> split <;> simp

theorem Held.poll (hs : Held s) {ready : List Ready} (hf : s.functors = [])
    (hsides : (ready.map Ready.side).Nodup) (hpolls : ∀ r ∈ ready, s.Polls r) :
    Held { s with
      polled := true
      due := ready.flatMap Ready.due
      traffic := fun side => { s.traffic side with read := 0 } } := by
  refine ⟨hs.sound, hs.emptied, hs.mark, hs.callback, hs.queued, hs.removing, fun _ => rfl,
    fun hne => absurd hf hne, List.pairwise_flatMap.mpr ⟨fun r _ => ?_, ?_⟩, fun d hd _ => ?_⟩
  · refine List.pairwise_map.mpr ((handleEventWithGuard_once r.revents).imp fun hab ha hb => ?_)
    exact absurd hb (hab ha)
  · refine (List.pairwise_map.mp hsides).imp fun hne d hd e he _ _ => ?_
    obtain ⟨_, -, rfl⟩ := List.mem_map.mp hd
    obtain ⟨_, -, rfl⟩ := List.mem_map.mp he
    exact hne
  · obtain ⟨r, hr, hd⟩ := List.mem_flatMap.mp hd
    obtain ⟨_, -, rfl⟩ := List.mem_map.mp hd
    exact (hpolls r hr).2

theorem Held.step {e : Event} (hs : Held s) (he : s.enabled e) (h : s.step e = .ok t) :
    Held t := by
  cases e with
  | poll ready =>
    cases h
    exact hs.poll he.2.1 he.2.2.1 he.2.2.2
  | handle w =>
    obtain ⟨d, hd, hw⟩ := he
    obtain ⟨due, hdue⟩ := List.head?_eq_some_iff.mp hd
    simp only [SocksSession.step, hdue] at h
    have honce := hs.once
    rw [hdue, List.pairwise_cons] at honce
    have hmem : d ∈ s.due := by rw [hdue]; exact List.mem_cons_self
    exact (hs.popDue hdue).handleEvent hw (hs.fits d hmem)
      (fun hread e he hr => (honce.1 e he hread hr).symm) h
  | doPendingFunctors =>
    cases h
    refine ⟨hs.sound, hs.emptied, hs.mark, hs.callback, fun q hq => ?_, hs.removing,
      fun hne => absurd he.2 hne, fun _ => rfl, hs.once, hs.fits⟩
    rw [List.append_nil] at hq
    exact hs.queued q (List.mem_append_right _ hq)
  | functor w =>
    cases hf : s.functors with
    | nil => exact absurd hf he.1
    | cons q functors =>
      simp only [SocksSession.step, hf] at h
      have hq := hs.queued q (by rw [hf]; exact List.mem_cons_self)
      exact (hs.popFunctor hf).runFunctor hq h
  | removeConnectionInLoop =>
    cases h
    have hnone : Held { s with removing := false } :=
      ⟨hs.sound, hs.emptied, hs.mark, hs.callback, hs.queued, nofun, hs.polled, hs.running, hs.once,
        hs.fits⟩
    exact hnone.queueInLoop (.inr (.inr ⟨rfl, hs.removing he⟩))

/-- What a session begins with. -/
structure Begun (s : SocksSession) : Prop where
  held : Held s
  state : ∀ x, (s.conn x).state = .kConnected
  connection : s.connection = true
  context : s.context = true
  closes : s.closes = []
  shutdowns : ∀ x, s.shutdowns x = 0
  traffic : ∀ x, s.traffic x = ⟨0, 0, false, 0⟩
  polled : s.polled = true
  early : (s.conn .server).inputBuffer.readableBytes ≤ 512
  outbound : (s.conn .client).inputBuffer.readableBytes = 0 ∧
    (s.conn .client).outputBuffer.readableBytes = 0
  reply : (s.conn .server).outputBuffer.readableBytes ≤ 12
  due : ∀ d ∈ s.due, d.side = .server
  functors : s.functors = []
  pending : ∀ q ∈ s.pendingFunctors, q = (.server, .writeCompleteCallback)

theorem opened_held {server client : TcpConnection} {ready : List Ready}
    (hserver : Requested server) (hready : ready = [] ∨ ∃ r, ready = [r] ∧ r.side = .server ∧
      System.Reports r.revents server.channel.interest ∧
      (r.read.getD []).length ≤ server.inputBuffer.iovBytes)
    (hsound : client.Sound) (hempty : client.pendingFunctors = []) :
    Held (opened server client (ready.flatMap Ready.due)) where
  sound
    | .server => ⟨hserver.inputBuffer, hserver.outputBuffer, hserver.channel⟩
    | .client => ⟨hsound.input, hsound.output, hsound.channel⟩
  emptied
    | .server => hserver.pendingFunctors
    | .client => hempty
  mark
    | .server => hserver.highWaterMark
    | .client => rfl
  callback
    | .server => hserver.callbacks.1
    | .client => rfl
  queued := nofun
  removing := nofun
  polled _ := rfl
  running h := absurd rfl h
  once := by
    rcases hready with rfl | ⟨r, rfl, -⟩
    · exact .nil
    · change (List.flatMap Ready.due [r]).Pairwise _
      rw [List.flatMap_singleton]
      exact List.pairwise_map.mpr ((handleEventWithGuard_once r.revents).imp
        fun hab ha hb => absurd hb (hab ha))
  fits d hd _ := by
    rcases hready with rfl | ⟨r, rfl, hside, -, hlen⟩
    · exact nomatch hd
    · change d ∈ List.flatMap Ready.due [r] at hd
      rw [List.flatMap_singleton] at hd
      obtain ⟨_, -, rfl⟩ := List.mem_map.mp hd
      dsimp only
      rw [hside]
      exact hlen

theorem starts_begun (h : Starts s) : Begun s := by
  obtain ⟨server, client₀, client, address, ready, w, hserver, hready, hnew, hest, hlen, hw, h⟩ := h
  have hestablished : System.Established (System.start client) :=
    ⟨true, false, 64 * 1024 * 1024, client₀, client, hnew, hest, rfl⟩
  have hsound : client.Sound := TcpConnection.established_sound hestablished
  obtain ⟨writeComplete, highWater, mark, heq⟩ := TcpConnection.established_eq hestablished
  have hclient := congrArg System.conn heq
  simp only [System.start] at hclient
  have hheld := opened_held hserver hready hsound (by rw [hclient])
  have hempty : (⟨List.replicate 1032 0, 8, 8⟩ : Buffer).readableBytes = 0 := by
    rw [TcpConnection.initial_holds.1.readable_length, TcpConnection.initial_holds.2]
    rfl
  obtain ⟨c, hc, h⟩ := bind_ok h
  cases h
  have hsend := lift_ok hc
  simp only [TcpConnection.send, hserver.state, if_true] at hsend
  have hmax : (12 : Nat) ≤ maxSize := by decide
  obtain ⟨hmoves, hout, hqueues⟩ := TcpConnection.sendInLoop_queues (hheld.sound .server)
    ⟨by rw [hlen]; exact hmax, by rw [hlen]; exact hw⟩ (by simp [opened, hserver.state])
    (hheld.callback .server) hsend
  have hreply : c.outputBuffer.readableBytes ≤ 12 := by
    change c.outputBuffer.readableBytes ≤ server.outputBuffer.readableBytes + _ at hout
    rw [hserver.unsent, hlen] at hout
    omega
  have hput := hheld.put_same (hheld.acts_queues hmoves hqueues) hmoves.inputBuffer
  refine ⟨hput, fun x => ?_, rfl, rfl, rfl, fun _ => rfl, fun _ => rfl, rfl, ?_, ?_, ?_, ?_, rfl, ?_⟩
  · cases x with
    | server =>
      rw [put_self]
      exact hmoves.state.trans hserver.state
    | client =>
      rw [@put_ne _ .server .client c (by simp)]
      change client.state = _
      rw [hclient]
  · rw [put_self]
    change c.inputBuffer.readableBytes ≤ 512
    rw [hmoves.inputBuffer]
    exact hserver.early
  · rw [@put_ne _ .server .client c (by simp)]
    change client.inputBuffer.readableBytes = 0 ∧ client.outputBuffer.readableBytes = 0
    rw [hclient]
    exact ⟨hempty, hempty⟩
  · rw [put_self]
    exact hreply
  · intro d hd
    rcases hready with rfl | ⟨r, rfl, hside, -⟩
    · cases hd
    · change d ∈ List.flatMap Ready.due [r] at hd
      rw [List.flatMap_singleton] at hd
      obtain ⟨_, -, rfl⟩ := List.mem_map.mp hd
      exact hside
  · intro q hq
    change q ∈ [] ++ c.pendingFunctors.map (Side.server, ·) at hq
    have hnone : server.pendingFunctors = [] := hserver.pendingFunctors
    rcases hqueues with ⟨hp, -⟩ | ⟨hp, -⟩ | ⟨hmark, -⟩
    · rw [hp] at hq
      simp [opened, hnone] at hq
    · rw [hp] at hq
      simpa [opened, hnone] using hq
    · rw [hheld.mark] at hmark
      unfold maxBuffer at hmark
      omega

end SocksSession

end Muduo.Examples
