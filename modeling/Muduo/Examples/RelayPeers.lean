import Muduo.Examples.SessionSound

namespace Muduo.Examples
open Muduo.Lib Muduo.Net

namespace SocksSession

variable {s t u : SocksSession} {side x : Side} {c : TcpConnection} {w : WriteResult}

/-- The side opposite to the first that went down has been shut down exactly once, and nothing is
sent to a side that is down. -/
structure LeavesPeers (s : SocksSession) : Prop where
  shutdowns : ∀ x a rest, s.closes = (x, a) :: rest → s.shutdowns x.other = 1
  frozen : ∀ x a, (x, a) ∈ s.closes → (s.conn x).log.accepted = a

/-- A fault of the library, not a null pointer or an `abort()`. -/
def IsFault (f : Crash) : Prop := ∃ g, f = .fault g

/-- The client's bytes are read while the outbound connection is still there. -/
def InTime (s : SocksSession) : Event → Prop
  | .handle _ => ∀ d ∈ s.due.head?, d.side = .server → d.callback = .read →
    d.read.getD [] ≠ [] → (s.conn .client).state ≠ .kDisconnected
  | _ => True

/-- Who has gone down, and what became of the other. -/
structure Wired (s : SocksSession) : Prop where
  context : s.context = true
  connection : s.connection = true ↔ (s.conn .client).state ≠ .kDisconnected
  calm : s.closes = [] → ∀ x, (s.conn x).state = .kConnected ∧ s.shutdowns x = 0
  first : ∀ x a rest, s.closes = (x, a) :: rest → s.shutdowns x.other = 1
  gone : ∀ x a, (x, a) ∈ s.closes →
    (s.conn x).state = .kDisconnected ∧ (s.conn x).log.accepted = a

theorem Wired.leavesPeers (hw : Wired s) : LeavesPeers s :=
  ⟨hw.first, fun x a h => (hw.gone x a h).2⟩

theorem Begun.wired (h : Begun s) : Wired s where
  context := h.context
  connection := by simp [h.connection, h.state]
  calm _ x := ⟨h.state x, h.shutdowns x⟩
  first x a rest hc := by simp [h.closes] at hc
  gone x a hc := by simp [h.closes] at hc

/-- An operation that neither closes its connection nor sends on one that is down. -/
theorem Wired.put (hw : Wired s) (hst : c.state = (s.conn side).state)
    (hacc : (s.conn side).state = .kDisconnected →
      c.log.accepted = (s.conn side).log.accepted) : Wired (s.put side c) where
  context := hw.context
  connection := by
    refine put_conn (fun d => s.connection = true ↔ d.state ≠ .kDisconnected) (fun hx => ?_)
      fun _ => hw.connection
    change s.connection = true ↔ c.state ≠ .kDisconnected
    rw [hst, ← hx]
    exact hw.connection
  calm hc x := ⟨put_conn (·.state = .kConnected) (fun _ => hst.trans (hw.calm hc side).1)
    fun _ => (hw.calm hc x).1, (hw.calm hc x).2⟩
  first := hw.first
  gone x a h := by
    have hgone := hw.gone x a h
    refine put_conn (fun d => d.state = .kDisconnected ∧ d.log.accepted = a) (fun hx => ?_)
      fun _ => hgone
    rw [hx] at hgone
    exact ⟨hst.trans hgone.1, (hacc hgone.1).trans hgone.2⟩

/-- Bookkeeping that the wiring does not depend on. -/
theorem Wired.of_eq (hw : Wired s) (hcontext : t.context = s.context)
    (hconnection : t.connection = s.connection) (hcloses : t.closes = s.closes)
    (hconn : t.conn = s.conn) (hshutdowns : t.shutdowns = s.shutdowns) : Wired t := by
  obtain ⟨h1, h2, h3, h4, h5⟩ := hw
  constructor
  · rw [hcontext]; exact h1
  · rw [hconnection, hconn]; exact h2
  · rw [hcloses, hconn, hshutdowns]; exact h3
  · rw [hcloses, hshutdowns]; exact h4
  · rw [hcloses, hconn]; exact h5

/-- The callback of a side that went down shuts the other down, if that is still up. -/
structure ShutsPeer (u v : SocksSession) (side : Side) : Prop where
  own : v.conn side = u.conn side
  peer : TcpConnection.Still (u.conn side.other) (v.conn side.other)
  state : (v.conn side.other).state = if (u.conn side.other).state = .kConnected
    then .kDisconnecting else (u.conn side.other).state
  shutdowns : v.shutdowns side.other = u.shutdowns side.other +
    if (u.conn side.other).state = .kDisconnected then 0 else 1
  ownShutdowns : v.shutdowns side = u.shutdowns side
  context : v.context = u.context
  connection : v.connection = u.connection
  closes : v.closes = u.closes

theorem shutdown_shutsPeer (hu : Held u) : ShutsPeer u (u.shutdown side.other) side := by
  obtain ⟨hstill, hst⟩ := @shutdown_conn u side.other hu
  exact ⟨put_ne side.ne_other, hstill, hst, Function.update_self .., Function.update_of_ne
    side.ne_other .., rfl, rfl, rfl⟩

theorem connectionCallback_shutsPeer (hu : Held u) (hcontext : u.context = true)
    (hconn : side = .server → u.connection = false → (u.conn .client).state = .kDisconnected) :
    ShutsPeer u (u.connectionCallback side) side := by
  cases side with
  | client =>
    simp only [connectionCallback, hcontext, if_true]
    exact @shutdown_shutsPeer _ .client hu
  | server =>
    simp only [connectionCallback]
    split
    · exact @shutdown_shutsPeer _ .server hu
    · rename_i hnone
      have hdown := hconn rfl (by simpa using hnone)
      exact ⟨rfl, ⟨hu.sound _, rfl, rfl, rfl, rfl, rfl, rfl⟩, by simp [Side.other, hdown],
        by simp [Side.other, hdown], rfl, rfl, rfl, rfl⟩

/-- What a side that goes down leaves behind. -/
structure Downed (u t : SocksSession) (side : Side) : Prop where
  peer : ShutsPeer u { t with closes := u.closes, connection := u.connection } side
  closes : t.closes = u.closes ++ [(side, (u.conn side).log.accepted)]
  connection : t.connection = match side with
    | .server => u.connection
    | .client => false

theorem goesDown_downed (hu : Held u) (hcontext : u.context = true)
    (hconn : side = .server → u.connection = false → (u.conn .client).state = .kDisconnected)
    (h : u.goesDown side = .ok t) : Downed u t side := by
  have hlog : Held { u with closes := u.closes ++ [(side, (u.conn side).log.accepted)] } :=
    ⟨hu.sound, hu.emptied, hu.mark, hu.callback, hu.queued, hu.removing, hu.polled, hu.running,
      hu.once, hu.fits⟩
  obtain ⟨hown, hpeer, hst, hshut, hownShut, hctx, hcon, hcloses⟩ :=
    @connectionCallback_shutsPeer _ side hlog hcontext hconn
  unfold goesDown at h
  dsimp only at h
  generalize SocksSession.connectionCallback _ side = v at *
  cases side with
  | server =>
    simp only [removeConnection] at h
    cases h
    exact ⟨⟨hown, hpeer, hst, hshut, hownShut, hctx, rfl, rfl⟩, hcloses, hcon⟩
  | client =>
    simp only [removeConnection] at h
    obtain ⟨-, -, h⟩ := bind_ok h
    cases h
    exact ⟨⟨hown, hpeer, hst, hshut, hownShut, hctx, rfl, rfl⟩, hcloses, rfl⟩

theorem Wired.handleClose (hw : Wired s) (hs : Held s) (h : s.handleClose side = .ok t) :
    Wired t := by
  obtain ⟨c, hstill, hup, hdown, h⟩ := handleClose_cases hs h
  have hput := hs.put_same (hs.acts_still hstill fun _ => hdown) hstill.inputBuffer
  have hself : (s.put side c).conn side = { c with pendingFunctors := [] } := put_self
  have hother : (s.put side c).conn side.other = s.conn side.other := put_other
  have hdowned : Downed (s.put side c) t side := by
    refine goesDown_downed hput hw.context (fun hside hnone => ?_) h
    have hgone : ¬s.connection = true := by simp [show s.connection = false from hnone]
    rw [hw.connection, ne_eq, Decidable.not_not] at hgone
    rw [put_ne (by rw [hside]; nofun)]
    exact hgone
  have hown : t.conn side = { c with pendingFunctors := [] } := hdowned.peer.own.trans hself
  have hpeer : TcpConnection.Still (s.conn side.other) (t.conn side.other) :=
    hother ▸ hdowned.peer.peer
  have hst : (t.conn side.other).state = if (s.conn side.other).state = .kConnected
      then .kDisconnecting else (s.conn side.other).state := hother ▸ hdowned.peer.state
  have hshut : t.shutdowns side.other = s.shutdowns side.other +
      if (s.conn side.other).state = .kDisconnected then 0 else 1 := hother ▸ hdowned.peer.shutdowns
  have hownShut : t.shutdowns side = s.shutdowns side := hdowned.peer.ownShutdowns
  have hcloses : t.closes = s.closes ++ [(side, c.log.accepted)] := by
    have := hdowned.closes
    rw [hself] at this
    exact this
  have hcon := hdowned.connection
  have hownState : (t.conn side).state = .kDisconnected := by
    rw [hown]
    exact hdown
  have hpeerState : (t.conn side.other).state = .kDisconnected ↔
      (s.conn side.other).state = .kDisconnected := by
    rw [hst]
    split
    · rename_i hc
      simp [hc]
    · rfl
  refine ⟨hdowned.peer.context.trans hw.context, ?_, fun hnil => by simp [hcloses] at hnil,
    fun x a rest hc => ?_,
    fun x a hmem => ?_⟩
  · cases side with
    | server =>
      rw [hcon]
      change s.connection = true ↔ (t.conn Side.server.other).state ≠ _
      rw [ne_eq, hpeerState]
      exact hw.connection
    | client =>
      rw [hcon]
      simp [hownState]
  · cases hold : s.closes with
    | nil =>
      rw [hcloses, hold, List.nil_append, List.cons.injEq, Prod.mk.injEq] at hc
      obtain ⟨⟨rfl, -⟩, -⟩ := hc
      obtain ⟨hpeerUp, hnone⟩ := hw.calm hold side.other
      rw [hshut, hnone, hpeerUp]
      rfl
    | cons q qs =>
      rw [hcloses, hold, List.cons_append, List.cons.injEq] at hc
      obtain ⟨rfl, -⟩ := hc
      -- the side that is closing now was up, so it is the other one
      have hne : x ≠ side := fun hx => hup (hx ▸ (hw.gone x a (by
        rw [hold]
        exact List.mem_cons_self)).1)
      have hx : x.other = side := by
        rw [(side.eq_or_other x).resolve_left hne, Side.other_other]
      rw [hx, hownShut, ← hx]
      exact hw.first x a qs hold
  · rw [hcloses] at hmem
    cases List.mem_append.mp hmem with
    | inl hmem =>
      obtain ⟨hgone, hacc⟩ := hw.gone x a hmem
      have hne : x ≠ side := fun hx => hup (hx ▸ hgone)
      rw [(side.eq_or_other x).resolve_left hne] at hgone hacc ⊢
      exact ⟨hpeerState.mpr hgone, hpeer.accepted.trans hacc⟩
    | inr hmem =>
      obtain ⟨rfl, rfl⟩ := Prod.mk.inj (List.mem_singleton.mp hmem)
      exact ⟨hownState, by rw [hown]⟩

theorem Wired.updateTraffic (hw : Wired s) (f : Traffic → Traffic) :
    Wired (s.updateTraffic side f) := hw.of_eq rfl rfl rfl rfl rfl

theorem Wired.relay (hw : Wired s) (hs : Held s)
    (hn : w.taken ≤ (s.conn side).inputBuffer.readableBytes) (h : s.relay side w = .ok t) :
    Wired t := by
  rcases relay_cases hs hn h with ⟨-, rfl⟩ | ⟨peer, crossing, hup, hmoves, -, -, -, rfl⟩
  · exact hw
  have hpeer : Wired ((s.updateTraffic side.other ({ · with crossing })).put side.other peer) :=
    (hw.updateTraffic _).put hmoves.state fun hd => absurd (hup.symm.trans hd) nofun
  have hown : ((s.updateTraffic side.other ({ · with crossing })).put side.other peer).conn side =
      s.conn side := put_ne side.ne_other
  exact hpeer.put (by rw [hown]) fun _ => by rw [hown]

theorem Wired.received (hw : Wired s) (b : Buffer) (n : Nat) : Wired (s.received side b n) := by
  unfold SocksSession.received countRead
  refine Wired.updateTraffic (Wired.updateTraffic (hw.put ?_ fun _ => ?_) _) _
  · rfl
  · rfl

theorem Wired.handleRead {read : Option Bytes} (hw : Wired s) (hs : Held s)
    (hd : (read.getD []).length ≤ (s.conn side).inputBuffer.iovBytes)
    (hn : w.taken ≤ (s.conn side).inputBuffer.readableBytes + (read.getD []).length)
    (hdue : ∀ d ∈ s.due, d.callback = .read → d.side ≠ side)
    (h : s.handleRead side read w = .ok t) : Wired t := by
  obtain ⟨b, hb, hlen, hcases⟩ := handleRead_cases hs hd h
  rcases hcases with ⟨-, rfl⟩ | ⟨-, h⟩ | ⟨data, rfl, -, h⟩
  · exact hw.received b 0
  · exact (hw.received b 0).handleClose (hs.received hb hdue) h
  · refine (hw.received b _).relay (hs.received hb hdue) ?_ (messageCallback_relay h)
    rw [received_input, hlen]
    exact hn

theorem Wired.step {e : Event} (hw : Wired s) (hs : Held s) (he : s.enabled e)
    (h : s.step e = .ok t) : Wired t := by
  cases e with
  | poll ready =>
    cases h
    exact hw.of_eq rfl rfl rfl rfl rfl
  | handle w =>
    obtain ⟨d, hd, hn⟩ := he
    obtain ⟨due, hdue⟩ := List.head?_eq_some_iff.mp hd
    simp only [SocksSession.step, hdue, handleEvent] at h
    have hpop : Wired { s with due } := hw.of_eq rfl rfl rfl rfl rfl
    have honce := hs.once
    rw [hdue, List.pairwise_cons] at honce
    cases hc : d.callback with
    | close =>
      rw [hc] at h
      exact hpop.handleClose (hs.popDue hdue) h
    | error =>
      rw [hc] at h
      cases h
      exact hpop
    | read =>
      simp only [Takes, hc] at hn
      rw [hc] at h
      have hfits := hs.fits d (by rw [hdue]; exact List.mem_cons_self) hc
      exact hpop.handleRead (hs.popDue hdue) hfits hn
        (fun e he hr => (honce.1 e he hc hr).symm) h
    | write =>
      simp only [Takes, hc] at hn
      rw [hc] at h
      obtain ⟨c, hwrite, h⟩ := bind_ok h
      cases h
      obtain ⟨hmoves, hacc, -⟩ :=
        TcpConnection.handleWrite_queues (hs.sound d.side) hn (lift_ok hwrite)
      exact hpop.put hmoves.state fun _ => hacc
  | doPendingFunctors =>
    cases h
    exact hw.of_eq rfl rfl rfl rfl rfl
  | functor w =>
    cases hf : s.functors with
    | nil => exact absurd hf he.1
    | cons q functors =>
      simp only [SocksSession.step, hf] at h
      have hpop : Wired { s with functors } := hw.of_eq rfl rfl rfl rfl rfl
      have hq := hs.queued q (by rw [hf]; exact List.mem_cons_self)
      obtain ⟨c, hstill, hst, hcases⟩ := runFunctor_cases (hs.popFunctor hf) hq h
      have hput : Wired (SocksSession.put { s with functors } q.1 c) :=
        hpop.put hst fun _ => hstill.accepted
      rcases hcases with ⟨-, rfl⟩ | ⟨-, rfl⟩ | ⟨-, rfl⟩
      · exact hput.updateTraffic _
      · exact hput.updateTraffic _
      · exact hput
  | removeConnectionInLoop =>
    cases h
    exact hw.of_eq rfl rfl rfl rfl rfl

theorem lift_faults {α : Type} (r : Except Fault α) :
    Yields (fun _ => True) IsFault (lift r) := by
  cases r with
  | ok a => trivial
  | error f => exact ⟨f, rfl⟩

theorem goesDown_faults : Yields (fun _ => True) IsFault (s.goesDown side) := by
  unfold goesDown
  cases side with
  | server => trivial
  | client => exact (lift_faults _).bind fun _ _ => trivial

theorem handleClose_faults : Yields (fun _ => True) IsFault (s.handleClose side) :=
  (lift_faults _).bind fun _ _ => goesDown_faults

theorem relay_faults : Yields (fun _ => True) IsFault (s.relay side w) := by
  unfold relay
  dsimp only
  split
  · refine (lift_faults _).bind fun _ _ => ?_
    refine (lift_faults _).bind fun _ _ => ?_
    trivial
  · trivial

theorem messageCallback_faults (hcontext : s.context = true)
    (hconn : side = .server → s.connection = true) :
    Yields (fun _ => True) IsFault (s.messageCallback side w) := by
  cases side with
  | server =>
    simp only [messageCallback, onServerMessage, hconn rfl, if_true]
    exact relay_faults
  | client =>
    simp only [messageCallback, onClientMessage, hcontext, if_true]
    exact relay_faults

theorem handleRead_faults {read : Option Bytes} (hcontext : s.context = true)
    (hconn : side = .server → read.getD [] ≠ [] → s.connection = true) :
    Yields (fun _ => True) IsFault (s.handleRead side read w) := by
  refine (lift_faults _).bind fun b _ => ?_
  match read with
  | none => trivial
  | some [] => exact handleClose_faults
  | some (_ :: _) => exact messageCallback_faults hcontext fun hside => hconn hside nofun

theorem runFunctor_faults (f : Functor) :
    Yields (fun _ => True) IsFault (s.runFunctor side f w) := by
  cases f with
  | sendInLoop message => exact (lift_faults _).bind fun _ _ => trivial
  | writeCompleteCallback => exact (lift_faults _).bind fun _ _ => trivial
  | highWaterMarkCallback n => exact (lift_faults _).bind fun _ _ => trivial
  | forceCloseInLoop =>
    simp only [runFunctor, forceCloseInLoop]
    split
    · exact handleClose_faults
    · trivial
  | connectDestroyed =>
    simp only [runFunctor, connectDestroyed]
    split
    · refine (lift_faults _).bind fun _ _ => ?_
      exact (lift_faults _).bind fun _ _ => trivial
    · exact (lift_faults _).bind fun _ _ => trivial

theorem Wired.step_faults {e : Event} (hw : Wired s) (hin : InTime s e) :
    Yields (fun _ => True) IsFault (s.step e) := by
  cases e with
  | poll ready => trivial
  | handle w =>
    cases hdue : s.due with
    | nil => simp only [SocksSession.step, hdue]; trivial
    | cons d due =>
      simp only [SocksSession.step, hdue, handleEvent]
      cases hc : d.callback with
      | close => exact handleClose_faults
      | error => trivial
      | read =>
        refine handleRead_faults hw.context fun hside hdata => hw.connection.mpr ?_
        exact hin d (by rw [hdue]; rfl) hside hc hdata
      | write => exact (lift_faults _).bind fun _ _ => trivial
  | doPendingFunctors => trivial
  | functor w =>
    cases hf : s.functors with
    | nil => simp only [SocksSession.step, hf]; trivial
    | cons q functors =>
      simp only [SocksSession.step, hf]
      exact runFunctor_faults q.2
  | removeConnectionInLoop => trivial

/-- As long as the client's bytes come in time, no step of a session uses a peer that is gone. -/
theorem peers_left_alone {es : List Event} (h : Starts s) (hl : machine.Legal InTime s es) :
    Yields LeavesPeers IsFault (machine.run s es) := by
  have hbegun := starts_begun h
  have hrun : Yields (fun s => Held s ∧ Wired s) IsFault (machine.run s es) := by
    refine Machine.run_keeps (fun s e ⟨hs, hw⟩ he hin => ?_) ⟨hbegun.held, hbegun.wired⟩ hl
    have hfaults := hw.step_faults hin
    cases hstep : machine.step s e with
    | ok t => exact ⟨hs.step he hstep, hw.step hs he hstep⟩
    | error f =>
      rw [show s.step e = .error f from hstep] at hfaults
      exact hfaults
  exact hrun.mono fun s hs => hs.2.leavesPeers

instance (s : SocksSession) (w : WriteResult) : ∀ d, Decidable (s.Takes d w)
  | ⟨_, .write, _⟩ | ⟨_, .read, _⟩ => inferInstanceAs (Decidable (_ ≤ _))
  | ⟨_, .close, _⟩ | ⟨_, .error, _⟩ => isTrue trivial

instance (s : SocksSession) (r : Ready) : Decidable (s.Polls r) :=
  inferInstanceAs (Decidable (_ ∧ _))

instance (s : SocksSession) : ∀ e, Decidable (s.enabled e)
  | .poll _ => inferInstanceAs (Decidable (_ ∧ _ ∧ _ ∧ _))
  | .handle w => inferInstanceAs (Decidable (∃ d ∈ s.due.head?, s.Takes d w))
  | .doPendingFunctors | .functor _ => inferInstanceAs (Decidable (_ ∧ _))
  | .removeConnectionInLoop => inferInstanceAs (Decidable (s.removing = true))

instance (s : SocksSession) (e : Event) : Decidable (machine.enabled s e) :=
  inferInstanceAs (Decidable (s.enabled e))

instance (s : SocksSession) : ∀ e, Decidable (InTime s e)
  | .handle _ => inferInstanceAs (Decidable (∀ d ∈ s.due.head?, _ → _ → _ → _))
  | .poll _ | .doPendingFunctors | .functor _ | .removeConnectionInLoop => isTrue trivial

/-- A server connection whose request has been read. -/
def sampleServer : TcpConnection :=
  ⟨.kConnected, true, ⟨⟨true, false⟩, .kAdded, true, true, some ⟨true, false⟩⟩, true, true,
    maxBuffer, ⟨List.replicate 1032 0, 8, 8⟩, ⟨List.replicate 1032 0, 8, 8⟩, [],
    ⟨[], [], 0, 0, 1, 0, 0⟩⟩

/-- An outbound connection that is up. -/
def sampleClient : TcpConnection :=
  { sampleServer with highWaterMarkCallback := false, highWaterMark := 64 * 1024 * 1024 }

def sampleReply : Bytes := Sock4aServer.granted ⟨[0, 80], [10, 0, 0, 7]⟩

/-- A session in which the reply has been written at once. -/
def sampleStart : SocksSession :=
  (opened sampleServer sampleClient []).put .server { sampleServer with
    pendingFunctors := [.writeCompleteCallback]
    log := ⟨sampleReply, sampleReply, 0, 0, 1, 0, 0⟩ }

theorem sampleServer_requested : Requested sampleServer := by
  have hempty := TcpConnection.initial_holds
  have hzero : (⟨List.replicate 1032 0, 8, 8⟩ : Buffer).readableBytes = 0 := by
    rw [hempty.1.readable_length, hempty.2]
    rfl
  refine ⟨rfl, hempty.1, ?_, hempty.1, hzero, ⟨by decide, by decide⟩, rfl, ⟨rfl, rfl⟩, rfl⟩
  change (⟨List.replicate 1032 0, 8, 8⟩ : Buffer).readableBytes ≤ 512
  omega

theorem sampleStart_starts : Starts sampleStart := by
  refine ⟨sampleServer, ⟨.kConnecting, true, Channel.new, true, false, 64 * 1024 * 1024,
    ⟨List.replicate 1032 0, 8, 8⟩, ⟨List.replicate 1032 0, 8, 8⟩, [], ⟨[], [], 0, 0, 0, 0, 0⟩⟩,
    sampleClient, ⟨[0, 80], [10, 0, 0, 7]⟩, [], .wrote 12, sampleServer_requested, .inl rfl, ?_, rfl,
    rfl, Nat.le_refl _, ?_⟩
  · simp only [TcpConnection.new, Buffer.new_initial, ok_bind]
  · have hsend : sampleServer.send sampleReply (.wrote 12) = .ok { sampleServer with
        pendingFunctors := [.writeCompleteCallback]
        log := ⟨sampleReply, sampleReply, 0, 0, 1, 0, 0⟩ } := by decide +kernel
    rw [onClientConnection, show sampleServer.send (Sock4aServer.granted _) _ = _ from hsend]
    rfl

/-- Bytes both ways, then the destination and the client close. -/
def sampleRun : List Event :=
  [.doPendingFunctors, .functor (.wrote 0),
    .poll [⟨.server, ⟨true, false, false, false, false, false, false⟩, some [1, 2]⟩],
    .handle (.wrote 2), .doPendingFunctors, .functor (.wrote 0),
    .poll [⟨.client, ⟨true, false, false, false, false, false, false⟩, some []⟩],
    .handle (.wrote 0), .doPendingFunctors, .functor (.wrote 0),
    .poll [⟨.server, ⟨true, false, false, false, false, false, false⟩, some []⟩],
    .handle (.wrote 0), .removeConnectionInLoop]

theorem peers_left_alone_sample :
    Yields LeavesPeers IsFault (machine.run sampleStart sampleRun) :=
  peers_left_alone sampleStart_starts (by decide +kernel)

/-- The destination closes, and the client sends more before it does so too. -/
def lateData : List Event :=
  [.doPendingFunctors, .functor (.wrote 0),
    .poll [⟨.client, ⟨true, false, false, false, false, false, false⟩, some []⟩],
    .handle (.wrote 0), .doPendingFunctors, .functor (.wrote 0),
    .poll [⟨.server, ⟨true, false, false, false, false, false, false⟩, some [1]⟩],
    .handle (.wrote 1)]

/-- `connection()` is null by then. -/
theorem late_data_crashes : ¬∀ (s : SocksSession) (es : List Event), Starts s →
    machine.Legal (fun _ _ => True) s es → Yields LeavesPeers IsFault (machine.run s es) := by
  intro h
  have hend := h sampleStart lateData sampleStart_starts (by decide +kernel)
  have hcrash : Yields (fun _ => False) (· = .nullPointer) (machine.run sampleStart lateData) := by
    decide +kernel
  cases hrun : machine.run sampleStart lateData with
  | ok t =>
    rw [hrun] at hcrash
    exact hcrash
  | error f =>
    rw [hrun] at hcrash hend
    obtain ⟨g, hg⟩ := hend
    exact nomatch hcrash.symm.trans hg

end SocksSession

end Muduo.Examples
