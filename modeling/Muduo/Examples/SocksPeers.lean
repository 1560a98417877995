import Muduo.Examples.OutputLevels
import Muduo.Examples.RelayPeers
import Muduo.Net.ReadInterest

namespace Muduo.Examples
open Muduo.Lib Muduo.Net

/-- A session and the peers of its two connections: `unread` is what a peer has sent and
`read(2)` has not returned yet. -/
structure SocksPeers where
  session : SocksSession
  unread : Side → Bytes

namespace SocksPeers

/-- A peer sends, or the loop takes a step. -/
inductive Event
  | send (side : Side) (data : Bytes)
  | loop (e : SocksSession.Event)

/-- What `read(2)` finds has been sent. -/
def Finds (p : SocksPeers) : SocksSession.Event → Prop
  | .poll ready => ∀ r ∈ ready, r.read.getD [] <+: p.unread r.side
  | _ => True

def enabled (p : SocksPeers) : Event → Prop
  | .send _ _ => True
  | .loop e => p.session.enabled e ∧ p.Finds e

/-- What the callback that is due reads is read. -/
def consume (p : SocksPeers) : SocksSession.Event → Side → Bytes
  | .handle _ =>
    match p.session.due with
    | d :: _ =>
      if d.callback = .read then
        Function.update p.unread d.side ((p.unread d.side).drop (d.read.getD []).length)
      else p.unread
    | [] => p.unread
  | _ => p.unread

def step (p : SocksPeers) : Event → Except Crash SocksPeers
  | .send side data =>
    .ok { p with unread := Function.update p.unread side (p.unread side ++ data) }
  | .loop e => do
    let session ← p.session.step e
    .ok { session, unread := p.consume e }

def machine : Machine SocksPeers Event Crash where
  enabled := enabled
  step := step

/-- The poller watches the two sockets for what their channels ask. -/
def Starts (p : SocksPeers) : Prop :=
  p.session.Starts ∧ ∀ x, (p.session.conn x).channel.Shown

def congested (p : SocksPeers) (x : Side) : Bool := (p.session.traffic x).congested

/-- When a callback is going to be run, the bytes of the peer that is not paused though the
other side is congested have all been read. -/
def CaughtUp (p : SocksPeers) : List (Side × Functor) → Prop
  | (x, .highWaterMarkCallback _) :: _ => p.congested x.other = true ∨ p.unread x.other = []
  | (x, .writeCompleteCallback) :: _ => p.congested x.other = true → p.unread x = []
  | _ => True

/-- The peer opposite to a congested side sends nothing, unless its own side is congested too, and
when the congestion of a side begins or ends, the peer that is on from then has nothing unread. -/
def PeersWait (p : SocksPeers) : Event → Prop
  | .send side _ => p.congested side.other = true → p.congested side = true
  | .loop (.functor _) => p.CaughtUp p.session.functors
  | .loop _ => True

end SocksPeers

namespace SocksSession

variable {s t u : SocksSession} {side x : Side} {c : TcpConnection} {w : WriteResult}

/-- A step that neither starts to read nor changes who is congested. -/
structure Hushed (s t : SocksSession) : Prop where
  conn : ∀ x, TcpConnection.Hushes (s.conn x) (t.conn x)
  congested : ∀ x, (t.traffic x).congested = (s.traffic x).congested

theorem Hushed.of_eq (hconn : t.conn = s.conn) (htraffic : t.traffic = s.traffic) : Hushed s t := by
  constructor
  · intro x
    rw [hconn]
    exact .of_eq rfl
  · intro x
    rw [htraffic]

theorem Hushed.trans (h : Hushed s t) (h' : Hushed t u) : Hushed s u :=
  ⟨fun x => (h.conn x).trans (h'.conn x), fun x => (h'.congested x).trans (h.congested x)⟩

theorem Hushed.put (h : TcpConnection.Hushes (s.conn side) c) : Hushed s (s.put side c) := by
  constructor
  · intro x
    apply put_conn (TcpConnection.Hushes (s.conn x))
    · intro hx
      rw [hx]
      exact h.trans (.of_eq rfl)
    · intro _
      exact .of_eq rfl
  · intro x
    rfl

theorem Hushed.updateTraffic (s : SocksSession) (side : Side) (f : Traffic → Traffic)
    (hf : ∀ t, (f t).congested = t.congested) : Hushed s (s.updateTraffic side f) := by
  constructor
  · intro x
    exact .of_eq rfl
  · intro x
    by_cases hx : x = side
    · rw [hx, updateTraffic_self]
      exact hf _
    · rw [updateTraffic_ne hx]

theorem shutdown_hushed (s : SocksSession) (side : Side) : Hushed s (s.shutdown side) :=
  (Hushed.put (TcpConnection.shutdown_hushes _)).trans (.of_eq rfl rfl)

theorem connectionCallback_hushed (s : SocksSession) (side : Side) :
    Hushed s (s.connectionCallback side) := by
  cases side with
  | server =>
    simp only [connectionCallback]
    split
    · exact shutdown_hushed s .client
    · exact .of_eq rfl rfl
  | client =>
    simp only [connectionCallback]
    split
    · exact shutdown_hushed s .server
    · exact .of_eq rfl rfl

theorem goesDown_hushed (h : s.goesDown side = .ok t) : Hushed s t := by
  unfold goesDown at h
  dsimp only at h
  have hlog : Hushed s { s with closes := s.closes ++ [(side, (s.conn side).log.accepted)] } :=
    .of_eq rfl rfl
  have hcall := hlog.trans (connectionCallback_hushed _ side)
  cases side with
  | server =>
    cases h
    exact hcall.trans (.of_eq rfl rfl)
  | client =>
    obtain ⟨-, -, h⟩ := bind_ok h
    cases h
    exact hcall.trans (.of_eq rfl rfl)

theorem handleClose_hushed (hs : Held s) (h : s.handleClose side = .ok t) : Hushed s t := by
  obtain ⟨c, hc, h⟩ := bind_ok h
  have hclose := TcpConnection.handleClose_hushes (hs.sound side) (lift_ok hc)
  exact (Hushed.put hclose).trans (goesDown_hushed h)

theorem received_hushed (s : SocksSession) (side : Side) (b : Buffer) (n : Nat) :
    Hushed s (s.received side b n) := by
  have hput : Hushed s (s.put side { s.conn side with inputBuffer := b }) := .put (.of_eq rfl)
  unfold received countRead
  refine (hput.trans (.updateTraffic _ _ _ ?_)).trans (.updateTraffic _ _ _ ?_)
  · intro _
    rfl
  · intro _
    rfl

theorem relay_hushed (hs : Held s) (hw : w.taken ≤ (s.conn side).inputBuffer.readableBytes)
    (h : s.relay side w = .ok t) : Hushed s t := by
  unfold relay at h
  dsimp only at h
  split at h
  · rename_i hup
    obtain ⟨data, hdata, h⟩ := bind_ok h
    obtain ⟨peer, hpeer, h⟩ := bind_ok h
    cases h
    rw [Buffer.load_contents (hs.sound side).input] at hdata
    cases hdata
    have hsends := contents_sends hs hw
    have hpeer := TcpConnection.sendInLoop_hushes (hs.sound side.other) hsends (by simp [hup])
      (lift_ok hpeer)
    have hmarked := fun crossing =>
      Hushed.updateTraffic s side.other ({ · with crossing }) fun _ => rfl
    refine ((hmarked _).trans (.put hpeer)).trans (.put ?_)
    apply TcpConnection.Hushes.of_eq
    rw [put_ne side.ne_other]
    rfl
  · cases h
    exact .of_eq rfl rfl

theorem handleRead_hushed {read : Option Bytes} (hs : Held s)
    (hd : (read.getD []).length ≤ (s.conn side).inputBuffer.iovBytes)
    (hw : w.taken ≤ (s.conn side).inputBuffer.readableBytes + (read.getD []).length)
    (hdue : ∀ d ∈ s.due, d.callback = .read → d.side ≠ side)
    (h : s.handleRead side read w = .ok t) : Hushed s t := by
  obtain ⟨b, hb, hlen, hcases⟩ := handleRead_cases hs hd h
  have hread := received_hushed s side b
  rcases hcases with ⟨-, rfl⟩ | ⟨-, h⟩ | ⟨data, rfl, -, h⟩
  · exact hread 0
  · exact (hread 0).trans (handleClose_hushed (hs.received hb hdue) h)
  · refine (hread _).trans (relay_hushed (hs.received hb hdue) ?_ (messageCallback_relay h))
    rw [received_input, hlen]
    exact hw

theorem handleWrite_hushed (hs : Held s) (hw : w.taken ≤ (s.conn side).outputBuffer.readableBytes)
    (h : s.handleWrite side w = .ok t) : Hushed s t := by
  obtain ⟨c, hc, h⟩ := bind_ok h
  cases h
  exact .put (TcpConnection.handleWrite_hushes (hs.sound side) hw (lift_ok hc))

theorem handle_hushed {d : Due} {due : List Due} (hs : Held s) (hdue : s.due = d :: due)
    (hw : s.Takes d w) (h : handleEvent { s with due } d w = .ok t) : Hushed s t := by
  have hpop : Hushed s { s with due } := .of_eq rfl rfl
  have hheld := hs.popDue hdue
  have honce := hs.once
  rw [hdue, List.pairwise_cons] at honce
  apply hpop.trans
  simp only [handleEvent] at h
  cases hc : d.callback with
  | close =>
    rw [hc] at h
    exact handleClose_hushed hheld h
  | error =>
    rw [hc] at h
    cases h
    exact .of_eq rfl rfl
  | read =>
    simp only [Takes, hc] at hw
    rw [hc] at h
    have hmem : d ∈ s.due := by
      rw [hdue]
      exact List.mem_cons_self
    apply handleRead_hushed hheld (hs.fits d hmem hc) hw _ h
    intro e he hr
    exact (honce.1 e he hc hr).symm
  | write =>
    simp only [Takes, hc] at hw
    rw [hc] at h
    exact handleWrite_hushed hheld hw h

/-- Which steps may fail, and how: `handleClose` and the removal of a channel have assertions, a
vector cannot grow for ever, and a client may send after the outbound connection has gone. -/
def MayFail (s : SocksSession) : Event → Crash → Prop
  | .handle _, f => ∃ d ∈ s.due.head?,
    f = .fault .assertion ∧ (d.callback = .close ∨ d.callback = .read ∧ d.read = some []) ∨
    f = .fault .lengthError ∧ d.callback = .read ∨
    f = .nullPointer ∧ d.callback = .read ∧ d.side = .server ∧ s.connection = false
  | .functor _, f => f = .fault .assertion ∧
    ∃ q ∈ s.functors.head?, q.2 = .connectDestroyed
  | _, _ => False

theorem lift_yields {α : Type} {r : Except Fault α} {ok : α → Prop} {g : Fault}
    (h : Yields ok (· = g) r) : Yields ok (· = .fault g) (lift r) := by
  cases r with
  | ok a => exact h
  | error f => exact congrArg Crash.fault h

theorem handleClose_asserts (hs : Held s) :
    Yields (fun _ => True) (· = .fault .assertion) (s.handleClose side) := by
  have hclose : Yields (fun _ => True) (· = Fault.assertion) (s.conn side).handleClose := by
    unfold TcpConnection.handleClose
    by_cases hst : (s.conn side).state = .kConnected ∨ (s.conn side).state = .kDisconnecting
    · rw [check_pos hst]
      simp only [ok_bind, Channel.disableAll_eq (hs.sound side).channel]
      trivial
    · rw [check_neg hst]
      rfl
  refine (lift_yields hclose).bind fun c _ => ?_
  unfold goesDown
  cases side with
  | server => trivial
  | client =>
    have hcheck : ∀ b : Bool, Yields (fun _ => True) (· = Fault.assertion) (check (b = true)) := by
      intro b
      cases b with
      | true => exact trivial
      | false => exact rfl
    exact (lift_yields (hcheck _)).bind fun _ _ => trivial

theorem messageCallback_overflows (hs : Held s) (hcontext : s.context = true)
    (hw : w.taken ≤ (s.conn side).inputBuffer.readableBytes) :
    Yields (fun _ => True) (fun f => f = .fault .lengthError ∨
      f = .nullPointer ∧ side = .server ∧ s.connection = false) (s.messageCallback side w) := by
  have hrelay : Yields (fun _ => True) (· = .fault .lengthError) (s.relay side w) := by
    unfold relay
    dsimp only
    split
    · rename_i hup
      rw [Buffer.load_contents (hs.sound side).input]
      have hsend := TcpConnection.sendInLoop_yields (hs.sound side.other) (contents_sends hs hw)
        (by simp [hup])
      exact (lift_yields (hsend.mono fun _ _ => trivial)).bind fun _ _ => trivial
    · trivial
  cases side with
  | server =>
    unfold messageCallback onServerMessage
    dsimp only
    by_cases hconn : s.connection = true
    · rw [if_pos hconn]
      exact hrelay.weaken fun f hf => .inl hf
    · rw [if_neg hconn]
      exact .inr ⟨rfl, rfl, Bool.eq_false_of_not_eq_true hconn⟩
  | client =>
    simp only [messageCallback, onClientMessage, hcontext, if_true]
    exact hrelay.weaken fun f hf => .inl hf

theorem handleRead_ends {read : Option Bytes} (hs : Held s) (hcontext : s.context = true)
    (hd : (read.getD []).length ≤ (s.conn side).inputBuffer.iovBytes)
    (hw : w.taken ≤ (s.conn side).inputBuffer.readableBytes + (read.getD []).length)
    (hdue : ∀ d ∈ s.due, d.callback = .read → d.side ≠ side) :
    Yields (fun _ => True) (fun f => f = .fault .assertion ∧ read = some [] ∨
      f = .fault .lengthError ∨ f = .nullPointer ∧ side = .server ∧ s.connection = false)
      (s.handleRead side read w) := by
  have hinput := (hs.sound side).input
  cases read with
  | none => trivial
  | some data =>
    have hread := lift_yields (Buffer.readFd_holds hinput hd)
    refine Yields.bind (hread.weaken fun f hf => .inr (.inl hf)) fun b hb => ?_
    have hreceived := fun n => @Held.received s side b n hs hb.1 hdue
    cases data with
    | nil => exact (handleClose_asserts (hreceived 0)).weaken fun f hf => .inl ⟨hf, rfl⟩
    | cons first rest =>
      have htaken : w.taken ≤ ((s.received side b (first :: rest).length).conn
          side).inputBuffer.readableBytes := by
        rw [received_input, hb.1.readable_length, hb.2, List.length_append]
        rw [hinput.readable_length] at hw
        exact hw
      exact (messageCallback_overflows (hreceived _) hcontext htaken).weaken fun f hf => .inr hf

theorem handle_faults {w : WriteResult} (hs : Held s) (hcontext : s.context = true)
    (he : s.enabled (.handle w)) :
    Yields (fun _ => True) (s.MayFail (.handle w)) (s.step (.handle w)) := by
  obtain ⟨d, hd, hw⟩ := he
  obtain ⟨due, hdue⟩ := List.head?_eq_some_iff.mp hd
  have hheld := hs.popDue hdue
  have hmem : d ∈ s.due := by
    rw [hdue]
    exact List.mem_cons_self
  have honce := hs.once
  rw [hdue, List.pairwise_cons] at honce
  simp only [SocksSession.step, hdue, handleEvent]
  cases hc : d.callback with
  | close =>
    apply (handleClose_asserts hheld).weaken
    intro f hf
    exact ⟨d, hd, .inl ⟨hf, .inl hc⟩⟩
  | error => trivial
  | read =>
    simp only [Takes, hc] at hw
    have hfits := hs.fits d hmem hc
    have hothers : ∀ e ∈ due, e.callback = .read → e.side ≠ d.side := by
      intro e he hr
      exact (honce.1 e he hc hr).symm
    refine (handleRead_ends hheld hcontext hfits hw hothers).weaken fun f hf => ⟨d, hd, ?_⟩
    rcases hf with ⟨hf, hr⟩ | hf | ⟨hf, hside, hconn⟩
    · exact .inl ⟨hf, .inr ⟨hc, hr⟩⟩
    · exact .inr (.inl ⟨hf, hc⟩)
    · exact .inr (.inr ⟨hf, hc, hside, hconn⟩)
  | write =>
    simp only [Takes, hc] at hw
    have hwrite := TcpConnection.handleWrite_yields (hs.sound d.side) hw
    obtain ⟨c, hc, -⟩ := hwrite.returns
    simp only [handleWrite, hc]
    trivial

theorem functor_faults {w : WriteResult} (hs : Held s) (he : s.enabled (.functor w)) :
    Yields (fun _ => True) (s.MayFail (.functor w)) (s.step (.functor w)) := by
  cases hf' : s.functors with
  | nil => exact absurd hf' he.1
  | cons q functors =>
    obtain ⟨side, f⟩ := q
    have hqueued := hs.queued (side, f) (by rw [hf']; exact List.mem_cons_self)
    simp only [SocksSession.step, hf']
    rcases hqueued with rfl | ⟨n, rfl⟩ | ⟨rfl, hdown⟩
    · obtain ⟨c, hc⟩ := TcpConnection.startReadInLoop_ok (hs.sound side)
      simp only [runFunctor, onWriteComplete, hc]
      trivial
    · obtain ⟨c, hc⟩ := TcpConnection.stopReadInLoop_ok (hs.sound side)
      simp only [runFunctor, onHighWaterMark, hc]
      trivial
    · have hnot : ¬(s.conn side).state = .kConnected := by
        dsimp only at hdown
        simp [hdown]
      have hremove : Yields (fun _ => True) (· = Fault.assertion) (s.conn side).removeChannel :=
        (Channel.remove_yields (hs.sound side).channel).bind fun _ _ => trivial
      simp only [runFunctor, connectDestroyed, hnot, if_false, ok_bind]
      refine Yields.bind ((lift_yields hremove).weaken fun f hf => ?_) fun _ _ => trivial
      refine ⟨hf, (side, .connectDestroyed), ?_, rfl⟩
      rw [hf']
      rfl

theorem step_faults {e : Event} (hs : Held s) (hcontext : s.context = true) (he : s.enabled e) :
    Yields (fun _ => True) (s.MayFail e) (s.step e) := by
  cases e with
  | poll ready => trivial
  | doPendingFunctors => trivial
  | removeConnectionInLoop => trivial
  | handle w => exact handle_faults hs hcontext he
  | functor w => exact functor_faults hs he

end SocksSession

namespace SocksPeers
open SocksSession

variable {p p' : SocksPeers}

/-- A congested side is paused, and what its opposite peer has sent is read, or not going to
be before that peer's own side has drained. -/
structure Kept (p : SocksPeers) : Prop where
  held : Held p.session
  wired : Wired p.session
  levels : Levels p.session
  shown : ∀ x, (p.session.conn x).channel.Shown
  paused : ∀ x, p.congested x = true → (p.session.conn x).channel.isReading = false
  idle : ∀ x, p.congested x = true → p.congested x.other = true ∨ p.unread x.other = []

theorem Starts.kept (h : Starts p) : Kept p := by
  have hbegun := starts_begun h.1
  have hcalm : ∀ x, p.congested x = false := by
    intro x
    rw [congested, hbegun.traffic]
  refine ⟨hbegun.held, hbegun.wired, ⟨fun x => hbegun.level, fun x => hbegun.spare⟩, h.2, ?_, ?_⟩
  · intro x hx
    rw [hcalm] at hx
    cases hx
  · intro x hx
    rw [hcalm] at hx
    cases hx

/-- What `poll` reports of a side opposite to a congested one is not read. -/
theorem Kept.peersQuiet (h : Kept p) {ready : List Ready} (he : p.session.enabled (.poll ready))
    (hf : p.Finds (.poll ready)) : PeersQuiet p.session (.poll ready) := by
  intro r hr hread hc
  have hidle := h.idle r.side.other hc
  rw [Side.other_other] at hidle
  cases hidle with
  | inl hown =>
    have hreports := (he.2.2.2 r hr).1
    exact absurd hread (TcpConnection.no_read_callback (h.shown _) (h.paused _ hown) hreports)
  | inr hempty =>
    have hfinds := hf r hr
    rw [hempty, List.prefix_nil] at hfinds
    exact hfinds

/-- A step of the loop that leaves the congestion alone. -/
theorem Kept.hushed (h : Kept p) {t : SocksSession} {unread : Side → Bytes}
    (hh : Hushed p.session t) (hheld : Held t) (hwired : Wired t) (hlevels : Levels t)
    (hunread : ∀ x, p.unread x = [] → unread x = []) : Kept ⟨t, unread⟩ := by
  refine ⟨hheld, hwired, hlevels, fun x => (hh.conn x).shown (h.shown x), ?_, ?_⟩
  · intro x hx
    have hc : p.congested x = true := (hh.congested x).symm.trans hx
    apply Bool.eq_false_of_not_eq_true
    intro hon
    exact absurd ((hh.conn x).reading hon) (by simp [h.paused x hc])
  · intro x hx
    have hc : p.congested x = true := (hh.congested x).symm.trans hx
    apply (h.idle x hc).imp
    · intro hother
      exact (hh.congested x.other).trans hother
    · exact hunread x.other

/-- The callback of a side that is going to be congested, or not to be any more. -/
theorem Kept.settled (h : Kept p) {side : Side} {t : SocksSession} {c : TcpConnection}
    {congested : Bool} (hconn : t.conn = (p.session.put side c).conn)
    (htraffic : t.traffic = Function.update p.session.traffic side
      { p.session.traffic side with congested })
    (hheld : Held t) (hwired : Wired t) (hlevels : Levels t) (hshown : c.channel.Shown)
    (hpaused : congested = true → c.channel.isReading = false)
    (hside : congested = true → p.congested side.other = true ∨ p.unread side.other = [])
    (hother : congested = false → p.congested side.other = true → p.unread side = []) :
    Kept ⟨t, p.unread⟩ := by
  have hself : (t.traffic side).congested = congested := by rw [htraffic, Function.update_self]
  have hne : ∀ x ≠ side, (t.traffic x).congested = p.congested x := by
    intro x hx
    rw [htraffic, Function.update_of_ne hx]
    rfl
  refine ⟨hheld, hwired, hlevels, ?_, ?_, ?_⟩
  · intro x
    dsimp only
    rw [hconn]
    exact put_conn (·.channel.Shown) (fun _ => hshown) fun _ => h.shown x
  · intro x hx
    change (t.traffic x).congested = true at hx
    dsimp only
    rw [hconn]
    apply put_conn (fun c => c.channel.isReading = false)
    · intro heq
      rw [heq, hself] at hx
      exact hpaused hx
    · intro hdiff
      rw [hne x hdiff] at hx
      exact h.paused x hx
  · intro x hx
    change (t.traffic x).congested = true at hx
    change (t.traffic x.other).congested = true ∨ p.unread x.other = []
    cases side.eq_or_other x with
    | inl heq =>
      rw [heq, hself] at hx
      rw [heq, hne _ side.other_ne]
      exact hside hx
    | inr heq =>
      rw [heq, hne _ side.other_ne] at hx
      rw [heq, Side.other_other, hself]
      cases hc : congested with
      | true => exact .inl rfl
      | false => exact .inr (hother hc hx)

theorem Kept.functor (h : Kept p) {side : Side} {f : Functor} {functors : List (Side × Functor)}
    {w : WriteResult} {t : SocksSession} (hf : p.session.functors = (side, f) :: functors)
    (hc : p.CaughtUp p.session.functors) (hheld : Held t) (hwired : Wired t) (hlevels : Levels t)
    (hok : runFunctor { p.session with functors } side f w = .ok t) : Kept ⟨t, p.unread⟩ := by
  have hqueued := h.held.queued (side, f) (by rw [hf]; exact List.mem_cons_self)
  rw [hf] at hc
  rcases hqueued with rfl | ⟨n, rfl⟩ | ⟨rfl, hdown⟩
  · obtain ⟨c, hstart, hok⟩ := bind_ok hok
    cases hok
    have hshown := TcpConnection.startReadInLoop_shown (h.held.sound side) (lift_ok hstart)
      (h.shown side)
    exact h.settled rfl rfl hheld hwired hlevels hshown (by simp) (by simp) fun _ => hc
  · obtain ⟨c, hstop, hok⟩ := bind_ok hok
    cases hok
    obtain ⟨hhush, hoff⟩ := TcpConnection.stopReadInLoop_hushes (h.held.sound side) (lift_ok hstop)
    exact h.settled rfl rfl hheld hwired hlevels (hhush.shown (h.shown side)) (fun _ => hoff)
      (fun _ => hc) (by simp)
  · dsimp only at hdown
    unfold runFunctor connectDestroyed at hok
    have hnot : ¬(p.session.conn side).state = .kConnected := by simp [hdown]
    simp only [hnot, if_false, ok_bind] at hok
    obtain ⟨c, hremove, hok⟩ := bind_ok hok
    cases hok
    have hhush := TcpConnection.removeChannel_hushes (h.held.sound side) (lift_ok hremove)
    have hpop : Hushed p.session { p.session with functors } := .of_eq rfl rfl
    exact h.hushed (hpop.trans (.put hhush)) hheld hwired hlevels fun _ => id

def MayFail (p : SocksPeers) : Event → Crash → Prop
  | .send _ _, _ => False
  | .loop e, f => p.session.MayFail e f

theorem Kept.send (h : Kept p) {side : Side} {data : Bytes} (hw : PeersWait p (.send side data)) :
    Kept { p with unread := Function.update p.unread side (p.unread side ++ data) } := by
  refine ⟨h.held, h.wired, h.levels, h.shown, h.paused, ?_⟩
  intro x hx
  change p.congested x.other = true ∨ Function.update p.unread side _ x.other = []
  by_cases heq : x.other = side
  · left
    rw [heq]
    apply hw
    rw [← heq, Side.other_other]
    exact hx
  · rw [Function.update_of_ne heq]
    exact h.idle x hx

/-- What has been read was all there was. -/
theorem consume_nil (p : SocksPeers) (e : SocksSession.Event) {x : Side} (h : p.unread x = []) :
    p.consume e x = [] := by
  cases e with
  | handle w =>
    cases hdue : p.session.due with
    | nil =>
      simp only [consume, hdue]
      exact h
    | cons d due =>
      simp only [consume, hdue]
      split
      · by_cases hx : x = d.side
        · rw [← hx, Function.update_self, h, List.drop_nil]
        · rw [Function.update_of_ne hx]
          exact h
      · exact h
  | poll ready => exact h
  | doPendingFunctors => exact h
  | functor w => exact h
  | removeConnectionInLoop => exact h

theorem Kept.loop (h : Kept p) {e : SocksSession.Event} (he : p.enabled (.loop e))
    (hw : PeersWait p (.loop e)) {t : SocksSession} (hok : p.session.step e = .ok t) :
    Kept ⟨t, p.consume e⟩ := by
  have hheld := h.held.step he.1 hok
  have hwired := h.wired.step h.held he.1 hok
  cases e with
  | poll ready =>
    have hlevels := h.levels.step h.held he.1 (h.peersQuiet he.1 he.2) hok
    cases hok
    exact h.hushed ⟨fun x => .of_eq rfl, fun x => rfl⟩ hheld hwired hlevels fun _ => id
  | handle w =>
    have hlevels := h.levels.step h.held he.1 trivial hok
    obtain ⟨d, hd, htakes⟩ := he.1
    obtain ⟨due, hdue⟩ := List.head?_eq_some_iff.mp hd
    simp only [SocksSession.step, hdue] at hok
    have hhush := handle_hushed h.held hdue htakes hok
    exact h.hushed hhush hheld hwired hlevels fun x hx => consume_nil p _ hx
  | doPendingFunctors =>
    have hlevels := h.levels.step h.held he.1 trivial hok
    cases hok
    exact h.hushed (.of_eq rfl rfl) hheld hwired hlevels fun _ => id
  | functor w =>
    have hlevels := h.levels.step h.held he.1 trivial hok
    cases hf : p.session.functors with
    | nil => exact absurd hf he.1.1
    | cons q functors =>
      simp only [SocksSession.step, hf] at hok
      exact h.functor hf hw hheld hwired hlevels hok
  | removeConnectionInLoop =>
    have hlevels := h.levels.step h.held he.1 trivial hok
    cases hok
    exact h.hushed (.of_eq rfl rfl) hheld hwired hlevels fun _ => id

theorem Kept.step (h : Kept p) {e : Event} (he : p.enabled e) (hw : PeersWait p e) :
    Yields Kept (MayFail p e) (p.step e) := by
  cases e with
  | send side data => exact h.send hw
  | loop e =>
    have hfaults := step_faults h.held h.wired.context he.1
    simp only [SocksPeers.step]
    cases hok : p.session.step e with
    | ok t => exact h.loop he hw hok
    | error f =>
      rw [hok] at hfaults
      exact hfaults

end SocksPeers

end Muduo.Examples
