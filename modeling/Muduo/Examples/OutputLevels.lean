import Muduo.Examples.SessionSound

namespace Muduo.Examples
open Muduo.Lib Muduo.Net

namespace SocksSession

variable {s t : SocksSession} {side x : Side} {c : TcpConnection} {w : WriteResult} {n : Nat}

/-- The bytes that wait to be written on a side. -/
def output (s : SocksSession) (x : Side) : Nat := (s.conn x).outputBuffer.readableBytes

def input (s : SocksSession) (x : Side) : Nat := (s.conn x).inputBuffer.readableBytes

/-- When `poll` returns, the socket opposite to a congested side has no bytes to read. -/
def PeersQuiet (s : SocksSession) : Event → Prop
  | .poll ready => ∀ r ∈ ready, .read ∈ Channel.handleEventWithGuard r.revents →
    (s.traffic r.side.other).congested = true → r.read.getD [] = []
  | _ => True

/-- What a functor makes of the congestion of side `x`. -/
def settle (x : Side) (congested : Bool) (q : Side × Functor) : Bool :=
  if q.1 = x then
    match q.2 with
    | .highWaterMarkCallback _ => true
    | .writeCompleteCallback => false
    | _ => congested
  else congested

/-- What the queued functors make of it. -/
def settles (x : Side) (qs : List (Side × Functor)) (congested : Bool) : Bool :=
  qs.foldl (settle x) congested

theorem settles_append (qs rs : List (Side × Functor)) (b : Bool) :
    settles x (qs ++ rs) b = settles x rs (settles x qs b) := List.foldl_append

theorem settles_ne {qs : List (Side × Functor)} (h : ∀ q ∈ qs, q.1 ≠ x) (b : Bool) :
    settles x qs b = b := by
  induction qs generalizing b with
  | nil => rfl
  | cons q qs ih =>
    have hq : settle x b q = b := if_neg (h q List.mem_cons_self)
    rw [settles, List.foldl_cons, hq]
    exact ih (fun r hr => h r (List.mem_cons_of_mem _ hr)) b

/-- Without a callback of the mark nothing becomes congested. -/
theorem settles_low {qs : List (Side × Functor)} (h : ∀ n, (x, .highWaterMarkCallback n) ∉ qs) :
    settles x qs false = false := by
  induction qs with
  | nil => rfl
  | cons q qs ih =>
    have hq : settle x false q = false := by
      unfold settle
      split
      · rename_i hx
        split
        · rename_i n hf
          have hqe : q = (x, .highWaterMarkCallback n) := Prod.ext hx hf
          exact absurd (hqe ▸ List.mem_cons_self) (h n)
        · rfl
        · rfl
      · rfl
    rw [settles, List.foldl_cons, hq]
    exact ih fun n hn => h n (List.mem_cons_of_mem _ hn)

/-- The output of a side, and what the loop still has to do about it. -/
structure Level (s : SocksSession) (x : Side) : Prop where
  bound : s.output x ≤ maxBuffer + (s.traffic x).crossing
  settled : maxBuffer ≤ s.output x →
    settles x (s.functors ++ s.pendingFunctors) (s.traffic x).congested = true
  overrun : (s.traffic x).overrun = 0
  fresh : (∃ d ∈ s.due, d.callback = .read ∧ d.side = x.other) → (s.traffic x.other).read = 0 ∧
    ∀ n, (x, .highWaterMarkCallback n) ∉ s.pendingFunctors
  swapped : s.polled = false → ∀ n, (x, .highWaterMarkCallback n) ∉ s.pendingFunctors
  idle : ∀ d ∈ s.due, d.callback = .read → d.side = x.other →
    (s.traffic x).congested = true → d.read.getD [] = []

/-- What came before the session was established is short, and waits until the next read. -/
def Spare (s : SocksSession) (x : Side) : Prop :=
  (s.conn x).state = .kConnected → s.input x.other = 0 ∨ s.input x.other + s.output x ≤ 512

theorem Begun.level (h : Begun s) : Level s x where
  bound := by
    have hreply := h.reply
    have hout := h.outbound.2
    cases x with
    | server => unfold output maxBuffer; omega
    | client => unfold output; omega
  settled hmax := by
    have hreply := h.reply
    have hout := h.outbound.2
    unfold output maxBuffer at hmax
    cases x with
    | server => omega
    | client => omega
  overrun := by rw [h.traffic]
  fresh _ := by
    rw [h.traffic]
    exact ⟨rfl, fun n hn => nomatch h.pending _ hn⟩
  swapped _ n hn := nomatch h.pending _ hn
  idle d _ _ _ hc := by
    rw [h.traffic] at hc
    exact nomatch hc

theorem Begun.spare (h : Begun s) : Spare s x := by
  intro _
  have hearly := h.early
  have hout := h.outbound
  cases x with
  | server => exact .inl hout.1
  | client =>
    refine .inr ?_
    change (s.conn .server).inputBuffer.readableBytes + (s.conn .client).outputBuffer.readableBytes ≤ _
    omega

/-- Bookkeeping that the level does not depend on. -/
theorem Level.of_eq (h : Level s x) (hconn : t.conn = s.conn) (hfunctors : t.functors = s.functors)
    (hpending : t.pendingFunctors = s.pendingFunctors) (htraffic : t.traffic = s.traffic)
    (hdue : ∀ d ∈ t.due, d ∈ s.due) (hpolled : t.polled = s.polled) : Level t x where
  bound := by
    unfold output
    rw [hconn, htraffic]
    exact h.bound
  settled := by
    unfold output
    rw [hconn, hfunctors, hpending, htraffic]
    exact h.settled
  overrun := by
    rw [htraffic]
    exact h.overrun
  fresh := by
    rintro ⟨d, hd, hcase⟩
    rw [htraffic, hpending]
    exact h.fresh ⟨d, hdue d hd, hcase⟩
  swapped := by
    rw [hpolled, hpending]
    exact h.swapped
  idle d hd := by
    rw [htraffic]
    exact h.idle d (hdue d hd)

theorem put_output_ne (h : x ≠ side) : (s.put side c).output x = s.output x := by
  rw [output, put_ne h, output]

theorem put_output_self : (s.put side c).output side = c.outputBuffer.readableBytes := by
  rw [output, put_self]

theorem put_input_ne (h : x ≠ side) : (s.put side c).input x = s.input x := by
  rw [input, put_ne h, input]

theorem put_input_self : (s.put side c).input side = c.inputBuffer.readableBytes := by
  rw [input, put_self]

/-- An operation on the opposite connection. -/
theorem Level.put_ne (h : Level s x) (hx : x ≠ side) : Level (s.put side c) x := by
  have hnew : ∀ q ∈ c.pendingFunctors.map (side, ·), q.1 ≠ x := by
    intro q hq
    obtain ⟨f, -, rfl⟩ := List.mem_map.mp hq
    exact hx.symm
  have hqueue : ∀ {f : Functor}, (x, f) ∉ s.pendingFunctors →
      (x, f) ∉ s.pendingFunctors ++ c.pendingFunctors.map (side, ·) := by
    intro f hf hmem
    cases List.mem_append.mp hmem with
    | inl hmem => exact hf hmem
    | inr hmem => exact hnew _ hmem rfl
  refine ⟨?_, fun hmax => ?_, h.overrun, fun hd => ?_, fun hp n => hqueue (h.swapped hp n), h.idle⟩
  · rw [put_output_ne hx]
    exact h.bound
  · rw [put_output_ne hx] at hmax
    change settles x (s.functors ++ (s.pendingFunctors ++ c.pendingFunctors.map (side, ·))) _ = true
    rw [← List.append_assoc, settles_append, settles_ne hnew]
    exact h.settled hmax
  · obtain ⟨hread, hlow⟩ := h.fresh hd
    exact ⟨hread, fun n => hqueue (hlow n)⟩

/-- An operation that adds no output. -/
theorem Level.put_self (h : Level s side)
    (hout : c.outputBuffer.readableBytes ≤ s.output side)
    (hqueue : c.pendingFunctors = [] ∨
      c.pendingFunctors = [.writeCompleteCallback] ∧ c.outputBuffer.readableBytes = 0) :
    Level (s.put side c) side := by
  have hlow : ∀ {n}, (side, .highWaterMarkCallback n) ∉ s.pendingFunctors →
      (side, .highWaterMarkCallback n) ∉
        s.pendingFunctors ++ c.pendingFunctors.map (side, ·) := by
    intro n hn hmem
    rcases List.mem_append.mp hmem with hmem | hmem
    · exact hn hmem
    · rcases hqueue with hq | ⟨hq, -⟩
      · rw [hq] at hmem
        exact nomatch hmem
      · rw [hq] at hmem
        simp at hmem
  refine ⟨?_, fun hmax => ?_, h.overrun, fun hd => ?_, fun hp n => hlow (h.swapped hp n), h.idle⟩
  · rw [put_output_self]
    exact Nat.le_trans hout h.bound
  · rw [put_output_self] at hmax
    rcases hqueue with hq | ⟨-, hzero⟩
    · change settles side (s.functors ++ (s.pendingFunctors ++ c.pendingFunctors.map _)) _ = true
      rw [hq, List.map_nil, List.append_nil]
      exact h.settled (Nat.le_trans hmax hout)
    · unfold maxBuffer at hmax
      omega
  · obtain ⟨hread, hn⟩ := h.fresh hd
    exact ⟨hread, fun n => hlow (hn n)⟩

/-- What the two invariants say together. -/
structure Levels (s : SocksSession) : Prop where
  level : ∀ x, Level s x
  spare : ∀ x, Spare s x

/-- An operation that moves nothing into a buffer. -/
theorem Levels.put (h : Levels s)
    (hstate : c.state = .kConnected → (s.conn side).state = .kConnected)
    (hin : c.inputBuffer.readableBytes = s.input side)
    (hout : c.outputBuffer.readableBytes ≤ s.output side)
    (hqueue : c.pendingFunctors = [] ∨
      c.pendingFunctors = [.writeCompleteCallback] ∧ c.outputBuffer.readableBytes = 0) :
    Levels (s.put side c) where
  level x := by
    by_cases hx : x = side
    · rw [hx]
      exact (h.level side).put_self hout hqueue
    · exact (h.level x).put_ne hx
  spare x hup := by
    have hinput : (s.put side c).input x.other = s.input x.other := by
      by_cases hx : x.other = side
      · rw [hx, put_input_self, hin]
      · exact put_input_ne hx
    rw [hinput]
    by_cases hx : x = side
    · subst hx
      rw [SocksSession.put_self] at hup
      rw [put_output_self]
      exact (h.spare x (hstate hup)).imp_right fun hle => by omega
    · rw [SocksSession.put_ne hx] at hup
      rw [put_output_ne hx]
      exact h.spare x hup

theorem Levels.put_still (h : Levels s) (hs : Held s)
    (hstill : TcpConnection.Still (s.conn side) c)
    (hstate : c.state = .kConnected → (s.conn side).state = .kConnected) :
    Levels (s.put side c) := by
  refine h.put hstate ?_ ?_ (.inl ?_)
  · rw [hstill.inputBuffer]
    rfl
  · rw [hstill.outputBuffer]
    exact Nat.le_refl _
  · rw [hstill.pendingFunctors]
    exact hs.emptied side

theorem Levels.of_eq (h : Levels s) (hconn : t.conn = s.conn) (hfunctors : t.functors = s.functors)
    (hpending : t.pendingFunctors = s.pendingFunctors) (htraffic : t.traffic = s.traffic)
    (hdue : ∀ d ∈ t.due, d ∈ s.due) (hpolled : t.polled = s.polled) : Levels t where
  level x := (h.level x).of_eq hconn hfunctors hpending htraffic hdue hpolled
  spare x := by
    unfold Spare input output
    rw [hconn]
    exact h.spare x

/-- `connectDestroyed` is queued. -/
theorem Levels.queueInLoop (h : Levels s) : Levels (s.queueInLoop side .connectDestroyed) where
  level x := by
    obtain ⟨hbound, hsettled, hoverrun, hfresh, hswapped, hidle⟩ := h.level x
    have hlow : ∀ {n}, (x, .highWaterMarkCallback n) ∉ s.pendingFunctors →
        (x, .highWaterMarkCallback n) ∉ s.pendingFunctors ++ [(side, .connectDestroyed)] := by
      intro n hn hmem
      cases List.mem_append.mp hmem with
      | inl hmem => exact hn hmem
      | inr hmem => simp at hmem
    refine ⟨hbound, fun hmax => ?_, hoverrun, fun hd => ?_, fun hp n => hlow (hswapped hp n), hidle⟩
    · change settles x (s.functors ++ (s.pendingFunctors ++ [(side, .connectDestroyed)])) _ = true
      rw [← List.append_assoc, settles_append]
      have hsame : ∀ b, settles x [(side, .connectDestroyed)] b = b := by
        intro b
        simp only [settles, List.foldl_cons, List.foldl_nil, settle, ite_self]
      rw [hsame]
      exact hsettled hmax
    · obtain ⟨hread, hn⟩ := hfresh hd
      exact ⟨hread, fun n => hlow (hn n)⟩
  spare := h.spare

theorem Levels.shutdown (h : Levels s) (hs : Held s) : Levels (s.shutdown side) := by
  obtain ⟨hstill, hst⟩ := TcpConnection.shutdown_still (hs.sound side)
  have hput := h.put_still hs hstill fun hc => by
    rw [hst] at hc
    split at hc
    · exact nomatch hc
    · exact hc
  exact hput.of_eq rfl rfl rfl rfl (fun _ => id) rfl

theorem Levels.connectionCallback (h : Levels s) (hs : Held s) :
    Levels (s.connectionCallback side) := by
  cases side with
  | server =>
    simp only [SocksSession.connectionCallback]
    split
    · exact h.shutdown hs
    · exact h
  | client =>
    simp only [SocksSession.connectionCallback]
    split
    · exact h.shutdown hs
    · exact h

theorem Levels.handleClose (h : Levels s) (hs : Held s) (hok : s.handleClose side = .ok t) :
    Levels t := by
  obtain ⟨c, hstill, -, hdown, hok⟩ := handleClose_cases hs hok
  have hput := h.put_still hs hstill fun hc => absurd (hdown.symm.trans hc) nofun
  have hheld := hs.put_same (hs.acts_still hstill fun _ => hdown) hstill.inputBuffer
  unfold SocksSession.goesDown at hok
  dsimp only at hok
  generalize hu : ({ s.put side c with closes := _ } : SocksSession) = u at hok
  have hlevels : Levels u := by
    rw [← hu]
    exact hput.of_eq rfl rfl rfl rfl (fun _ => id) rfl
  have hheld' : Held u := by
    rw [← hu]
    exact ⟨hheld.sound, hheld.emptied, hheld.mark, hheld.callback, hheld.queued, hheld.removing,
      hheld.polled, hheld.running, hheld.once, hheld.fits⟩
  have hcall := @Levels.connectionCallback u side hlevels hheld'
  cases side with
  | server =>
    cases hok
    exact hcall.of_eq rfl rfl rfl rfl (fun _ => id) rfl
  | client =>
    obtain ⟨-, -, hok⟩ := bind_ok hok
    cases hok
    have hgone : Levels { u.connectionCallback .client with connection := false } :=
      hcall.of_eq rfl rfl rfl rfl (fun _ => id) rfl
    exact hgone.queueInLoop

theorem Levels.popDue (h : Levels s) {d : Due} {due : List Due} (hdue : s.due = d :: due) :
    Levels { s with due } := by
  refine h.of_eq rfl rfl rfl rfl (fun e he => ?_) rfl
  rw [hdue]
  exact List.mem_cons_of_mem _ he

/-- A read on `side` has been taken off the callbacks that are due. -/
structure Reads (s : SocksSession) (side : Side) (n : Nat) : Prop where
  fresh : (s.traffic side).read = 0
  low : ∀ k, (side.other, .highWaterMarkCallback k) ∉ s.pendingFunctors
  idle : (s.traffic side.other).congested = true → n = 0
  once : ∀ d ∈ s.due, d.callback = .read → d.side ≠ side
  functors : s.functors = []
  polled : s.polled = true

theorem Levels.reads (h : Levels s) (hs : Held s) {d : Due} {due : List Due}
    (hdue : s.due = d :: due) (hread : d.callback = .read) :
    Reads { s with due } d.side (d.read.getD []).length := by
  have hmem : d ∈ s.due := by
    rw [hdue]
    exact List.mem_cons_self
  have honce := hs.once
  rw [hdue, List.pairwise_cons] at honce
  have hpolled := hs.polled (List.ne_nil_of_mem hmem)
  obtain ⟨hfresh, hlow⟩ := (h.level d.side.other).fresh ⟨d, hmem, hread, d.side.other_other.symm⟩
  rw [d.side.other_other] at hfresh
  refine ⟨hfresh, hlow, fun hc => ?_, fun e he hr => (honce.1 e he hread hr).symm, ?_, hpolled⟩
  · rw [(h.level d.side.other).idle d hmem hread d.side.other_other.symm hc]
    rfl
  · by_contra hne
    exact absurd hpolled (by simp [hs.running hne])

theorem received_traffic_self {b : Buffer} {n : Nat} :
    (s.received side b n).traffic side = { s.traffic side with read := (s.traffic side).read + n } := by
  unfold received countRead
  rw [updateTraffic_ne side.ne_other, updateTraffic_self]
  rfl

theorem received_traffic_other {b : Buffer} {n : Nat} :
    (s.received side b n).traffic side.other = { s.traffic side.other with
      overrun := (s.traffic side.other).overrun +
        if (s.traffic side.other).congested then n else 0 } := by
  unfold received countRead
  rw [updateTraffic_self, updateTraffic_ne side.other_ne]
  rfl

/-- A read: nothing when the opposite side is congested. -/
theorem Level.received {b : Buffer} {n : Nat} (h : Level s x) (hs : Held s)
    (hr : Reads s side n) : Level (s.received side b n) x := by
  have hput : Level (s.put side { s.conn side with inputBuffer := b }) x := by
    by_cases hx : x = side
    · subst hx
      exact h.put_self (Nat.le_refl _) (.inl (hs.emptied x))
    · exact h.put_ne hx
  obtain ⟨hbound, hsettled, hoverrun, hfresh, hswapped, hidle⟩ := hput
  rcases side.eq_or_other x with hx | hx
  · subst hx
    refine ⟨?_, ?_, ?_, fun hd => ?_, hswapped, ?_⟩
    · rw [received_traffic_self]
      exact hbound
    · rw [received_traffic_self]
      exact hsettled
    · rw [received_traffic_self]
      exact hoverrun
    · rw [received_traffic_other]
      exact hfresh hd
    · rw [received_traffic_self]
      exact hidle
  · subst hx
    refine ⟨?_, ?_, ?_, ?_, hswapped, ?_⟩
    · rw [received_traffic_other]
      exact hbound
    · rw [received_traffic_other]
      exact hsettled
    · rw [received_traffic_other]
      have hnone : (if (s.traffic side.other).congested then n else 0) = 0 := by
        split
        · rename_i hc
          exact hr.idle hc
        · rfl
      rw [hnone]
      exact hoverrun
    · rintro ⟨d, hd, hread, hside⟩
      rw [side.other_other] at hside
      exact absurd hside (hr.once d hd hread)
    · rw [received_traffic_other]
      exact hidle

/-- A read that finds nothing. -/
theorem Levels.received {b : Buffer} (h : Levels s) (hs : Held s) (hr : Reads s side 0)
    (hb : b.readableBytes = s.input side) : Levels (s.received side b 0) where
  level x := (h.level x).received hs hr
  spare x hup := by
    have hput : Levels (s.put side { s.conn side with inputBuffer := b }) :=
      h.put id hb (Nat.le_refl _) (.inl (hs.emptied side))
    exact hput.spare x hup

/-- A connection that takes the data of the opposite side ends below the mark, or queues the
callback of the mark, and nothing else queues it. -/
theorem relayed_output {c peer : TcpConnection} {crossing read old : Nat} (hc : c.pendingFunctors = [])
    (hmark : c.highWaterMark = maxBuffer) (hlow : c.outputBuffer.readableBytes < maxBuffer)
    (hq : TcpConnection.Queues c peer)
    (hcross : crossing = if peer.pendingFunctors.any isHighWater then read else old) :
    (peer.outputBuffer.readableBytes < maxBuffer ∧
      (peer.pendingFunctors = [] ∨ peer.pendingFunctors = [.writeCompleteCallback])) ∨
    crossing = read ∧ ∃ n, peer.pendingFunctors = [.highWaterMarkCallback n] := by
  rcases hq with ⟨hq, hbelow⟩ | ⟨hq, hzero⟩ | ⟨-, n, hq⟩
  · rw [hc] at hq
    rw [hmark] at hbelow
    exact .inl ⟨by omega, .inl hq⟩
  · rw [hc] at hq
    refine .inl ⟨?_, .inr hq⟩
    unfold maxBuffer
    omega
  · rw [hc] at hq
    rw [hq] at hcross
    exact .inr ⟨hcross, n, hq⟩

/-- Without congestion the output of the opposite side is below the mark. -/
theorem Levels.below (h : Levels s) (hr : Reads s side n) (hn : n ≠ 0) :
    s.output side.other < maxBuffer := by
  by_contra hmax
  have hsettled := (h.level side.other).settled (Nat.le_of_not_lt hmax)
  have hcalm : (s.traffic side.other).congested = false := by
    by_contra hc
    exact hn (hr.idle (by simpa using hc))
  rw [hr.functors, List.nil_append, hcalm, settles_low hr.low] at hsettled
  exact nomatch hsettled

theorem Level.recordCrossing (crossing : Nat) (h : Level s side) :
    Level (s.updateTraffic side.other ({ · with crossing })) side := by
  have hself : (s.updateTraffic side.other ({ · with crossing })).traffic side = s.traffic side :=
    updateTraffic_ne side.ne_other
  have hother : ((s.updateTraffic side.other ({ · with crossing })).traffic side.other).read =
      (s.traffic side.other).read := by
    rw [updateTraffic_self]
  obtain ⟨hbound, hsettled, hoverrun, hfresh, hswapped, hidle⟩ := h
  refine ⟨?_, ?_, ?_, ?_, hswapped, ?_⟩
  · rw [hself]
    exact hbound
  · rw [hself]
    exact hsettled
  · rw [hself]
    exact hoverrun
  · rw [hother]
    exact hfresh
  · rw [hself]
    exact hidle

/-- What the peer of a read is left with. -/
theorem Level.relayed {peer : TcpConnection} (crossing : Nat) (h : Level s side.other)
    (hpolled : s.polled = true) (honce : ∀ d ∈ s.due, d.callback = .read → d.side ≠ side)
    (hcases : (peer.outputBuffer.readableBytes < maxBuffer ∧
        (peer.pendingFunctors = [] ∨ peer.pendingFunctors = [.writeCompleteCallback])) ∨
      peer.outputBuffer.readableBytes ≤ maxBuffer + crossing ∧
        ∃ n, peer.pendingFunctors = [.highWaterMarkCallback n]) :
    Level ((s.updateTraffic side.other ({ · with crossing })).put side.other peer) side.other := by
  have htraffic : (s.updateTraffic side.other ({ · with crossing })).traffic side.other =
      { s.traffic side.other with crossing } := updateTraffic_self
  refine ⟨?_, fun hmax => ?_, ?_, ?_, ?_, ?_⟩
  · rw [put_output_self]
    change _ ≤ maxBuffer + ((s.updateTraffic side.other ({ · with crossing })).traffic _).crossing
    rw [htraffic]
    rcases hcases with ⟨hlow, -⟩ | ⟨hle, -⟩
    · dsimp only
      omega
    · exact hle
  · rw [put_output_self] at hmax
    rcases hcases with ⟨hlow, -⟩ | ⟨-, n, hq⟩
    · omega
    change settles side.other (s.functors ++ (s.pendingFunctors ++ peer.pendingFunctors.map _)) _ = _
    rw [hq, ← List.append_assoc, settles_append]
    simp [settles, settle]
  · change ((s.updateTraffic side.other ({ · with crossing })).traffic side.other).overrun = 0
    rw [htraffic]
    exact h.overrun
  · rintro ⟨d, hd, hread, hside⟩
    rw [side.other_other] at hside
    exact absurd hside (honce d hd hread)
  · intro hp
    exact absurd hpolled (by rw [show s.polled = false from hp]; nofun)
  · intro d hd hread hside
    rw [side.other_other] at hside
    exact absurd hside (honce d hd hread)

/-- A message that is relayed, or kept because the peer is not up. -/
theorem Levels.relay {b : Buffer} (h : Levels s) (hs : Held s) (hr : Reads s side n)
    (hn : n ≠ 0) (hb : b.Valid) (hlen : b.readableBytes = s.input side + n)
    (hw : w.taken ≤ b.readableBytes) (hok : (s.received side b n).relay side w = .ok t) :
    Levels t := by
  have hlevel : ∀ x, Level (s.received side b n) x := fun x => (h.level x).received hs hr
  have hheld : Held (s.received side b n) := hs.received hb hr.once
  have hbelow := h.below hr hn
  have hspare := h.spare side.other
  rw [Spare, side.other_other] at hspare
  have hread : ((s.received side b n).traffic side).read = n := by
    rw [received_traffic_self, hr.fresh]
    exact Nat.zero_add n
  have hinput : ((s.received side b n).conn side).inputBuffer = b := received_input
  have hother : (s.received side b n).conn side.other = s.conn side.other := received_other
  have hown : ∀ {v : SocksSession}, v.conn side = (s.received side b n).conn side →
      (v.conn side).state = (s.conn side).state ∧
        (v.conn side).outputBuffer = (s.conn side).outputBuffer := by
    intro v hv
    rw [hv]
    change ((s.put side _).conn side).state = _ ∧ ((s.put side _).conn side).outputBuffer = _
    rw [put_self]
    exact ⟨rfl, rfl⟩
  rcases relay_cases hheld (by rw [hinput]; exact hw) hok with
    ⟨hdown, rfl⟩ | ⟨peer, crossing, hup, hmoves, hout, hqueues, hcross, rfl⟩
  · refine ⟨hlevel, fun x hx => ?_⟩
    rcases side.eq_or_other x with rfl | rfl
    · obtain ⟨hst, hsame⟩ := hown rfl
      rw [hst] at hx
      rw [input, output, hother, hsame]
      exact h.spare x hx
    · exact absurd hx hdown
  · have hcases := relayed_output (hheld.emptied _) (hheld.mark _)
      (by rw [hother]; exact hbelow) hqueues hcross
    rw [hother] at hup hout
    rw [hinput, hlen] at hout
    have hsmall : s.input side + s.output side.other ≤ maxBuffer := by
      have hmax : (512 : Nat) ≤ maxBuffer := by decide
      cases hspare hup with
      | inl hzero => omega
      | inr hle => omega
    have hle : peer.outputBuffer.readableBytes ≤ maxBuffer + n := by
      change _ ≤ s.output side.other + _ at hout
      omega
    have hpeer := (hlevel side.other).relayed crossing hr.polled hr.once
      (hcases.imp_right fun ⟨hc, hq⟩ => ⟨by rw [hc, hread]; exact hle, hq⟩)
    have hself := (((hlevel side).recordCrossing crossing).put_ne side.ne_other
      : Level (.put _ _ peer) side)
    generalize hv : ((s.received side b n).updateTraffic side.other _).put side.other peer = v
      at hpeer hself
    have hvself : v.conn side = (s.received side b n).conn side := by
      rw [← hv]
      exact put_ne side.ne_other
    have hvother : v.conn side.other = { peer with pendingFunctors := [] } := by
      rw [← hv]
      exact put_self
    have hretrieved : b.retrieveAll.readableBytes = 0 := by
      rw [(Buffer.retrieveAll_valid hb).readable_length, Buffer.retrieveAll_contents]
      exact List.length_nil
    rw [hinput]
    refine ⟨fun x => ?_, fun x hx => ?_⟩
    · rcases side.eq_or_other x with rfl | rfl
      · refine hself.put_self ?_ (.inl (hheld.emptied x))
        rw [output, hvself]
      · exact hpeer.put_ne side.other_ne
    · rcases side.eq_or_other x with rfl | rfl
      · obtain ⟨hst, hsame⟩ := hown (v := s.received x b n) rfl
        rw [SocksSession.put_self] at hx
        rw [put_input_ne x.other_ne, put_output_self, input, hvother]
        change peer.inputBuffer.readableBytes = 0 ∨ peer.inputBuffer.readableBytes +
          ((s.received x b n).conn x).outputBuffer.readableBytes ≤ 512
        rw [hmoves.inputBuffer, hother, hsame]
        exact h.spare x (hst.symm.trans hx)
      · rw [side.other_other]
        refine .inl ?_
        rw [put_input_self]
        exact hretrieved

theorem Levels.handleRead {read : Option Bytes} (h : Levels s) (hs : Held s)
    (hr : Reads s side (read.getD []).length)
    (hd : (read.getD []).length ≤ (s.conn side).inputBuffer.iovBytes)
    (hw : w.taken ≤ (s.conn side).inputBuffer.readableBytes + (read.getD []).length)
    (hok : s.handleRead side read w = .ok t) : Levels t := by
  obtain ⟨b, hb, hlen, hcases⟩ := handleRead_cases hs hd hok
  have hnothing : read.getD [] = [] → Levels (s.received side b 0) := by
    intro hnone
    rw [hnone, List.length_nil] at hr
    rw [hnone, List.length_nil, Nat.add_zero] at hlen
    exact h.received hs hr hlen
  rcases hcases with ⟨hread, rfl⟩ | ⟨hread, hok⟩ | ⟨data, hread, hdata, hok⟩
  · exact hnothing (by rw [hread]; rfl)
  · have hlevels := hnothing (by rw [hread]; rfl)
    exact hlevels.handleClose (hs.received hb hr.once) hok
  · rw [hread, Option.getD_some] at hr hlen hw
    have hsome : data.length ≠ 0 := fun hzero => hdata (List.eq_nil_of_length_eq_zero hzero)
    refine h.relay hs hr hsome hb hlen ?_ (messageCallback_relay hok)
    rw [hlen]
    exact hw

theorem Levels.handleWrite (h : Levels s) (hs : Held s)
    (hw : w.taken ≤ (s.conn side).outputBuffer.readableBytes)
    (hok : s.handleWrite side w = .ok t) : Levels t := by
  obtain ⟨c, hc, hok⟩ := bind_ok hok
  cases hok
  obtain ⟨hmoves, -, hout, hqueues⟩ :=
    TcpConnection.handleWrite_queues (hs.sound side) hw (lift_ok hc)
  rw [hs.emptied side] at hqueues
  refine h.put (fun hup => hmoves.state.symm.trans hup) ?_ hout hqueues
  rw [hmoves.inputBuffer]
  rfl

theorem Levels.handle {d : Due} {due : List Due} (h : Levels s) (hs : Held s)
    (hdue : s.due = d :: due) (hw : s.Takes d w)
    (hok : handleEvent { s with due } d w = .ok t) : Levels t := by
  have hpop := h.popDue hdue
  have hheld := hs.popDue hdue
  simp only [handleEvent] at hok
  cases hc : d.callback with
  | close =>
    rw [hc] at hok
    exact hpop.handleClose hheld hok
  | error =>
    rw [hc] at hok
    cases hok
    exact hpop
  | read =>
    simp only [Takes, hc] at hw
    rw [hc] at hok
    have hmem : d ∈ s.due := by
      rw [hdue]
      exact List.mem_cons_self
    exact hpop.handleRead hheld (h.reads hs hdue hc) (hs.fits d hmem hc) hw hok
  | write =>
    simp only [Takes, hc] at hw
    rw [hc] at hok
    exact hpop.handleWrite hheld hw hok

/-- A functor takes the congestion of its side where the queue said it would. -/
theorem settled_functor {f : Functor} {functors : List (Side × Functor)}
    (hs : Held s) (hf : s.functors = (side, f) :: functors)
    (hok : runFunctor { s with functors } side f w = .ok t) : ∃ c,
      TcpConnection.Still (s.conn side) c ∧ c.state = (s.conn side).state ∧
      t = { s.put side c with
        functors
        traffic := Function.update s.traffic side { s.traffic side with
          congested := settle side (s.traffic side).congested (side, f) } } := by
  have hq := hs.queued (side, f) (by rw [hf]; exact List.mem_cons_self)
  obtain ⟨c, hstill, hst, hcases⟩ := runFunctor_cases (hs.popFunctor hf) hq hok
  refine ⟨c, hstill, hst, ?_⟩
  rcases hcases with ⟨rfl, rfl⟩ | ⟨⟨n, rfl⟩, rfl⟩ | ⟨rfl, rfl⟩
  · simp only [settle, if_true]
    rfl
  · simp only [settle, if_true]
    rfl
  · have hsame : settle side (s.traffic side).congested (side, .connectDestroyed) =
        (s.traffic side).congested := by
      simp only [settle, if_true]
    rw [hsame, Function.update_eq_self]
    rfl

theorem Levels.functor {f : Functor} {functors : List (Side × Functor)} (h : Levels s)
    (hs : Held s) (hf : s.functors = (side, f) :: functors)
    (hok : runFunctor { s with functors } side f w = .ok t) : Levels t := by
  obtain ⟨c, hstill, hst, rfl⟩ := settled_functor hs hf hok
  have hput := h.put_still hs hstill fun hup => hst.symm.trans hup
  have hpolled : s.polled = false := hs.running (by rw [hf]; nofun)
  have hdue : s.due = [] := by
    by_contra hne
    exact absurd (hs.polled hne) (by simp [hpolled])
  refine ⟨fun y => ?_, hput.spare⟩
  obtain ⟨hbound, hsettled, hoverrun, -, hswapped, -⟩ := hput.level y
  change _ → settles y (s.functors ++ _) (s.traffic y).congested = true at hsettled
  rw [hf, List.cons_append, settles, List.foldl_cons] at hsettled
  have htraffic : Function.update s.traffic side { s.traffic side with
      congested := settle side (s.traffic side).congested (side, f) } y = { s.traffic y with
        congested := settle y (s.traffic y).congested (side, f) } := by
    by_cases hy : y = side
    · rw [hy, Function.update_self]
    · rw [Function.update_of_ne hy, settle, if_neg (fun hx => hy hx.symm)]
  refine ⟨?_, ?_, ?_, ?_, hswapped, ?_⟩
  · dsimp only
    rw [htraffic]
    exact hbound
  · dsimp only
    rw [htraffic]
    exact hsettled
  · dsimp only
    rw [htraffic]
    exact hoverrun
  · rintro ⟨d, hd, -⟩
    change d ∈ s.due at hd
    rw [hdue] at hd
    exact nomatch hd
  · intro d hd
    change d ∈ s.due at hd
    rw [hdue] at hd
    exact nomatch hd

theorem Levels.poll {ready : List Ready} (h : Levels s) (hpolled : s.polled = false)
    (hquiet : PeersQuiet s (.poll ready)) : Levels { s with
      polled := true
      due := ready.flatMap Ready.due
      traffic := fun side => { s.traffic side with read := 0 } } := by
  refine ⟨fun x => ?_, h.spare⟩
  obtain ⟨hbound, hsettled, hoverrun, -, hswapped, -⟩ := h.level x
  refine ⟨hbound, hsettled, hoverrun, fun _ => ⟨rfl, hswapped hpolled⟩, nofun, ?_⟩
  intro d hd hread hside hc
  obtain ⟨r, hr, hd⟩ := List.mem_flatMap.mp hd
  obtain ⟨callback, hcallback, rfl⟩ := List.mem_map.mp hd
  dsimp only at hread hside
  rw [hread] at hcallback
  refine hquiet r hr hcallback ?_
  rw [hside, x.other_other]
  exact hc

theorem Levels.doPendingFunctors (h : Levels s) (hf : s.functors = []) (hdue : s.due = []) :
    Levels { s with polled := false, functors := s.pendingFunctors, pendingFunctors := [] } := by
  refine ⟨fun x => ?_, h.spare⟩
  obtain ⟨hbound, hsettled, hoverrun, -, -, -⟩ := h.level x
  rw [hf, List.nil_append] at hsettled
  refine ⟨hbound, ?_, hoverrun, ?_, fun _ _ => nofun, ?_⟩
  · dsimp only
    rw [List.append_nil]
    exact hsettled
  · rintro ⟨d, hd, -⟩
    dsimp only at hd
    rw [hdue] at hd
    exact nomatch hd
  · intro d hd
    dsimp only at hd
    rw [hdue] at hd
    exact nomatch hd

theorem Levels.step {e : Event} (h : Levels s) (hs : Held s) (he : s.enabled e)
    (hquiet : PeersQuiet s e) (hok : s.step e = .ok t) : Levels t := by
  cases e with
  | poll ready =>
    cases hok
    exact h.poll he.1 hquiet
  | handle w =>
    obtain ⟨d, hd, hw⟩ := he
    obtain ⟨due, hdue⟩ := List.head?_eq_some_iff.mp hd
    simp only [SocksSession.step, hdue] at hok
    exact h.handle hs hdue hw hok
  | doPendingFunctors =>
    cases hok
    refine h.doPendingFunctors ?_ he.2
    by_contra hne
    exact absurd he.1 (by simp [hs.running hne])
  | functor w =>
    cases hf : s.functors with
    | nil => exact absurd hf he.1
    | cons q functors =>
      simp only [SocksSession.step, hf] at hok
      exact h.functor hs hf hok
  | removeConnectionInLoop =>
    cases hok
    have hnone : Levels { s with removing := false } :=
      h.of_eq rfl rfl rfl rfl (fun _ => id) rfl
    exact hnone.queueInLoop

end SocksSession

end Muduo.Examples
