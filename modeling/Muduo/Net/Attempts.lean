import Muduo.Net.ConnectorSound

namespace Muduo.Net
open Muduo.Lib

namespace TcpClient
open Connector

variable {s t : TcpClient} {k : Nat} {f : Functor} {fs : List Functor} {savedErrno : Errno}

theorem queue_pop (hf : s.functors = f :: fs) :
    s.queue = f :: ({ s with functors := fs } : TcpClient).queue := by
  simp [queue, hf]

/-- A functor other than `resetChannel` leaves the queue. -/
theorem Sound.pop (hs : s.Sound) (hf : s.functors = f :: fs) (hr : f.reset? = none) :
    ({ s with functors := fs } : TcpClient).Sound := by
  have hq := queue_pop hf
  have hresets : Connector.resets s.queue =
      Connector.resets ({ s with functors := fs } : TcpClient).queue := by
    rw [hq, Connector.resets, List.filterMap_cons_none hr]
    rfl
  refine { hs with
    resets := hresets ▸ hs.resets
    closing := fun k h => hs.closing k (by rw [hq]; exact List.mem_cons_of_mem _ h)
    order := fun k h => ?_
    idle := fun h => ?_
    connectionActive := fun h => ?_
    account := hs.account }
  · have := hs.order k h
    rw [hq] at this
    exact (List.pairwise_cons.mp this).2
  · rw [hs.idle h] at hf
    cases hf
  · obtain ⟨hc, hp, hr⟩ := hs.connectionActive h
    exact ⟨hc, hp, hresets ▸ hr⟩

/-- `resetChannel` finds the channel it was queued for, out of the poller. -/
theorem Sound.reset (hs : s.Sound) (hf : s.functors = .resetChannel k :: fs) :
    ∃ t, resetChannel { s with functors := fs } k = .ok t ∧ t.Sound := by
  have hq := queue_pop hf
  have hresets := hs.resets
  rw [hq, resets_reset] at hresets
  have hst : s.state ≠ .kConnecting := by
    intro hst
    rw [if_pos hst] at hresets
    cases hresets
  rw [if_neg hst] at hresets
  obtain ⟨c, hc⟩ : ∃ c, s.channel = some c := by
    cases hc : s.channel with
    | none =>
      rw [hc] at hresets
      cases hresets
    | some c => exact ⟨c, rfl⟩
  simp only [hc, Option.map_some, Option.toList_some, List.cons.injEq] at hresets
  obtain ⟨hk, hrest⟩ := hresets
  have hdead : s.channel = some (dead k) := by
    rw [hc, hs.settled hst c hc, hk]
  have hcall : s.callingPendingFunctors = true := by
    cases h : s.callingPendingFunctors with
    | true => rfl
    | false =>
      rw [hs.idle h] at hf
      cases hf
  refine ⟨{ s with functors := fs, channel := none, destroyed := s.destroyed ++ [(dead k, k)] },
    ?_, ?_⟩
  · simp only [resetChannel, hdead]
    rfl
  · refine { hs with
      connecting := fun h => absurd h hst
      settled := (by simp)
      resets := ?_
      closing := fun k h => hs.closing k (by rw [hq]; exact List.mem_cons_of_mem _ h)
      order := fun k h => ?_
      idle := fun h => absurd (hcall.symm.trans h) (by simp)
      connectionActive := fun h => ?_
      account := fun k' => ?_
      destroyed := fun d hd => ?_ }
    · rw [if_neg hst]
      exact hrest
    · have := hs.order k h
      rw [hq] at this
      exact (List.pairwise_cons.mp this).2
    · exact absurd (hcall.symm.trans (hs.connectionActive h).2.1) (by simp)
    · simpa [attempting, hst] using hs.account k'
    · rcases List.mem_append.mp hd with hd | hd
      · exact hs.destroyed d hd
      · rw [List.mem_singleton.mp hd]

/-- The connection goes down when no reset is pending, so that the connector can start over. -/
theorem Sound.removeConnection (hs : s.Sound) (hc : s.connection = some k)
    (hr : Connector.resets s.queue = []) (hact : s.connectionActive = false) :
    ∃ t, s.removeConnection k savedErrno = .ok t ∧ t.Sound := by
  obtain ⟨hst, -⟩ := hs.connection k hc
  have hne : s.state ≠ .kConnecting := by
    rw [hst]
    nofun
  have hgone : ({ s with connection := none } : TcpClient).Sound := { hs with
    connection := nofun
    order := nofun
    batch := nofun
    connectionActive := fun h => absurd (hact.symm.trans h) nofun
    account := hs.account }
  rw [TcpClient.removeConnection, check_pos hc, ok_bind]
  by_cases hretry : (s.retry && s.connect) = true
  · have hnone : s.channel = none := by
      have h := hs.resets
      rw [hr, if_neg hne] at h
      cases hch : s.channel with
      | none => rfl
      | some c =>
        rw [hch] at h
        exact nomatch h
    have hfresh : ({ s with
        connection := none
        state := .kDisconnected
        retryDelayMs := kInitRetryDelayMs
        connect_ := true } : TcpClient).Sound := { hgone with
      connecting := nofun
      settled := fun _ => hs.settled hne
      resets := by
        have h := hs.resets
        rw [if_neg hne] at h
        exact h
      connection := nofun
      connectorActive := fun h => absurd (hs.connectorActive h).1 hne
      account := fun k' => by
        have h := hs.account k'
        rw [show s.attempting = none from if_neg hne] at h
        exact h
      retryDelay :=
        (by decide : kInitRetryDelayMs ≤ kInitRetryDelayMs ∧ kInitRetryDelayMs ≤ kMaxRetryDelayMs) }
    rw [if_pos hretry]
    exact startInLoop_sound hfresh ⟨rfl, fun _ _ => hnone⟩
  · rw [if_neg hretry]
    exact ⟨_, rfl, hgone⟩

theorem Sound.runFunctor (hs : s.Sound) (hcall : s.callingPendingFunctors = true)
    (hf : s.functors = f :: fs) :
    ∃ t, TcpClient.runFunctor { s with functors := fs } savedErrno f = .ok t ∧ t.Sound := by
  have hidle : s.connectorActive = false := by
    cases h : s.connectorActive with
    | false => rfl
    | true => exact absurd (hcall.symm.trans (hs.connectorActive h).2) nofun
  cases f with
  | stopInLoop => exact stopInLoop_sound (hs.pop hf rfl) hidle
  | resetChannel k => exact hs.reset hf
  | forceCloseInLoop k =>
    have hpop := hs.pop hf rfl
    by_cases hc : s.connection = some k
    · rw [TcpClient.runFunctor, if_pos hc]
      refine hpop.removeConnection hc ?_ ?_
      · have horder := hs.order k hc
        rw [queue_pop hf, InOrder, List.pairwise_cons] at horder
        rw [Connector.resets, List.filterMap_eq_nil_iff]
        exact fun g hg => horder.1 g hg rfl
      · cases h : s.connectionActive with
        | false => rfl
        | true => exact absurd (hcall.symm.trans (hs.connectionActive h).2.1) nofun
    · rw [TcpClient.runFunctor, if_neg hc]
      exact ⟨_, rfl, hpop⟩

/-- An attempt begins, by a call or by a timer, when the connector is ready for it. -/
def Clear (s : TcpClient) : Event → Prop
  | .connect savedErrno | .startConnector savedErrno => Ready { s with connect_ := true } savedErrno
  | .timer _ savedErrno => Ready s savedErrno
  | _ => True

theorem step_sound (hs : s.Sound) {e : Event} (he : s.enabled e) (hc : s.Clear e) :
    ∃ t, s.step e = .ok t ∧ t.Sound := by
  cases e with
  | enableRetry => exact ⟨_, rfl, { hs with account := hs.account }⟩
  | connect savedErrno =>
    have hwant : ({ s with connect := true, connect_ := true } : TcpClient).Sound :=
      { hs with account := hs.account }
    exact startInLoop_sound hwant hc
  | disconnect => exact ⟨_, rfl, { hs with account := hs.account }⟩
  | stop =>
    have hoff : ({ s with connect := false, connect_ := false } : TcpClient).Sound :=
      { hs with account := hs.account }
    exact ⟨_, rfl, hoff.queueInLoop rfl nofun⟩
  | startConnector savedErrno =>
    have hwant : ({ s with connect_ := true } : TcpClient).Sound :=
      { hs with account := hs.account }
    exact startInLoop_sound hwant hc
  | stopConnector =>
    have hoff : ({ s with connect_ := false } : TcpClient).Sound :=
      { hs with account := hs.account }
    exact ⟨_, rfl, hoff.queueInLoop rfl nofun⟩
  | forceClose =>
    obtain ⟨k, hk⟩ := Option.isSome_iff_exists.mp he
    refine ⟨queueInLoop s (.forceCloseInLoop k), by simp only [TcpClient.step, hk],
      hs.queueInLoop rfl fun k' h => ?_⟩
    obtain rfl : k = k' := by simpa using h
    exact (hs.connection k hk).2
  | poll connector connection =>
    obtain ⟨hcall, hfs, hch, hconn⟩ := he
    refine ⟨_, rfl, { hs with
      batch := nofun
      idle := fun _ => hfs
      connectorActive := fun h => ⟨?_, rfl⟩
      connectionActive := fun h => ⟨hconn h, rfl, ?_⟩
      account := hs.account }⟩
    · by_contra hst
      obtain ⟨c, hc, hin⟩ := hch h
      rw [hs.settled hst c hc] at hin
      exact nomatch hin
    · change Connector.resets s.queue = []
      rw [queue, hfs, List.nil_append]
      exact hs.batch (hconn h) hcall
  | handleConnector revents err isSelfConnect =>
    obtain ⟨hcall, hact⟩ := he
    have htaken : ({ s with connectorActive := false } : TcpClient).Sound :=
      { hs with connectorActive := nofun, account := hs.account }
    exact handleEvent_sound htaken (hs.connectorActive hact).1 rfl hcall revents err isSelfConnect
  | handleClose savedErrno =>
    obtain ⟨-, hact⟩ := he
    obtain ⟨hsome, -, hr⟩ := hs.connectionActive hact
    have htaken : ({ s with connectionActive := false } : TcpClient).Sound :=
      { hs with connectionActive := nofun, account := hs.account }
    simp only [TcpClient.step]
    split
    · rename_i conn hconn
      exact htaken.removeConnection hconn hr rfl
    · rename_i hnone
      rw [hnone] at hsome
      exact nomatch hsome
  | timer i savedErrno =>
    have hfired : ({ s with timers := s.timers.eraseIdx i } : TcpClient).Sound := { hs with
      account := hs.account
      delays := fun t ht => hs.delays t (List.mem_of_mem_eraseIdx ht) }
    exact startInLoop_sound hfired hc
  | doPendingFunctors =>
    obtain ⟨hcall, hact⟩ := he
    have hfs := hs.idle hcall
    have hq : s.pendingFunctors ++ [] = s.queue := by
      rw [queue, hfs, List.append_nil, List.nil_append]
    exact ⟨_, rfl, { hs with
      resets := by
        change Connector.resets (s.pendingFunctors ++ []) = _
        rw [hq]
        exact hs.resets
      closing := fun k h => hs.closing k (hq ▸ h)
      order := fun k h => by
        change InOrder k (s.pendingFunctors ++ [])
        rw [hq]
        exact hs.order k h
      batch := fun _ _ => rfl
      idle := nofun
      connectorActive := fun h => absurd (hact.symm.trans h) nofun
      connectionActive := nofun
      account := hs.account }⟩
  | functor savedErrno =>
    obtain ⟨hcall, hne⟩ := he
    obtain ⟨f, fs, hf⟩ := List.exists_cons_of_ne_nil hne
    simp only [TcpClient.step, hf]
    exact hs.runFunctor hcall hf

theorem step_clear {e : Event} (h : s.step e = .ok t) : s.Clear e := by
  cases e with
  | connect savedErrno =>
    exact startInLoop_ready (s := { s with connect := true, connect_ := true }) h
  | startConnector savedErrno => exact startInLoop_ready (s := { s with connect_ := true }) h
  | timer i savedErrno =>
    exact startInLoop_ready (s := { s with timers := s.timers.eraseIdx i }) h
  | _ => trivial

/-- A socket that the connector has created and not yet given away. -/
def Open (s : TcpClient) (k : Nat) : Prop := k < s.created ∧ k ∉ s.handed ∧ k ∉ s.closed

/-- One attempt at a time; its socket is in the poller, and every other one was handed on or
closed, once. A channel is destroyed out of the poller, by the reset that was queued for it. -/
structure Orderly (s : TcpClient) : Prop where
  oneAttempt : ∀ a b, s.Open a → s.Open b → a = b
  attempt : ∀ k, s.Open k → s.state = .kConnecting ∧
    ∃ c, s.channel = some c ∧ c.sockfd = k ∧ c.channel.interest.isSome
  once : ∀ k, k < s.created → ¬s.Open k → s.handed.count k + s.closed.count k = 1
  destroyed : ∀ d ∈ s.destroyed, d.1.sockfd = d.2 ∧ d.1.channel.addedToLoop = false ∧
    d.1.channel.registered = false ∧ d.1.channel.interest = none

theorem Sound.attempting_open (hs : s.Sound) (ho : s.Open k) : s.attempting = some k := by
  obtain ⟨hk, hh, hc⟩ := ho
  have h := hs.account k
  rw [List.count_eq_zero.mpr hh, List.count_eq_zero.mpr hc, if_pos hk] at h
  by_contra hne
  rw [if_neg hne] at h
  exact nomatch h

theorem Sound.orderly (hs : s.Sound) : s.Orderly := by
  refine ⟨fun a b ha hb => ?_, fun k hk => ?_, fun k hk ho => ?_, fun d hd => ?_⟩
  · exact Option.some.inj ((hs.attempting_open ha).symm.trans (hs.attempting_open hb))
  · have hatt := hs.attempting_open hk
    by_cases hst : s.state = .kConnecting
    · obtain ⟨k', hc⟩ := hs.connecting hst
      rw [attempting_live hst hc, Option.some.injEq] at hatt
      exact ⟨hst, live k', hc, hatt, rfl⟩
    · exact absurd ((if_neg hst).symm.trans hatt) nofun
  · have h := hs.account k
    rw [if_pos hk] at h
    have hatt : s.attempting ≠ some k := by
      intro hatt
      obtain ⟨hh, hc, -⟩ := hs.not_handed hatt
      exact ho ⟨hk, hh, hc⟩
    rw [if_neg hatt] at h
    exact h
  · rw [hs.destroyed d hd]
    exact ⟨rfl, rfl, rfl, rfl⟩

/-- A run goes through without a failed assertion, its sockets accounted for, exactly when
attempts begin only with the connector ready. -/
theorem attempts_orderly {es : List Event} (hl : machine.Legal (fun _ _ => True) initial es) :
    Yields Orderly (fun _ => False) (machine.run initial es) ↔ machine.Legal Clear initial es := by
  constructor
  · intro h
    obtain ⟨t, ht, -⟩ := h.returns
    refine Machine.Legal.of_run (fun s e t hs he hstep => ?_) initial_sound hl ht
    have hc := step_clear hstep
    obtain ⟨u, hu, hus⟩ := step_sound hs he hc
    obtain rfl : u = t := Except.ok.inj (hu.symm.trans hstep)
    exact ⟨hc, hus⟩
  · intro h
    have hsound : Yields Sound (fun _ => False) (machine.run initial es) := by
      refine Machine.run_keeps (fun s e hs he hc => ?_) initial_sound h
      obtain ⟨t, ht, hts⟩ := step_sound hs he hc
      change Yields _ _ (s.step e)
      rw [ht]
      exact hts
    exact hsound.mono fun s hs => hs.orderly

instance (s : TcpClient) : ∀ e, Decidable (s.enabled e)
  | .enableRetry | .connect _ | .disconnect | .stop | .startConnector _ | .stopConnector =>
    isTrue trivial
  | .forceClose => inferInstanceAs (Decidable (s.connection.isSome = true))
  | .poll connector connection => inferInstanceAs (Decidable
    (s.callingPendingFunctors = true ∧ s.functors = [] ∧
      (connector = true → ∃ c ∈ s.channel, c.channel.interest.isSome) ∧
      (connection = true → s.connection.isSome)))
  | .handleConnector _ _ _ => inferInstanceAs (Decidable
    (s.callingPendingFunctors = false ∧ s.connectorActive = true))
  | .handleClose _ => inferInstanceAs (Decidable
    (s.callingPendingFunctors = false ∧ s.connectionActive = true))
  | .timer i _ => inferInstanceAs (Decidable
    (s.callingPendingFunctors = false ∧ i < s.timers.length))
  | .doPendingFunctors => inferInstanceAs (Decidable
    (s.callingPendingFunctors = false ∧ s.connectorActive = false))
  | .functor _ => inferInstanceAs (Decidable
    (s.callingPendingFunctors = true ∧ s.functors ≠ []))

instance (s : TcpClient) (e : Event) : Decidable (machine.enabled s e) :=
  inferInstanceAs (Decidable (s.enabled e))

/-- An attempt is refused, the next one goes through; the connection comes down and the client
reconnects. -/
def sampleRun : List Event :=
  [.enableRetry, .connect .ECONNREFUSED, .poll false false, .timer 0 .EINPROGRESS,
    .doPendingFunctors, .poll true false,
    .handleConnector ⟨false, false, true, false, false, false, false⟩ 0 false,
    .doPendingFunctors, .functor .zero, .poll false true, .handleClose .EINPROGRESS]

theorem attempts_orderly_sample :
    Yields Orderly (fun _ => False) (machine.run initial sampleRun) ↔
      machine.Legal Clear initial sampleRun :=
  attempts_orderly (by decide +kernel)

/-- The client is stopped and started again before the retry timer of its first attempt fires:
the timer finds the second attempt under way. -/
theorem stale_timer_fails : ¬∀ es : List Event, machine.Legal (fun _ _ => True) initial es →
    Yields Orderly (fun _ => False) (machine.run initial es) := by
  intro h
  have hrun := h [.connect .ECONNREFUSED, .stop, .poll false false, .doPendingFunctors,
    .functor .zero, .connect .EINPROGRESS, .poll false false, .timer 0 .EINPROGRESS]
    (by decide +kernel)
  have hfault : machine.run initial [.connect .ECONNREFUSED, .stop, .poll false false,
      .doPendingFunctors, .functor .zero, .connect .EINPROGRESS, .poll false false,
      .timer 0 .EINPROGRESS] = .error .assertion := by
    rfl
  rw [hfault] at hrun
  exact hrun

end TcpClient

end Muduo.Net
