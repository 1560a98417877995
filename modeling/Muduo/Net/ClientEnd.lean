import Muduo.Net.ClientLifetime

namespace Muduo.Net
open Muduo.Lib

namespace TcpClient
open Connector

variable {s t : TcpClient} {k : Nat} {f : Functor} {fs : List Functor}

/-- No attempt can come of what the connector does now. -/
def Idle (s : TcpClient) : Prop := s.connect_ = false ∨ s.state = .kConnected

/-- The connector hands nothing to its client and starts no timer. -/
structure Still (s t : TcpClient) : Prop where
  connect_ : t.connect_ = s.connect_
  timers : t.timers = s.timers
  handed : t.handed = s.handed

theorem Still.refl (s : TcpClient) : Still s s := ⟨rfl, rfl, rfl⟩

theorem Still.trans {u : TcpClient} (h : Still s t) (h' : Still t u) : Still s u :=
  ⟨h'.connect_.trans h.connect_, h'.timers.trans h.timers, h'.handed.trans h.handed⟩

theorem removeAndResetChannel_still (h : removeAndResetChannel s = .ok (k, t)) : Still s t := by
  unfold removeAndResetChannel at h
  split at h
  · cases h
  · obtain ⟨a, -, h⟩ := bind_ok h
    obtain ⟨b, -, h⟩ := bind_ok h
    cases h
    exact ⟨rfl, rfl, rfl⟩

theorem retry_still (h : s.connect_ = false) : Still s (Connector.retry s k) := by
  have hoff : (setState (close s k) .kDisconnected).connect_ = false := h
  rw [Connector.retry, if_neg (by simp [hoff])]
  exact ⟨rfl, rfl, rfl⟩

/-- An attempt is given up. -/
theorem abandon_still (hoff : s.connect_ = false)
    (h : (removeAndResetChannel s >>= fun x => .ok (Connector.retry x.2 x.1)) = .ok t) :
    Still s t := by
  obtain ⟨⟨k, u⟩, hu, h⟩ := bind_ok h
  cases h
  have hstill := removeAndResetChannel_still hu
  exact hstill.trans (retry_still (hstill.connect_.trans hoff))

theorem handleError_still (hoff : s.connect_ = false) (h : handleError s = .ok t) : Still s t := by
  unfold handleError at h
  split at h
  · exact abandon_still hoff h
  · cases h
    exact .refl s

theorem stopInLoop_still (hi : s.Idle) (h : stopInLoop s = .ok t) : Still s t := by
  unfold stopInLoop at h
  split at h
  · rename_i hst
    have hoff : s.connect_ = false := by simpa [Idle, hst] using hi
    have habandon := abandon_still (s := setState s .kDisconnected) hoff h
    exact ⟨habandon.connect_, habandon.timers, habandon.handed⟩
  · cases h
    exact .refl s

theorem handleWrite_still {err : Nat} {isSelfConnect : Bool} (hoff : s.connect_ = false)
    (h : handleWrite s err isSelfConnect = .ok t) : Still s t := by
  unfold handleWrite at h
  split at h
  · obtain ⟨⟨k, u⟩, hu, h⟩ := bind_ok h
    have hstill := removeAndResetChannel_still hu
    have hu' : u.connect_ = false := hstill.connect_.trans hoff
    have hclosed : (setState u .kConnected).connect_ = false := hu'
    simp only [hclosed] at h
    split at h
    · cases h
      exact hstill.trans (retry_still hu')
    · split at h
      · cases h
        exact hstill.trans (retry_still hu')
      · -- the socket is closed, since nobody wants it any more
        cases h
        exact ⟨hstill.connect_, hstill.timers, hstill.handed⟩
  · obtain ⟨-, -, h⟩ := bind_ok h
    cases h
    exact .refl s

theorem callbacks_still {err : Nat} {isSelfConnect : Bool} {cs : List Channel.Callback}
    (hoff : s.connect_ = false) (h : cs.foldlM (callback err isSelfConnect) s = .ok t) :
    Still s t := by
  induction cs generalizing s with
  | nil =>
    cases h
    exact .refl _
  | cons c cs ih =>
    rw [List.foldlM_cons] at h
    obtain ⟨u, hu, h⟩ := bind_ok h
    have hstill : Still s u := by
      cases c with
      | close =>
        cases hu
        exact .refl _
      | read =>
        cases hu
        exact .refl _
      | error => exact handleError_still hoff hu
      | write => exact handleWrite_still hoff hu
    exact hstill.trans (ih (hstill.connect_.trans hoff) h)

theorem resetChannel_still (h : resetChannel s k = .ok t) : Still s t ∧ t.state = s.state := by
  unfold resetChannel at h
  split at h
  · cases h
    exact ⟨.refl s, rfl⟩
  · obtain ⟨-, -, h⟩ := bind_ok h
    obtain ⟨-, -, h⟩ := bind_ok h
    cases h
    exact ⟨⟨rfl, rfl, rfl⟩, rfl⟩

/-- The connection is down, and its client does not connect again. -/
theorem Sound.detach (hs : s.Sound) (hact : s.connectionActive = false) :
    (ClientLifetime.removeConnection s).Sound := by
  refine { hs with
    connection := (by simp [ClientLifetime.removeConnection])
    order := (by simp [ClientLifetime.removeConnection])
    batch := (by simp [ClientLifetime.removeConnection])
    connectionActive := fun h => absurd (hact.symm.trans h) (by simp)
    account := hs.account }

/-- While functors run, no channel is waiting to be handled. -/
theorem Sound.unpolled (hs : s.Sound) (hcall : s.callingPendingFunctors = true) :
    s.connectorActive = false ∧ s.connectionActive = false := by
  constructor
  · cases h : s.connectorActive with
    | false => rfl
    | true => exact absurd (hcall.symm.trans (hs.connectorActive h).2) (by simp)
  · cases h : s.connectionActive with
    | false => rfl
    | true => exact absurd (hcall.symm.trans (hs.connectionActive h).2.1) (by simp)

end TcpClient

namespace ClientLifetime
open Connector (Functor Errno)

variable {s t : ClientLifetime} {d : TcpClient} {e : TcpClient.Event} {f : Functor}
  {fs : List Functor}

/-- What holds between the steps. A client that is gone wants no attempt. -/
structure Sound (s : ClientLifetime) : Prop where
  client : s.client.Sound
  idle : s.alive = false → s.client.Idle
  remover : s.remover = true → s.alive = false

/-- A connector that is gone is not waited for. -/
def Settled (s : ClientLifetime) : Prop := ¬s.Held → s.Free

theorem initial_sound : initial.Sound :=
  ⟨TcpClient.initial_sound, by simp [initial], by simp [initial]⟩

theorem step_orphan (h : s.alive = false) : machine.step s (.run e) = s.orphanStep e := by
  change ClientLifetime.step s (.run e) = _
  rw [ClientLifetime.step, if_neg (by simp [h])]

theorem step_alive (h : s.alive = true) (hd : s.client.step e = .ok d) :
    machine.step s (.run e) = .ok { s with client := d } := by
  change ClientLifetime.step s (.run e) = _
  rw [ClientLifetime.step, if_pos h, hd, ok_bind]

theorem drop_held (h : s.Held) : drop s = .ok s := if_pos h

theorem drop_free (h : s.Free) : drop s = .ok s := by
  unfold drop
  split
  · rfl
  · rw [check_pos h.1, ok_bind]

/-- What the loop does without the client it may do as well without the connector. -/
structure Orphaned (s : ClientLifetime) (d : TcpClient) : Prop where
  sound : d.Sound
  idle : d.Idle
  timers : d.timers = s.client.timers
  free : s.Free → d.channel = none ∧ .stopInLoop ∉ d.queue

theorem Orphaned.sound_update (h : Orphaned s d) (hs : s.Sound) :
    ({ s with client := d } : ClientLifetime).Sound :=
  ⟨h.sound, fun _ => h.idle, hs.remover⟩

theorem Orphaned.settled_update (h : Orphaned s d) (hsettled : s.Settled) :
    ({ s with client := d } : ClientLifetime).Settled := by
  intro hheld
  apply h.free
  apply hsettled
  intro hs
  apply hheld
  simpa [Held, h.timers] using hs

/-- A step of the connector, while somebody holds it. -/
theorem connectorStep_eq (hheld : s.Held) (hd : s.client.step e = .ok d)
    (hsame : d.handed = s.client.handed) : s.connectorStep e = .ok { s with client := d } := by
  rw [connectorStep, if_pos hheld, hd, ok_bind, if_pos hsame]

theorem handleConnector_orphaned (hs : s.Sound) (hdead : s.alive = false) (hsettled : s.Settled)
    {revents : Revents} {err : Nat} {isSelfConnect : Bool}
    (he : s.client.enabled (.handleConnector revents err isSelfConnect)) :
    ∃ d, s.connectorStep (.handleConnector revents err isSelfConnect) =
      .ok { s with client := d } ∧ Orphaned s d := by
  obtain ⟨hst, -⟩ := hs.client.connectorActive he.2
  obtain ⟨k, hk⟩ := hs.client.connecting hst
  have hheld : s.Held := by
    by_contra hheld
    have hnone := (hsettled hheld).1
    rw [hk] at hnone
    cases hnone
  have hoff : s.client.connect_ = false := by
    simpa [TcpClient.Idle, hst] using hs.idle hdead
  obtain ⟨d, hd, hds⟩ := TcpClient.step_sound hs.client he trivial
  have hstill := TcpClient.callbacks_still
    (s := { s.client with connectorActive := false }) hoff hd
  refine ⟨d, connectorStep_eq hheld hd hstill.handed, hds, .inl (hstill.connect_.trans hoff),
    hstill.timers, fun hfree => ?_⟩
  have hnone := hfree.1
  rw [hk] at hnone
  cases hnone

/-- A functor of the connector, which is there as long as the functor is. -/
theorem functorStep_orphaned (hf : s.client.functors = f :: fs)
    (hwaits : ¬s.Free) (hheld : s.Held) {savedErrno : Errno}
    (hrun : TcpClient.runFunctor { s.client with functors := fs } savedErrno f = .ok d)
    (hds : d.Sound) (hidle : d.Idle) (hstill : TcpClient.Still s.client d) :
    s.connectorStep (.functor savedErrno) = .ok { s with client := d } ∧ Orphaned s d := by
  have hstep : s.client.step (.functor savedErrno) = .ok d := by
    simp only [TcpClient.step, hf]
    exact hrun
  exact ⟨connectorStep_eq hheld hstep hstill.handed, hds, hidle, hstill.timers,
    fun hfree => absurd hfree hwaits⟩

theorem functor_orphaned (hs : s.Sound) (hdead : s.alive = false) (hsettled : s.Settled)
    {savedErrno : Errno} (he : s.client.enabled (.functor savedErrno)) :
    ∃ d, s.orphanStep (.functor savedErrno) = .ok { s with client := d } ∧ Orphaned s d := by
  obtain ⟨hcall, hne⟩ := he
  obtain ⟨f, fs, hf⟩ := List.exists_cons_of_ne_nil hne
  have hq := TcpClient.queue_pop hf
  have hidle := hs.idle hdead
  obtain ⟨hquiet, hact⟩ := hs.client.unpolled hcall
  cases f with
  | forceCloseInLoop k =>
    have hpop := hs.client.pop hf rfl
    have hfree : s.Free → s.client.channel = none ∧
        .stopInLoop ∉ ({ s.client with functors := fs } : TcpClient).queue := by
      intro hfree
      refine ⟨hfree.1, fun hmem => hfree.2 ?_⟩
      rw [hq]
      exact List.mem_cons_of_mem _ hmem
    simp only [orphanStep, hf]
    by_cases hc : s.client.connection = some k
    · simp only [hc, if_true]
      exact ⟨_, rfl, hpop.detach hact, hidle, rfl, hfree⟩
    · simp only [hc, if_false]
      exact ⟨_, rfl, hpop, hidle, rfl, hfree⟩
  | stopInLoop =>
    have hwaits : ¬s.Free := by
      intro hfree
      apply hfree.2
      rw [hq]
      exact List.mem_cons_self
    obtain ⟨d, hd, hds⟩ := Connector.stopInLoop_sound (hs.client.pop hf rfl) hquiet
    have hstill := TcpClient.stopInLoop_still (s := { s.client with functors := fs }) hidle hd
    have hidle' : d.Idle := by
      cases hidle with
      | inl hoff => exact .inl (hstill.connect_.trans hoff)
      | inr hst =>
        rw [Connector.stopInLoop, if_neg (by simp [hst])] at hd
        cases hd
        exact .inr hst
    simp only [orphanStep, hf]
    exact ⟨d, functorStep_orphaned hf hwaits (by_contra fun h => hwaits (hsettled h)) hd hds
      hidle' ⟨hstill.connect_, hstill.timers, hstill.handed⟩⟩
  | resetChannel k =>
    have hwaits : ¬s.Free := by
      intro hfree
      have hresets := hs.client.resets
      simp [hq, hfree.1] at hresets
    obtain ⟨d, hd, hds⟩ := hs.client.reset hf
    obtain ⟨hstill, hst⟩ := TcpClient.resetChannel_still hd
    have hidle' : d.Idle := by
      cases hidle with
      | inl hoff => exact .inl (hstill.connect_.trans hoff)
      | inr hconnected => exact .inr (hst.trans hconnected)
    simp only [orphanStep, hf]
    exact ⟨d, functorStep_orphaned hf hwaits (by_contra fun h => hwaits (hsettled h)) hd hds
      hidle' ⟨hstill.connect_, hstill.timers, hstill.handed⟩⟩

/-- The loop without the client, timers apart. -/
theorem orphanStep_orphaned (hs : s.Sound) (hdead : s.alive = false) (hsettled : s.Settled)
    (he : s.client.enabled e) (ha : s.Allowed e)
    (htimer : ∀ i savedErrno, e ≠ .timer i savedErrno) :
    ∃ d, s.orphanStep e = .ok { s with client := d } ∧ Orphaned s d := by
  have hidle := hs.idle hdead
  have hsame : ∀ d : TcpClient, s.client.step e = .ok d → s.client.Clear e →
      d.Idle → d.timers = s.client.timers → (s.Free → d.channel = none ∧ .stopInLoop ∉ d.queue) →
      Orphaned s d := by
    intro d hd hclear hidle' htimers hfree
    obtain ⟨u, hu, hus⟩ := TcpClient.step_sound hs.client he hclear
    cases hu.symm.trans hd
    exact ⟨hus, hidle', htimers, hfree⟩
  cases e with
  | enableRetry | connect _ | disconnect | stop => simp [Allowed, hdead] at ha
  | startConnector _ | stopConnector => exact ha.elim
  | forceClose =>
    obtain ⟨k, hk⟩ := Option.isSome_iff_exists.mp he
    have hstep : s.client.step .forceClose =
        .ok (Connector.queueInLoop s.client (.forceCloseInLoop k)) := by
      simp only [TcpClient.step, hk]
    refine ⟨_, by simp only [orphanStep, hstep, ok_bind], hsame _ hstep trivial hidle rfl ?_⟩
    intro hfree
    refine ⟨hfree.1, ?_⟩
    simpa [TcpClient.queue, Connector.queueInLoop] using hfree.2
  | poll connector connection => exact ⟨_, rfl, hsame _ rfl trivial hidle rfl fun h => h⟩
  | handleConnector revents err isSelfConnect => exact handleConnector_orphaned hs hdead hsettled he
  | handleClose savedErrno =>
    have htaken : ({ s.client with connectionActive := false } : TcpClient).Sound :=
      { hs.client with connectionActive := (by simp), account := hs.client.account }
    exact ⟨_, rfl, htaken.detach rfl, hidle, rfl, fun h => h⟩
  | timer i savedErrno => exact absurd rfl (htimer i savedErrno)
  | doPendingFunctors =>
    have hfs := hs.client.idle he.1
    refine ⟨_, rfl, hsame _ rfl trivial hidle rfl fun hfree => ⟨hfree.1, ?_⟩⟩
    simpa [TcpClient.queue, hfs] using hfree.2
  | functor savedErrno => exact functor_orphaned hs hdead hsettled he

/-- A retry timer finds that no attempt is wanted. -/
theorem timer_eq (hs : s.Sound) (hdead : s.alive = false) {i : Nat} {savedErrno : Errno}
    (hc : s.client.Clear (.timer i savedErrno)) :
    s.orphanStep (.timer i savedErrno) =
      drop { s with client := { s.client with timers := s.client.timers.eraseIdx i } } := by
  have hst : s.client.state = .kDisconnected := hc.1
  have hoff : s.client.connect_ = false := by
    simpa [TcpClient.Idle, hst] using hs.idle hdead
  have hstep : s.client.step (.timer i savedErrno) =
      .ok { s.client with timers := s.client.timers.eraseIdx i } := by
    have hcheck : check (({ s.client with timers := s.client.timers.eraseIdx i } :
        TcpClient).state = .kDisconnected) = .ok () := check_pos hst
    simp only [TcpClient.step, Connector.startInLoop, hcheck, ok_bind]
    simp [hoff]
  simp only [orphanStep, hstep, ok_bind]

/-- The event drops a pointer to the connector in the state `t`. -/
structure Drops (s : ClientLifetime) (e : Event) (t : ClientLifetime) : Prop where
  step : machine.step s e = drop t
  sound : t.Sound
  dead : t.alive = false
  last : s.Last e ↔ ¬t.Held
  free : s.Last e → (t.Free ↔ s.Free)

theorem destroy_drops (hs : s.Sound) (halive : s.alive = true) (unique : Bool) :
    ∃ t, Drops s (.destroy unique) t := by
  have hremover : s.remover = false := by
    cases h : s.remover with
    | false => rfl
    | true => exact absurd (halive.symm.trans (hs.remover h)) (by simp)
  cases hc : s.client.connection with
  | none =>
    have hoff : ({ s.client with connect_ := false } : TcpClient).Sound :=
      { hs.client with account := hs.client.account }
    have hnot : ¬s.Last (.destroy unique) := by simp [Last, hc]
    refine ⟨{ s with client := Connector.stop s.client, alive := false, remover := true },
      ?_, ⟨hoff.queueInLoop rfl (by simp), fun _ => .inl rfl, fun _ => rfl⟩, rfl, ?_,
      fun h => absurd h hnot⟩
    · simp only [machine, ClientLifetime.step, destroy, hc]
    · simp [hnot, Held]
  | some k =>
    obtain ⟨hst, hk⟩ := hs.client.connection k hc
    have hclosing : (Connector.queueInLoop s.client (.forceCloseInLoop k)).Sound := by
      apply hs.client.queueInLoop rfl
      intro k' h
      cases h
      exact hk
    refine ⟨{ s with
      client := if unique then Connector.queueInLoop s.client (.forceCloseInLoop k) else s.client
      alive := false }, ?_, ⟨?_, fun _ => ?_, fun _ => rfl⟩, rfl, ?_, fun _ => ?_⟩
    · simp only [machine, ClientLifetime.step, destroy, hc]
    · cases unique with
      | false => exact hs.client
      | true => exact hclosing
    · cases unique with
      | false => exact .inr hst
      | true => exact .inr hst
    · cases unique <;> simp [Last, Held, hc, hremover, Connector.queueInLoop]
    · cases unique <;> simp [Free, TcpClient.queue, Connector.queueInLoop]

theorem removeConnector_drops (hs : s.Sound) (hremover : s.remover = true) :
    ∃ t, Drops s .removeConnector t := by
  have hdead := hs.remover hremover
  refine ⟨{ s with remover := false }, rfl, ⟨hs.client, hs.idle, by simp⟩, hdead, ?_, fun _ => .rfl⟩
  simp [Last, Held, hdead]

theorem timer_drops (hs : s.Sound) (hdead : s.alive = false) {i : Nat} {savedErrno : Errno}
    (he : s.client.enabled (.timer i savedErrno)) (hc : s.client.Clear (.timer i savedErrno)) :
    ∃ t, Drops s (.run (.timer i savedErrno)) t := by
  have hfired : ({ s.client with timers := s.client.timers.eraseIdx i } : TcpClient).Sound :=
    { hs.client with
      account := hs.client.account
      delays := fun t ht => hs.client.delays t (List.mem_of_mem_eraseIdx ht) }
  have hi : i < s.client.timers.length := he.2
  have hlength := List.length_eraseIdx_of_lt hi
  refine ⟨{ s with client := { s.client with timers := s.client.timers.eraseIdx i } }, ?_,
    ⟨hfired, hs.idle, hs.remover⟩, hdead, ?_, fun _ => .rfl⟩
  · rw [step_orphan hdead]
    exact timer_eq hs hdead hc
  · simp only [Last, Held, hdead, ne_eq, ← List.length_eq_zero_iff, hlength]
    cases s.remover with
    | false =>
      simp
      omega
    | true => simp

/-- The step of a careful user or of the loop leaves nothing in the loop that the connector is
missing for. -/
theorem step_keeps (hs : s.Sound) (hsettled : s.Settled) {e : Event} (he : machine.enabled s e)
    (hc : s.Careful e) : ∃ t, machine.step s e = .ok t ∧ t.Sound ∧ t.Settled := by
  obtain ⟨hclear, hlast⟩ := hc
  have hdrops : ∀ t, Drops s e t → ∃ t, machine.step s e = .ok t ∧ t.Sound ∧ t.Settled := by
    intro t h
    have hsettled' : t.Settled := by
      intro hheld
      have hl := h.last.mpr hheld
      exact (h.free hl).mpr (hlast hl)
    have hdrop : drop t = .ok t := by
      by_cases hheld : t.Held
      · exact drop_held hheld
      · exact drop_free (hsettled' hheld)
    exact ⟨t, h.step.trans hdrop, h.sound, hsettled'⟩
  cases e with
  | destroy unique =>
    obtain ⟨t, h⟩ := destroy_drops hs he unique
    exact hdrops t h
  | removeConnector =>
    obtain ⟨t, h⟩ := removeConnector_drops hs he.1
    exact hdrops t h
  | run e =>
    cases halive : s.alive with
    | true =>
      obtain ⟨d, hd, hds⟩ := TcpClient.step_sound hs.client he.1 hclear
      refine ⟨_, step_alive halive hd, ⟨hds, ?_, hs.remover⟩,
        fun hgone => absurd (.inl halive) hgone⟩
      intro hdead
      exact absurd (halive.symm.trans hdead) (by simp)
    | false =>
      by_cases htimer : ∃ i savedErrno, e = .timer i savedErrno
      · obtain ⟨i, savedErrno, rfl⟩ := htimer
        obtain ⟨t, h⟩ := timer_drops hs halive he.1 hclear
        exact hdrops t h
      · obtain ⟨d, hd, ho⟩ := orphanStep_orphaned hs halive hsettled he.1 he.2
          (by simpa using htimer)
        exact ⟨_, (step_orphan halive).trans hd, ho.sound_update hs, ho.settled_update hsettled⟩

theorem Event.Own.careful {e : Event} (h : e.Own) : s.Careful e := by
  cases e with
  | destroy _ | removeConnector => exact h.elim
  | run e =>
    cases e with
    | poll _ _ | doPendingFunctors | functor _ => exact ⟨trivial, fun hl => hl.elim⟩
    | _ => exact h.elim

theorem runs_of_settled (hs : s.Sound) (hsettled : s.Settled) : s.Runs := by
  intro es hl
  have hrun : Yields (fun t => t.Sound ∧ t.Settled) (fun _ => False) (machine.run s es) := by
    refine Machine.run_keeps (fun s e hi he hown => ?_) ⟨hs, hsettled⟩ hl
    obtain ⟨t, ht, hts⟩ := step_keeps hi.1 hi.2 he hown.careful
    rw [ht]
    exact hts
  exact hrun.mono fun _ _ => trivial

/-- The loop by itself comes to a functor of a connector that is gone. -/
def Crashes (s : ClientLifetime) : Prop :=
  ∃ es, machine.Legal (fun _ e => e.Own) s es ∧ machine.run s es = .error .useAfterFree

theorem Crashes.not_runs (h : s.Crashes) : ¬s.Runs := by
  obtain ⟨es, hl, hrun⟩ := h
  intro hruns
  have hyields := hruns es hl
  rw [hrun] at hyields
  exact hyields

theorem Crashes.cons {e : Event} (he : machine.enabled s e) (ho : e.Own)
    (hstep : machine.step s e = .ok t) (h : t.Crashes) : s.Crashes := by
  obtain ⟨es, hl, hrun⟩ := h
  refine ⟨e :: es, ⟨he, ho, fun u hu => ?_⟩, ?_⟩
  · cases hstep.symm.trans hu
    exact hl
  · rw [Machine.run_cons, hstep, ok_bind]
    exact hrun

/-- Client and connector are gone, while the loop runs functors. -/
structure Orphan (s : ClientLifetime) : Prop where
  dead : s.alive = false
  gone : ¬s.Held
  calling : s.client.callingPendingFunctors = true

/-- The next functor is the connector's, or leaves the connector's functors as they are. -/
theorem Orphan.functor (h : s.Orphan) (hf : s.client.functors = f :: fs) :
    s.Crashes ∨ f ≠ .stopInLoop ∧ ∃ t, machine.step s (.run (.functor .zero)) = .ok t ∧
      t.Orphan ∧ t.client.functors = fs ∧ t.client.pendingFunctors = s.client.pendingFunctors := by
  obtain ⟨hdead, hgone, hcall⟩ := h
  have he : machine.enabled s (.run (.functor .zero)) := ⟨⟨hcall, by simp [hf]⟩, trivial⟩
  cases f with
  | forceCloseInLoop k =>
    refine .inr ⟨by simp, ?_⟩
    rw [step_orphan hdead]
    simp only [orphanStep, hf]
    by_cases hc : s.client.connection = some k
    · simp only [hc, if_true]
      exact ⟨_, rfl, ⟨hdead, hgone, hcall⟩, rfl, rfl⟩
    · simp only [hc, if_false]
      exact ⟨_, rfl, ⟨hdead, hgone, hcall⟩, rfl, rfl⟩
  | stopInLoop | resetChannel k =>
    refine .inl ⟨[.run (.functor .zero)], ⟨he, trivial, fun _ _ => trivial⟩, ?_⟩
    rw [Machine.run_cons, step_orphan hdead]
    simp only [orphanStep, hf, connectorStep, if_neg hgone, error_bind]

theorem Orphan.functor_enabled (h : s.Orphan) (hf : s.client.functors = f :: fs) :
    machine.enabled s (.run (.functor .zero)) :=
  ⟨⟨h.calling, by simp [hf]⟩, trivial⟩

theorem Orphan.crashes (h : s.Orphan) (hmem : .stopInLoop ∈ s.client.functors) : s.Crashes := by
  induction hf : s.client.functors generalizing s with
  | nil => simp [hf] at hmem
  | cons f fs ih =>
    cases h.functor hf with
    | inl hcrash => exact hcrash
    | inr hnext =>
      obtain ⟨hne, t, ht, horphan, hfs, -⟩ := hnext
      have hrest : .stopInLoop ∈ t.client.functors := by
        rw [hf, List.mem_cons] at hmem
        rw [hfs]
        exact hmem.resolve_left (Ne.symm hne)
      exact .cons (h.functor_enabled hf) trivial ht (ih horphan hrest hfs)

/-- Once the active channels are handled, the functors that were pending are run. -/
theorem crashes_of_handled (hdead : s.alive = false) (hgone : ¬s.Held)
    (hcall : s.client.callingPendingFunctors = false) (hact : s.client.connectorActive = false)
    (hmem : .stopInLoop ∈ s.client.pendingFunctors) : s.Crashes := by
  refine .cons (e := .run .doPendingFunctors) ⟨⟨hcall, hact⟩, trivial⟩ trivial
    (step_orphan hdead) ?_
  have horphan : Orphan { s with client := { s.client with
      callingPendingFunctors := true
      functors := s.client.pendingFunctors
      pendingFunctors := []
      connectionActive := false } } := ⟨hdead, hgone, rfl⟩
  exact horphan.crashes hmem

theorem Orphan.crashes_later (h : s.Orphan) (hmem : .stopInLoop ∈ s.client.pendingFunctors) :
    s.Crashes := by
  induction hf : s.client.functors generalizing s with
  | nil =>
    refine .cons (e := .run (.poll false false)) ⟨⟨h.calling, hf, by simp, by simp⟩, trivial⟩
      ⟨rfl, rfl⟩ (step_orphan h.dead) ?_
    exact crashes_of_handled h.dead h.gone rfl rfl hmem
  | cons f fs ih =>
    cases h.functor hf with
    | inl hcrash => exact hcrash
    | inr hnext =>
      obtain ⟨-, t, ht, horphan, hfs, hpending⟩ := hnext
      exact .cons (h.functor_enabled hf) trivial ht (ih horphan (hpending ▸ hmem) hfs)

/-- A connector that is gone is missed, in the loop or by its own destructor. -/
theorem drop_fails (hs : s.Sound) (hdead : s.alive = false) (hgone : ¬s.Held) (hfree : ¬s.Free) :
    ¬Yields Runs (fun _ => False) (drop s) := by
  rw [drop, if_neg hgone]
  by_cases hc : s.client.channel = none
  · rw [check_pos hc, ok_bind]
    apply Crashes.not_runs
    have hmem : .stopInLoop ∈ s.client.functors ∨ .stopInLoop ∈ s.client.pendingFunctors := by
      by_contra hnot
      apply hfree
      exact ⟨hc, by simpa [TcpClient.queue] using hnot⟩
    cases hcall : s.client.callingPendingFunctors with
    | true =>
      have horphan : s.Orphan := ⟨hdead, hgone, hcall⟩
      cases hmem with
      | inl hmem => exact horphan.crashes hmem
      | inr hmem => exact horphan.crashes_later hmem
    | false =>
      have hfs := hs.client.idle hcall
      have hact : s.client.connectorActive = false := by
        cases hact : s.client.connectorActive with
        | false => rfl
        | true =>
          obtain ⟨k, hk⟩ := hs.client.connecting (hs.client.connectorActive hact).1
          rw [hc] at hk
          cases hk
      refine crashes_of_handled hdead hgone hcall hact ?_
      simpa [hfs] using hmem
  · rw [check_neg hc, error_bind]
    exact id

/-- A step that is not careful fails, at once or when the loop goes on. -/
theorem step_fails (hs : s.Sound) {e : Event} (he : machine.enabled s e) (hc : ¬s.Careful e) :
    ¬Yields Runs (fun _ => False) (machine.step s e) := by
  have hdrops : ∀ t, s.Clear e → Drops s e t →
      ¬Yields Runs (fun _ => False) (machine.step s e) := by
    intro t hclear h
    have hbad : s.Last e ∧ ¬s.Free := by
      by_contra hgood
      exact hc ⟨hclear, by simpa using hgood⟩
    rw [h.step]
    apply drop_fails h.sound h.dead (h.last.mp hbad.1)
    intro hfree
    exact hbad.2 ((h.free hbad.1).mp hfree)
  cases e with
  | destroy unique =>
    obtain ⟨t, h⟩ := destroy_drops hs he unique
    exact hdrops t trivial h
  | removeConnector =>
    obtain ⟨t, h⟩ := removeConnector_drops hs he.1
    exact hdrops t trivial h
  | run e =>
    by_cases hclear : s.client.Clear e
    · have hlast : s.Last (.run e) := by
        by_contra hlast
        exact hc ⟨hclear, fun h => absurd h hlast⟩
      cases e with
      | timer i savedErrno =>
        obtain ⟨t, h⟩ := timer_drops hs hlast.1 he.1 hclear
        exact hdrops t hclear h
      | _ => exact hlast.elim
    · obtain ⟨f, hf⟩ : ∃ f, s.client.step e = .error f := by
        cases hd : s.client.step e with
        | error f => exact ⟨f, rfl⟩
        | ok d => exact absurd (TcpClient.step_clear hd) hclear
      have hfails : machine.step s (.run e) = .error f := by
        cases halive : s.alive with
        | true =>
          change ClientLifetime.step s (.run e) = _
          rw [ClientLifetime.step, if_pos halive, hf, error_bind]
        | false =>
          -- without the client only a timer begins an attempt
          rw [step_orphan halive]
          cases e with
          | connect savedErrno => exact absurd (halive.symm.trans he.2) (by simp)
          | startConnector savedErrno => exact he.2.elim
          | timer i savedErrno => simp only [orphanStep, hf, error_bind]
          | _ => exact absurd trivial hclear
      rw [hfails]
      exact id

/-- A run leaves the loop able to go on, after every step, exactly when attempts begin only with the
connector ready and the connector goes only when nothing in the loop is meant for it. -/
theorem destruction_safe_iff {es : List Event}
    (hl : machine.Legal (fun _ _ => True) initial es) :
    machine.Legal Careful initial es ↔
      ∀ fs, fs <+: es → Yields Runs (fun _ => False) (machine.run initial fs) := by
  have hinitial : initial.Sound ∧ initial.Settled := by
    refine ⟨initial_sound, fun hgone => absurd ?_ hgone⟩
    exact .inl rfl
  refine Machine.Legal.iff_good (I := fun s => s.Sound ∧ s.Settled) ?_ ?_ ?_ hinitial hl
  · intro s e hi he hc
    obtain ⟨t, ht, hts⟩ := step_keeps hi.1 hi.2 he hc
    rw [ht]
    exact hts
  · intro s e hi he hc
    exact step_fails hi.1 he hc
  · intro s hi
    exact runs_of_settled hi.1 hi.2

instance (s : ClientLifetime) : ∀ e, Decidable (s.Allowed e)
  | .enableRetry | .connect _ | .disconnect | .stop =>
    inferInstanceAs (Decidable (s.alive = true))
  | .startConnector _ | .stopConnector => isFalse id
  | .forceClose | .poll _ _ | .handleConnector _ _ _ | .handleClose _ | .timer _ _
  | .doPendingFunctors | .functor _ => isTrue trivial

instance (s : ClientLifetime) : ∀ e, Decidable (machine.enabled s e)
  | .run e => inferInstanceAs (Decidable (s.client.enabled e ∧ s.Allowed e))
  | .destroy _ => inferInstanceAs (Decidable (s.alive = true))
  | .removeConnector => inferInstanceAs (Decidable
    (s.remover = true ∧ s.client.callingPendingFunctors = false))

/-- A connection comes up, and the channel of its attempt is reset. -/
def connected : List Event :=
  [.run (.connect .EINPROGRESS), .run (.poll true false),
    .run (.handleConnector ⟨false, false, true, false, false, false, false⟩ 0 false),
    .run .doPendingFunctors, .run (.functor .zero)]

theorem destruction_safe_iff_sample :
    machine.Legal Careful initial (connected ++ [.destroy true, .run (.poll false false),
      .run .doPendingFunctors, .run (.functor .zero)]) ↔
      ∀ fs, fs <+: connected ++ [.destroy true, .run (.poll false false),
        .run .doPendingFunctors, .run (.functor .zero)] →
          Yields Runs (fun _ => False) (machine.run initial fs) :=
  destruction_safe_iff (by decide +kernel)

/-- A client that is stopped, and gone before the loop has run `stopInLoop`. -/
example : machine.run initial (connected ++ [.run .stop, .destroy true, .run (.poll false false),
    .run .doPendingFunctors, .run (.functor .zero)]) = .error .useAfterFree := by rfl

/-- A client that goes in its own connection callback. -/
example : machine.run initial (connected.take 3 ++ [.destroy true]) = .error .assertion := by rfl

end ClientLifetime

end Muduo.Net
