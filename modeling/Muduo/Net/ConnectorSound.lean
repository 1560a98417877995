import Mathlib.Data.List.Count
import Muduo.Net.Connector

namespace Muduo.Net
open Muduo.Lib

namespace Connector

/-- What `enableWriting` makes of a new channel. -/
def writing : Channel := ⟨⟨false, true⟩, .kAdded, true, true, some ⟨false, true⟩⟩

theorem enableWriting_new : Channel.new.enableWriting = .ok writing := by decide

theorem disableAll_remove :
    (writing.disableAll >>= fun channel => channel.remove) = .ok .new := by decide

/-- The channel while `connect` is under way. -/
def live (sockfd : Nat) : ConnectChannel := ⟨sockfd, writing⟩

/-- The channel between `removeAndResetChannel` and `resetChannel`. -/
def dead (sockfd : Nat) : ConnectChannel := ⟨sockfd, .new⟩

def Functor.reset? : Functor → Option Nat
  | .resetChannel k => some k
  | _ => none

def resets (fs : List Functor) : List Nat := fs.filterMap Functor.reset?

@[simp] theorem resets_nil : resets [] = [] := rfl

@[simp] theorem resets_append (fs gs : List Functor) :
    resets (fs ++ gs) = resets fs ++ resets gs := List.filterMap_append ..

@[simp] theorem resets_stop (fs : List Functor) : resets (.stopInLoop :: fs) = resets fs := rfl

@[simp] theorem resets_forceClose (k : Nat) (fs : List Functor) :
    resets (.forceCloseInLoop k :: fs) = resets fs := rfl

@[simp] theorem resets_reset (k : Nat) (fs : List Functor) :
    resets (.resetChannel k :: fs) = k :: resets fs := rfl

/-- No `resetChannel` is behind a forced close of the connection. -/
def InOrder (conn : Nat) (fs : List Functor) : Prop :=
  fs.Pairwise fun f g => f = .forceCloseInLoop conn → g.reset? = none

end Connector

namespace TcpClient
open Connector

variable {s : TcpClient} {k : Nat}

def queue (s : TcpClient) : List Functor := s.functors ++ s.pendingFunctors

/-- The socket of the attempt that is under way. -/
def attempting (s : TcpClient) : Option Nat :=
  if s.state = .kConnecting then s.channel.map (·.sockfd) else none

/-- What holds between the steps of the loop. -/
structure Sound (s : TcpClient) : Prop where
  connecting : s.state = .kConnecting → ∃ k, s.channel = some (live k)
  settled : s.state ≠ .kConnecting → ∀ c, s.channel = some c → c = dead c.sockfd
  resets : resets s.queue =
    if s.state = .kConnecting then [] else (s.channel.map (·.sockfd)).toList
  connection : ∀ k, s.connection = some k → s.state = .kConnected ∧ k ∈ s.handed
  closing : ∀ k, .forceCloseInLoop k ∈ s.queue → k ∈ s.handed
  order : ∀ k, s.connection = some k → InOrder k s.queue
  batch : s.connection.isSome → s.callingPendingFunctors = true →
    Connector.resets s.pendingFunctors = []
  idle : s.callingPendingFunctors = false → s.functors = []
  connectorActive : s.connectorActive = true →
    s.state = .kConnecting ∧ s.callingPendingFunctors = false
  connectionActive : s.connectionActive = true →
    s.connection.isSome ∧ s.callingPendingFunctors = false ∧ Connector.resets s.queue = []
  account : ∀ k, s.handed.count k + s.closed.count k + (if s.attempting = some k then 1 else 0) =
    if k < s.created then 1 else 0
  destroyed : ∀ d ∈ s.destroyed, d.1 = dead d.2
  retryDelay : kInitRetryDelayMs ≤ s.retryDelayMs ∧ s.retryDelayMs ≤ kMaxRetryDelayMs
  delays : ∀ t ∈ s.timers, kInitRetryDelayMs ≤ t ∧ t ≤ kMaxRetryDelayMs

theorem initial_sound : initial.Sound := by
  refine ⟨nofun, nofun, rfl, nofun, nofun, nofun, nofun, nofun, nofun, nofun, fun k => ?_, nofun,
    by decide, nofun⟩
  simp [initial, attempting]

/-- A functor other than `resetChannel` may be queued at any time. -/
theorem Sound.queueInLoop (hs : s.Sound) {f : Functor} (hf : f.reset? = none)
    (hk : ∀ k, f = .forceCloseInLoop k → k ∈ s.handed) : (Connector.queueInLoop s f).Sound := by
  have hresets : Connector.resets [f] = [] := by
    simp [Connector.resets, hf]
  have hqueue : (Connector.queueInLoop s f).queue = s.queue ++ [f] :=
    (List.append_assoc ..).symm
  refine { hs with
    resets := ?_, closing := fun k h => ?_, order := fun k h => ?_, batch := fun hc hb => ?_
    connectionActive := fun h => ?_, account := hs.account }
  · rw [hqueue, resets_append, hresets, List.append_nil]
    exact hs.resets
  · rw [hqueue, List.mem_append, List.mem_singleton] at h
    rcases h with h | h
    · exact hs.closing k h
    · exact hk k h.symm
  · rw [hqueue, InOrder, List.pairwise_append]
    refine ⟨hs.order k h, List.pairwise_singleton .., fun g _ g' hg' _ => ?_⟩
    rw [List.mem_singleton.mp hg']
    exact hf
  · rw [show (Connector.queueInLoop s f).pendingFunctors = s.pendingFunctors ++ [f] from rfl,
      resets_append, hresets, List.append_nil]
    exact hs.batch hc hb
  · obtain ⟨hc, hp, hr⟩ := hs.connectionActive h
    exact ⟨hc, hp, by rw [hqueue, resets_append, hresets, hr, List.append_nil]⟩

theorem Sound.not_handed (hs : s.Sound) (ha : s.attempting = some k) :
    k ∉ s.handed ∧ k ∉ s.closed ∧ k < s.created := by
  have h := hs.account k
  rw [if_pos ha] at h
  by_cases hk : k < s.created
  · rw [if_pos hk] at h
    exact ⟨List.count_eq_zero.mp (by omega), List.count_eq_zero.mp (by omega), hk⟩
  · rw [if_neg hk] at h
    omega

theorem attempting_live (hst : s.state = .kConnecting) (hc : s.channel = some (live k)) :
    s.attempting = some k := by
  simp [attempting, hst, hc, live]

theorem Sound.no_connection (hs : s.Sound) (hst : s.state ≠ .kConnected) : s.connection = none := by
  cases hc : s.connection with
  | none => rfl
  | some k => exact absurd (hs.connection k hc).1 hst

/-- The state after `removeAndResetChannel`. -/
def detached (s : TcpClient) (k : Nat) : TcpClient :=
  Connector.queueInLoop { s with channel := some (dead k) } (.resetChannel k)

theorem removeAndResetChannel_eq (hc : s.channel = some (live k)) :
    removeAndResetChannel s = .ok (k, s.detached k) := by
  obtain ⟨channel, hd, hr⟩ := bind_ok disableAll_remove
  simp only [removeAndResetChannel, hc, live, hd, ok_bind, hr]
  rfl

/-- The attempt is over and its socket closed. -/
theorem Sound.drop (hs : s.Sound) (hst : s.state = .kConnecting) (hc : s.channel = some (live k))
    (hact : s.connectorActive = false) {st : States} (hne : st ≠ .kConnecting) :
    (setState (close (s.detached k) k) st).Sound := by
  have hconn : s.connection = none := hs.no_connection (by rw [hst]; nofun)
  have hqueue : (setState (close (s.detached k) k) st).queue = s.queue ++ [.resetChannel k] :=
    (List.append_assoc ..).symm
  refine
    { connecting := fun h => absurd h hne
      settled := fun _ c h => ?_
      resets := ?_
      connection := fun k' h => ?_
      closing := fun k' h => ?_
      order := fun k' h => ?_
      batch := fun h => ?_
      idle := hs.idle
      connectorActive := fun h => ?_
      connectionActive := fun h => ?_
      account := fun k' => ?_
      destroyed := hs.destroyed
      retryDelay := hs.retryDelay
      delays := hs.delays }
  · obtain rfl : dead k = c := Option.some.inj h
    rfl
  · rw [hqueue, resets_append, hs.resets, if_pos hst]
    simp [setState, hne, detached, Connector.queueInLoop, close, dead]
  · exact absurd (hconn.symm.trans h) nofun
  · rw [hqueue] at h
    exact hs.closing k' (by simpa using h)
  · exact absurd (hconn.symm.trans h) nofun
  · rw [show (setState (close (s.detached k) k) st).connection = s.connection from rfl, hconn] at h
    exact nomatch h
  · exact absurd (hact.symm.trans h) nofun
  · have := (hs.connectionActive h).1
    rw [hconn] at this
    exact nomatch this
  · have h := hs.account k'
    have hatt : (setState (close (s.detached k) k) st).attempting = none := if_neg hne
    rw [attempting_live hst hc] at h
    rw [hatt]
    change s.handed.count k' + (s.closed ++ [k]).count k' + 0 = if k' < s.created then 1 else 0
    simp only [List.count_append, List.count_singleton, Option.some.injEq, beq_iff_eq] at h ⊢
    omega

/-- The attempt is over and its socket handed on. -/
theorem Sound.establish (hs : s.Sound) (hst : s.state = .kConnecting)
    (hc : s.channel = some (live k)) (hact : s.connectorActive = false)
    (hcall : s.callingPendingFunctors = false) :
    ((setState (s.detached k) .kConnected).newConnection k).Sound := by
  have hconn : s.connection = none := hs.no_connection (by rw [hst]; nofun)
  have hatt := attempting_live hst hc
  have hqueue : ((setState (s.detached k) .kConnected).newConnection k).queue =
      s.queue ++ [.resetChannel k] := (List.append_assoc ..).symm
  refine
    { connecting := nofun
      settled := fun _ c h => ?_
      resets := ?_
      connection := fun k' h => ?_
      closing := fun k' h => ?_
      order := fun k' h => ?_
      batch := fun _ h => absurd (hcall.symm.trans h) nofun
      idle := hs.idle
      connectorActive := fun h => ?_
      connectionActive := fun h => ?_
      account := fun k' => ?_
      destroyed := hs.destroyed
      retryDelay := hs.retryDelay
      delays := hs.delays }
  · obtain rfl : dead k = c := Option.some.inj h
    rfl
  · rw [hqueue, resets_append, hs.resets, if_pos hst]
    rfl
  · obtain rfl : k = k' := Option.some.inj h
    exact ⟨rfl, List.mem_append_right _ (List.mem_singleton_self k)⟩
  · rw [hqueue] at h
    exact List.mem_append_left _ (hs.closing k' (by simpa using h))
  · obtain rfl : k = k' := Option.some.inj h
    -- no functor closes a connection that is new
    have hnone : ∀ f ∈ s.queue, f ≠ .forceCloseInLoop k := by
      rintro f hf rfl
      exact (hs.not_handed hatt).1 (hs.closing k hf)
    rw [hqueue, InOrder, List.pairwise_append]
    refine ⟨?_, List.pairwise_singleton .., fun f hf _ _ h => absurd h (hnone f hf)⟩
    exact List.pairwise_of_forall_mem_list fun f hf _ _ h => absurd h (hnone f hf)
  · exact absurd (hact.symm.trans h) nofun
  · have := (hs.connectionActive h).1
    rw [hconn] at this
    exact nomatch this
  · have h := hs.account k'
    rw [hatt] at h
    have hatt' : ((setState (s.detached k) .kConnected).newConnection k).attempting = none := rfl
    rw [hatt']
    change (s.handed ++ [k]).count k' + s.closed.count k' + 0 = if k' < s.created then 1 else 0
    simp only [List.count_append, List.count_singleton, Option.some.injEq, beq_iff_eq] at h ⊢
    omega

/-- `retry` may add a timer, with a delay in bounds. -/
theorem Sound.retry (hs : (setState (close s k) .kDisconnected).Sound) :
    (Connector.retry s k).Sound := by
  unfold Connector.retry
  by_cases hc : s.connect_ = true
  · rw [if_pos (show (setState (close s k) .kDisconnected).connect_ = true from hc)]
    obtain ⟨hlo, hhi⟩ := hs.retryDelay
    refine { hs with retryDelay := ?_, delays := fun t ht => ?_, account := hs.account }
    · simp only [kInitRetryDelayMs, kMaxRetryDelayMs] at hlo hhi ⊢
      omega
    · rcases List.mem_append.mp ht with ht | ht
      · exact hs.delays t ht
      · rw [List.mem_singleton.mp ht]
        exact ⟨hlo, hhi⟩
  · rw [if_neg (show ¬(setState (close s k) .kDisconnected).connect_ = true from hc)]
    exact hs

/-- A new socket that is closed at once. -/
theorem Sound.refuse (hs : s.Sound) (hst : s.state = .kDisconnected) :
    (close { s with created := s.created + 1 } s.created).Sound := by
  refine { hs with account := fun k => ?_ }
  have h := hs.account k
  have hatt : s.attempting = none := if_neg (by rw [hst]; nofun)
  have hatt' : (close { s with created := s.created + 1 } s.created).attempting = none := hatt
  rw [hatt] at h
  rw [hatt']
  change s.handed.count k + (s.closed ++ [s.created]).count k + 0 =
    if k < s.created + 1 then 1 else 0
  simp only [List.count_append, List.count_singleton, reduceCtorEq, if_false, beq_iff_eq] at h ⊢
  split_ifs at h ⊢ <;> omega

/-- An attempt on a new socket begins. -/
theorem Sound.begin (hs : s.Sound) (hst : s.state = .kDisconnected) (hc : s.channel = none) :
    ({ s with
      created := s.created + 1
      state := .kConnecting
      channel := some (live s.created) } : TcpClient).Sound := by
  have hconn : s.connection = none := hs.no_connection (by rw [hst]; nofun)
  refine { hs with
    connecting := fun _ => ⟨_, rfl⟩
    settled := fun h => absurd rfl h
    resets := ?_
    connection := fun k h => absurd (hconn.symm.trans h) nofun
    connectorActive := fun h => ?_
    account := fun k => ?_ }
  · have h := hs.resets
    rw [if_neg (by rw [hst]; nofun), hc] at h
    exact h
  · have := (hs.connectorActive h).1
    rw [hst] at this
    exact nomatch this
  · have h := hs.account k
    rw [show s.attempting = none from if_neg (by rw [hst]; nofun)] at h
    change s.handed.count k + s.closed.count k + (if some s.created = some k then 1 else 0) =
      if k < s.created + 1 then 1 else 0
    simp only [reduceCtorEq, if_false, Option.some.injEq] at h ⊢
    split_ifs at h ⊢ <;> omega

end TcpClient

namespace Connector

variable {s t : TcpClient} {k : Nat} {savedErrno : Errno}

/-- The results of `connect(2)` after which the attempt goes on. -/
def Errno.goesOn : Errno → Bool
  | .zero | .EINPROGRESS | .EINTR | .EISCONN => true
  | _ => false

theorem connecting_eq (hc : s.channel = none) :
    connecting s k = .ok { s with state := .kConnecting, channel := some (live k) } := by
  have hcheck : check ((setState s .kConnecting).channel = none) = .ok () := check_pos hc
  simp only [connecting, hcheck, enableWriting_new, ok_bind]
  rfl

theorem connecting_fault (hc : s.channel ≠ none) : connecting s k = .error .assertion := by
  have hcheck : check ((setState s .kConnecting).channel = none) = .error .assertion :=
    check_neg hc
  simp only [connecting, hcheck, error_bind]

theorem connect_sound (hs : s.Sound) (hst : s.state = .kDisconnected)
    (hc : savedErrno.goesOn = true → s.channel = none) :
    ∃ t, connect s savedErrno = .ok t ∧ t.Sound := by
  have hrefuse := hs.refuse hst
  have hretry : (Connector.retry { s with created := s.created + 1 } s.created).Sound :=
    TcpClient.Sound.retry (by rw [setState, ← hst]; exact hrefuse)
  cases hgo : savedErrno.goesOn with
  | true =>
    have hnone := hc hgo
    have hbegin := connecting_eq (s := { s with created := s.created + 1 }) (k := s.created) hnone
    cases savedErrno with
    | zero | EINPROGRESS | EINTR | EISCONN => exact ⟨_, hbegin, hs.begin hst hnone⟩
    | _ => exact nomatch hgo
  | false =>
    cases savedErrno with
    | zero | EINPROGRESS | EINTR | EISCONN => exact nomatch hgo
    | EAGAIN | EADDRINUSE | EADDRNOTAVAIL | ECONNREFUSED | ENETUNREACH => exact ⟨_, rfl, hretry⟩
    | _ => exact ⟨_, rfl, hrefuse⟩

theorem connect_clear (h : connect s savedErrno = .ok t) (hgo : savedErrno.goesOn = true) :
    s.channel = none := by
  by_contra hc
  have hfault := connecting_fault (s := { s with created := s.created + 1 }) (k := s.created) hc
  cases savedErrno with
  | zero | EINPROGRESS | EINTR | EISCONN => exact nomatch hfault.symm.trans h
  | _ => exact nomatch hgo

/-- No attempt is under way, and the channel of the last one is gone if a new one needs it. -/
def Ready (s : TcpClient) (savedErrno : Errno) : Prop :=
  s.state = .kDisconnected ∧
    (s.connect_ = true → savedErrno.goesOn = true → s.channel = none)

theorem startInLoop_sound (hs : s.Sound) (hr : Ready s savedErrno) :
    ∃ t, startInLoop s savedErrno = .ok t ∧ t.Sound := by
  obtain ⟨hst, hc⟩ := hr
  rw [startInLoop, check_pos hst, ok_bind]
  by_cases hconn : s.connect_ = true
  · rw [if_pos hconn]
    exact connect_sound hs hst (hc hconn)
  · rw [if_neg hconn]
    exact ⟨s, rfl, hs⟩

theorem startInLoop_ready (h : startInLoop s savedErrno = .ok t) : Ready s savedErrno := by
  by_cases hst : s.state = .kDisconnected
  · refine ⟨hst, fun hconn hgo => ?_⟩
    rw [startInLoop, check_pos hst, ok_bind, if_pos hconn] at h
    exact connect_clear h hgo
  · rw [startInLoop, check_neg hst, error_bind] at h
    exact nomatch h

/-- The end of an attempt that fails. -/
theorem retry_detached_sound (hs : s.Sound) (hst : s.state = .kConnecting)
    (hc : s.channel = some (live k)) (hact : s.connectorActive = false) :
    (retry (s.detached k) k).Sound :=
  TcpClient.Sound.retry (hs.drop hst hc hact nofun)

theorem stopInLoop_sound (hs : s.Sound) (hact : s.connectorActive = false) :
    ∃ t, stopInLoop s = .ok t ∧ t.Sound := by
  by_cases hst : s.state = .kConnecting
  · obtain ⟨k, hc⟩ := hs.connecting hst
    have hremove := TcpClient.removeAndResetChannel_eq (s := setState s .kDisconnected) hc
    have hsame : retry ((setState s .kDisconnected).detached k) k = retry (s.detached k) k := rfl
    refine ⟨retry (s.detached k) k, ?_, retry_detached_sound hs hst hc hact⟩
    simp only [stopInLoop, if_pos hst, hremove, ok_bind, hsame]
  · exact ⟨s, if_neg hst, hs⟩

theorem handleError_sound (hs : s.Sound) (hst : s.state = .kConnecting)
    (hact : s.connectorActive = false) :
    ∃ t, handleError s = .ok t ∧ t.Sound ∧ t.state = .kDisconnected := by
  obtain ⟨k, hc⟩ := hs.connecting hst
  have hremove := TcpClient.removeAndResetChannel_eq hc
  refine ⟨_, by simp only [handleError, if_pos hst, hremove, ok_bind],
    retry_detached_sound hs hst hc hact, ?_⟩
  simp only [retry]
  split <;> rfl

theorem handleWrite_sound (hs : s.Sound) (hst : s.state = .kConnecting)
    (hact : s.connectorActive = false) (hcall : s.callingPendingFunctors = false) (err : Nat)
    (isSelfConnect : Bool) : ∃ t, handleWrite s err isSelfConnect = .ok t ∧ t.Sound := by
  obtain ⟨k, hc⟩ := hs.connecting hst
  have hremove := TcpClient.removeAndResetChannel_eq hc
  have hretry := retry_detached_sound hs hst hc hact
  simp only [handleWrite, if_pos hst, hremove, ok_bind]
  split
  · exact ⟨_, rfl, hretry⟩
  · split
    · exact ⟨_, rfl, hretry⟩
    · split
      · exact ⟨_, rfl, hs.establish hst hc hact hcall⟩
      · exact ⟨_, rfl, hs.drop hst hc hact nofun⟩

theorem handleEvent_sound (hs : s.Sound) (hst : s.state = .kConnecting)
    (hact : s.connectorActive = false) (hcall : s.callingPendingFunctors = false)
    (revents : Revents) (err : Nat) (isSelfConnect : Bool) :
    ∃ t, (Channel.handleEventWithGuard revents).foldlM (callback err isSelfConnect) s = .ok t ∧
      t.Sound := by
  obtain ⟨e, he, hes, hestate⟩ := handleError_sound hs hst hact
  obtain ⟨w, hw, hws⟩ := handleWrite_sound hs hst hact hcall err isSelfConnect
  -- a write event behind an error finds the attempt over
  have hlate : handleWrite e err isSelfConnect = .ok e := by
    rw [handleWrite, if_neg (by rw [hestate]; nofun), check_pos hestate, ok_bind]
  have hclose : ∀ (b : Bool) (cs : List Channel.Callback) (u : TcpClient),
      ((if b then [Channel.Callback.close] else []) ++ cs).foldlM (callback err isSelfConnect) u =
        cs.foldlM (callback err isSelfConnect) u := by
    rintro (_ | _) cs u <;> rfl
  have hread : ∀ (b : Bool) (cs : List Channel.Callback) (u : TcpClient),
      ((if b then [Channel.Callback.read] else []) ++ cs).foldlM (callback err isSelfConnect) u =
        cs.foldlM (callback err isSelfConnect) u := by
    rintro (_ | _) cs u <;> rfl
  rw [Channel.handleEventWithGuard, List.append_assoc, List.append_assoc, hclose,
    List.foldlM_append]
  cases revents.err || revents.nval with
  | false =>
    rw [if_neg nofun, List.foldlM_nil]
    change ∃ t, List.foldlM _ s _ = _ ∧ _
    rw [hread]
    cases revents.out with
    | false => exact ⟨s, rfl, hs⟩
    | true => exact ⟨w, by simp [callback, hw, pure, Except.pure], hws⟩
  | true =>
    have herror : [Channel.Callback.error].foldlM (callback err isSelfConnect) s = .ok e := by
      simp [callback, he, pure, Except.pure]
    rw [if_pos rfl, herror, ok_bind, hread]
    cases revents.out with
    | false => exact ⟨e, rfl, hes⟩
    | true => exact ⟨e, by simp [callback, hlate, pure, Except.pure], hes⟩

end Connector

end Muduo.Net
