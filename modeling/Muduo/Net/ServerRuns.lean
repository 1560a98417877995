import Muduo.Net.ServerViews

namespace Muduo.Net.TcpServer
open Muduo.Lib

variable {s s' : TcpServer} {k k' : Nat} {l : LoopId} {r r' : ServerConnection} {n : Nat}
  {c : TcpConnection} {ms : List (Milestone × LoopId)}

/-- The invariant of the server. -/
structure Coherent (s : TcpServer) : Prop where
  small : s.nextConnId < 2 ^ 31
  fresh : ∀ k, s.nextConnId ≤ k → s.accepted k = none
  names : ∀ k r, s.accepted k = some r → r.name = s.connName k
  entries : ∀ name k, s.connections name = some k → ∃ r, s.accepted k = some r ∧ r.name = name
  absent : ∀ k, s.accepted k = none → ∀ l,
    (s.view k).queue l = [] ∧ (s.view k).callbacks l = [] ∧ (s.view k).closing l = false
  tracked : ∀ k r, s.accepted k = some r → ∃ n, Tracked (s.view k) r n

theorem coherent_iff : Coherent s ↔ Accounts (fun _ v r => ∃ n, Tracked v r n) s :=
  ⟨fun h => ⟨h.small, h.fresh, h.names, h.entries, h.absent, h.tracked⟩,
    fun h => ⟨h.small, h.fresh, h.names, h.entries, h.absent, h.each⟩⟩

theorem Coherent.lt (h : Coherent s) (hk : s.accepted k = some r) : k < s.nextConnId :=
  (coherent_iff.mp h).lt hk

theorem Coherent.one (h : Coherent s) (hk : s.accepted k = some r)
    (hconst : s'.name = s.name ∧ s'.ipPort = s.ipPort ∧ s'.nextConnId = s.nextConnId)
    (haccepted : s'.accepted = Function.update s.accepted k (some r')) (hname : r'.name = r.name)
    (hentries : ∀ name k', s'.connections name = some k' → s.connections name = some k')
    (hothers : ∀ k', k' ≠ k → s'.view k' = s.view k') (htracked : Tracked (s'.view k) r' n) :
    Coherent s' :=
  coherent_iff.mpr ((coherent_iff.mp h).one hk hconst haccepted hname hentries hothers
    ⟨n, htracked⟩ fun _ _ _ _ => id)

theorem Coherent.known (h : Coherent s)
    (hk : ∃ l, (s.view k).queue l ≠ [] ∨ (s.view k).callbacks l ≠ [] ∨ (s.view k).closing l = true) :
    ∃ r n, s.accepted k = some r ∧ Tracked (s.view k) r n := by
  obtain ⟨r, hr, n, ht⟩ := (coherent_iff.mp h).known hk
  exact ⟨r, n, hr, ht⟩

/-- A member function that keeps its connection as it is. -/
theorem Coherent.kept (h : Coherent s) (hk : s.accepted k = some r) (ht : Tracked (s.view k) r n)
    (hn : 2 ≤ n) (hc : r.conn.Kept c) : Coherent (s.record r.loop k r [] c) := by
  refine h.one hk ⟨rfl, rfl, rfl⟩ rfl rfl (fun _ _ => id)
    (fun k' hne => view_record_ne hne (.inl hc.closeCallbacks)) (n := n) ?_
  rw [view_record_self]
  simp only [if_pos hc.closeCallbacks, if_pos hc.downs, List.append_nil]
  exact ht.keep hn hc

/-- `handleClose` of a connection, up to `closeCallback_`. -/
theorem Coherent.closed (h : Coherent s) (hk : s.accepted k = some r)
    (ht : Tracked (s.view k) r 2) (hc : r.conn.Closed c)
    (hcb : ((s.view k).callbacks r.loop).countP System.closing = 0)
    (hidle : s.closing r.loop = none) : Coherent (s.record r.loop k r [] c) := by
  have hdowns : c.log.downs ≠ r.conn.log.downs := by
    rw [hc.downs.1, hc.downs.2]
    exact nofun
  have hcallbacks : c.log.closeCallbacks ≠ r.conn.log.closeCallbacks := by
    rw [hc.closeCallbacks.1, hc.closeCallbacks.2]
    exact nofun
  refine h.one hk ⟨rfl, rfl, rfl⟩ rfl rfl (fun _ _ => id)
    (fun k' hne => view_record_ne hne (.inr hidle)) (n := 3) ?_
  rw [view_record_self]
  simp only [if_neg hcallbacks, if_neg hdowns, List.append_nil]
  exact ht.close hc hcb

theorem call_coherent (h : Coherent s) (hk : s.accepted k = some r) {call : Call}
    (hcall : CallAllowed r.conn call) :
    Yields Coherent (· = Fault.lengthError) (s.step (.call k call)) := by
  simp only [step, hk, onConnection_eq hk]
  obtain ⟨n, ht⟩ := h.tracked k r hk
  have hstarted := ht.started
  by_cases hn : n = 1
  · subst hn
    refine ((ht.conn.fresh rfl).call hcall).bind fun c hc => ?_
    obtain ⟨hfresh, hpending, hlog⟩ := hc
    have hcallbacks : c.log.closeCallbacks = r.conn.log.closeCallbacks := by rw [hlog]
    refine h.one hk ⟨rfl, rfl, rfl⟩ rfl rfl (fun _ _ => id)
      (fun k' hne => view_record_ne hne (.inl hcallbacks)) (n := 1) ?_
    have hdowns : c.log.downs = r.conn.log.downs := by rw [hlog]
    rw [view_record_self, hpending, ht.conn.drained]
    simp only [if_pos hcallbacks, if_pos hdowns, List.append_nil, List.map_nil, View.push_nil]
    exact ht.idle hfresh
  · exact (TcpConnection.call_kept (ht.conn.alive (by omega)) hcall).bind fun c hc =>
      h.kept hk ht (by omega) hc

theorem poll_coherent (h : Coherent s) (hk : s.accepted k = some r) {rv : Revents}
    (hidle : s.Idle r.loop) (hr : System.Reports rv r.conn.channel.interest) :
    Yields Coherent (· = Fault.lengthError) (s.step (.poll k rv)) := by
  simp only [step, hk]
  obtain ⟨n, ht⟩ := h.tracked k r hk
  refine h.one hk ⟨rfl, rfl, rfl⟩ ?_ rfl (fun _ _ => id) (fun k' hne => ?_) (n := n) ?_
  · rw [← hk, Function.update_eq_self]
  · exact view_poll_ne hne hidle.1 _
  · rw [view_poll_self]
    exact ht.polled hr

theorem handle_coherent (h : Coherent s) {read : Option Bytes} {w : WriteResult}
    (hidle : s.closing l = none) (hallowed : s.HandleAllowed read w (s.callbacks l)) :
    Yields Coherent (· = Fault.lengthError) (s.step (.handle l read w)) := by
  cases hq : s.callbacks l with
  | nil =>
    rw [hq] at hallowed
    exact hallowed.elim
  | cons x rest =>
    obtain ⟨k, cb⟩ := x
    rw [hq] at hallowed
    obtain ⟨hhead, hview⟩ := view_callback_self hq
    obtain ⟨r, n, hk, ht⟩ := h.known ⟨l, .inr (.inl (by rw [hhead]; exact nofun))⟩
    obtain ⟨rfl, hn, hcloses, ht'⟩ := ht.callback hhead
    obtain ⟨hread, hwrite⟩ := hallowed r hk
    rw [← hview] at ht'
    have hpopped : Coherent { s with callbacks := Function.update s.callbacks r.loop rest } := by
      refine h.one hk ⟨rfl, rfl, rfl⟩ ?_ rfl (fun _ _ => id)
        (fun k' hne => view_callback_ne hq hne) ht'
      rw [← hk, Function.update_eq_self]
    have hk' : accepted { s with callbacks := Function.update s.callbacks r.loop rest } k = some r :=
      hk
    simp only [step, hq, onConnection_eq hk']
    refine (TcpConnection.callback_life (ht.conn.alive hn)
      (fun hcl => ht.conn.up (hcloses hcl).1) hread hwrite).bind fun c hc => ?_
    rcases hc with hc | ⟨hcl, hc⟩
    · exact hpopped.kept hk' ht' hn hc
    · obtain ⟨rfl, hcount⟩ := hcloses hcl
      refine hpopped.closed hk' ht' hc ?_ hidle
      rw [hview]
      simp only [Function.update_self]
      exact hcount

/-- `removeConnectionInLoop` runs on the base loop, and is not under way any more. -/
theorem erase_coherent (h : Coherent s) (hk : s.accepted k = some r) (ht : Tracked (s.view k) r 3)
    (hconst : s'.name = s.name ∧ s'.ipPort = s.ipPort ∧ s'.nextConnId = s.nextConnId)
    (haccepted : s'.accepted = s.accepted) (hconnections : s'.connections = s.connections)
    (hothers : ∀ k', k' ≠ k → s'.view k' = s.view k')
    (hq : (s'.view k).queue 0 = (s.view k).queue 0 ∨
      (s.view k).queue 0 = .removeConnectionInLoop :: (s'.view k).queue 0)
    (hqs : ∀ l, l ≠ 0 → (s'.view k).queue l = (s.view k).queue l)
    (hcb : (s'.view k).callbacks = (s.view k).callbacks)
    (hnone : ((s'.view k).closing r.loop).toNat +
      ((s'.view k).queue 0).count .removeConnectionInLoop = 0)
    (hcl : ∀ l, (s'.view k).closing l = true → l = r.loop) :
    Yields Coherent (· = Fault.lengthError) (s'.removeConnectionInLoop 0 k) := by
  have htracked : Tracked (View.push { s'.view k with listed := False } r.loop
      [.own .connectDestroyed]) { r with history := r.history ++ [(.erased, 0)] } 4 :=
    ht.erase hq hqs hcb hnone hcl id
  obtain ⟨hok, herased⟩ := (coherent_iff.mp h).erase hk hconst haccepted hconnections hothers
    (ht.listed.mpr (Nat.le_refl 3)) ⟨4, htracked⟩ fun _ _ _ _ => id
  rw [hok]
  exact coherent_iff.mpr herased

theorem functor_coherent (h : Coherent s) {w : WriteResult} (hidle : s.Idle l)
    (hallowed : FunctorAllowed (s.pendingFunctors l)) :
    Yields Coherent (· = Fault.lengthError) (s.step (.functor l w)) := by
  cases hq : s.pendingFunctors l with
  | nil =>
    rw [hq] at hallowed
    exact hallowed.elim
  | cons x rest =>
    obtain ⟨k, t⟩ := x
    rw [hq] at hallowed
    obtain ⟨hhead, hview⟩ := view_pop_self hq
    have hothers : ∀ k', k' ≠ k → _ = s.view k' := fun k' hne => view_pop_ne hq hne
    obtain ⟨r, n, hk, ht⟩ := h.known ⟨l, .inl (by rw [hhead]; exact nofun)⟩
    have hk' : accepted { s with pendingFunctors := Function.update s.pendingFunctors l rest } k =
      some r := hk
    -- a member function that is no longer to run, and makes a milestone
    have hrun : ∀ {c : TcpConnection} {ms n}, c.pendingFunctors = [] →
        c.log.downs = r.conn.log.downs → c.log.closeCallbacks = r.conn.log.closeCallbacks →
        Tracked ((s.view k).pop l (tagged k rest)) { r with
          conn := { c with pendingFunctors := [] }, history := r.history ++ ms } n →
        Coherent (record { s with pendingFunctors := Function.update s.pendingFunctors l rest }
          r.loop k r ms c) := by
      intro c ms n hp hd hcb ht'
      refine h.one hk ⟨rfl, rfl, rfl⟩ rfl rfl (fun _ _ => id)
        (fun k' hne => (view_record_ne hne (.inl hcb)).trans (hothers k' hne)) (n := n) ?_
      rw [view_record_self, hview, hp]
      simp only [if_pos hcb, if_pos hd, List.append_nil, List.map_nil, View.push_nil]
      exact ht'
    simp only [step, hq]
    cases t with
    | connectEstablished =>
      obtain ⟨rfl, rfl, hnext⟩ := ht.establish hhead
      obtain ⟨c, hc, ha, hup, hr, hp, hd, hcb⟩ := (ht.conn.fresh rfl).connectEstablished
      rw [ht.conn.drained] at hp
      simp only [runFunctor, connectEstablished, onConnection_eq hk', hc, ok_bind]
      exact hrun hp hd hcb (hnext _ ha.drained hup hr rfl)
    | removeConnectionInLoop =>
      obtain ⟨rfl, rfl, hclosing, hcount⟩ := ht.removal hhead
      refine erase_coherent h hk ht ⟨rfl, rfl, rfl⟩ rfl rfl hothers ?_ (fun l hl => ?_) ?_ ?_
        (fun l hl => ?_)
      · rw [hview, View.pop_self]
        exact .inr hhead
      · rw [hview, View.pop_ne hl]
      · rw [hview]
        rfl
      · rw [hview, View.pop_self, hcount]
        change ((s.view k).closing r.loop).toNat + 0 = 0
        rw [hclosing]
        rfl
      · rw [hview] at hl
        exact ht.closing l hl
    | own f =>
      by_cases hf : f = .connectDestroyed
      · subst hf
        obtain ⟨rfl, rfl, hnext⟩ := ht.destroy hhead
        obtain ⟨c, hc, ha, hdown, hp, hlog⟩ := (ht.conn.alive (by omega)).connectDestroyed
          (ht.conn.down (by omega)) (ht.conn.registered (by omega) (by omega))
        rw [ht.conn.drained] at hp
        simp only [runFunctor, onConnection_eq hk', hc, ok_bind]
        exact hrun hp (by rw [hlog]) (by rw [hlog]) (hnext _ ha.drained hdown rfl)
      · obtain ⟨rfl, hn, ht'⟩ := ht.next hhead hf
        rw [← hview] at ht'
        have hpopped : Coherent
            { s with pendingFunctors := Function.update s.pendingFunctors r.loop rest } := by
          refine h.one hk ⟨rfl, rfl, rfl⟩ ?_ rfl (fun _ _ => id) hothers ht'
          rw [← hk, Function.update_eq_self]
        rw [runFunctor_own hk' hf]
        refine (TcpConnection.functor_life (ht.conn.alive hn) hf hallowed).bind fun c hc => ?_
        rcases hc with hc | hc
        · exact hpopped.kept hk' ht' hn hc
        · have hup : n = 2 := by
            by_contra hne
            exact hc.up (ht.conn.down (by omega))
          subst hup
          refine hpopped.closed hk' ht' hc ?_ hidle.2
          rw [hview]
          change (tagged k (s.callbacks r.loop)).countP System.closing = 0
          rw [hidle.1]
          rfl

theorem closeCallback_coherent (h : Coherent s) (hsome : s.closing l ≠ none) :
    Yields Coherent (· = Fault.lengthError) (s.step (.closeCallback l)) := by
  obtain ⟨k, hcl⟩ := Option.ne_none_iff_exists'.mp hsome
  have hclosing : (s.view k).closing l = true := decide_eq_true hcl
  obtain ⟨r, n, hk, ht⟩ := h.known ⟨l, .inr (.inr hclosing)⟩
  obtain ⟨rfl, rfl, hleave⟩ := ht.leave hclosing
  have hview := view_closing_self (s := s) (k := k) (l := r.loop)
  have hothers := fun k' (hne : k' ≠ k) => view_closing_ne hcl hne
  simp only [step, hcl, removeConnection]
  by_cases hbase : r.loop = 0
  · rw [if_pos hbase]
    rw [hbase] at hview hothers hclosing ⊢
    have hzero : ((s.view k).queue 0).count .removeConnectionInLoop = 0 := by
      have hone := ht.removing
      rw [hbase, hclosing, Bool.toNat_true, if_pos rfl] at hone
      omega
    refine erase_coherent h hk ht ⟨rfl, rfl, rfl⟩ rfl rfl hothers (.inl (by rw [hview]))
      (fun l _ => by rw [hview]) (by rw [hview]) ?_ (fun l hl => ?_)
    · rw [hview, hbase]
      simp only [Function.update_self, Bool.toNat_false, hzero]
    · rw [hview] at hl
      by_cases hl0 : l = 0
      · rw [hl0, hbase]
      · simp only [Function.update_of_ne hl0] at hl
        exact ht.closing l hl
  · rw [if_neg hbase]
    refine h.one hk ⟨rfl, rfl, rfl⟩ ?_ rfl (fun _ _ => id) (fun k' hne => ?_) (n := 3) ?_
    · rw [← hk, Function.update_eq_self]
      rfl
    · rw [view_queueInLoop_ne hne, hothers k' hne]
    · rw [view_queueInLoop_self, hview]
      exact hleave

theorem Tracked.accept {v : View} {name : Bytes}
    (hempty : ∀ l, v.queue l = [] ∧ v.callbacks l = [] ∧ v.closing l = false) (hlisted : v.listed)
    (hc : c.Fresh) (hp : c.pendingFunctors = []) :
    Tracked (v.push l [.connectEstablished]) ⟨name, l, c, [(.newConnection, 0)]⟩ 1 := by
  have hqueue : ∀ l' x, ((v.push l [.connectEstablished]).queue l').count x =
      if l' = l then [Task.connectEstablished].count x else 0 := by
    intro l' x
    rw [push_count, (hempty l').1, List.count_nil, Nat.zero_add]
  have hmem : ∀ l' x, x ∈ (v.push l [.connectEstablished]).queue l' → x = .connectEstablished := by
    intro l' x hx
    rcases push_mem hx with hx | ⟨-, hx⟩
    · rw [(hempty l').1] at hx
      exact nomatch hx
    · exact List.mem_singleton.mp hx
  exact {
    history := rfl
    started := Nat.le_refl 1
    listed := iff_of_true hlisted (by omega)
    established := fun l' => by simp [hqueue]
    destroyed := fun l' => by simp [hqueue]
    removing := by
      rw [hqueue]
      change (v.closing l).toNat + _ = _
      rw [(hempty l).2.2]
      simp
    base := fun l' hl => nomatch hmem l' _ hl
    own := fun l' f hl => nomatch hmem l' _ hl
    closing := fun l' hl => nomatch (hempty l').2.2.symm.trans hl
    callbacks := fun l' hl => absurd (hempty l').2.1 hl
    once := by
      change (v.callbacks l).countP _ ≤ 1
      rw [(hempty l).2.1]
      exact Nat.zero_le 1
    settled := fun _ => by
      change (v.callbacks l).countP _ = 0
      rw [(hempty l).2.1]
      rfl
    conn := ⟨hp, fun _ => hc, nofun, nofun, nofun, nofun⟩ }

theorem newConnection_coherent (h : Coherent s) (hsmall : s.nextConnId + 1 < 2 ^ 31)
    (writeComplete highWater : Bool) (mark : Nat) :
    Yields Coherent (· = Fault.lengthError) (s.newConnection writeComplete highWater mark) := by
  obtain ⟨c, hc, hfresh, hp⟩ := TcpConnection.new_fresh writeComplete highWater mark
  have habsent := h.absent s.nextConnId (h.fresh _ (Nat.le_refl _))
  obtain ⟨ioLoop, next, hstep⟩ := newConnection_eq (s := s) hc
  have hk := joined_accepted (s := s) ioLoop next c
  have haccept : Tracked
      (((s.joined ioLoop next c).view s.nextConnId).push ioLoop [.connectEstablished])
      ⟨s.connName s.nextConnId, ioLoop, c, [(.newConnection, 0)]⟩ 1 :=
    .accept habsent (joined_listed ioLoop next c) hfresh hp
  rw [hstep]
  by_cases hbase : ioLoop = 0
  · rw [if_pos hbase]
    obtain ⟨-, -, hestablish⟩ := haccept.establish (q := []) (by
      rw [View.push_self]
      exact congrArg (· ++ [Task.connectEstablished]) (habsent ioLoop).1)
    obtain ⟨c', hc', ha, hup, hr, hp', hd, hcb⟩ := hfresh.connectEstablished
    rw [hp] at hp'
    have hview : (((s.joined ioLoop next c).view s.nextConnId).push ioLoop
        [.connectEstablished]).pop ioLoop [] = (s.joined ioLoop next c).view s.nextConnId := by
      refine View.ext (funext fun l' => ?_) rfl rfl rfl
      by_cases hl : l' = ioLoop
      · subst hl
        rw [View.pop_self]
        exact (habsent l').1.symm
      · rw [View.pop_ne hl, View.push_ne hl]
    rw [hview] at hestablish
    subst hbase
    have hrun := @onConnection_eq _ _ _ [(.connectEstablished, 0)] hk TcpConnection.connectEstablished
    rw [hc', ok_bind] at hrun
    rw [TcpServer.connectEstablished, hrun]
    refine coherent_iff.mpr ((coherent_iff.mp h).add hsmall ⟨rfl, rfl, rfl⟩
      (Function.update_idem ..) rfl rfl (fun k hne => ?_) ⟨2, ?_⟩)
    · rw [view_record_ne hne (.inl hcb)]
      exact ⟨rfl, rfl, rfl⟩
    · rw [view_record_self, hp']
      simp only [if_pos hcb, if_pos hd, List.append_nil, List.map_nil, View.push_nil]
      exact hestablish _ ha.drained hup hr rfl
  · rw [if_neg hbase]
    refine coherent_iff.mpr ((coherent_iff.mp h).add hsmall ⟨rfl, rfl, rfl⟩ rfl rfl rfl
      (fun k hne => ?_) ⟨1, ?_⟩)
    · rw [view_queueInLoop_ne hne]
      exact ⟨rfl, rfl, rfl⟩
    · rw [view_queueInLoop_self]
      exact haccept

theorem step_coherent {e : ServerEvent} (h : Coherent s) (he : s.enabled e) :
    Yields Coherent (· = Fault.lengthError) (s.step e) := by
  cases e with
  | newConnection writeComplete highWater mark => exact newConnection_coherent h he.2 _ _ _
  | call k call =>
    obtain ⟨r, hk, hcall⟩ := he
    exact call_coherent h hk hcall
  | poll k rv =>
    obtain ⟨r, hk, hidle, hr⟩ := he
    exact poll_coherent h hk hidle hr
  | handle l read w => exact handle_coherent h he.1 he.2
  | closeCallback l => exact closeCallback_coherent h he
  | functor l w => exact functor_coherent h he.1 he.2

theorem new_coherent (name : Bytes) (ipPort : IpPort) (loops : Nat) :
    Coherent (new name ipPort loops) := coherent_iff.mpr (.new name ipPort loops)

/-- What holds of all accepted connections: the milestones of each are the first few of its life
cycle, each on its loop, and `connections_` has it until it is erased. -/
structure Protocol (s : TcpServer) : Prop where
  names : ∀ k k' r r', s.accepted k = some r → s.accepted k' = some r' → r.name = r'.name → k = k'
  begun : ∀ k r, s.accepted k = some r → r.history ≠ []
  history : ∀ k r, s.accepted k = some r → r.history <+: lifeCycle r.loop
  entries : ∀ name k, s.connections name = some k ↔
    ∃ r, s.accepted k = some r ∧ r.name = name ∧ (.erased, 0) ∉ r.history

theorem erased_iff (h : 1 ≤ n) : (Milestone.erased, 0) ∉ (lifeCycle l).take n ↔ n ≤ 3 := by
  match n, h with
  | 1, _ | 2, _ | 3, _ => simp [lifeCycle]
  | n + 4, _ => simp [lifeCycle]

theorem Coherent.protocol (h : Coherent s) : Protocol s where
  names := fun k k' r r' hk hk' hrr => by
    rw [h.names k r hk, h.names k' r' hk'] at hrr
    have := h.small
    have := h.lt hk
    have := h.lt hk'
    exact connName_inj (by omega) (by omega) hrr
  begun := fun k r hk => by
    obtain ⟨n, ht⟩ := h.tracked k r hk
    have := ht.started
    rw [ht.history]
    match n, this with
    | n + 1, _ => exact nofun
  history := fun k r hk => by
    obtain ⟨n, ht⟩ := h.tracked k r hk
    rw [ht.history]
    exact List.take_prefix ..
  entries := fun name k => by
    constructor
    · intro hk
      obtain ⟨r, hr, rfl⟩ := h.entries name k hk
      obtain ⟨n, ht⟩ := h.tracked k r hr
      refine ⟨r, hr, rfl, ?_⟩
      rw [ht.history, erased_iff ht.started, ← ht.listed]
      rw [h.names k r hr] at hk
      exact hk
    · rintro ⟨r, hr, rfl, hnot⟩
      obtain ⟨n, ht⟩ := h.tracked k r hr
      rw [ht.history, erased_iff ht.started, ← ht.listed] at hnot
      rw [h.names k r hr]
      exact hnot

/-- Connections are removed in order in every run of the server, whatever the loops do. -/
theorem removal_protocol (name : Bytes) (ipPort : IpPort) (loops : Nat) {es : List ServerEvent}
    (h : machine.Legal (fun _ _ => True) (new name ipPort loops) es) :
    Yields Protocol (· = Fault.lengthError) (machine.run (new name ipPort loops) es) :=
  (Machine.run_keeps (I := Coherent) (fun _ _ hs he _ => step_coherent hs he)
    (new_coherent name ipPort loops) h).mono fun _ hs => hs.protocol

def sampleAddress : IpPort := ⟨ascii "127.0.0.1:2000", by decide +kernel⟩

/-- Two IO loops: the first connection is at its end of stream while a `forceClose` of it is queued,
the second stays; then the first is erased and destroyed. -/
def sampleRun : List ServerEvent :=
  [.newConnection true false 0, .functor 1 (.wrote 0), .newConnection false false 0,
    .functor 2 (.wrote 0), .call 1 (.send [1] (.wrote 1)), .call 1 .forceClose,
    .poll 1 ⟨true, false, false, false, false, false, false⟩, .handle 1 (some []) (.wrote 0),
    .call 2 .shutdown, .closeCallback 1, .functor 1 (.wrote 0), .functor 0 (.wrote 0),
    .functor 1 (.wrote 0), .functor 1 (.wrote 0)]

theorem removal_protocol_sample : Yields Protocol (· = Fault.lengthError)
    (machine.run (new (ascii "echo") sampleAddress 2) sampleRun) :=
  removal_protocol (ascii "echo") sampleAddress 2 (by decide +kernel)

end Muduo.Net.TcpServer
