import Muduo.Net.Removal

namespace Muduo.Net.TcpServer
open Muduo.Lib

variable {s s' : TcpServer} {k k' : Nat} {l : LoopId} {r r' : ServerConnection} {c : TcpConnection}
  {ms : List (Milestone × LoopId)}

/-- The books of the server agree, and `T` holds of each of its connections. -/
structure Accounts (T : Nat → View → ServerConnection → Prop) (s : TcpServer) : Prop where
  small : s.nextConnId < 2 ^ 31
  fresh : ∀ k, s.nextConnId ≤ k → s.accepted k = none
  names : ∀ k r, s.accepted k = some r → r.name = s.connName k
  entries : ∀ name k, s.connections name = some k → ∃ r, s.accepted k = some r ∧ r.name = name
  absent : ∀ k, s.accepted k = none → ∀ l,
    (s.view k).queue l = [] ∧ (s.view k).callbacks l = [] ∧ (s.view k).closing l = false
  each : ∀ k r, s.accepted k = some r → T k (s.view k) r

section

variable {T T' : Nat → View → ServerConnection → Prop}

theorem Accounts.lt (h : Accounts T s) (hk : s.accepted k = some r) : k < s.nextConnId := by
  by_contra hge
  exact nomatch (h.fresh k (Nat.le_of_not_lt hge)).symm.trans hk

theorem Accounts.known (h : Accounts T s)
    (hk : ∃ l, (s.view k).queue l ≠ [] ∨ (s.view k).callbacks l ≠ [] ∨ (s.view k).closing l = true) :
    ∃ r, s.accepted k = some r ∧ T k (s.view k) r := by
  cases hr : s.accepted k with
  | some r => exact ⟨r, rfl, h.each k r hr⟩
  | none =>
    obtain ⟨l, hl⟩ := hk
    obtain ⟨hq, hcb, hcl⟩ := h.absent k hr l
    rcases hl with hl | hl | hl
    · exact absurd hq hl
    · exact absurd hcb hl
    · exact nomatch hcl.symm.trans hl

/-- A step that concerns one connection. -/
theorem Accounts.one (h : Accounts T s) (hk : s.accepted k = some r)
    (hconst : s'.name = s.name ∧ s'.ipPort = s.ipPort ∧ s'.nextConnId = s.nextConnId)
    (haccepted : s'.accepted = Function.update s.accepted k (some r')) (hname : r'.name = r.name)
    (hentries : ∀ name k', s'.connections name = some k' → s.connections name = some k')
    (hothers : ∀ k', k' ≠ k → s'.view k' = s.view k') (hself : T' k (s'.view k) r')
    (hkeep : ∀ k' v r₁, k' ≠ k → T k' v r₁ → T' k' v r₁) : Accounts T' s' := by
  obtain ⟨hn, hi, hnext⟩ := hconst
  have hconn : ∀ k, s'.connName k = s.connName k := fun k => by rw [connName, connName, hn, hi]
  have hat : s'.accepted k = some r' := by rw [haccepted, Function.update_self]
  have hother : ∀ k', k' ≠ k → s'.accepted k' = s.accepted k' := fun k' hne => by
    rw [haccepted, Function.update_of_ne hne]
  refine ⟨hnext ▸ h.small, fun k' hk' => ?_, fun k' r₁ hk' => ?_, fun name k' hk' => ?_,
    fun k' hk' l => ?_, fun k' r₁ hk' => ?_⟩
  · have hne : k' ≠ k := fun he => by
      have := h.lt hk
      omega
    rw [hother k' hne]
    exact h.fresh k' (hnext ▸ hk')
  · rw [hconn]
    by_cases hne : k' = k
    · subst hne
      obtain rfl := Option.some.inj (hat.symm.trans hk')
      rw [hname]
      exact h.names k' r hk
    · rw [hother k' hne] at hk'
      exact h.names k' r₁ hk'
  · obtain ⟨r₁, hr₁, hrn⟩ := h.entries name k' (hentries name k' hk')
    by_cases hne : k' = k
    · subst hne
      obtain rfl := Option.some.inj (hk.symm.trans hr₁)
      exact ⟨r', hat, hname.trans hrn⟩
    · exact ⟨r₁, (hother k' hne).trans hr₁, hrn⟩
  · have hne : k' ≠ k := fun he => by
      subst he
      cases hat.symm.trans hk'
    rw [hothers k' hne]
    exact h.absent k' ((hother k' hne).symm.trans hk') l
  · by_cases hne : k' = k
    · subst hne
      obtain rfl := Option.some.inj (hat.symm.trans hk')
      exact hself
    · rw [hothers k' hne]
      exact hkeep k' _ r₁ hne (h.each k' r₁ ((hother k' hne).symm.trans hk'))

/-- A step that adds a connection. -/
theorem Accounts.add (h : Accounts T s) (hsmall : s.nextConnId + 1 < 2 ^ 31)
    (hconst : s'.name = s.name ∧ s'.ipPort = s.ipPort ∧ s'.nextConnId = s.nextConnId + 1)
    (haccepted : s'.accepted = Function.update s.accepted s.nextConnId (some r))
    (hname : r.name = s.connName s.nextConnId)
    (hconnections : s'.connections =
      Function.update s.connections (s.connName s.nextConnId) (some s.nextConnId))
    (hothers : ∀ k, k ≠ s.nextConnId → (s'.view k).queue = (s.view k).queue ∧
      (s'.view k).callbacks = (s.view k).callbacks ∧ (s'.view k).closing = (s.view k).closing)
    (hself : T s.nextConnId (s'.view s.nextConnId) r) : Accounts T s' := by
  obtain ⟨hn, hi, hnext⟩ := hconst
  have hconn : ∀ k, s'.connName k = s.connName k := fun k => by rw [connName, connName, hn, hi]
  have hat : s'.accepted s.nextConnId = some r := by rw [haccepted, Function.update_self]
  have hother : ∀ k, k ≠ s.nextConnId → s'.accepted k = s.accepted k := fun k hne => by
    rw [haccepted, Function.update_of_ne hne]
  refine ⟨hnext ▸ hsmall, fun k hk => ?_, fun k r₁ hk => ?_, fun name k hk => ?_,
    fun k hk l => ?_, fun k r₁ hk => ?_⟩
  · rw [hother k (by omega)]
    exact h.fresh k (by omega)
  · rw [hconn]
    by_cases hne : k = s.nextConnId
    · subst hne
      rw [← Option.some.inj (hat.symm.trans hk), hname]
    · rw [hother k hne] at hk
      exact h.names k r₁ hk
  · rw [hconnections] at hk
    by_cases hnm : name = s.connName s.nextConnId
    · subst hnm
      rw [Function.update_self] at hk
      obtain rfl := Option.some.inj hk
      exact ⟨r, hat, hname⟩
    · rw [Function.update_of_ne hnm] at hk
      obtain ⟨r₁, hr₁, hrn⟩ := h.entries name k hk
      have := h.lt hr₁
      exact ⟨r₁, (hother k (by omega)).trans hr₁, hrn⟩
  · have hne : k ≠ s.nextConnId := fun he => by
      rw [he, hat] at hk
      cases hk
    obtain ⟨hq, hcb, hcl⟩ := hothers k hne
    rw [hq, hcb, hcl]
    exact h.absent k ((hother k hne).symm.trans hk) l
  · by_cases hne : k = s.nextConnId
    · subst hne
      obtain rfl := Option.some.inj (hat.symm.trans hk)
      exact hself
    · obtain ⟨hq, hcb, hcl⟩ := hothers k hne
      have hold := (hother k hne).symm.trans hk
      have hlt := h.lt hold
      have hnm : s.connName k ≠ s.connName s.nextConnId := fun he =>
        hne (connName_inj (by omega) (by omega) he)
      have hview : s'.view k = s.view k := by
        refine View.ext hq hcb hcl (propext ?_)
        simp only [view, hconn, hconnections, Function.update_of_ne hnm]
      rw [hview]
      exact h.each k r₁ hold

/-- The server before it accepts any. -/
theorem Accounts.new (name : Bytes) (ipPort : IpPort) (loops : Nat) :
    Accounts T (TcpServer.new name ipPort loops) where
  small := show 1 < 2 ^ 31 by decide
  fresh := fun _ _ => rfl
  names := fun _ _ hk => nomatch hk
  entries := fun _ _ hk => nomatch hk
  absent := fun _ _ _ => ⟨rfl, rfl, rfl⟩
  each := fun _ _ hk => nomatch hk

end

theorem View.push_nil (v : View) (l : LoopId) : v.push l [] = v := by
  unfold View.push
  rw [List.append_nil, Function.update_eq_self]

theorem view_record_self : (s.record l k r ms c).view k =
    { (s.view k).push r.loop (c.pendingFunctors.map .own) with
      closing := if c.log.closeCallbacks = r.conn.log.closeCallbacks then (s.view k).closing
        else Function.update (s.view k).closing l true } := by
  refine View.ext (funext fun l' => ?_) rfl (funext fun l' => ?_) rfl
  · have hmap : c.pendingFunctors.map (fun f => (k, Task.own f)) =
        (c.pendingFunctors.map Task.own).map (k, ·) := by
      rw [List.map_map]
      rfl
    simp only [view, record, View.push, hmap]
    by_cases hl : l' = r.loop
    · subst hl
      rw [Function.update_self, Function.update_self, tagged_append, tagged_map_self]
    · rw [Function.update_of_ne hl, Function.update_of_ne hl]
  · simp only [view, record]
    split
    · rfl
    · by_cases hl : l' = l
      · subst hl
        rw [Function.update_self, Function.update_self]
        simp
      · rw [Function.update_of_ne hl, Function.update_of_ne hl]

theorem view_record_ne (hne : k' ≠ k)
    (hc : c.log.closeCallbacks = r.conn.log.closeCallbacks ∨ s.closing l = none) :
    (s.record l k r ms c).view k' = s.view k' := by
  refine View.ext (funext fun l' => ?_) rfl (funext fun l' => ?_) rfl
  · have hmap : c.pendingFunctors.map (fun f => (k, Task.own f)) =
        (c.pendingFunctors.map Task.own).map (k, ·) := by
      rw [List.map_map]
      rfl
    simp only [view, record, hmap]
    by_cases hl : l' = r.loop
    · subst hl
      rw [Function.update_self, tagged_append, tagged_map_ne hne.symm, List.append_nil]
    · rw [Function.update_of_ne hl]
  · simp only [view, record]
    split
    · rfl
    · rename_i hdiff
      by_cases hl : l' = l
      · subst hl
        rw [Function.update_self, hc.resolve_left hdiff]
        simp [hne.symm]
      · rw [Function.update_of_ne hl]

theorem view_queueInLoop_self (t : Task) :
    (s.queueInLoop l (k, t)).view k = (s.view k).push l [t] := by
  refine View.ext (funext fun l' => ?_) rfl rfl rfl
  simp only [view, queueInLoop, View.push]
  by_cases hl : l' = l
  · subst hl
    rw [Function.update_self, Function.update_self, tagged_append]
    simp
  · rw [Function.update_of_ne hl, Function.update_of_ne hl]

theorem view_queueInLoop_ne (hne : k' ≠ k) (t : Task) :
    (s.queueInLoop l (k, t)).view k' = s.view k' := by
  refine View.ext (funext fun l' => ?_) rfl rfl rfl
  simp only [view, queueInLoop]
  by_cases hl : l' = l
  · subst hl
    rw [Function.update_self, tagged_append, tagged_cons_ne hne.symm, tagged_nil, List.append_nil]
  · rw [Function.update_of_ne hl]

/-- The loop takes out its first functor. -/
theorem view_pop_self {t : Task} {rest : List (Nat × Task)}
    (hq : s.pendingFunctors l = (k, t) :: rest) :
    (s.view k).queue l = t :: tagged k rest ∧
      view { s with pendingFunctors := Function.update s.pendingFunctors l rest } k =
        (s.view k).pop l (tagged k rest) := by
  refine ⟨(congrArg (tagged k) hq).trans (tagged_cons_self ..), View.ext (funext fun l' => ?_) rfl rfl rfl⟩
  simp only [view, View.pop]
  by_cases hl : l' = l
  · subst hl
    rw [Function.update_self, Function.update_self]
  · rw [Function.update_of_ne hl, Function.update_of_ne hl]

theorem view_pop_ne {t : Task} {rest : List (Nat × Task)}
    (hq : s.pendingFunctors l = (k, t) :: rest) (hne : k' ≠ k) :
    view { s with pendingFunctors := Function.update s.pendingFunctors l rest } k' = s.view k' := by
  refine View.ext (funext fun l' => ?_) rfl rfl rfl
  simp only [view]
  by_cases hl : l' = l
  · subst hl
    rw [Function.update_self, hq, tagged_cons_ne hne.symm]
  · rw [Function.update_of_ne hl]

theorem view_callback_self {cb : Channel.Callback} {rest : List (Nat × Channel.Callback)}
    (hq : s.callbacks l = (k, cb) :: rest) :
    (s.view k).callbacks l = cb :: tagged k rest ∧
      view { s with callbacks := Function.update s.callbacks l rest } k =
        { s.view k with callbacks := Function.update (s.view k).callbacks l (tagged k rest) } := by
  refine ⟨(congrArg (tagged k) hq).trans (tagged_cons_self ..), View.ext rfl (funext fun l' => ?_) rfl rfl⟩
  simp only [view]
  by_cases hl : l' = l
  · subst hl
    rw [Function.update_self, Function.update_self]
  · rw [Function.update_of_ne hl, Function.update_of_ne hl]

theorem view_callback_ne {cb : Channel.Callback} {rest : List (Nat × Channel.Callback)}
    (hq : s.callbacks l = (k, cb) :: rest) (hne : k' ≠ k) :
    view { s with callbacks := Function.update s.callbacks l rest } k' = s.view k' := by
  refine View.ext rfl (funext fun l' => ?_) rfl rfl
  simp only [view]
  by_cases hl : l' = l
  · subst hl
    rw [Function.update_self, hq, tagged_cons_ne hne.symm]
  · rw [Function.update_of_ne hl]

theorem view_poll_self (callbacks : List Channel.Callback) :
    view { s with callbacks := Function.update s.callbacks l (callbacks.map (k, ·)) } k =
      { s.view k with callbacks := Function.update (s.view k).callbacks l callbacks } := by
  refine View.ext rfl (funext fun l' => ?_) rfl rfl
  simp only [view]
  by_cases hl : l' = l
  · subst hl
    rw [Function.update_self, Function.update_self, tagged_map_self]
  · rw [Function.update_of_ne hl, Function.update_of_ne hl]

theorem view_poll_ne (hne : k' ≠ k) (hidle : s.callbacks l = []) (callbacks : List Channel.Callback) :
    view { s with callbacks := Function.update s.callbacks l (callbacks.map (k, ·)) } k' =
      s.view k' := by
  refine View.ext rfl (funext fun l' => ?_) rfl rfl
  simp only [view]
  by_cases hl : l' = l
  · subst hl
    rw [Function.update_self, tagged_map_ne hne.symm, hidle, tagged_nil]
  · rw [Function.update_of_ne hl]

/-- The loop goes on to `closeCallback_`. -/
theorem view_closing_self : view { s with closing := Function.update s.closing l none } k =
    { s.view k with closing := Function.update (s.view k).closing l false } := by
  refine View.ext rfl rfl (funext fun l' => ?_) rfl
  simp only [view]
  by_cases hl : l' = l
  · subst hl
    simp only [Function.update_self, reduceCtorEq, decide_false]
  · simp only [Function.update_of_ne hl]

theorem view_closing_ne (hcl : s.closing l = some k) (hne : k' ≠ k) :
    view { s with closing := Function.update s.closing l none } k' = s.view k' := by
  refine View.ext rfl rfl (funext fun l' => ?_) rfl
  simp only [view]
  by_cases hl : l' = l
  · subst hl
    simp only [Function.update_self, hcl, reduceCtorEq, Option.some.injEq, hne.symm]
  · simp only [Function.update_of_ne hl]

theorem onConnection_eq (hk : s.accepted k = some r) (op : TcpConnection → Except Fault TcpConnection) :
    s.onConnection r.loop k ms op = (op r.conn >>= fun c => .ok (s.record r.loop k r ms c)) := by
  simp only [onConnection, hk, assertInLoopThread, if_true, ok_bind]

/-- The functors that are a connection's own business. -/
theorem runFunctor_own {f : Functor} (hk : s.accepted k = some r) (hf : f ≠ .connectDestroyed)
    (w : WriteResult) : s.runFunctor r.loop w k (.own f) =
      (System.functorStep r.conn w f >>= fun c => .ok (s.record r.loop k r [] c)) := by
  have hop : s.runFunctor r.loop w k (.own f) =
      s.onConnection r.loop k [] fun c => System.functorStep c w f := by
    cases f <;> first | rfl | exact absurd rfl hf
  rw [hop, onConnection_eq hk]

/-- What `removeConnectionInLoop` makes of the server. -/
def erased (s : TcpServer) (k : Nat) (r : ServerConnection) : TcpServer :=
  queueInLoop { s with
    connections := Function.update s.connections r.name none
    accepted := Function.update s.accepted k
      (some { r with history := r.history ++ [(.erased, 0)] }) } r.loop (k, .own .connectDestroyed)

theorem removeConnectionInLoop_eq (hk : s.accepted k = some r) (hne : s.connections r.name ≠ none) :
    s.removeConnectionInLoop 0 k = .ok (s.erased k r) := by
  simp only [removeConnectionInLoop, hk, assertInLoopThread, if_true, ok_bind, if_neg hne, check_pos]
  rfl

theorem view_erased_self (hname : r.name = s.connName k) : (s.erased k r).view k =
    { (s.view k).push r.loop [.own .connectDestroyed] with listed := False } := by
  have hview := view_queueInLoop_self (l := r.loop) (k := k) (s := { s with
    connections := Function.update s.connections r.name none
    accepted := Function.update s.accepted k
      (some { r with history := r.history ++ [(.erased, 0)] }) }) (.own .connectDestroyed)
  refine hview.trans (View.ext rfl rfl rfl (eq_false ?_))
  change ¬Function.update s.connections r.name none (s.connName k) = some k
  rw [hname, Function.update_self]
  exact nofun

theorem view_erased_ne (hlisted : s.connections r.name = some k) (hne : k' ≠ k) :
    (s.erased k r).view k' = s.view k' := by
  refine (view_queueInLoop_ne hne _).trans (View.ext rfl rfl rfl (propext ?_))
  change Function.update s.connections r.name none (s.connName k') = some k' ↔ _
  by_cases hn : s.connName k' = r.name
  · rw [hn, Function.update_self]
    refine iff_of_false nofun fun he => ?_
    change s.connections (s.connName k') = some k' at he
    rw [hn, hlisted] at he
    exact hne (Option.some.inj he).symm
  · rw [Function.update_of_ne hn]
    rfl

/-- `removeConnectionInLoop` on the base loop, after what the loop took out to run it. -/
theorem Accounts.erase {T T' : Nat → View → ServerConnection → Prop} {s₁ : TcpServer}
    (h : Accounts T s) (hk : s.accepted k = some r)
    (hconst : s₁.name = s.name ∧ s₁.ipPort = s.ipPort ∧ s₁.nextConnId = s.nextConnId)
    (haccepted : s₁.accepted = s.accepted) (hconnections : s₁.connections = s.connections)
    (hothers : ∀ k', k' ≠ k → s₁.view k' = s.view k') (hlisted : (s.view k).listed)
    (hself : T' k { (s₁.view k).push r.loop [.own .connectDestroyed] with listed := False }
      { r with history := r.history ++ [(.erased, 0)] })
    (hkeep : ∀ k' v r₁, k' ≠ k → T k' v r₁ → T' k' v r₁) :
    s₁.removeConnectionInLoop 0 k = .ok (s₁.erased k r) ∧ Accounts T' (s₁.erased k r) := by
  have hk₁ : s₁.accepted k = some r := by rw [haccepted, hk]
  have hname := h.names k r hk
  have hname₁ : r.name = s₁.connName k := by rw [hname, connName, connName, hconst.1, hconst.2.1]
  have hlisted₁ : s₁.connections r.name = some k := by
    rw [hconnections, hname]
    exact hlisted
  refine ⟨removeConnectionInLoop_eq hk₁ (by rw [hlisted₁]; exact (by simp)), ?_⟩
  have hname' : ServerConnection.name { r with history := r.history ++ [(.erased, 0)] } = r.name :=
    rfl
  refine h.one hk hconst (by rw [← haccepted]; rfl) hname' (fun name k' hk' => ?_)
    (fun k' hne => (view_erased_ne hlisted₁ hne).trans (hothers k' hne)) ?_ hkeep
  · change Function.update s₁.connections r.name none name = some k' at hk'
    by_cases hn : name = r.name
    · rw [hn, Function.update_self] at hk'
      cases hk'
    · rwa [Function.update_of_ne hn, hconnections] at hk'
  · rw [view_erased_self hname₁]
    exact hself

/-- The server with a connection that it has accepted, before that is established. -/
def joined (s : TcpServer) (ioLoop : LoopId) (next : Nat) (c : TcpConnection) : TcpServer := { s with
  next := next
  nextConnId := s.nextConnId + 1
  connections := Function.update s.connections (s.connName s.nextConnId) (some s.nextConnId)
  accepted := Function.update s.accepted s.nextConnId
    (some ⟨s.connName s.nextConnId, ioLoop, c, [(.newConnection, 0)]⟩) }

theorem newConnection_eq {writeComplete highWater : Bool} {mark : Nat}
    (hc : TcpConnection.new writeComplete highWater mark = .ok c) : ∃ ioLoop next,
      s.newConnection writeComplete highWater mark =
        if ioLoop = 0 then (s.joined ioLoop next c).connectEstablished 0 s.nextConnId
        else .ok ((s.joined ioLoop next c).queueInLoop ioLoop (s.nextConnId, .connectEstablished)) := by
  obtain ⟨ioLoop, next, hnext⟩ : ∃ ioLoop next, s.getNextLoop = (ioLoop, { s with next := next }) := by
    unfold getNextLoop
    split
    · exact ⟨0, s.next, rfl⟩
    · exact ⟨_, _, rfl⟩
  refine ⟨ioLoop, next, ?_⟩
  simp only [newConnection, hnext, hc, ok_bind]
  rfl

theorem joined_accepted (ioLoop : LoopId) (next : Nat) (c : TcpConnection) :
    (s.joined ioLoop next c).accepted s.nextConnId =
      some ⟨s.connName s.nextConnId, ioLoop, c, [(.newConnection, 0)]⟩ := Function.update_self ..

theorem joined_listed (ioLoop : LoopId) (next : Nat) (c : TcpConnection) :
    ((s.joined ioLoop next c).view s.nextConnId).listed := Function.update_self ..

end Muduo.Net.TcpServer
