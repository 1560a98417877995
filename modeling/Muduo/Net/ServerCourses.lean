import Muduo.Net.ServerStages

namespace Muduo.Net.TcpServer
open Muduo.Lib

variable {s s' s₁ : TcpServer} {k k' : Nat} {l : LoopId} {r r' : ServerConnection} {st st' : Stage}
  {c : TcpConnection} {ms : List (Milestone × LoopId)} {halts reopens : Prop}
  {P P' : Nat → View → ServerConnection → Stage → Prop}

/-- Every connection is on its course, and `P` holds of it. -/
def Running (P : Nat → View → ServerConnection → Stage → Prop) : TcpServer → Prop :=
  Accounts fun k v r => ∃ st, Course v r st ∧ P k v r st

/-- A step that concerns one connection. -/
structure Touches (s s' : TcpServer) (k : Nat) (r r' : ServerConnection) (st : Stage) : Prop where
  name : s'.name = s.name
  ipPort : s'.ipPort = s.ipPort
  nextConnId : s'.nextConnId = s.nextConnId
  accepted : s'.accepted = Function.update s.accepted k (some r')
  same : r'.name = r.name ∧ r'.loop = r.loop
  entries : ∀ name k', s'.connections name = some k' → s.connections name = some k'
  others : ∀ k', k' ≠ k → s'.view k' = s.view k'
  course : Course (s'.view k) r' st

theorem Running.touch (h : Running P s) (hk : s.accepted k = some r)
    (ht : Touches s s' k r r' st) (hp : P' k (s'.view k) r' st)
    (hothers : ∀ k' v r₁ st₁, k' ≠ k → P k' v r₁ st₁ → P' k' v r₁ st₁) : Running P' s' := by
  refine Accounts.one h hk ⟨ht.name, ht.ipPort, ht.nextConnId⟩ ht.accepted ht.same.1 ht.entries
    ht.others ⟨st, ht.course, hp⟩ fun k' v r₁ hne => ?_
  rintro ⟨st₁, hc₁, hp₁⟩
  exact ⟨st₁, hc₁, hothers k' v r₁ st₁ hne hp₁⟩

/-- A connection that its loops know of, and the stage that it is in. -/
theorem Running.known (h : Running P s)
    (hk : ∃ l, (s.view k).queue l ≠ [] ∨ (s.view k).callbacks l ≠ [] ∨ (s.view k).closing l = true) :
    ∃ r st, s.accepted k = some r ∧ Course (s.view k) r st ∧ P k (s.view k) r st := by
  obtain ⟨r, hr, st, hc, hp⟩ := Accounts.known h hk
  exact ⟨r, st, hr, hc, hp⟩

theorem Touches.trans (h : Touches s s₁ k r r st) (h' : Touches s₁ s' k r r' st') :
    Touches s s' k r r' st' := by
  refine ⟨h'.name.trans h.name, h'.ipPort.trans h.ipPort, h'.nextConnId.trans h.nextConnId, ?_,
    h'.same, fun name k' hk => h.entries name k' (h'.entries name k' hk),
    fun k' hne => (h'.others k' hne).trans (h.others k' hne), h'.course⟩
  rw [h'.accepted, h.accepted, Function.update_idem]

/-- What the loops hand out of a connection leaves it as it is. -/
theorem Touches.same_record (hk : s.accepted k = some r) (hname : s'.name = s.name)
    (hip : s'.ipPort = s.ipPort) (hnext : s'.nextConnId = s.nextConnId)
    (haccepted : s'.accepted = s.accepted) (hconnections : s'.connections = s.connections)
    (hothers : ∀ k', k' ≠ k → s'.view k' = s.view k') (hcourse : Course (s'.view k) r st) :
    Touches s s' k r r st := by
  refine ⟨hname, hip, hnext, ?_, ⟨rfl, rfl⟩, fun name k' hk' => ?_, hothers, hcourse⟩
  · rw [haccepted, ← hk, Function.update_eq_self]
  · rw [hconnections] at hk'
    exact hk'

theorem record_keep (hc : Course (s.view k) r st) (hk : r.conn.Keeps halts reopens c) :
    Touches s (s.record r.loop k r ms c) k r { r with
      conn := { c with pendingFunctors := [] }
      history := r.history ++ ms ++ if c.log.downs = r.conn.log.downs then [] else [(.down, r.loop)] }
      st := by
  obtain ⟨-, -, hcallbacks⟩ := hk.log
  refine ⟨rfl, rfl, rfl, rfl, ⟨rfl, rfl⟩, fun _ _ => id,
    fun k' hne => view_record_ne hne (.inl hcallbacks), ?_⟩
  rw [view_record_self, if_pos hcallbacks]
  exact hc.keep hk

theorem record_fall (hc : Course (s.view k) r (.up false)) (hf : r.conn.Falls c)
    (hidle : s.closing r.loop = none) :
    Touches s (s.record r.loop k r ms c) k r { r with
      conn := { c with pendingFunctors := [] }
      history := r.history ++ ms ++ if c.log.downs = r.conn.log.downs then [] else [(.down, r.loop)] }
      .closing := by
  refine ⟨rfl, rfl, rfl, rfl, ⟨rfl, rfl⟩, fun _ _ => id,
    fun k' hne => view_record_ne hne (.inr hidle), ?_⟩
  rw [view_record_self, if_neg hf.log.2.2, hf.queued, hc.conn.drained, List.map_nil, View.push_nil]
  exact hc.fall hf

/-- A member function that queues nothing and is no `handleClose`. -/
theorem view_record_quiet (hp : c.pendingFunctors = [])
    (hcb : c.log.closeCallbacks = r.conn.log.closeCallbacks) :
    (s.record l k r ms c).view k' = s.view k' := by
  by_cases hne : k' = k
  · rw [hne, view_record_self, hp, if_pos hcb, List.map_nil, View.push_nil]
  · exact view_record_ne hne (.inl hcb)

theorem pop_functor {f : Functor} {rest : List (Nat × Task)} (hk : s.accepted k = some r)
    (hc : Course (s.view k) r st) (hq : s.pendingFunctors l = (k, .own f) :: rest)
    (hf : f ≠ .connectDestroyed) : l = r.loop ∧ Touches s
      { s with pendingFunctors := Function.update s.pendingFunctors l rest } k r r st := by
  obtain ⟨hhead, hview⟩ := view_pop_self hq
  obtain ⟨hl, hnext⟩ := hc.next hhead hf
  rw [← hview] at hnext
  exact ⟨hl, .same_record hk rfl rfl rfl rfl rfl (fun k' hne => view_pop_ne hq hne) hnext⟩

theorem pop_callback {cb : Channel.Callback} {rest : List (Nat × Channel.Callback)}
    (hk : s.accepted k = some r) (hc : Course (s.view k) r st)
    (hq : s.callbacks l = (k, cb) :: rest) : l = r.loop ∧
      Touches s { s with callbacks := Function.update s.callbacks l rest } k r r st := by
  obtain ⟨hhead, hview⟩ := view_callback_self hq
  have hl : l = r.loop := hc.callbacks l (by rw [hhead]; exact nofun)
  refine ⟨hl, .same_record hk rfl rfl rfl rfl rfl (fun k' hne => view_callback_ne hq hne) ?_⟩
  rw [hview]
  refine hc.with_callbacks fun l' hl' => ?_
  by_cases hll : l' = l
  · rw [hll, hl]
  · rw [Function.update_of_ne hll] at hl'
    exact hc.callbacks l' hl'

theorem poll_touches (hk : s.accepted k = some r) (hc : Course (s.view k) r st) {rv : Revents}
    (hidle : s.callbacks r.loop = []) : Touches s { s with
      callbacks := Function.update s.callbacks r.loop
        ((Channel.handleEventWithGuard rv).map (k, ·)) } k r r st := by
  refine .same_record hk rfl rfl rfl rfl rfl (fun k' hne => ?_) ?_
  · exact view_poll_ne hne hidle _
  · rw [view_poll_self]
    refine hc.with_callbacks fun l' hl' => ?_
    by_contra hne
    rw [Function.update_of_ne hne] at hl'
    exact hne (hc.callbacks l' hl')

/-- A call on a connection, in any stage. -/
theorem call_steps (hk : s.accepted k = some r) (hc : Course (s.view k) r st) {call : Call}
    (hcall : (System.start r.conn).CallAllowed call) :
    Yields (fun s' => ∃ c, r.conn.Keeps call.Halts call.Reopens c ∧ s' = s.record r.loop k r [] c)
      (· = Fault.lengthError) (s.step (.call k call)) := by
  simp only [step, hk, onConnection_eq hk]
  exact ((TcpConnection.call_keeps hc.conn.sound hcall).weaken fun f hf => hf.1).bind
    fun c hkeep => ⟨c, hkeep, rfl⟩

theorem handle_steps {cb : Channel.Callback} {rest : List (Nat × Channel.Callback)}
    {read : Option Bytes} {w : WriteResult} (hk : s.accepted k = some r)
    (hc : Course (s.view k) r st) (hq : s.callbacks r.loop = (k, cb) :: rest)
    (hallowed : s.HandleAllowed read w (s.callbacks r.loop)) :
    Yields (fun s' => ∃ c, (r.conn.Keeps False False c ∨ cb.Closes read ∧ r.conn.Falls c) ∧
        s' = record { s with callbacks := Function.update s.callbacks r.loop rest } r.loop k r [] c)
      (fun f => f = .lengthError ∨ cb.Closes read) (s.step (.handle r.loop read w)) := by
  rw [hq] at hallowed
  obtain ⟨hread, hwrite⟩ := hallowed r hk
  have hk' : accepted { s with callbacks := Function.update s.callbacks r.loop rest } k = some r := hk
  simp only [step, hq, onConnection_eq hk']
  exact (TcpConnection.callback_keeps hc.conn.sound hread hwrite).bind fun c hkeep => ⟨c, hkeep, rfl⟩

theorem functor_steps {f : Functor} {rest : List (Nat × Task)} {w : WriteResult}
    (hk : s.accepted k = some r) (hc : Course (s.view k) r st)
    (hq : s.pendingFunctors r.loop = (k, .own f) :: rest) (hf : f ≠ .connectDestroyed)
    (hallowed : FunctorAllowed (s.pendingFunctors r.loop)) :
    Yields (fun s' => ∃ c, (r.conn.Keeps False False c ∨ f = .forceCloseInLoop ∧ r.conn.Falls c) ∧
        s' = record { s with pendingFunctors := Function.update s.pendingFunctors r.loop rest }
          r.loop k r [] c)
      (· = Fault.lengthError) (s.step (.functor r.loop w)) := by
  rw [hq] at hallowed
  have hk' : accepted { s with pendingFunctors := Function.update s.pendingFunctors r.loop rest } k =
      some r := hk
  simp only [step, hq, runFunctor_own hk' hf]
  exact (TcpConnection.functor_keeps hc.conn.sound hf hallowed).bind fun c hkeep => ⟨c, hkeep, rfl⟩

/-- A task that moves its connection on, and leaves it in a stage of its own. -/
theorem pop_record {t : Task} {rest : List (Nat × Task)}
    (hq : s.pendingFunctors l = (k, t) :: rest) (hp : c.pendingFunctors = [])
    (hcb : c.log.closeCallbacks = r.conn.log.closeCallbacks) {hist : List (Milestone × LoopId)}
    (hhist : hist = r.history ++ ms ++ if c.log.downs = r.conn.log.downs then [] else [(.down, l)])
    (hc : Course ((s.view k).pop l (tagged k rest))
      { r with conn := { c with pendingFunctors := [] }, history := hist } st) :
    Touches s (record { s with pendingFunctors := Function.update s.pendingFunctors l rest } l k r ms c)
      k r { r with conn := { c with pendingFunctors := [] }, history := hist } st := by
  subst hhist
  refine ⟨rfl, rfl, rfl, rfl, ⟨rfl, rfl⟩, fun _ _ => id,
    fun k' hne => (view_record_quiet hp hcb).trans (view_pop_ne hq hne), ?_⟩
  rw [view_record_quiet hp hcb, (view_pop_self hq).2]
  exact hc

theorem established_suits {destroyed : Bool} (hc : Suits c (.accepted destroyed)) : ∃ c',
    c.connectEstablished = .ok c' ∧ c'.pendingFunctors = [] ∧ c'.state = .kConnected ∧
      c'.log.closeCallbacks = c.log.closeCallbacks ∧
      Suits { c' with pendingFunctors := [] } (.up destroyed) := by
  obtain ⟨c', heq, hs, hst, hr, hp, hups, hdowns, hcb⟩ :=
    TcpConnection.connectEstablished_rises hc.sound hc.state
  refine ⟨c', heq, hp.trans hc.drained, hst, hcb, ⟨⟨hs.input, hs.output, hs.channel⟩, rfl, .inl hst,
    ?_, hdowns.trans hc.downs, fun _ => hr⟩⟩
  exact hups.trans (congrArg (· + 1) hc.ups)

/-- `connectEstablished` in the loop of its connection. -/
theorem establish_steps {rest : List (Nat × Task)} {w : WriteResult}
    (hk : s.accepted k = some r) (hc : Course (s.view k) r st)
    (hq : s.pendingFunctors l = (k, .connectEstablished) :: rest) :
    ∃ destroyed s' r', st = .accepted destroyed ∧ s.step (.functor l w) = .ok s' ∧
      s'.connections = s.connections ∧ r'.conn.state = .kConnected ∧
      Touches s s' k r r' (.up destroyed) := by
  obtain ⟨destroyed, rfl, rfl, hnext⟩ := hc.establish (view_pop_self hq).1
  obtain ⟨c, heq, hp, hst, hcb, hsuits⟩ := established_suits hc.conn
  have hk' : accepted { s with pendingFunctors := Function.update s.pendingFunctors r.loop rest } k =
      some r := hk
  have htouch := pop_record hq hp hcb rfl (hnext _ (r.history ++ [(.connectEstablished, r.loop)] ++
    if c.log.downs = r.conn.log.downs then [] else [(.down, r.loop)]) hsuits)
  have hstep : s.step (.functor r.loop w) = .ok (record
      { s with pendingFunctors := Function.update s.pendingFunctors r.loop rest } r.loop k r
        [(.connectEstablished, r.loop)] c) := by
    simp only [step, hq, runFunctor, connectEstablished, onConnection_eq hk', heq, ok_bind]
  exact ⟨destroyed, _, _, rfl, hstep, rfl, hst, htouch⟩

/-- What `connectDestroyed` leaves of a connection. -/
structure Perished (c c' : TcpConnection) : Prop where
  drained : c'.pendingFunctors = []
  closeCallbacks : c'.log.closeCallbacks = c.log.closeCallbacks
  suits : Suits { c' with pendingFunctors := [] } (.down false)

theorem open_perished {destroyed : Bool} (hc : Suits c (.up destroyed)) (hst : c.state = .kConnected) :
    ∃ c', c.connectDestroyed = .ok c' ∧ Perished c c' := by
  obtain ⟨c', heq, hs, hdown, hp, hups, hdowns, hcb⟩ := TcpConnection.connectDestroyed_open hc.sound hst
  refine ⟨c', heq, hp.trans hc.drained, hcb, ⟨hs.input, hs.output, hs.channel⟩, rfl, hdown,
    hups.trans hc.ups, ?_, nofun⟩
  exact hdowns.trans (congrArg (· + 1) hc.downs)

theorem down_perished {destroyed : Bool} {c' : TcpConnection} (hc : Suits c (.down destroyed))
    (h : c.connectDestroyed = .ok c') : Perished c c' := by
  obtain ⟨hs, hdown, hp, hlog⟩ := TcpConnection.connectDestroyed_down hc.sound hc.state h
  refine ⟨hp.trans hc.drained, by rw [hlog], ⟨hs.input, hs.output, hs.channel⟩, rfl, hdown, ?_, ?_,
    nofun⟩
  · change c'.log.ups = _
    rw [hlog]
    exact hc.ups
  · change c'.log.downs = _
    rw [hlog]
    exact hc.downs

/-- `connectDestroyed` in the loop of its connection. -/
theorem destroy_steps {rest : List (Nat × Task)} {w : WriteResult}
    (hk : s.accepted k = some r) (hc : Course (s.view k) r st)
    (hq : s.pendingFunctors l = (k, .own .connectDestroyed) :: rest)
    (hdone : r.conn.connectDestroyed = .ok c) (hperish : Perished r.conn c) :
    ∃ s' r', s.step (.functor l w) = .ok s' ∧ s'.connections = s.connections ∧
      Touches s s' k r r' (.down false) := by
  obtain ⟨-, rfl, hnext⟩ := hc.destroy (view_pop_self hq).1
  have hk' : accepted { s with pendingFunctors := Function.update s.pendingFunctors r.loop rest } k =
      some r := hk
  have htouch := pop_record hq hperish.drained hperish.closeCallbacks rfl
    (hnext _ (r.history ++ [(.connectDestroyed, r.loop)] ++
      if c.log.downs = r.conn.log.downs then [] else [(.down, r.loop)]) hperish.suits)
  refine ⟨record { s with pendingFunctors := Function.update s.pendingFunctors r.loop rest } r.loop k
    r [(.connectDestroyed, r.loop)] c, _, ?_, rfl, htouch⟩
  simp only [step, hq, runFunctor, onConnection_eq hk', hdone, ok_bind]

theorem destroy_ran {rest : List (Nat × Task)} {w : WriteResult} (hk : s.accepted k = some r)
    (hq : s.pendingFunctors r.loop = (k, .own .connectDestroyed) :: rest)
    (hok : s.step (.functor r.loop w) = .ok s') : ∃ c, r.conn.connectDestroyed = .ok c := by
  have hk' : accepted { s with pendingFunctors := Function.update s.pendingFunctors r.loop rest } k =
      some r := hk
  simp only [step, hq, runFunctor, onConnection_eq hk'] at hok
  obtain ⟨c, hdone, -⟩ := bind_ok hok
  exact ⟨c, hdone⟩

end Muduo.Net.TcpServer
